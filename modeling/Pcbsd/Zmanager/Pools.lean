import Pcbsd.Zmanager.Device

/-! The pools that pc-zmanager finds in the listing of `zpool status`: the part of
ZManagerWindow::GetCurrentTopology in zmanagerwindow.cpp that goes over it line by line. -/

namespace Pcbsd.Zmanager
open Lib Text

def poolKey : Bytes := ascii [' ', ' ', 'p', 'o', 'o', 'l', ':', ' ']
def stateKey : Bytes := ascii [' ', 's', 't', 'a', 't', 'e', ':', ' ']
def statusKey : Bytes := ascii ['s', 't', 'a', 't', 'u', 's', ':', ' ']
def errorsKey : Bytes := ascii ['e', 'r', 'r', 'o', 'r', 's', ':', ' ']
def tab : Bytes := [0x09]
def logs : Bytes := ascii ['l', 'o', 'g', 's']
def spares : Bytes := ascii ['s', 'p', 'a', 'r', 'e', 's']
def cache : Bytes := ascii ['c', 'a', 'c', 'h', 'e']
def mirror : Bytes := ascii ['m', 'i', 'r', 'r', 'o', 'r']
def raidz : Bytes := ascii ['r', 'a', 'i', 'd', 'z']
def raidz2 : Bytes := raidz ++ [0x32]
def raidz3 : Bytes := raidz ++ [0x33]
def striped : Bytes := ascii ['s', 't', 'r', 'i', 'p', 'e', 'd']
def online : Bytes := ascii ['O', 'N', 'L', 'I', 'N', 'E']
def offline : Bytes := ascii ['O', 'F', 'F', 'L', 'I', 'N', 'E']
def degraded : Bytes := ascii ['D', 'E', 'G', 'R', 'A', 'D', 'E', 'D']
def faulted : Bytes := ascii ['F', 'A', 'U', 'L', 'T', 'E', 'D']
def removed : Bytes := ascii ['R', 'E', 'M', 'O', 'V', 'E', 'D']
def unavail : Bytes := ascii ['U', 'N', 'A', 'V', 'A', 'I', 'L']
def avail : Bytes := ascii ['A', 'V', 'A', 'I', 'L']

/-- zpool_t, without the properties that are read later. -/
structure Zpool where
  name : Bytes := []
  type : Bytes := []
  status : State := .unknown
  vdevs : List Vdev := []
  size : Nat := 0
  free : Nat := 0

structure Zerror where
  poolName : Bytes := []
  error : Bytes := []
  deriving DecidableEq

/-- What the loop over the lines changes: Disks, Pools and Errors, and the variables `pool`, `err` and `state`. -/
structure Topology where
  disks : List Vdev
  pools : List Zpool
  errors : List Zerror
  pool : Zpool
  err : Zerror
  state : Nat

/-- The state of a pool, by the start of the text. Each `if` of the code is tried; the last one that holds counts. -/
def poolState (text : Bytes) : State :=
  if startsWith text unavail then .unavail
  else if startsWith text removed then .removed
  else if startsWith text faulted then .faulted
  else if startsWith text degraded then .degraded
  else if startsWith text offline then .offline
  else if startsWith text online then .online
  else .unknown

def vdevState (text : Bytes) : State :=
  if text = online then .online
  else if text = offline then .offline
  else if text = degraded then .degraded
  else if text = faulted then .faulted
  else if text = removed then .removed
  else if text = unavail then .unavail
  else if text = avail then .avail
  else .unknown

def groupType (name : Bytes) : Bytes :=
  if startsWith name raidz3 then raidz3
  else if startsWith name raidz2 then raidz2
  else if startsWith name raidz then raidz
  else if startsWith name mirror then mirror
  else []

/-- "  pool: ": the pool before is stored. What is left of the line goes through the other tests. -/
def beginPool (s : Topology) (str : Bytes) : Topology × Bytes :=
  if startsWith str poolKey then
    let name := str.drop 8
    let pool := { s.pool with name, size := 0, free := 0, status := .unknown, vdevs := [], type := [] }
    (⟨s.disks, if s.state ≠ 0 then s.pools ++ [s.pool] else s.pools, s.errors, pool, s.err, 1⟩, name)
  else (s, str)

def readState (s : Topology) (str line : Bytes) : Topology :=
  if startsWith str stateKey ∧ s.state = 1 then
    { s with pool := { s.pool with status := poolState (line.drop 8) }, state := 2 }
  else s

def readStatus (s : Topology) (str line : Bytes) : Topology :=
  if startsWith str statusKey ∧ s.state = 2 then { s with err := ⟨s.pool.name, line.drop 8⟩, state := 3 }
  else if s.state = 3 then
    if startsWith str tab then { s with err := { s.err with error := s.err.error ++ 0x20 :: line.drop 1 } }
    else { s with errors := s.errors ++ [s.err], state := 4 }
  else s

/-- The line of the pool itself begins the list of its devices. -/
def beginVdevs (s : Topology) (str : Bytes) : Topology :=
  if startsWith str (tab ++ s.pool.name) ∧ (s.state = 2 ∨ s.state = 4) then { s with state := 5 } else s

/-- "logs", "spares" and "cache". -/
def readSection (title : Bytes) (s : Topology) (str : Bytes) : Topology :=
  if startsWith str (tab ++ title) ∧ s.state = 5 then
    let vdev : Vdev := { name := title, partType := title, level := 0, status := .notApplicable, inPool := s.pool.name }
    { s with pool := { s.pool with vdevs := s.pool.vdevs ++ [vdev] } }
  else s

def appendToLast (vdevs : List Vdev) (vdev : Vdev) : List Vdev :=
  match vdevs.getLast? with
  | none => []
  | some last => vdevs.dropLast ++ [{ last with partitions := last.partitions ++ [vdev] }]

/-- The level of a device, by its indentation or because it stands in a special group. -/
def vdevLevel (vdevs : List Vdev) (text : Bytes) : Nat :=
  if startsWith text (blanks 2) then 1
  else if vdevs.getLast?.any fun last => last.partType = logs ∨ last.partType = cache ∨ last.partType = spares then 1
  else 0

/-- A device with a name goes into the pool, and the disk of that name belongs to the pool. -/
def addVdev (s : Topology) (name : Bytes) (level : Nat) (status : State) : Topology :=
  let vdev : Vdev := { name, level, status, partType := groupType name, inPool := s.pool.name }
  let vdevs := if level ≠ 0 then appendToLast s.pool.vdevs vdev else s.pool.vdevs ++ [vdev]
  let found := changeDiskbyName (fun dsk => { dsk with inPool := s.pool.name }) s.disks name
  let type := if found.isSome ∧ level = 0 then striped else s.pool.type
  let type := if type = [] ∧ vdev.partType ≠ [] then vdev.partType else type
  { s with disks := found.getD s.disks, pool := { s.pool with vdevs, type } }

/-- A line of the list: the name and the state are its first two words. A device in a state that is not known is left
out. -/
def readVdev (s : Topology) (str line : Bytes) : Topology :=
  if startsWith str (tab ++ blanks 2) ∧ s.state = 5 then
    let text := line.drop 3
    match tokens text with
    | [] => s
    | [_] => s
    | name :: state :: _ =>
      if vdevState state = .unknown then s
      else addVdev s name (vdevLevel s.pool.vdevs text) (vdevState state)
  else s

def readErrors (s : Topology) (str : Bytes) : Topology :=
  if startsWith str errorsKey ∧ s.state = 5 then { s with state := 6 } else s

def poolLine (s : Topology) (line : Bytes) : Topology :=
  let (s, str) := beginPool s line
  let s := readState s str line
  let s := readStatus s str line
  let s := beginVdevs s str
  let s := readSection logs s str
  let s := readSection spares s str
  let s := readSection cache s str
  let s := readVdev s str line
  readErrors s str

/-- The loop over the listing, after the disks were found, and the pool that is stored at its end. -/
def readPools (disks : List Vdev) (lines : List Bytes) : Topology :=
  let s := lines.foldl poolLine ⟨disks, [], [], {}, {}, 0⟩
  if s.state ≠ 0 then { s with pools := s.pools ++ [s.pool], state := 0 } else s

end Pcbsd.Zmanager
