import Pcbsd.Zmanager.DatasetTree
import Pcbsd.Zmanager.Geom
import Pcbsd.Zmanager.NewPool
import Pcbsd.Zmanager.PoolTree

/-! ZManagerWindow::GetCurrentTopology in zmanagerwindow.cpp as a whole, with each access to a list as it is made
there: `none` is an access outside of the list. -/

namespace Pcbsd.Zmanager.CurrentTopology
open Lib Text
open DatasetTree (Source Zfs Zprop)

/-- What the commands print, under the names of the code. `prop` is that of `zpool get all`. -/
structure Outputs where
  a : List Bytes := []
  i : List Bytes := []
  d : List Bytes := []
  g : List Bytes := []
  h : List Bytes := []
  h2 : List Bytes := []
  lbl : List Bytes := []
  m : List Bytes := []
  prop : List Bytes := []
  zfsl : List Bytes := []
  zfspr : List Bytes := []

/-- The iterator is followed before it is compared with the end. -/
def skipEmpty : List Bytes → Option (List Bytes)
  | [] => none
  | piece :: pieces => if piece = [] then skipEmpty pieces else some (piece :: pieces)

def mediasizeAt (text : Bytes) (size : Nat) : Option Nat :=
  (skipEmpty (text.splitOn 0x20)).map fun pieces => pieces.head?.elim size toULongLong

def diskMediasizeAt (s : GeomReader) (str : Bytes) : Option (GeomReader × Bytes) :=
  if startsWith str mediasizeKey ∧ s.state = 1 then
    let text := str.drop 14
    (mediasizeAt text s.dsk.size).map fun size => ({ s with dsk := { s.dsk with size }, state := 2 }, text)
  else some (s, str)

def diskLineAt (s : GeomReader) (line : Bytes) : Option GeomReader :=
  let (s, str) := diskGeom s line
  (diskMediasizeAt s str).map fun read =>
    let (s, str) := diskSectorsize read.1 read.2
    diskDescr s str

def partMediasizeAt (s : GeomReader) (str : Bytes) : Option (GeomReader × Bytes) :=
  if startsWith str mediasizeKey ∧ s.state = 4 then
    let text := str.drop 14
    (mediasizeAt text s.part.size).map fun size => ({ s with part := { s.part with size }, state := 5 }, text)
  else some (s, str)

def partLineAt (s : GeomReader) (line : Bytes) : Option GeomReader :=
  let (s, str) := partGeom s line
  let (s, str) := partScheme s str
  let s := partProviders s str
  let (s, str) := partName s str
  (partMediasizeAt s str).map fun read =>
    let (s, str) := partSectorsize read.1 read.2
    let (s, str) := partType s str
    let (s, str) := partIndex s str
    let (s, str) := partEnd s str
    let (s, str) := partStart s str
    partConsumers s str

def readGeomsAt (g h : List Bytes) : Option (List Vdev) :=
  (g.foldlM diskLineAt ⟨[], {}, {}, 0⟩).bind fun s =>
    let s := if s.state = 4 then { s with disks := s.disks ++ [s.dsk] } else s
    (h.foldlM partLineAt { s with state := 0 }).map fun s =>
      if s.state = 3 ∨ s.state = -1 then attach s.dsk s.disks else s.disks

def mainMark : Bytes := [0x3d, 0x3e]

/-- What a line of `gpart show -p` says of a device, without the "=>" in front of a disk itself. -/
def setSectors (disks : List Vdev) (mainitem : Bool) (words : List Bytes) : Option (List Vdev) :=
  words[2]?.bind fun name =>
    (getDiskbyName disks name).elim (some disks) fun existDisk =>
      (if !mainitem || existDisk.sectorStart == 0 then words[0]?.map toULongLong else some existDisk.sectorStart).bind
        fun sectorStart =>
        words[1]?.bind fun count => words[3]?.map fun partType =>
          let change (dsk : Vdev) : Vdev := { dsk with sectorStart, sectorsCount := toULongLong count, partType }
          (changeDiskbyName change disks name).getD disks

def showLine (disks : List Vdev) (line : Bytes) : Option (List Vdev) :=
  let words := tokens line
  if 4 ≤ words.length then
    words[0]?.bind fun first => if first = mainMark then setSectors disks true (words.eraseIdx 0)
      else setSectors disks false words
  else some disks

/-- What `glabel status` and `mount` have to do with of a device, and the Alias and MountPoint that they give it. -/
structure Label where
  name : Bytes
  aliasName : Bytes := []
  mountPoint : Bytes := []

structure Labelled (α : Type) where
  label : Label
  partitions : List α

abbrev LabelledDisk : Type := Labelled (Labelled Label)

def partLabel (v : Vdev) : Label := { name := v.name }
def sliceLabel (v : Vdev) : Labelled Label := ⟨partLabel v, v.partitions.map partLabel⟩
def diskLabel (v : Vdev) : LabelledDisk := ⟨partLabel v, v.partitions.map sliceLabel⟩

/-- A loop over devices that ends at the first one that `look` changes. -/
def changeList {β : Type} (look : β → Option (Option β)) : List β → Option (Option (List β))
  | [] => some none
  | b :: l => (look b).bind fun found => found.elim ((changeList look l).map (Option.map (b :: ·))) fun b => some (some (b :: l))

/-- What is inside of a device comes first, then the device. -/
def lookInside {α : Type} (look : α → Option (Option α)) (hit : Label → Option (Option Label)) (device : Labelled α) :
    Option (Option (Labelled α)) :=
  (changeList look device.partitions).bind fun found =>
    found.elim ((hit device.label).map (Option.map fun label => { device with label })) fun partitions =>
      some (some { device with partitions })

def changeDisks (hit : Label → Option (Option Label)) (disks : List LabelledDisk) : Option (List LabelledDisk) :=
  (changeList (lookInside (lookInside hit hit) hit) disks).map fun found => found.getD disks

def labelHit (words : List Bytes) (v : Label) : Option (Option Label) :=
  words[2]?.bind fun name => if name = v.name then words[0]?.map fun aliasName => some { v with aliasName } else some none

def labelLine (disks : List LabelledDisk) (line : Bytes) : Option (List LabelledDisk) :=
  let words := tokens line
  if 2 ≤ words.length then changeDisks (labelHit words) disks else some disks

def dev : Bytes := ascii ['/', 'd', 'e', 'v', '/']

def mountHit (words : List Bytes) (mountPoint : Bytes) (v : Label) : Option (Option Label) :=
  words[0]?.bind fun device =>
    if device = dev ++ v.name then some (some { v with mountPoint })
    else if v.aliasName ≠ [] then
      words[0]?.map fun device => if device = dev ++ v.aliasName then some { v with mountPoint } else none
    else some none

def indexOf (str part : Bytes) : Int := if contains str part then str.tails.findIdx (startsWith · part) else -1

def lastIndexOf (str part : Bytes) : Int :=
  if contains str part then str.length - str.tails.reverse.findIdx (startsWith · part) else -1

def mid (str : Bytes) (position n : Int) : Bytes :=
  let rest := str.drop position.toNat
  if n < 0 then rest else rest.take n.toNat

/-- A line of `mount`: the third word is asked for before the words are counted. -/
def mountLine (disks : List LabelledDisk) (line : Bytes) : Option (List LabelledDisk) :=
  let words := tokens line
  words[2]?.bind fun type =>
    let startpos := indexOf line (0x20 :: type ++ [0x20])
    let endpos := lastIndexOf line [0x20, 0x28]
    let mountString := mid line (startpos + 1) (endpos - startpos)
    if words.length < 3 then some disks else changeDisks (mountHit words mountString) disks

/-- The first two words of a line, by an iterator; the status is that of the second one. -/
def deviceWords (words : List Bytes) : Option (Option (Bytes × State)) :=
  if 0 < words.length then
    words[0]?.bind fun name =>
      (if words.length ≠ 1 then words[1]?.map vdevState else some .unknown).map fun status => some (name, status)
  else some none

def vdevLevelAt (vdevs : List Vdev) (text : Bytes) : Option Nat :=
  if startsWith text (blanks 2) then some 1
  else if 0 < vdevs.length then
    vdevs.getLast?.map fun last => if last.partType = logs ∨ last.partType = cache ∨ last.partType = spares then 1 else 0
  else some 0

def appendToLastAt (vdevs : List Vdev) (vdev : Vdev) : Option (List Vdev) :=
  vdevs.getLast?.map fun last => vdevs.dropLast ++ [{ last with partitions := last.partitions ++ [vdev] }]

/-- if(vdev.Level) pool.VDevs.last().Partitions.append(vdev); else pool.VDevs.append(vdev); -/
def appendAt (vdevs : List Vdev) (level : Nat) (vdev : Vdev) : Option (List Vdev) :=
  if level ≠ 0 then appendToLastAt vdevs vdev else some (vdevs ++ [vdev])

/-- A line of the list of devices. A device in a state that is not known loses its name, and one without a name is
left out. -/
def deviceLineAt (add : Topology → Bytes → Nat → State → Option Topology) (s : Topology) (str line : Bytes) : Option Topology :=
  if startsWith str (tab ++ blanks 2) ∧ s.state = 5 then
    let text := line.drop 3
    (vdevLevelAt s.pool.vdevs text).bind fun level =>
      (deviceWords (tokens text)).bind fun device =>
        device.elim (some s) fun device => if device.2 = .unknown then some s else add s device.1 level device.2
  else some s

def addVdevAt (s : Topology) (name : Bytes) (level : Nat) (status : State) : Option Topology :=
  let vdev : Vdev := { name, level, status, partType := groupType name, inPool := s.pool.name }
  (appendAt s.pool.vdevs level vdev).map fun vdevs =>
    let found := changeDiskbyName (fun dsk => { dsk with inPool := s.pool.name }) s.disks name
    let type := if found.isSome ∧ level = 0 then striped else s.pool.type
    let type := if type = [] ∧ vdev.partType ≠ [] then vdev.partType else type
    { s with disks := found.getD s.disks, pool := { s.pool with vdevs, type } }

def poolLineAt (s : Topology) (line : Bytes) : Option Topology :=
  let (s, str) := beginPool s line
  let s := readState s str line
  let s := readStatus s str line
  let s := beginVdevs s str
  let s := readSection logs s str
  let s := readSection spares s str
  let s := readSection cache s str
  (deviceLineAt addVdevAt s str line).map fun s => readErrors s str

def addImportedAt (s : Topology) (name : Bytes) (level : Nat) (status : State) : Option Topology :=
  let vdev : Vdev := { name, level, status, partType := groupType name, inPool := s.pool.name }
  (appendAt s.pool.vdevs level vdev).map fun vdevs =>
    let found := changeDiskbyName (fun dsk => { dsk with inPool := s.pool.name }) s.disks name
    { s with disks := found.getD s.disks, pool := { s.pool with vdevs } }

/-- A device of a destroyed pool: it is not said to be in the pool, and no disk is. -/
def addDestroyedAt (s : Topology) (name : Bytes) (level : Nat) (status : State) : Option Topology :=
  let vdev : Vdev := { name, level, status, partType := groupType name }
  (appendAt s.pool.vdevs level vdev).map fun vdevs => { s with pool := { s.pool with vdevs } }

def destroyedSection (title : Bytes) (s : Topology) (str : Bytes) : Topology :=
  if startsWith str (tab ++ title) ∧ s.state = 5 then
    let vdev : Vdev := { name := title, partType := title, level := 0, status := .notApplicable }
    { s with pool := { s.pool with vdevs := s.pool.vdevs ++ [vdev] } }
  else s

/-- The loops over the pools that are not active keep the flags of `pool`, too. Pools, with the flags, is `pools`; the
list in `topology` stays empty. -/
structure Gathered where
  topology : Topology
  exported : Bool
  destroyed : Bool
  pools : List PoolTree.PoolEntry

def Gathered.pool (s : Gathered) : PoolTree.PoolEntry :=
  { s.topology.pool with exported := s.exported, destroyed := s.destroyed }

def recoverable (pool : PoolTree.PoolEntry) : Bool := !(pool.status = .faulted && pool.destroyed && !pool.exported)

/-- The pool is stored, unless it is one that is not kept. -/
def Gathered.store (s : Gathered) (keep : PoolTree.PoolEntry → Bool) : Gathered :=
  if keep s.pool then { s with pools := s.pools ++ [s.pool] } else s

/-- The start of a pool that is not active. What is left of the line goes through the other tests. -/
def Gathered.startPool (s : Gathered) (keep : PoolTree.PoolEntry → Bool) (line : Bytes) : Gathered × Bytes :=
  if startsWith line importKey then
    let s := if s.topology.state ≠ 0 then s.store keep else s
    let (topology, str) := beginImport { s.topology with state := 0 } line
    ({ s with topology, exported := false, destroyed := false }, str)
  else (s, line)

def Gathered.markExported (s : Gathered) : Gathered := { s with exported := true }
def Gathered.markDestroyed (s : Gathered) : Gathered := { s with destroyed := true }

/-- "  state: " sets the status and a flag. -/
def Gathered.flagged (s : Gathered) (mark : Gathered → Gathered) (str : Bytes) : Gathered :=
  if startsWith str importStateKey ∧ s.topology.state = 1 then mark s else s

def importLineAt (s : Gathered) (line : Bytes) : Option Gathered :=
  let (s, str) := s.startPool (fun _ => true) line
  let s := s.flagged Gathered.markExported str
  let t := readId s.topology str line
  let t := readImportState t str line
  let t := beginVdevs t str
  let t := readSection logs t str
  let t := readSection spares t str
  let t := readSection cache t str
  (deviceLineAt addImportedAt t str line).map fun t => { s with topology := readErrors t str }

def destroyedLineAt (s : Gathered) (line : Bytes) : Option Gathered :=
  let (s, str) := s.startPool recoverable line
  let s := s.flagged Gathered.markDestroyed str
  let t := readId s.topology str line
  let t := readImportState t str line
  let t := beginVdevs t str
  let t := destroyedSection logs t str
  let t := destroyedSection spares t str
  let t := destroyedSection cache t str
  (deviceLineAt addDestroyedAt t str line).map fun t => { s with topology := readErrors t str }

def readPoolsAt (disks : List Vdev) (a : List Bytes) : Option Topology :=
  (a.foldlM poolLineAt ⟨disks, [], [], {}, {}, 0⟩).map fun s =>
    if s.state ≠ 0 then { s with pools := s.pools ++ [s.pool], state := 0 } else s

/-- Before the loops over the pools that are not active; `pool` is still the one of the loop before. -/
def activePools (s : Topology) : Gathered :=
  ⟨{ s with pools := [] }, false, false, s.pools.map fun pool => { pool with }⟩

def readImportsAt (s : Gathered) (i : List Bytes) : Option Gathered :=
  (i.foldlM importLineAt { s with topology := { s.topology with state := 0 } }).map fun s =>
    if s.topology.state ≠ 0 then s.store fun _ => true else s

def readDestroyedAt (s : Gathered) (d : List Bytes) : Option Gathered :=
  (d.foldlM destroyedLineAt { s with topology := { s.topology with state := 0 } }).map fun s =>
    if s.topology.state ≠ 0 then s.store recoverable else s

structure ListedPool extends PoolTree.PoolEntry where
  properties : List Zprop := []

/-- The place of the active pool with the longest name that the line starts with, and the length of the name. The
first one is kept. -/
def matchingPool (line : Bytes) (pools : List ListedPool) : Option Nat × Nat :=
  pools.zipIdx.foldl (fun best entry =>
    if !entry.1.inactive && startsWith line entry.1.name && decide (best.2 < entry.1.name.length) then (some entry.2,
    entry.1.name.length)
    else best) (none, 0)

/-- The words with blanks between them; the first word is looked at where there is one. -/
def joined : List Bytes → Bytes
  | [] => []
  | [word] => word
  | word :: words => word ++ 0x20 :: joined words

def propLine (pools : List ListedPool) (line : Bytes) : Option (List ListedPool) :=
  let (place, matchinglength) := matchingPool line pools
  place.elim (some pools) fun place =>
    let a := tokens (line.drop matchinglength)
    if 2 ≤ a.length then
      a[0]?.map fun name =>
        let val := (a.drop 1).take (a.length - 2)
        pools.modify place fun pool => { pool with properties := pool.properties ++ [{ name, value := joined val }] }
    else some pools

def columns (line : Bytes) : List Bytes := (line.splitOn 0x09).filter (· ≠ [])

def fileSystemLine (fileSystems : List Zfs) (fsit : Bytes) : Option (List Zfs) :=
  let line := columns fsit
  if 4 ≤ line.length then (line)[0]?.map fun fullPath => fileSystems ++ [⟨fullPath, []⟩] else some fileSystems

def dash : Bytes := [0x2d]
def defaultText : Bytes := ascii ['d', 'e', 'f', 'a', 'u', 'l', 't']
def localText : Bytes := ascii ['l', 'o', 'c', 'a', 'l']
def inherited : Bytes := ascii ['i', 'n', 'h', 'e', 'r', 'i', 't', 'e', 'd']

def sourceOf (origin : Bytes) : Option Source :=
  if startsWith origin inherited then some .srcInherit
  else if origin = localText then some .srcLocal
  else if origin = defaultText then some .srcDefault
  else if origin = dash then some .srcNone
  else none

/-- A line of `zfs get`: the property goes to the first file system of the path. -/
def fileSystemProp (fileSystems : List Zfs) (fspr : Bytes) : Option (List Zfs) :=
  let line := columns fspr
  if 4 ≤ line.length then
    (line)[0]?.bind fun path =>
      if fileSystems.any fun fs => fs.fullPath = path then
        (line)[1]?.bind fun name => (line)[2]?.bind fun value => (line)[3]?.map fun origin =>
          let tmp : Zprop := { name, value := if value = dash then [] else value, source := sourceOf origin, origin }
          let add (fs : Zfs) : Option Zfs := if fs.fullPath = path then some { fs with properties := fs.properties ++ [tmp] } else none
          (changeFirst add fileSystems).getD fileSystems
      else some fileSystems
  else some fileSystems

structure Found where
  disks : List Vdev
  labels : List LabelledDisk
  pools : List ListedPool
  errors : List Zerror
  fileSystems : List Zfs

def getCurrentTopology (o : Outputs) : Option Found :=
  (readGeomsAt o.g o.h).bind fun disks =>
  (o.h2.foldlM showLine disks).bind fun disks =>
  (o.lbl.foldlM labelLine (disks.map diskLabel)).bind fun labels =>
  (o.m.foldlM mountLine labels).bind fun labels =>
  (readPoolsAt disks o.a).bind fun active =>
  (readImportsAt (activePools active) o.i).bind fun s =>
  (readDestroyedAt s o.d).bind fun s =>
  (o.prop.foldlM propLine (s.pools.map fun pool => { pool with })).bind fun pools =>
  (o.zfsl.foldlM fileSystemLine []).bind fun fileSystems =>
  (o.zfspr.foldlM fileSystemProp fileSystems).map fun fileSystems =>
    ⟨s.topology.disks, labels, pools, s.topology.errors, fileSystems⟩

end Pcbsd.Zmanager.CurrentTopology
