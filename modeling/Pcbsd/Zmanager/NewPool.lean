import Pcbsd.Zmanager.Pools

/-! What ZManagerWindow::GetCurrentTopology takes from the lines of `zpool import` about a pool itself, and which
devices DialogNewPool::setDevices in dialognewpool.cpp offers for a new pool. -/

namespace Pcbsd.Zmanager
open Lib Text

def importKey : Bytes := ascii [' ', ' ', ' ', 'p', 'o', 'o', 'l', ':', ' ']
def idKey : Bytes := ascii [' ', ' ', ' ', ' ', ' ', 'i', 'd', ':', ' ']
def importStateKey : Bytes := ascii [' ', ' ', 's', 't', 'a', 't', 'e', ':', ' ']

def beginImport (s : Topology) (str : Bytes) : Topology × Bytes :=
  if startsWith str importKey then
    let name := str.drop 9
    let pool := { s.pool with name, size := 0, free := 0, status := .unknown, vdevs := [], type := [] }
    (⟨s.disks, if s.state ≠ 0 then s.pools ++ [s.pool] else s.pools, s.errors, pool, s.err, 1⟩, name)
  else (s, str)

def readId (s : Topology) (str line : Bytes) : Topology :=
  if startsWith str idKey ∧ s.state = 1 then { s with pool := { s.pool with type := line.drop 9 } } else s

/-- The flag STATE_EXPORTED is left out. -/
def readImportState (s : Topology) (str line : Bytes) : Topology :=
  if startsWith str importStateKey ∧ s.state = 1 then
    { s with pool := { s.pool with status := poolState (line.drop 9) }, state := 2 }
  else s

def freebsdZfs : Bytes := ascii ['f', 'r', 'e', 'e', 'b', 's', 'd', '-', 'z', 'f', 's']

/-- Whether a device without partitions gets an item: "AN EMPTY ZFS PARTITION" or "AN EMPTY DISK". -/
def Vdev.listed (v : Vdev) : Bool :=
  (v.partType == freebsdZfs && v.inPool == []) || (v.partType == [] && v.inPool == [] && v.size != 0)

end Pcbsd.Zmanager
