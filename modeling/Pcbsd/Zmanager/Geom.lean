import Pcbsd.Zmanager.Device

/-! The disks and partitions that pc-zmanager finds in the listings of `geom disk list` and
`gpart list`: the first part of ZManagerWindow::GetCurrentTopology in zmanagerwindow.cpp. QString's
remove shortens the line, and the tests behind it see what is left. -/

namespace Pcbsd.Zmanager
open Lib Text

def geomKey : Bytes := ascii ['G', 'e', 'o', 'm', ' ', 'n', 'a', 'm', 'e', ':', ' ']
def mediasizeKey : Bytes := ascii [' ', ' ', ' ', 'M', 'e', 'd', 'i', 'a', 's', 'i', 'z', 'e', ':', ' ']
def sectorsizeKey : Bytes := ascii [' ', ' ', ' ', 'S', 'e', 'c', 't', 'o', 'r', 's', 'i', 'z', 'e', ':', ' ']
def descrKey : Bytes := ascii [' ', ' ', ' ', 'd', 'e', 's', 'c', 'r', ':', ' ']
def schemeKey : Bytes := ascii ['s', 'c', 'h', 'e', 'm', 'e', ':', ' ']
def providersKey : Bytes := ascii ['P', 'r', 'o', 'v', 'i', 'd', 'e', 'r', 's', ':']
def nameKey : Bytes := ascii ['.', ' ', 'N', 'a', 'm', 'e', ':', ' ']
def typeKey : Bytes := ascii [' ', ' ', ' ', 't', 'y', 'p', 'e', ':', ' ']
def indexKey : Bytes := ascii [' ', ' ', ' ', 'i', 'n', 'd', 'e', 'x', ':', ' ']
def endKey : Bytes := ascii [' ', ' ', ' ', 'e', 'n', 'd', ':', ' ']
def startKey : Bytes := ascii [' ', ' ', ' ', 's', 't', 'a', 'r', 't', ':', ' ']
def consumersKey : Bytes := ascii ['C', 'o', 'n', 's', 'u', 'm', 'e', 'r', 's', ':']

/-- The number in front of the size in words; a size without a number is left as it is. -/
def mediasize (text : Bytes) (size : Nat) : Nat :=
  match tokens text with
  | [] => size
  | number :: _ => toULongLong number

structure GeomReader where
  disks : List Vdev
  dsk : Vdev
  part : Vdev
  state : Int

/-- "Geom name: " in the list of disks: the disk before is stored. -/
def diskGeom (s : GeomReader) (str : Bytes) : GeomReader × Bytes :=
  if startsWith str geomKey then
    let name := str.drop 11
    (⟨if s.state ≠ 0 then s.disks ++ [s.dsk] else s.disks, { name }, s.part, 1⟩, name)
  else (s, str)

def diskMediasize (s : GeomReader) (str : Bytes) : GeomReader × Bytes :=
  if startsWith str mediasizeKey ∧ s.state = 1 then
    let text := str.drop 14
    ({ s with dsk := { s.dsk with size := mediasize text s.dsk.size }, state := 2 }, text)
  else (s, str)

def diskSectorsize (s : GeomReader) (str : Bytes) : GeomReader × Bytes :=
  if startsWith str sectorsizeKey ∧ s.state = 2 then
    let text := str.drop 15
    ({ s with dsk := { s.dsk with sectorSize := toInt text }, state := 3 }, text)
  else (s, str)

def diskDescr (s : GeomReader) (str : Bytes) : GeomReader :=
  if startsWith str descrKey ∧ s.state = 3 then
    { s with dsk := { s.dsk with description := str.drop 10 }, state := 4 }
  else s

def diskLineOf (s : GeomReader) (line : Bytes) : GeomReader :=
  let (s, str) := diskGeom s line
  let (s, str) := diskMediasize s str
  let (s, str) := diskSectorsize s str
  diskDescr s str

/-- The loop over `geom disk list`, and the disk that is stored at its end. -/
def readDiskList (lines : List Bytes) : GeomReader :=
  let s := lines.foldl diskLineOf ⟨[], {}, {}, 0⟩
  if s.state = 4 then { s with disks := s.disks ++ [s.dsk] } else s

/-- The geom's scheme and partitions, given to a device of its name. -/
def giveParts (dsk v : Vdev) : Vdev := { v with partType := dsk.partType, partitions := dsk.partitions }

/-- The slice of the geom's name among the partitions of a disk. -/
def attachSlice (dsk : Vdev) : List Vdev → List Vdev
  | [] => []
  | part :: parts => if part.name = dsk.name then giveParts dsk part :: parts else part :: attachSlice dsk parts

/-- "APPEND SLICES AND PARTITIONS": the disk of the geom's name ends the search; the slices of disks whose name the
geom's name starts with are searched on the way. -/
def attach (dsk : Vdev) : List Vdev → List Vdev
  | [] => []
  | disk :: disks =>
    if disk.name = dsk.name then giveParts dsk disk :: disks
    else if startsWith dsk.name disk.name then { disk with partitions := attachSlice dsk disk.partitions } :: attach dsk disks
    else disk :: attach dsk disks

/-- "DETERMINE IF THE GEOM IS A DISK OR A SLICE" -/
def geomLevel (name : Bytes) : List Vdev → Nat
  | [] => 0
  | disk :: disks => if disk.name = name then 0 else if startsWith name disk.name then 1 else geomLevel name disks

/-- Sorted by the start: in front of the first partition that starts later. -/
def insertPart (part : Vdev) : List Vdev → List Vdev
  | [] => [part]
  | other :: parts => if part.sectorStart < other.sectorStart then part :: other :: parts else other :: insertPart part parts

def partGeom (s : GeomReader) (str : Bytes) : GeomReader × Bytes :=
  if startsWith str geomKey then
    let disks := if s.state ≠ 0 then attach s.dsk s.disks else s.disks
    let name := str.drop 11
    (⟨disks, { name, level := geomLevel name disks, inPool := s.dsk.inPool }, s.part, 1⟩, name)
  else (s, str)

def partScheme (s : GeomReader) (str : Bytes) : GeomReader × Bytes :=
  if startsWith str schemeKey ∧ s.state = 1 then
    let text := str.drop 8
    ({ s with dsk := { s.dsk with partType := text }, state := 2 }, text)
  else (s, str)

def partProviders (s : GeomReader) (str : Bytes) : GeomReader :=
  if startsWith str providersKey ∧ s.state = 2 then { s with state := 3 } else s

/-- ". Name: " somewhere in the line: the partition before is inserted. What is taken off the line are nine
characters. -/
def partName (s : GeomReader) (str : Bytes) : GeomReader × Bytes :=
  if contains str nameKey ∧ 3 ≤ s.state then
    let dsk := if 3 < s.state then { s.dsk with partitions := insertPart s.part s.dsk.partitions } else s.dsk
    let name := str.drop 9
    (⟨s.disks, dsk, { name, level := dsk.level + 1 }, 4⟩, name)
  else (s, str)

def partMediasize (s : GeomReader) (str : Bytes) : GeomReader × Bytes :=
  if startsWith str mediasizeKey ∧ s.state = 4 then
    let text := str.drop 14
    ({ s with part := { s.part with size := mediasize text s.part.size }, state := 5 }, text)
  else (s, str)

/-- A field of a partition with a key of its own, in the state that it belongs to. -/
def partField (key : Bytes) (state : Int) (set : Bytes → Vdev → Vdev) (s : GeomReader) (str : Bytes) : GeomReader × Bytes :=
  if startsWith str key ∧ s.state = state then
    let text := str.drop key.length
    ({ s with part := set text s.part, state := state + 1 }, text)
  else (s, str)

def partSectorsize := partField sectorsizeKey 5 fun text part => { part with sectorSize := toInt text }
def partType := partField typeKey 6 fun text part => { part with partType := text }
def partIndex := partField indexKey 7 fun text part => { part with index := toInt text }
def partEnd := partField endKey 8 fun text part => { part with sectorsCount := toULongLong text }

def partStart := partField startKey 9 fun text part =>
  { part with
    sectorStart := toULongLong text
    sectorsCount := (part.sectorsCount + 2 ^ 64 - (toULongLong text + (2 ^ 64 - 1)) % 2 ^ 64) % 2 ^ 64 }

def partConsumers (s : GeomReader) (str : Bytes) : GeomReader :=
  if startsWith str consumersKey ∧ s.state = 10 then
    { s with dsk := { s.dsk with partitions := insertPart s.part s.dsk.partitions }, state := -1 }
  else s

def partLine (s : GeomReader) (line : Bytes) : GeomReader :=
  let (s, str) := partGeom s line
  let (s, str) := partScheme s str
  let s := partProviders s str
  let (s, str) := partName s str
  let (s, str) := partMediasize s str
  let (s, str) := partSectorsize s str
  let (s, str) := partType s str
  let (s, str) := partIndex s str
  let (s, str) := partEnd s str
  let (s, str) := partStart s str
  partConsumers s str

/-- The loop over `gpart list`, and the geom that is attached at its end. -/
def readPartList (s : GeomReader) (lines : List Bytes) : List Vdev :=
  let s := lines.foldl partLine { s with state := 0 }
  if s.state = 3 ∨ s.state = -1 then attach s.dsk s.disks else s.disks

def readGeoms (diskList partList : List Bytes) : List Vdev := readPartList (readDiskList diskList) partList

end Pcbsd.Zmanager
