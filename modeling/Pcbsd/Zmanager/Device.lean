import Pcbsd.Lib.Text

/-! The devices of pc-zmanager, zmanagerwindow.h: disks, slices and partitions, and the members of
pools. Text is taken as its bytes. -/

namespace Pcbsd.Zmanager
open Lib

inductive State where
  | unknown
  | notApplicable
  | online
  | offline
  | degraded
  | faulted
  | removed
  | unavail
  | avail
  deriving DecidableEq

/-- vdev_t, without the label and the mount point that are read later. A field that the code leaves alone in a new one
keeps the value given here. -/
structure Vdev where
  name : Bytes := []
  description : Bytes := []
  level : Nat := 0
  index : Int := 0
  status : State := .unknown
  partType : Bytes := []
  inPool : Bytes := []
  sectorSize : Int := 0
  sectorStart : Nat := 0
  sectorsCount : Nat := 0
  size : Nat := 0
  partitions : List Vdev := []

/-- The device of a name, or else the first one inside of it, `depth` levels down. -/
def Vdev.named (name : Bytes) : Nat → Vdev → Option Vdev
  | 0, v => if v.name = name then some v else none
  | depth + 1, v => if v.name = name then some v else v.partitions.findSome? (Vdev.named name depth)

/-- getDiskbyName: disks, slices, and partitions of slices are searched. -/
def getDiskbyName (disks : List Vdev) (name : Bytes) : Option Vdev := disks.findSome? (Vdev.named name 2)

/-- The list with one element changed, the first that `change` accepts. -/
def changeFirst {α : Type} (change : α → Option α) : List α → Option (List α)
  | [] => none
  | a :: l =>
    match change a with
    | some b => some (b :: l)
    | none => (changeFirst change l).map (a :: ·)

def Vdev.changeNamed (change : Vdev → Vdev) (name : Bytes) : Nat → Vdev → Option Vdev
  | 0, v => if v.name = name then some (change v) else none
  | depth + 1, v =>
    if v.name = name then some (change v)
    else (changeFirst (Vdev.changeNamed change name depth) v.partitions).map fun partitions => { v with partitions }

/-- The disks after a change through the pointer that getDiskbyName gives; `none` when it gives none. -/
def changeDiskbyName (change : Vdev → Vdev) (disks : List Vdev) (name : Bytes) : Option (List Vdev) :=
  changeFirst (Vdev.changeNamed change name 2) disks

end Pcbsd.Zmanager
