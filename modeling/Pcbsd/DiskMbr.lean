import Pcbsd.DiskGpt

/-! The slice table of the loader, with the slices of extended partitions: disk_readslicetab of boot/common/disk.c
and the same scan in bd_open_mbr of boot/i386/libi386/biosdisk.c. NEXTDOSPART of sys/diskmbr.h is a parameter. -/

namespace Pcbsd.DiskMbr
open Lib Gpt DiskGpt

def dosptypExt : UInt8 := 0x05

structure DosPartition where
  flag : UInt8
  shd : UInt8
  ssect : UInt8
  scyl : UInt8
  typ : UInt8
  ehd : UInt8
  esect : UInt8
  ecyl : UInt8
  start : UInt32
  size : UInt32
  deriving DecidableEq

def DosPartition.ofBytes (bs : Bytes) : DosPartition where
  flag := bs.getD 0 0
  shd := bs.getD 1 0
  ssect := bs.getD 2 0
  scyl := bs.getD 3 0
  typ := bs.getD 4 0
  ehd := bs.getD 5 0
  esect := bs.getD 6 0
  ecyl := bs.getD 7 0
  start := UInt32.ofNat (le 4 8 bs)
  size := UInt32.ofNat (le 4 12 bs)

def dosParts (buf : Sector) : List DosPartition :=
  (List.range ndospart).map fun i => .ofBytes (slice (dospartoff + 16 * i) 16 buf.bytes)

theorem length_dosParts (buf : Sector) : (dosParts buf).length = ndospart := by
  rw [dosParts, List.length_map, List.length_range]

def magic (buf : Sector) : Bool := buf.bytes.getD 0x1fe 0 == 0x55 && buf.bytes.getD 0x1ff 0 == 0xaa

/-- The entries of an extended table put behind `slicetab`; true when the table has become full. -/
def addSlices (nextdospart : Nat) (base : UInt32) : List DosPartition → List DosPartition → List DosPartition × Bool
  | [], slicetab => (slicetab, false)
  | dp :: rest, slicetab =>
    if dp.size = 0 then addSlices nextdospart base rest slicetab
    else if slicetab.length = nextdospart then (slicetab, true)
    else addSlices nextdospart base rest (slicetab ++ [{ dp with start := dp.start + base }])

theorem addSlices_nil (nextdospart : Nat) (base : UInt32) (slicetab : List DosPartition) :
    addSlices nextdospart base [] slicetab = (slicetab, false) := by rw [addSlices]

/-- disk_checkextended and bd_checkextended: the slice table, as long as nslices, after the slice `slicenum`
was looked at. A slice is only looked at from slices in front of it, so `depth` calls in each other are enough. -/
def checkExtended (read : UInt32 → Option Sector) (nextdospart : Nat) :
    (depth : Nat) → List DosPartition → (slicenum : Nat) → List DosPartition
  | 0, slicetab, _ => slicetab
  | depth + 1, slicetab, slicenum =>
    match slicetab[slicenum]? with
    | none => slicetab
    | some dp =>
      if dp.size = 0 then slicetab
      else if dp.typ ≠ dosptypExt then slicetab
      else
        match read dp.start with
        | none => slicetab
        | some buf =>
          if magic buf = false then slicetab
          else
            match addSlices nextdospart dp.start (dosParts buf) slicetab with
            | (added, true) => added
            | (added, false) =>
              (List.range' slicetab.length (added.length - slicetab.length)).foldl (checkExtended read nextdospart depth) added

theorem checkExtended_zero (read : UInt32 → Option Sector) (nextdospart : Nat) (slicetab : List DosPartition)
    (slicenum : Nat) :
    checkExtended read nextdospart 0 slicetab slicenum = slicetab := by rw [checkExtended]

/-- The table of the MBR, and what is in its extended partitions. -/
def scanMbr (read : UInt32 → Option Sector) (nextdospart : Nat) (buf : Sector) : List DosPartition :=
  (List.range ndospart).foldl (checkExtended read nextdospart (nextdospart + 1)) (dosParts buf)

/-- disk_readslicetab; without the magic it leaves slicetab alone and gives the 0 of the read. -/
def diskReadslicetab (strategy : UInt32 → Except Errno Sector) (nextdospart : Nat) :
    Except Errno (Option (List DosPartition)) :=
  match strategy 0 with
  | .error rc => .error rc
  | .ok buf =>
    if magic buf = false then .ok none
    else .ok (some (scanMbr (fun lba => (strategy lba).toOption) nextdospart buf))

/-- bd_open_mbr as far as od_slicetab, for the slice of the device; there is none on what is not sliced. -/
def bdOpenMbr (bdRead : UInt32 → Option Sector) (nextdospart : Nat) (slice : Int) :
    Except Errno (Option (List DosPartition)) :=
  match bdRead 0 with
  | none => .error .eio
  | some buf =>
    if magic buf = false then if 0 < slice then .error .enoent else .ok none
    else .ok (some (scanMbr bdRead nextdospart buf))

end Pcbsd.DiskMbr

/-! disk_readslicetab of boot/common/disk.c once more, with the memory of its table, the slices it looks at, and reads
that may fail at any time. -/

namespace Pcbsd.DiskMbr
open Lib Gpt DiskGpt

/-- What malloc gave for slicetab and what was put there since. `reads`, `calls` and `stores` are not kept by the
code: the calls of dv_strategy so far, the slices disk_checkextended was called for, and the slots that were written. -/
structure Scan where
  slots : Nat → DosPartition
  nslices : Nat
  reads : Nat
  calls : List Nat
  stores : List Nat

namespace Scan

def store (s : Scan) (dp : DosPartition) : Scan :=
  { s with slots := Function.update s.slots s.nslices dp, nslices := s.nslices + 1, stores := s.stores ++ [s.nslices] }

end Scan

/-- The loop over the entries of an extended table; true when the slice table is full. -/
def storeSlices (nextdospart : Nat) (base : UInt32) : List DosPartition → Scan → Scan × Bool
  | [], s => (s, false)
  | dp :: rest, s =>
    if dp.size = 0 then storeSlices nextdospart base rest s
    else if s.nslices = nextdospart then (s, true)
    else storeSlices nextdospart base rest (s.store { dp with start := dp.start + base })

section

variable (strategy : Nat → UInt32 → Except Errno Sector)

/-- disk_checkextended; `none` when `depth` calls in each other are not enough. -/
@[grind =] def checkSlice (nextdospart : Nat) : (depth slicenum : Nat) → Scan → Option Scan
  | 0, _, _ => none
  | depth + 1, slicenum, s =>
    let s := { s with calls := s.calls ++ [slicenum] }
    let dp := s.slots slicenum
    if dp.size = 0 then some s
    else if dp.typ ≠ dosptypExt then some s
    else
      let rc := strategy s.reads dp.start
      let s := { s with reads := s.reads + 1 }
      match rc with
      | .error _ => some s
      | .ok buf =>
        if magic buf = false then some s
        else
          let start := s.nslices
          match storeSlices nextdospart dp.start (dosParts buf) s with
          | (s, true) => some s
          | (s, false) => (List.range' start (s.nslices - start)).foldlM (fun s i => checkSlice nextdospart depth i s) s

/-- What disk_readslicetab returns, and leaves in *nslicesp if it assigns it. -/
structure Slicetab where
  rc : Option Errno
  nslices : Option Nat
  scan : Scan

def readSlicetab (nextdospart depth : Nat) (malloc : Nat → DosPartition) : Option Slicetab :=
  let s : Scan := ⟨malloc, 0, 1, [], []⟩
  match strategy 0 0 with
  | .error rc => some ⟨some rc, none, s⟩
  | .ok buf =>
    if magic buf = false then some ⟨none, none, s⟩
    else
      let s := (dosParts buf).foldl Scan.store s
      ((List.range ndospart).foldlM (fun s i => checkSlice strategy nextdospart depth i s) s).map fun s =>
        ⟨none, some s.nslices, s⟩

end

end Pcbsd.DiskMbr
