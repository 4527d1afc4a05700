import Pcbsd.Lib.Bytes

/-! The storage driver of the U-Boot loader, boot/uboot/lib/disk.c, over the calls of
boot/uboot/lib/glue.c. What U-Boot answers comes with each operation. The constants of a disk label
and of a slice table are those of sys/disklabel.h and sys/diskmbr.h. -/

namespace Pcbsd.UbootDisk
open Lib List

inductive Errno where
  | enxio
  | eio
  | einval
  | erofs
  | erdlab
  | eunlab
  deriving DecidableEq

/-- struct device_info: whether it is a storage device, and whether its state is DEV_STA_OPEN. -/
structure DeviceInfo where
  stor : Bool
  opened : Bool
  blockSize : Nat

/-- What U-Boot answers during one operation: whether API_DEV_OPEN and API_DEV_CLOSE succeed, and the
blocks that API_DEV_READ reads in full, by handle, first block and number of blocks. Besides, what is in the
memory where a partition outside of the label that was read would have its p_offset. -/
structure Uboot where
  opens : Bool
  closes : Bool
  media : Nat → Int → Nat → Option Bytes
  outside : Int → Nat

structure GptPart where
  index : Int
  type : Bytes
  start : Nat
  last : Nat

structure OpenDev where
  bsize : Nat
  bstart : Int
  partitions : List GptPart

inductive Ptype where
  | none
  | bsdlabel
  | gpt
  deriving DecidableEq

structure Devdesc where
  unit : Nat
  pnum : Int
  ptype : Ptype

structure Handle where
  dev : Devdesc
  od : OpenDev

/-- The state of the driver: devices[] of the glue code, stor_info[] and stor_open_count. -/
structure Driver where
  devices : Nat → DeviceInfo
  storInfo : List Nat
  storOpenCount : Int

/-- stor_init: the storage devices among the first `devsNo`. -/
def storInit (devices : Nat → DeviceInfo) (devsNo : Nat) : Driver :=
  ⟨devices, (range devsNo).filter fun i => (devices i).stor, 0⟩

/-- stor_info[unit], of an array that was cleared. -/
def Driver.device (s : Driver) (unit : Nat) : Nat := s.storInfo.getD unit 0

def Driver.isOpen (s : Driver) (h : Nat) : Bool := (s.devices h).opened

def Driver.setOpened (s : Driver) (h : Nat) (opened : Bool) : Driver :=
  { s with devices := Function.update s.devices h { s.devices h with opened } }

/-- A block as an lbastart_t, an unsigned long of 32 bits on ARM and PowerPC. -/
def lbastart (blk : Int) : Int := blk % 2 ^ 32

/-- stor_readdev over ub_dev_read, by U-Boot's handle. -/
def storReaddev (s : Driver) (uboot : Uboot) (h : Nat) (blk : Int) (size : Nat) : Except Errno Bytes :=
  if (s.devices h).opened ∧ (s.devices h).stor then
    match uboot.media h (lbastart blk) size with
    | none => .error .eio
    | some buf => .ok buf
  else .error .eio

def dosmagic : Nat := 0xaa55

def sliceTypes (mbr : Bytes) : List UInt8 := (range 4).map fun i => mbr.getD (446 + 16 * i + 4) 0

def protective (mbr : Bytes) : Bool :=
  ((sliceTypes mbr).all fun typ => typ == 0xee || typ == 0) && (sliceTypes mbr).count 0xee == 1

def gptHdrSig : Bytes := [0x45, 0x46, 0x49, 0x20, 0x50, 0x41, 0x52, 0x54]

def hdrOk (bsize : Nat) (hdr : Bytes) : Bool :=
  slice 0 8 hdr == gptHdrSig && le 8 24 hdr == 1 && 0x10000 ≤ le 4 8 hdr && 128 ≤ le 4 84 hdr && bsize % le 4 84 hdr == 0

/-- The partition of entry `i` in a block of the table, if there is one. Entries are indexed as an array of struct
gpt_ent. -/
def gptPart? (eps : Nat) (k : Nat) (block : Bytes) (i : Nat) : Option GptPart :=
  let ent := slice (128 * i) 128 block
  if (slice 0 16 ent).all (· == 0) ∨ le 8 32 ent = 0 ∨ le 8 40 ent < le 8 32 ent then none
  else some ⟨Int.bmod (k * eps + i + 1) (2 ^ 32), slice 0 16 ent, le 8 32 ent, le 8 40 ent⟩

/-- The blocks of the table from slba up to elba. The code goes over them twice, to count the partitions and to save
them. -/
def readParts (s : Driver) (uboot : Uboot) (h : Nat) (eps : Nat) (slba elba : Int) : Except Errno (List GptPart) := do
  let found ← (range (elba - slba).toNat).mapM fun k : Nat => do
    let block ← storReaddev s uboot h (slba + k) 1
    pure ((range eps).filterMap (gptPart? eps k block))
  pure found.flatten

/-- The partition that is wanted: the first one when none is given. -/
def wanted (parts : List GptPart) (pnum : Int) : Int :=
  match parts with
  | first :: _ => if pnum = 0 then first.index else pnum
  | [] => pnum

/-- od_bstart, an int, after the search for the partition; of several with one index the last counts. -/
def bstartOf (parts : List GptPart) (pnum : Int) : Int :=
  parts.foldl (fun bstart part => if part.index = pnum then Int.bmod part.start (2 ^ 32) else bstart) 0

def storOpenGpt (s : Driver) (uboot : Uboot) (bsize : Nat) (dev : Devdesc) : Except Errno Handle := do
  let h := s.device dev.unit
  if bsize < 512 then throw .enxio
  let mbr ← storReaddev s uboot h 0 1
  if le 2 510 mbr ≠ dosmagic then throw .enxio
  if !protective mbr then throw .einval
  let hdr ← storReaddev s uboot h 1 1
  if !hdrOk bsize hdr then throw .einval
  let eps := bsize / le 4 84 hdr
  let slba := Int.bmod (le 8 72 hdr) (2 ^ 64)
  let elba := Int.bmod (slba + le 4 80 hdr / eps) (2 ^ 64)
  let parts ← readParts s uboot h eps slba elba
  let pnum := wanted parts dev.pnum
  pure ⟨{ dev with pnum, ptype := .gpt }, ⟨bsize, bstartOf parts pnum, parts⟩⟩

def labelsector : Int := 1
def labeloffset : Nat := 0
def diskmagic : Nat := 0x82564557

def maxpartitions : Int := 8

/-- p_offset of a partition. A negative one takes what stands in front of the table; the label has at most nine of
these, and there is no more of the table than the array of struct disklabel. -/
def pOffset (uboot : Uboot) (label : Bytes) (pnum : Int) : Nat :=
  if -9 ≤ pnum ∧ pnum < maxpartitions then le 4 (152 + 16 * pnum).toNat label else uboot.outside pnum

def storOpenBsdlabel (s : Driver) (uboot : Uboot) (bsize : Nat) (dev : Devdesc) : Except Errno Handle :=
  match storReaddev s uboot (s.device dev.unit) labelsector 1 with
  | .error _ => .error .erdlab
  | .ok buf =>
    let label := buf.drop labeloffset
    if le 4 0 label ≠ diskmagic then .error .eunlab
    else .ok ⟨{ dev with ptype := .bsdlabel }, ⟨bsize, Int.bmod (pOffset uboot label dev.pnum) (2 ^ 32), []⟩⟩

/-- The partition table of the device: a GPT, or else a BSD label. -/
def openTable (s : Driver) (uboot : Uboot) (dev : Devdesc) : Except Errno Handle :=
  let bsize := (s.devices (s.device dev.unit)).blockSize
  match storOpenGpt s uboot bsize dev with
  | .ok handle => .ok handle
  | .error _ => storOpenBsdlabel s uboot bsize dev

/-- The driver when stor_opendev looks for a table: an open below another one is only counted. -/
def entered (s : Driver) (dev : Devdesc) : Driver :=
  if 0 < s.storOpenCount then { s with storOpenCount := s.storOpenCount + 1 } else s.setOpened (s.device dev.unit) true

@[simp] theorem entered_device (s : Driver) (dev : Devdesc) (unit : Nat) : (entered s dev).device unit = s.device unit := by
  rw [entered]
  split <;> rfl

def storOpendev (s : Driver) (uboot : Uboot) (dev : Devdesc) : Driver × Except Errno Handle :=
  if ¬0 < s.storOpenCount ∧ ¬uboot.opens then (s, .error .enxio)
  else
    match openTable (entered s dev) uboot dev with
    | .error err => (entered s dev, .error err)
    | .ok handle => ({ entered s dev with storOpenCount := 1 }, .ok handle)

def storClosedev (s : Driver) (uboot : Uboot) (dev : Devdesc) : Driver × Except Errno Unit :=
  let counted : Driver := { s with storOpenCount := s.storOpenCount - 1 }
  if counted.storOpenCount = 0 then
    if uboot.closes then (counted.setOpened (s.device dev.unit) false, .ok ()) else (counted, .error .enxio)
  else (counted, .ok ())

def storStrategy (s : Driver) (uboot : Uboot) (handle : Handle) (read : Bool) (blk : Int) (size : Nat) : Except Errno Bytes :=
  if ¬read then .error .erofs
  else if size % handle.od.bsize ≠ 0 then .error .eio
  else storReaddev s uboot (s.device handle.dev.unit) (blk + handle.od.bstart) (size / handle.od.bsize)

structure World where
  driver : Driver
  handles : List Handle

/-- A call of the driver's switch. Closing and reading name an open handle by its place. -/
inductive Call where
  | storOpen (dev : Devdesc) (uboot : Uboot)
  | storClose (place : Nat) (uboot : Uboot)
  | storStrategy (place : Nat) (read : Bool) (blk : Int) (size : Nat) (uboot : Uboot)

def step (w : World) : Call → World
  | .storOpen dev uboot =>
    match storOpendev w.driver uboot dev with
    | (driver, .ok handle) => ⟨driver, w.handles ++ [handle]⟩
    | (driver, .error _) => ⟨driver, w.handles⟩
  | .storClose place uboot =>
    match w.handles[place]? with
    | some handle => ⟨(storClosedev w.driver uboot handle.dev).1, w.handles.eraseIdx place⟩
    | none => w
  | .storStrategy .. => w

def run (w : World) (calls : List Call) : World := calls.foldl step w

/-- After stor_init, with every device closed. -/
def start (devices : Nat → DeviceInfo) (devsNo : Nat) : World :=
  ⟨storInit (fun h => { devices h with opened := false }) devsNo, []⟩

end Pcbsd.UbootDisk
