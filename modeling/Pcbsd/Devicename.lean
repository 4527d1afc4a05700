import Pcbsd.Lib.Numeral

/-! Device names of the loader, boot/i386/libi386/devicename.c with LOADER_GPT_SUPPORT, and the device
switch of boot/i386/loader/conf.c. MAXPARTITIONS is the number in the system's disklabel header. -/

namespace Pcbsd.Devicename
open Lib Numeral

inductive Errno where
  | einval
  | enoent
  | eunit
  | eslice
  | epart
  deriving DecidableEq

inductive Devt where
  | disk
  | cd
  | net
  | zfs
  deriving DecidableEq

structure Devsw where
  dvName : Bytes
  dvType : Devt
  deriving DecidableEq

def bioscd : Devsw := ⟨ascii ['c', 'd'], .cd⟩
def biosdisk : Devsw := ⟨ascii ['d', 'i', 's', 'k'], .disk⟩
def pxedisk : Devsw := ⟨ascii ['p', 'x', 'e'], .net⟩
def fwohci : Devsw := ⟨ascii ['F', 'W', '1', '3', '9', '4'], .net⟩
def zfsDev : Devsw := ⟨ascii ['z', 'f', 's'], .zfs⟩

/-- What the loader is built with: NFS or TFTP, FireWire, and ZFS. -/
structure Support where
  network : Bool
  firewire : Bool
  zfs : Bool

def devsw (support : Support) : List Devsw :=
  [bioscd, biosdisk] ++ (if support.network then [pxedisk] else []) ++ (if support.firewire then [fwohci] else []) ++
    (if support.zfs then [zfsDev] else [])

/-- d_kind. A CD and a net device have no members there that the parser sets. -/
inductive Kind (ζ : Type) where
  | biosdisk (slice partition : Int)
  | plain
  | zfs (pool : ζ)
  deriving DecidableEq

structure Devdesc (ζ : Type) where
  dev : Devsw
  unit : Int
  kind : Kind ζ
  deriving DecidableEq

/-- zfs_parsedev and zfs_fmtdev, over what they keep in the descriptor. -/
structure ZfsNames (ζ : Type) where
  parsedev : Bytes → Except Errno (ζ × Bytes)
  fmtdev : ζ → Bytes

def charColon : UInt8 := 0x3a
def letterA : UInt8 := 0x61
def letterP : UInt8 := 0x70
def letterS : UInt8 := 0x73

def signedChar (c : UInt8) : Int := if c < 128 then c.toNat else c.toNat - 256

/-- Nothing or a colon ends a name; what follows it is the path. -/
def atEnd (cp : Bytes) : Bool := cp.isEmpty || cp.head? == some charColon

section
variable (maxPartitions : Int)

def parsePartition (slice : Int) (cp : Bytes) : Except Errno ((Int × Int) × Bytes) :=
  match cp with
  | [] => .ok ((slice, -1), [])
  | c :: rest =>
    if c = charColon then .ok ((slice, -1), c :: rest)
    else
      let partition := signedChar c - letterA.toNat
      if partition < 0 ∨ partition ≥ maxPartitions then .error .epart else .ok ((slice, partition), rest)

def parseSlice (cp : Bytes) : Except Errno ((Int × Int) × Bytes) :=
  match cp with
  | [] => parsePartition maxPartitions (-1) []
  | c :: rest =>
    if c = letterP then
      match strtol? 10 rest with
      | none => .error .eslice
      | some (slice, cp) => if atEnd cp then .ok ((slice, 0xff), cp) else .error .einval
    else if c = letterS then
      match strtol? 10 rest with
      | none => .error .eslice
      | some (slice, cp) => parsePartition maxPartitions slice cp
    else parsePartition maxPartitions (-1) (c :: rest)

/-- The unit, slice and partition of a disk, and the rest of the string. -/
def parseDisk (np : Bytes) : Except Errno ((Int × Int × Int) × Bytes) :=
  if atEnd np then .ok ((-1, -1, -1), np)
  else
    match strtol? 10 np with
    | none => .error .eunit
    | some (unit, cp) =>
      match parseSlice maxPartitions cp with
      | .error err => .error err
      | .ok ((slice, partition), cp) => if atEnd cp then .ok ((unit, slice, partition), cp) else .error .einval

def parseUnit (np : Bytes) : Except Errno (Int × Bytes) :=
  if atEnd np then .ok (0, np)
  else
    match strtol? 0 np with
    | none => .error .eunit
    | some (unit, cp) => if atEnd cp then .ok (unit, cp) else .error .einval

def findDev (support : Support) (devspec : Bytes) : Option Devsw :=
  (devsw support).find? fun dv => dv.dvName.isPrefixOf devspec

variable {ζ : Type} (zfs : ZfsNames ζ) (support : Support)

/-- i386_parsedev: the descriptor and the path behind it. -/
def i386Parsedev (devspec : Bytes) : Except Errno (Devdesc ζ × Bytes) :=
  if devspec.length < 2 then .error .einval
  else
    match findDev support devspec with
    | none => .error .enoent
    | some dv =>
      let np := devspec.drop dv.dvName.length
      match dv.dvType with
      | .disk => (parseDisk maxPartitions np).map fun r => (⟨dv, r.1.1, .biosdisk r.1.2.1 r.1.2.2⟩, r.2.tail)
      | .cd => (parseUnit np).map fun r => (⟨dv, r.1, .plain⟩, r.2.tail)
      | .net => (parseUnit np).map fun r => (⟨dv, r.1, .plain⟩, r.2.tail)
      | .zfs => (zfs.parsedev np).map fun r => (⟨dv, 0, .zfs r.1⟩, r.2)

def i386Fmtdev (dev : Devdesc ζ) : Bytes :=
  match dev.kind with
  | .plain => dev.dev.dvName ++ printInt dev.unit ++ [charColon]
  | .biosdisk slice partition =>
    dev.dev.dvName ++ printInt dev.unit ++
      (if partition = 0xff then letterP :: printInt slice
       else
        (if slice > 0 then letterS :: printInt slice else []) ++
          if partition ≥ 0 then [UInt8.ofNat (partition + letterA.toNat).toNat] else []) ++
      [charColon]
  | .zfs pool => zfs.fmtdev pool

end

end Pcbsd.Devicename
