import Pcbsd.Boot2
import Pcbsd.DiskMbr
import Pcbsd.Lib.Numeral

/-! Opening a disk with an MBR: disk_openmbr of boot/common/disk.c and bd_open_mbr of boot/i386/libi386/biosdisk.c, with
the slots and entries that they go to. NEXTDOSPART and MAXPARTITIONS of sys/diskmbr.h and sys/disklabel.h are
parameters, and a label is in the buffer of a sector. -/

namespace Pcbsd.MbrOpen
open Lib Gpt DiskGpt DiskMbr
open Boot2 (dMagic dNpartitions pOffset diskmagic labelsector rawPart)

def dosptyp386bsd : UInt8 := 0xa5
def dosptypLinux : UInt8 := 0x83

/-- PREF_FBSD_ACT to PREF_NONE. -/
def pref (dp : DosPartition) : Nat :=
  let active := dp.flag &&& 0x80 ≠ 0
  if dp.typ = dosptyp386bsd then if active then 1 else 2
  else if dp.typ = dosptypLinux then if active then 3 else 4
  else if dp.typ ∈ [0x01, 0x04, 0x06, 0x0b, 0x0c, 0x0e] then if active then 5 else 6
  else 7

/-- The loop of disk_bestslice and bd_bestslice, from the slice `i` on. -/
def bestLoop : List DosPartition → (i preflevel prefslice : Nat) → Nat
  | [], _, _, prefslice => prefslice
  | dp :: rest, i, preflevel, prefslice =>
    if pref dp < preflevel then bestLoop rest (i + 1) (pref dp) (i + 1) else bestLoop rest (i + 1) preflevel prefslice

/-- disk_bestslice, the number of a slice or 0. -/
def bestslice (slicetab : List DosPartition) : Nat := bestLoop slicetab 0 7 0

/-- What an open comes to: an error, or the block offset with the slot and the entry that it is from. `outside` is a
read of a slot, or of an entry of d_partitions, that is not there. -/
inductive Opened where
  | failed (rc : Errno)
  | epart
  | opened (offset : Int) (slot entry : Option Nat)
  | outside
  deriving DecidableEq

def toInt (n : Int) : Int := n.bmod (2 ^ 32)

def sectorOf (dp : DosPartition) : Int := toInt dp.start.toNat

def dedicated (slicetab : List DosPartition) : Bool :=
  slicetab[3]?.any fun dp => dp.typ == dosptyp386bsd && dp.start == 0 && dp.size == 50000

def slotAt (slicetab : List DosPartition) (i : Int) : Option (Nat × DosPartition) :=
  if 0 ≤ i then slicetab[i.toNat]?.map fun dp => (i.toNat, dp) else none

def withSlot (slicetab : List DosPartition) (slice : Int) (go : Nat → DosPartition → Opened) : Opened :=
  match slotAt slicetab (slice - 1) with
  | none => .outside
  | some (i, dp) => go i dp

/-- The label of the slice at `sector`, once it is read: the offset is of u_int32_t. -/
def openLabel (maxpartitions : Nat) (buf : Sector) (sector : Int) (slot : Option Nat) (partition : Int) : Opened :=
  if dMagic buf.bytes ≠ diskmagic then .failed .enoent
  else if dNpartitions buf.bytes ≤ partition then .epart
  else if maxpartitions ≤ partition then .outside
  else .opened ((pOffset buf.bytes partition.toNat - pOffset buf.bytes rawPart + sector) % 2 ^ 32) slot
    (some partition.toNat)

def Opened.intOffset : Opened → Opened
  | .opened offset slot entry => .opened (toInt offset) slot entry
  | o => o

def diskUnsliced (strategy : Int → Except Errno Sector) (maxpartitions : Nat) (partition sector : Int)
    (slot : Option Nat) : Opened :=
  if partition < 0 then .opened sector slot none
  else
    match strategy (toInt (sector + labelsector)) with
    | .error rc => .failed rc
    | .ok buf => (openLabel maxpartitions buf sector slot partition).intOffset

/-- disk_openmbr. `nslices` is what its variable is before it is set; slicetab is NULL. -/
def diskOpenmbr (strategy : Int → Except Errno Sector) (nextdospart maxpartitions : Nat)
    (nslices slice partition : Int) : Opened :=
  match diskReadslicetab (fun lba => strategy lba.toNat) nextdospart with
  | .error rc => .failed rc
  | .ok none => if 0 < slice ∧ nslices ≤ slice - 1 then .epart else .outside
  | .ok (some slicetab) =>
    if 0 < slice ∧ slicetab.length ≤ slice - 1 then .epart
    else if dedicated slicetab then diskUnsliced strategy maxpartitions partition 0 none
    else
      let slice := if slice = 0 then (bestslice slicetab : Int) else slice
      withSlot slicetab slice fun i dp => diskUnsliced strategy maxpartitions partition (sectorOf dp) (some i)

def bdUnsliced (bdRead : Int → Option Sector) (maxpartitions : Nat) (partition sector : Int)
    (slot : Option Nat) : Opened :=
  if partition < 0 then .opened sector slot none
  else
    match bdRead (toInt (sector + labelsector)) with
    | none => .failed .eio
    | some buf => openLabel maxpartitions buf sector slot partition

/-- bd_open_mbr. -/
def bdOpen (bdRead : Int → Option Sector) (nextdospart maxpartitions : Nat) (slice partition : Int) : Opened :=
  match bdOpenMbr (fun lba => bdRead lba.toNat) nextdospart slice with
  | .error rc => .failed rc
  | .ok none => bdUnsliced bdRead maxpartitions partition 0 none
  | .ok (some slicetab) =>
    if slice = -1 then bdUnsliced bdRead maxpartitions partition 0 none
    else if 0 < slice ∧ slicetab.length ≤ slice - 1 then .failed .enoent
    else if dedicated slicetab then bdUnsliced bdRead maxpartitions partition 0 none
    else
      let slice := if slice = 0 then (bestslice slicetab : Int) else slice
      withSlot slicetab slice fun i dp =>
        let partition := if dp.typ = dosptyp386bsd ∧ partition < 0 then 0 else partition
        bdUnsliced bdRead maxpartitions partition (sectorOf dp) (some i)

end Pcbsd.MbrOpen

/-! The partitions of a GPT as disk_print of boot/common/disk.c lists them, and disk_open. -/

namespace Pcbsd.DiskPrint
open Lib Gpt DiskGpt MbrOpen

structure Listed where
  number : Nat
  part : GptPart
  deriving DecidableEq

section

variable (strategy : Int → Except Errno Sector)

def readgpt : Except Errno (List GptPart) := diskReadgpt fun lba => (strategy lba).toOption

def listed : Except Errno (List Listed) := (readgpt strategy).map fun gpt => gpt.mapIdx fun i gp => ⟨i + 1, gp⟩

/-- disk_opengpt, as far as d_offset, an int. -/
def diskOpengpt (slice partition : Int) : Except Errno Int :=
  match readgpt strategy with
  | .error rc => .error rc
  | .ok gpt =>
    if slice < 0 then .ok 0
    else if partition ≠ 0xff then .error .enoent
    else
      match if 0 < slice then gpt.find? fun gp => gp.gpIndex = slice else bdBestGptpart gpt with
      | none => .error .enoent
      | some gp => .ok (toInt gp.gpStart)

/-- disk_open, with both kinds of tables. -/
def diskOpen (nextdospart maxpartitions : Nat) (nslices slice partition : Int) : Opened :=
  match diskOpengpt strategy slice partition with
  | .ok offset => .opened offset none none
  | .error _ => diskOpenmbr strategy nextdospart maxpartitions nslices slice partition

end

end Pcbsd.DiskPrint
