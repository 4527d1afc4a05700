import Pcbsd.Gpt

/-! The readers of the GPT in the loader: disk_readgpt of boot/common/disk.c and bd_open_gpt of
boot/i386/libi386/biosdisk.c, over the way a sector is read. -/

namespace Pcbsd.DiskGpt
open Lib Gpt

def ndospart : Nat := 4
def dospartoff : Nat := 446

def msBasicData : Bytes :=
  [0xa2, 0xa0, 0xd0, 0xeb, 0xe5, 0xb9, 0x33, 0x44, 0x87, 0xc0, 0x68, 0xb6, 0xb7, 0x26, 0x99, 0xc7]
def freebsdUfs : Bytes :=
  [0xb6, 0x7c, 0x6e, 0x51, 0xcf, 0x6e, 0xd6, 0x11, 0x8f, 0xf8, 0x00, 0x02, 0x2d, 0x09, 0x71, 0x2b]
def freebsdZfs : Bytes :=
  [0xba, 0x7c, 0x6e, 0x51, 0xcf, 0x6e, 0xd6, 0x11, 0x8f, 0xf8, 0x00, 0x02, 0x2d, 0x09, 0x71, 0x2b]

def prefFbsd : Nat := 2
def prefDos : Nat := 6
def prefNone : Nat := 7

inductive Errno where
  | eio
  | enxio
  | einval
  | enoent
  deriving DecidableEq

structure GptPart where
  gpIndex : Nat
  gpType : Bytes
  gpStart : Nat
  gpEnd : Nat
  deriving DecidableEq

def dpTyp (tbl : Sector) (i : Nat) : UInt8 := tbl.bytes.getD (dospartoff + 16 * i + 4) 0

/-- The loop over the slices from `i` on, with `part` of type 0xee so far; `none` is an error. Behind the
first of them a slice of another type is let pass. -/
def countPmbr (tbl : Sector) : (fuel i part : Nat) → Option Nat
  | 0, _, part => some part
  | fuel + 1, i, part =>
    if dpTyp tbl i = 0xee then countPmbr tbl fuel (i + 1) (part + 1)
    else if part ≠ 1 ∧ dpTyp tbl i ≠ 0 then none
    else countPmbr tbl fuel (i + 1) part

def checkPmbr (tbl : Sector) : Except Errno Unit :=
  if tbl.bytes.getD 0x1fe 0 ≠ 0x55 ∨ tbl.bytes.getD 0x1ff 0 ≠ 0xaa then .error .enxio
  else if countPmbr tbl ndospart 0 0 = some 1 then .ok ()
  else .error .einval

def badHdr (hdr : Hdr) : Bool :=
  hdr.sig ≠ gptHdrSig ∨ hdr.lbaSelf ≠ 1 ∨ hdr.revision < 0x00010000 ∨ hdr.entsz < 128 ∨ devBsize % hdr.entsz ≠ 0

/-- The entry at index `i` of a table sector, hdr_entsz bytes from the one before. -/
def entAt (hdr : Hdr) (tbl : Sector) (i : Nat) : Ent :=
  ⟨(slice (i * hdr.entsz) 128 tbl.bytes).takeD 128 0, List.takeD_length ..⟩

def lbaEnd (e : Ent) : Nat := le 8 40 e.bytes

def used (e : Ent) : Bool := !e.type.all (· == 0) && e.lbaStart != 0 && e.lbaStart ≤ lbaEnd e

def usedSlots (hdr : Hdr) (tbl : Sector) : List Nat :=
  (List.range hdr.entriesPerSec).filter fun i => used (entAt hdr tbl i)

/-- What is saved of the entry at index `i` of the `sec`-th sector of the table. -/
def gptPart (hdr : Hdr) (sec : Nat) (tbl : Sector) (i : Nat) : GptPart where
  gpIndex := sec * hdr.entriesPerSec + i + 1
  gpType := (entAt hdr tbl i).type
  gpStart := (entAt hdr tbl i).lbaStart
  gpEnd := lbaEnd (entAt hdr tbl i)

/-- The sectors from hdr_lba_table up to elba. Both are signed, so there are none when the end alone is
past 2^63. -/
def walkedSectors (hdr : Hdr) : Nat :=
  if hdr.lbaTable < 2 ^ 63 ∧ 2 ^ 63 ≤ hdr.lbaTable + hdr.entries / hdr.entriesPerSec then 0
  else hdr.entries / hdr.entriesPerSec

section

variable (read : Nat → Option Sector)

/-- The first walk over the table, `k` sectors from `sec` on. -/
def countTable (hdr : Hdr) : (k sec part : Nat) → Except Errno Nat
  | 0, _, part => .ok part
  | k + 1, sec, part =>
    match read ((hdr.lbaTable + sec) % 2 ^ 64) with
    | none => .error .eio
    | some tbl => countTable hdr k (sec + 1) (part + (usedSlots hdr tbl).length)

def saveTable (hdr : Hdr) : (k sec : Nat) → List GptPart → Except Errno (List GptPart)
  | 0, _, gptab => .ok gptab
  | k + 1, sec, gptab =>
    match read ((hdr.lbaTable + sec) % 2 ^ 64) with
    | none => .error .eio
    | some tbl => saveTable hdr k (sec + 1) (gptab ++ (usedSlots hdr tbl).map (gptPart hdr sec tbl))

def readTable (hdr : Hdr) : Except Errno (List GptPart) :=
  match countTable read hdr (walkedSectors hdr) 0 0 with
  | .error e => .error e
  | .ok part => if part = 0 then .ok [] else saveTable read hdr (walkedSectors hdr) 0 []

def walkGpt : Except Errno (List GptPart) :=
  match read 0 with
  | none => .error .eio
  | some tbl =>
    match checkPmbr tbl with
    | .error e => .error e
    | .ok () =>
      match read 1 with
      | none => .error .eio
      | some gpt => if badHdr (Hdr.ofSector gpt) then .error .einval else readTable read (Hdr.ofSector gpt)

def diskReadgpt : Except Errno (List GptPart) := walkGpt read

def gptPref (gp : GptPart) : Nat :=
  if gp.gpType = msBasicData then prefDos else if gp.gpType = freebsdUfs ∨ gp.gpType = freebsdZfs then prefFbsd
    else prefNone

/-- The loop of bd_best_gptpart, with the best one so far. -/
def bestGptpart : List GptPart → Option GptPart → Nat → Option GptPart
  | [], prefpart, _ => prefpart
  | gp :: gps, prefpart, preflevel =>
    if gptPref gp < preflevel then bestGptpart gps (some gp) (gptPref gp) else bestGptpart gps prefpart preflevel

def bdBestGptpart (parts : List GptPart) : Option GptPart := bestGptpart parts none prefNone

structure OpenDisk where
  partitions : List GptPart
  boff : Nat
  slice : Int
  deriving DecidableEq

def bdOpenGpt (slice partition : Int) : Except Errno OpenDisk :=
  match walkGpt read with
  | .error e => .error e
  | .ok parts =>
    if slice < 0 then .ok ⟨parts, 0, slice⟩
    else if partition ≠ 0xff then .error .enoent
    else if 0 < slice then
      match parts.find? fun gp => gp.gpIndex = slice with
      | none => .error .enoent
      | some gp => .ok ⟨parts, gp.gpStart, slice⟩
    else
      match bdBestGptpart parts with
      | none => .error .enoent
      | some gp => .ok ⟨parts, gp.gpStart, gp.gpIndex⟩

end

end Pcbsd.DiskGpt
