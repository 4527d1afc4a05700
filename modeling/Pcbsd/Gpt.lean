import Pcbsd.Crc32

/-! The GPT code of the boot blocks, boot/common/gpt.c, over the disk calls of
boot/i386/common/drv.c. The two copies of the header and of the table are one definition
indexed by `Which`. Messages on the console are left out. -/

namespace Pcbsd.Gpt
open Lib Crc32 List

def devBsize : Nat := 512
def maxtblents : Nat := 128

/-- GPT_HDR_SIG, "EFI PART". -/
def gptHdrSig : Bytes := [0x45, 0x46, 0x49, 0x20, 0x50, 0x41, 0x52, 0x54]

def gptEntAttrBootme : BitVec 64 := 1#64 <<< 59
def gptEntAttrBootonce : BitVec 64 := 1#64 <<< 58
def gptEntAttrBootfailed : BitVec 64 := 1#64 <<< 57

@[ext] structure Sector where
  bytes : Bytes
  size : bytes.length = devBsize

/-- A buffer of one sector that was cleared and then filled from the start. -/
def Sector.ofBytes (bs : Bytes) : Sector := ⟨bs.takeD devBsize 0, takeD_length ..⟩

@[ext] structure Hdr where
  bytes : Bytes
  size : bytes.length = 96

namespace Hdr

def ofSector (s : Sector) : Hdr := ⟨slice 0 96 s.bytes, slice_length (by rw [s.size]; decide)⟩

def sig (h : Hdr) : Bytes := slice 0 8 h.bytes
def revision (h : Hdr) : Nat := le 4 8 h.bytes
def hdrSize (h : Hdr) : Nat := le 4 12 h.bytes
def crcSelf (h : Hdr) : Nat := le 4 16 h.bytes
def lbaSelf (h : Hdr) : Nat := le 8 24 h.bytes
def lbaAlt (h : Hdr) : Nat := le 8 32 h.bytes
def lbaTable (h : Hdr) : Nat := le 8 72 h.bytes
def entries (h : Hdr) : Nat := le 4 80 h.bytes
def entsz (h : Hdr) : Nat := le 4 84 h.bytes
def crcTable (h : Hdr) : Nat := le 4 88 h.bytes

def setWord (h : Hdr) (off : Nat) (v : Nat) (room : off + 4 ≤ 96) : Hdr :=
  ⟨put off (toLe 4 v) h.bytes, by rw [length_put (by simpa [h.size] using room), h.size]⟩

def setCrcSelf (h : Hdr) (v : Nat) : Hdr := h.setWord 16 v (by decide)
def setCrcTable (h : Hdr) (v : Nat) : Hdr := h.setWord 88 v (by decide)

/-- DEV_BSIZE / hdr_entsz. -/
def entriesPerSec (h : Hdr) : Nat := devBsize / h.entsz

end Hdr

@[ext] structure Ent where
  bytes : Bytes
  size : bytes.length = 128

namespace Ent

/-- The entry at index `i` of a sector read as an array of struct gpt_ent. -/
def ofSector (s : Sector) (i : Nat) : Ent := ⟨(slice (128 * i) 128 s.bytes).takeD 128 0, takeD_length ..⟩

def type (e : Ent) : Bytes := slice 0 16 e.bytes
def lbaStart (e : Ent) : Nat := le 8 32 e.bytes
def attr (e : Ent) : BitVec 64 := BitVec.ofNat 64 (le 8 48 e.bytes)

def setAttr (e : Ent) (v : BitVec 64) : Ent :=
  ⟨put 48 (toLe 8 v.toNat) e.bytes, by rw [length_put (by simp [e.size]), e.size]⟩

/-- Whether a flag of ent_attr is set. -/
def has (e : Ent) (flag : BitVec 64) : Bool := e.attr &&& flag != 0

/-- ent_attr &= ~flag. -/
def clear (e : Ent) (flag : BitVec 64) : Ent := e.setAttr (e.attr &&& ~~~flag)

/-- ent_attr |= flag. -/
def mark (e : Ent) (flag : BitVec 64) : Ent := e.setAttr (e.attr ||| flag)

/-- A partition that was tried in vain: BOOTONCE is replaced by BOOTFAILED. -/
def fail (e : Ent) : Ent := (e.clear gptEntAttrBootonce).mark gptEntAttrBootfailed

def zero : Ent := ⟨replicate 128 0, by simp⟩

end Ent

inductive Which where
  | primary
  | backup
  deriving DecidableEq

/-- hdr_primary, table_primary and hdr_primary_lba, or the same for the backup. What lies
behind the header and the table in memory is read when hdr_size or hdr_entsz is larger than
the struct. -/
structure Copy where
  hdr : Hdr
  hdrBehind : Bytes
  table : List Ent
  tableBehind : Bytes
  size : table.length = maxtblents
  lba : Nat

namespace Copy

def ent (c : Copy) (i : Nat) : Ent := c.table.getD i Ent.zero

def tableBytes (c : Copy) (i : Nat) : Bytes := (c.table.drop i).flatMap Ent.bytes ++ c.tableBehind

def crcOfTable (c : Copy) : Nat := (crc32 ((c.tableBytes 0).take (c.hdr.entries * c.hdr.entsz))).toNat

/-- The first hdr_size bytes of a header that stands where this copy keeps its own. -/
def hdrBytes (c : Copy) (h : Hdr) : Bytes := (h.bytes ++ c.hdrBehind).take h.hdrSize

def modifyEnt (c : Copy) (i : Nat) (f : Ent → Ent) : Copy :=
  { c with table := c.table.modify i f, size := by rw [length_modify, c.size] }

def setEnt (c : Copy) (i : Nat) (e : Ent) : Copy := c.modifyEnt i fun _ => e

end Copy

/-- The BIOS behind drv.c: the number of sectors a drive reports (0 on an error), the
sectors that can be read, and whether the n-th write succeeds. -/
structure Bios where
  sectors : Nat → Nat
  reads : Nat → Nat → Bool
  writes : Nat → Bool

structure Dsk where
  drive : Nat
  type : Nat
  unit : Nat
  part : Int
  start : Nat
  deriving DecidableEq

/-- The static variables of gpt.c, the drives, the number of writes tried so far and those
that reached a drive. `active` is where gpthdr and gpttable point. -/
structure State where
  copies : Which → Copy
  active : Which
  curent : Int
  bootonce : Bool
  disk : Nat × Nat → Sector
  tried : Nat
  log : List ((Nat × Nat) × Sector)

def drvsize (bios : Bios) (dsk : Dsk) : Nat := bios.sectors dsk.drive

def drvread (bios : Bios) (disk : Nat × Nat → Sector) (dsk : Dsk) (lba : Nat) : Option Sector :=
  if bios.reads dsk.drive lba then some (disk (dsk.drive, lba)) else none

def drvwrite (bios : Bios) (s : State) (dsk : Dsk) (sector : Sector) (lba : Nat) : Bool × State :=
  if bios.writes s.tried then
    (true, { s with
      disk := Function.update s.disk (dsk.drive, lba) sector
      tried := s.tried + 1
      log := s.log ++ [((dsk.drive, lba), sector)] })
  else (false, { s with tried := s.tried + 1 })

namespace State

def gpthdr (s : State) : Hdr := (s.copies s.active).hdr

def gpttable (s : State) (i : Nat) : Ent := (s.copies s.active).ent i

def setCopy (s : State) (which : Which) (c : Copy) : State := { s with copies := Function.update s.copies which c }

end State

/-- The end of gptupdate and of gptbootconv: both checksums, then the header on disk. -/
def writeHdr (bios : Bios) (s : State) (dsk : Dsk) (which : Which) : State :=
  let c := s.copies which
  let hdr := (c.hdr.setCrcTable c.crcOfTable).setCrcSelf 0
  let hdr := hdr.setCrcSelf (crc32 (c.hdrBytes hdr)).toNat
  let s := s.setCopy which { c with hdr }
  (drvwrite bios s dsk (Sector.ofBytes (c.hdrBytes hdr)) hdr.lbaSelf).2

def gptupdate (bios : Bios) (s : State) (dsk : Dsk) (which : Which) : State :=
  let c := s.copies which
  let slba := s.curent.toNat / c.hdr.entriesPerSec
  let firstent := slba * c.hdr.entriesPerSec
  match drvwrite bios s dsk (Sector.ofBytes (c.tableBytes firstent)) ((slba + c.hdr.lbaTable) % 2 ^ 64) with
  | (false, s) => s
  | (true, s) => writeHdr bios s dsk which

/-- Both copies that were found valid get the entry at curent changed and written. -/
def updateCopy (bios : Bios) (dsk : Dsk) (f : Ent → Ent) (which : Which) (s : State) : State :=
  if 0 < (s.copies which).lba then
    gptupdate bios (s.setCopy which ((s.copies which).modifyEnt s.curent.toNat f)) dsk which
  else s

def updateBoth (bios : Bios) (dsk : Dsk) (f : Ent → Ent) (s : State) : State :=
  updateCopy bios dsk f .backup (updateCopy bios dsk f .primary s)

def found (bios : Bios) (s : State) (dsk : Dsk) : Int × State × Dsk :=
  let ent := s.gpttable s.curent.toNat
  let dsk := { dsk with part := s.curent + 1, start := ent.lbaStart }
  if ent.has gptEntAttrBootonce then (0, updateBoth bios dsk (·.clear gptEntAttrBootme) s, dsk)
  else (0, s, dsk)

/-- A loop `for (; i < n; i++)` that leaves at the first entry with `p`; at most `fuel` rounds are left. -/
def scan (p : Ent → Bool) (table : Nat → Ent) : Nat → Nat → Nat
  | 0, i => i
  | fuel + 1, i => if p (table i) then i else scan p table fuel (i + 1)

def isBootonce (uuid : Bytes) (e : Ent) : Bool := e.type == uuid && e.has gptEntAttrBootme && e.has gptEntAttrBootonce
def isBootme (uuid : Bytes) (e : Ent) : Bool := e.type == uuid && e.has gptEntAttrBootme && !e.has gptEntAttrBootonce
def isType (uuid : Bytes) (e : Ent) : Bool := e.type == uuid

/-- One of the three loops of gptfind, from `start` to the end of the table; curent is left where it stopped. -/
def search (p : Ent → Bool) (s : State) (start : Nat) : Bool × State :=
  let i := scan p s.gpttable (s.gpthdr.entries - start) start
  (i < s.gpthdr.entries, { s with curent := i })

/-- The second loop of gptfind and, at the first try, the third. -/
def findBootme (uuid : Bytes) (s : State) (firsttry : Bool) : Bool × State :=
  match search (isBootme uuid) s s.curent.toNat with
  | (true, s) => (true, s)
  | (false, s) => if firsttry then search (isType uuid) s 0 else (false, s)

/-- The part of gptfind that goes on from curent. The flag tells whether an entry was found. -/
def findNext (uuid : Bytes) (s : State) : Bool × State :=
  let firsttry := s.curent == -1
  let s := { s with curent := s.curent + 1 }
  if (s.gpthdr.entries : Int) ≤ s.curent then (false, { s with curent := s.gpthdr.entries })
  else if s.bootonce then
    match search (isBootonce uuid) s s.curent.toNat with
    | (true, s) => (true, s)
    | (false, s) => findBootme uuid { s with bootonce := false, curent := 0 } firsttry
  else findBootme uuid s firsttry

def gptfind (bios : Bios) (s : State) (uuid : Bytes) (dsk : Dsk) (part : Int) : Int × State × Dsk :=
  if 0 ≤ part then
    if part = 0 ∨ s.gpthdr.entries < part then (-1, s, dsk)
    else if !isType uuid (s.gpttable (part - 1).toNat) then (-1, s, dsk)
    else found bios { s with curent := part - 1 } dsk
  else
    match findNext uuid s with
    | (false, s) => (-1, s, dsk)
    | (true, s) => found bios s dsk

/-- The header in memory is overwritten whatever the outcome. -/
def gptreadHdr (bios : Bios) (disk : Nat × Nat → Sector) (dsk : Dsk) (c : Copy) (hdrlba : Nat) : Int × Copy :=
  match drvread bios disk dsk hdrlba with
  | none => (-1, c)
  | some secbuf =>
    let hdr := Hdr.ofSector secbuf
    if hdr.sig ≠ gptHdrSig ∨ hdr.lbaSelf ≠ hdrlba ∨ hdr.revision < 0x00010000 ∨ hdr.entsz < 128 ∨
        maxtblents < hdr.entries ∨ devBsize % hdr.entsz ≠ 0 then (-1, { c with hdr })
    else
      let crc := hdr.crcSelf
      let hdr := hdr.setCrcSelf 0
      if (crc32 (c.hdrBytes hdr)).toNat ≠ crc then (-1, { c with hdr })
      else (0, { c with hdr := hdr.setCrcSelf crc })

def gptbootfailed (bios : Bios) (s : State) (dsk : Dsk) : State :=
  if !(s.gpttable s.curent.toNat).has gptEntAttrBootonce then s
  else updateBoth bios dsk Ent.fail s

/-- The entries that gptbootconv converts: of the three flags only BOOTONCE is set. -/
def isTried (e : Ent) : Bool :=
  e.attr &&& (gptEntAttrBootme ||| gptEntAttrBootonce ||| gptEntAttrBootfailed) == gptEntAttrBootonce

/-- The inner loop of gptbootconv over the `k` entries from `nent` on. -/
def convSector (c : Copy) (nent : Nat) : Nat → Bool × Copy
  | 0 => (false, c)
  | k + 1 =>
    let (updated, c) := convSector c nent k
    if isTried (c.ent (nent + k)) then (true, c.modifyEnt (nent + k) Ent.fail) else (updated, c)

/-- The outer loop of gptbootconv: `k` sectors from index `i` of the table on. -/
def convLoop (bios : Bios) (dsk : Dsk) (which : Which) : (k i : Nat) → Bool → State → Bool × State
  | 0, _, updated, s => (updated, s)
  | k + 1, i, updated, s =>
    let c := s.copies which
    let entriesPerSec := c.hdr.entriesPerSec
    match convSector c (i * entriesPerSec) entriesPerSec with
    | (false, _) => convLoop bios dsk which k (i + 1) updated s
    | (true, c) =>
      let sector := Sector.ofBytes (c.tableBytes (i * entriesPerSec))
      convLoop bios dsk which k (i + 1) true (drvwrite bios (s.setCopy which c) dsk sector (c.hdr.lbaTable + i)).2

/-- The bound of the outer loop is computed in 64 bits; when it wraps no sector is visited. -/
def convSectors (hdr : Hdr) : Nat :=
  if hdr.lbaTable + hdr.entries / hdr.entriesPerSec < 2 ^ 64 then hdr.entries / hdr.entriesPerSec else 0

def gptbootconv (bios : Bios) (s : State) (dsk : Dsk) (which : Which) : State :=
  match convLoop bios dsk which (convSectors (s.copies which).hdr) 0 false s with
  | (false, s) => s
  | (true, s) => writeHdr bios s dsk which

/-- The inner loop of gptread_table: `k` entries of a sector to the table from `nent` on. -/
def copyEnts (secbuf : Sector) (nent : Nat) : Nat → Copy → Copy
  | 0, c => c
  | k + 1, c => (copyEnts secbuf nent k c).setEnt (nent + k) (Ent.ofSector secbuf k)

/-- The outer loop of gptread_table, with `slba` sectors read so far. What was read before
an error stays in the table. -/
def tableLoop (bios : Bios) (disk : Nat × Nat → Sector) (dsk : Dsk) : (fuel slba nent : Nat) → Copy → Bool × Copy
  | 0, _, _, c => (true, c)
  | fuel + 1, slba, nent, c =>
    match drvread bios disk dsk ((c.hdr.lbaTable + slba) % 2 ^ 64) with
    | none => (false, c)
    | some secbuf =>
      let part := min c.hdr.entriesPerSec (c.hdr.entries - nent)
      let c := copyEnts secbuf nent part c
      if c.hdr.entries ≤ nent + part then (true, c)
      else tableLoop bios disk dsk fuel (slba + 1) (nent + part) c

def gptreadTable (bios : Bios) (disk : Nat × Nat → Sector) (dsk : Dsk) (c : Copy) : Int × Copy :=
  if c.hdr.entries = 0 then (0, c)
  else
    match tableLoop bios disk dsk c.hdr.entries 0 0 c with
    | (false, c) => (-1, c)
    | (true, c) => if c.crcOfTable ≠ c.hdr.crcTable then (-1, c) else (0, c)

/-- gptread_hdr followed by gptread_table, as gptread does for either copy. -/
def readCopy (bios : Bios) (disk : Nat × Nat → Sector) (dsk : Dsk) (c : Copy) (lba : Nat) : Copy :=
  match gptreadHdr bios disk dsk c lba with
  | (0, c) =>
    match gptreadTable bios disk dsk c with
    | (0, c) => { c with lba := c.hdr.lbaSelf }
    | (_, c) => { c with lba := 0 }
  | (_, c) => { c with lba := 0 }

def convCopy (bios : Bios) (dsk : Dsk) (which : Which) (s : State) : State :=
  if (s.copies which).lba ≠ 0 then gptbootconv bios s dsk which else s

/-- Where gptread looks for the backup header once it has tried the primary. -/
def altlba (bios : Bios) (dsk : Dsk) (primary : Copy) : Nat :=
  if 0 < primary.lba then primary.hdr.lbaAlt else drvsize bios dsk - 1

/-- The first half of gptread: both copies are read and the one to use is chosen. -/
def readCopies (bios : Bios) (s : State) (dsk : Dsk) : State :=
  let primary := readCopy bios s.disk dsk (s.copies .primary) 1
  let backup := s.copies .backup
  let alt := altlba bios dsk primary
  let backup := if alt = 0 then { backup with lba := 0 } else readCopy bios s.disk dsk backup alt
  { s with
    copies := fun | .primary => primary | .backup => backup
    active := if 0 < primary.lba then .primary else if 0 < backup.lba then .backup else s.active
    curent := -1
    bootonce := true }

def gptread (bios : Bios) (s : State) (dsk : Dsk) : Int × State × Dsk :=
  let s := convCopy bios dsk .backup (convCopy bios dsk .primary (readCopies bios s dsk))
  (if (s.copies .primary).lba = 0 ∧ (s.copies .backup).lba = 0 then -1 else 0, s, { dsk with start := 0 })

end Pcbsd.Gpt
