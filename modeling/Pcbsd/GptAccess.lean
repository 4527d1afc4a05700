import Pcbsd.Gpt
import Pcbsd.Lib.Traced

/-! gptread of boot/common/gpt.c with the memory it reads and writes: the sector buffer, the two headers and the two
tables. -/

namespace Pcbsd.Gpt
open Lib Crc32

inductive Region where
  | secbuf
  | hdr (which : Which)
  | table (which : Which)
  deriving DecidableEq

def Region.size : Region → Nat
  | .secbuf => devBsize
  | .hdr _ => 96
  | .table _ => maxtblents * 128

/-- `len` bytes from `off` on, read or written. -/
structure Access where
  region : Region
  off : Nat
  len : Nat
  deriving DecidableEq

def Access.Inside (a : Access) : Prop := a.off + a.len ≤ a.region.size

instance (a : Access) : Decidable a.Inside := inferInstanceAs (Decidable (_ ≤ _))

def touch (accesses : List Access) : Traced Access Unit := .tell accesses

variable (bios : Bios) (disk : Nat × Nat → Sector) (dsk : Dsk) (which : Which)

def tracedDrvread (lba : Nat) : Traced Access (Option Sector) := do
  touch [⟨.secbuf, 0, devBsize⟩]
  return drvread bios disk dsk lba

def tracedDrvwrite (s : State) (sector : Sector) (lba : Nat) : Traced Access (Bool × State) := do
  touch [⟨.secbuf, 0, devBsize⟩]
  return drvwrite bios s dsk sector lba

def tracedHdr (c : Copy) (hdrlba : Nat) : Traced Access (Int × Copy) := do
  match ← tracedDrvread bios disk dsk hdrlba with
  | none => return (-1, c)
  | some secbuf =>
    let hdr := Hdr.ofSector secbuf
    touch [⟨.secbuf, 0, 96⟩, ⟨.hdr which, 0, 96⟩]
    if hdr.sig ≠ gptHdrSig ∨ hdr.lbaSelf ≠ hdrlba ∨ hdr.revision < 0x00010000 ∨ hdr.entsz < 128 ∨
        maxtblents < hdr.entries ∨ devBsize % hdr.entsz ≠ 0 then return (-1, { c with hdr })
    else
      let crc := hdr.crcSelf
      let hdr := hdr.setCrcSelf 0
      touch [⟨.hdr which, 16, 4⟩, ⟨.hdr which, 0, hdr.hdrSize⟩]
      if (crc32 (c.hdrBytes hdr)).toNat ≠ crc then return (-1, { c with hdr })
      else
        touch [⟨.hdr which, 16, 4⟩]
        return (0, { c with hdr := hdr.setCrcSelf crc })

def tracedEnts (secbuf : Sector) (nent : Nat) : Nat → Copy → Traced Access Copy
  | 0, c => return c
  | k + 1, c => do
    let c ← tracedEnts secbuf nent k c
    touch [⟨.secbuf, 128 * k, 128⟩, ⟨.table which, 128 * (nent + k), 128⟩]
    return c.setEnt (nent + k) (Ent.ofSector secbuf k)

def tracedTableLoop : (fuel slba nent : Nat) → Copy → Traced Access (Bool × Copy)
  | 0, _, _, c => return (true, c)
  | fuel + 1, slba, nent, c => do
    match ← tracedDrvread bios disk dsk ((c.hdr.lbaTable + slba) % 2 ^ 64) with
    | none => return (false, c)
    | some secbuf =>
      let part := min c.hdr.entriesPerSec (c.hdr.entries - nent)
      let c ← tracedEnts which secbuf nent part c
      if c.hdr.entries ≤ nent + part then return (true, c)
      else tracedTableLoop fuel (slba + 1) (nent + part) c

def tracedTable (c : Copy) : Traced Access (Int × Copy) := do
  touch [⟨.hdr which, 0, 96⟩]
  if c.hdr.entries = 0 then return (0, c)
  else
    match ← tracedTableLoop bios disk dsk which c.hdr.entries 0 0 c with
    | (false, c) => return (-1, c)
    | (true, c) =>
      touch [⟨.table which, 0, c.hdr.entries * c.hdr.entsz⟩]
      if c.crcOfTable ≠ c.hdr.crcTable then return (-1, c) else return (0, c)

def tracedCopy (c : Copy) (lba : Nat) : Traced Access Copy := do
  let (rc, c) ← tracedHdr bios disk dsk which c lba
  if rc = 0 then
    let (rc, c) ← tracedTable bios disk dsk which c
    return { c with lba := if rc = 0 then c.hdr.lbaSelf else 0 }
  else return { c with lba := 0 }

def tracedConvSector (c : Copy) (nent : Nat) : Nat → Traced Access (Bool × Copy)
  | 0 => return (false, c)
  | k + 1 => do
    let (updated, c) ← tracedConvSector c nent k
    touch [⟨.table which, 128 * (nent + k) + 48, 8⟩]
    if isTried (c.ent (nent + k)) then return (true, c.modifyEnt (nent + k) Ent.fail) else return (updated, c)

def tracedConvLoop : (k i : Nat) → Bool → State → Traced Access (Bool × State)
  | 0, _, updated, s => return (updated, s)
  | k + 1, i, updated, s => do
    let c := s.copies which
    let entriesPerSec := c.hdr.entriesPerSec
    match ← tracedConvSector which c (i * entriesPerSec) entriesPerSec with
    | (false, _) => tracedConvLoop k (i + 1) updated s
    | (true, c) =>
      touch [⟨.table which, 128 * (i * entriesPerSec), devBsize⟩, ⟨.secbuf, 0, devBsize⟩]
      let sector := Sector.ofBytes (c.tableBytes (i * entriesPerSec))
      let (_, s) ← tracedDrvwrite bios dsk (s.setCopy which c) sector (c.hdr.lbaTable + i)
      tracedConvLoop k (i + 1) true s

def tracedWriteHdr (s : State) : Traced Access State := do
  let c := s.copies which
  touch [⟨.table which, 0, c.hdr.entries * c.hdr.entsz⟩, ⟨.hdr which, 88, 4⟩, ⟨.hdr which, 16, 4⟩]
  let hdr := (c.hdr.setCrcTable c.crcOfTable).setCrcSelf 0
  touch [⟨.hdr which, 0, hdr.hdrSize⟩, ⟨.hdr which, 16, 4⟩]
  let hdr := hdr.setCrcSelf (crc32 (c.hdrBytes hdr)).toNat
  let s := s.setCopy which { c with hdr }
  touch [⟨.secbuf, 0, devBsize⟩, ⟨.hdr which, 0, hdr.hdrSize⟩, ⟨.secbuf, 0, hdr.hdrSize⟩]
  let (_, s) ← tracedDrvwrite bios dsk s (Sector.ofBytes (c.hdrBytes hdr)) hdr.lbaSelf
  return s

def tracedBootconv (s : State) : Traced Access State := do
  touch [⟨.hdr which, 0, 96⟩]
  match ← tracedConvLoop bios dsk which (convSectors (s.copies which).hdr) 0 false s with
  | (false, s) => return s
  | (true, s) => tracedWriteHdr bios dsk which s

def tracedConvCopy (s : State) : Traced Access State :=
  if (s.copies which).lba ≠ 0 then tracedBootconv bios dsk which s else return s

def tracedCopies (s : State) : Traced Access State := do
  let primary ← tracedCopy bios s.disk dsk .primary (s.copies .primary) 1
  let backup := s.copies .backup
  let alt := altlba bios dsk primary
  let backup ← if alt = 0 then pure { backup with lba := 0 } else tracedCopy bios s.disk dsk .backup backup alt
  return { s with
    copies := fun | .primary => primary | .backup => backup
    active := if 0 < primary.lba then .primary else if 0 < backup.lba then .backup else s.active
    curent := -1
    bootonce := true }

def tracedGptread (s : State) : Traced Access (Int × State × Dsk) := do
  let s ← tracedCopies bios dsk s
  let s ← tracedConvCopy bios dsk .primary s
  let s ← tracedConvCopy bios dsk .backup s
  return (if (s.copies .primary).lba = 0 ∧ (s.copies .backup).lba = 0 then -1 else 0, s, { dsk with start := 0 })

end Pcbsd.Gpt
