import Pcbsd.DiskGpt
import Pcbsd.Lib.Tiling
import Pcbsd.Proofs.GptImage

/-! Whether the boot blocks and the loader find the same partitions: gptread_hdr and gptread_table
against disk_readgpt and bd_open_gpt on one drive, whatever is left in the memory of the boot blocks. -/

namespace Pcbsd.DiskGpt
open Lib Crc32 Gpt Proofs.GptImage List

def saved (hdr : Hdr) (tbl : Nat → Sector) (sec k : Nat) : List GptPart :=
  (range' sec k).flatMap fun i => (usedSlots hdr (tbl i)).map (gptPart hdr i (tbl i))

section

variable {read : Nat → Option Sector} {hdr : Hdr} {tbl : Nat → Sector}

theorem countTable_saved {k sec : Nat}
    (reads : ∀ i, sec ≤ i → i < sec + k → read ((hdr.lbaTable + i) % 2 ^ 64) = some (tbl i)) (part : Nat) :
    countTable read hdr k sec part = .ok (part + (saved hdr tbl sec k).length) := by
  induction k generalizing sec part with
  | zero => rfl
  | succ k ih =>
    rw [countTable, reads sec (le_refl _) (by omega)]
    dsimp only
    rw [ih fun i low high => reads i (by omega) (by omega)]
    simp only [saved, range'_succ, flatMap_cons, length_append, length_map, Nat.add_assoc]

theorem saveTable_saved {k sec : Nat}
    (reads : ∀ i, sec ≤ i → i < sec + k → read ((hdr.lbaTable + i) % 2 ^ 64) = some (tbl i)) (gptab : List GptPart) :
    saveTable read hdr k sec gptab = .ok (gptab ++ saved hdr tbl sec k) := by
  induction k generalizing sec gptab with
  | zero => simp [saveTable, saved]
  | succ k ih =>
    rw [saveTable, reads sec (le_refl _) (by omega)]
    dsimp only
    rw [ih fun i low high => reads i (by omega) (by omega)]
    simp only [saved, range'_succ, flatMap_cons, append_assoc]

theorem readTable_saved (reads : ∀ i < walkedSectors hdr, read ((hdr.lbaTable + i) % 2 ^ 64) = some (tbl i)) :
    readTable read hdr = .ok (saved hdr tbl 0 (walkedSectors hdr)) := by
  have inside (i : Nat) (_ : 0 ≤ i) (high : i < 0 + walkedSectors hdr) := reads i (by omega)
  rw [readTable, countTable_saved inside, saveTable_saved inside]
  dsimp only
  split
  next _ => rw [eq_nil_of_length_eq_zero (by omega : (saved hdr tbl 0 (walkedSectors hdr)).length = 0)]
  next => rfl

theorem bdOpenGpt_partitions {slice partition : Int} {opened : OpenDisk}
    (done : bdOpenGpt read slice partition = .ok opened) :
    walkGpt read = .ok opened.partitions := by
  rw [bdOpenGpt] at done
  cases walked : walkGpt read with
  | error _ => simp [walked] at done
  | ok parts =>
    simp only [walked] at done
    split at done
    next => cases done; rfl
    next =>
      split at done
      next => cases done
      next =>
        split at done
        next =>
          cases found : parts.find? fun gp => gp.gpIndex = slice with
          | none => simp [found] at done
          | some gp => simp only [found] at done; cases done; rfl
        next =>
          cases found : bdBestGptpart parts with
          | none => simp [found] at done
          | some gp => simp only [found] at done; cases done; rfl

end

def hdrOf (d : Nat × Nat → Sector) (drive : Nat) : Hdr := Hdr.ofSector (d (drive, 1))

/-- The checksum of hdr_size bytes of the header's sector, with hdr_crc_self cleared. -/
def headerSum (s : Sector) : Nat :=
  (crc32 ((((Hdr.ofSector s).setCrcSelf 0).bytes ++ s.bytes.drop 96).take (Hdr.ofSector s).hdrSize)).toNat

def tableSector (hdr : Hdr) (d : Nat × Nat → Sector) (drive i : Nat) : Sector := d (drive, (hdr.lbaTable + i) % 2 ^ 64)

def tableOnDisk (hdr : Hdr) (d : Nat × Nat → Sector) (drive : Nat) : Bytes :=
  ((range ((hdr.entries + hdr.entriesPerSec - 1) / hdr.entriesPerSec)).flatMap fun i =>
    (tableSector hdr d drive i).bytes).take (hdr.entries * hdr.entsz)

/-- A protective MBR and a primary GPT of at most 128 entries that can be read, with both checksums right. -/
structure Labelled (bios : Bios) (d : Nat × Nat → Sector) (drive : Nat) : Prop where
  mbrReads : bios.reads drive 0 = true
  pmbr : checkPmbr (d (drive, 0)) = .ok ()
  hdrReads : bios.reads drive 1 = true
  fields : badHdr (hdrOf d drive) = false
  entries : (hdrOf d drive).entries ≤ maxtblents
  hdrCrc : headerSum (d (drive, 1)) = (hdrOf d drive).crcSelf
  tableReads : ∀ i, (hdrOf d drive).entriesPerSec * i < (hdrOf d drive).entries →
    bios.reads drive (((hdrOf d drive).lbaTable + i) % 2 ^ 64) = true
  tableCrc : (crc32 (tableOnDisk (hdrOf d drive) d drive)).toNat = (hdrOf d drive).crcTable

/-- The number, the type and the first sector of those of `n` entries that are in use. -/
def entParts (n : Nat) (ent : Nat → Ent) : List (Nat × Bytes × Nat) :=
  ((range n).filter fun i => used (ent i)).map fun i => (i + 1, (ent i).type, (ent i).lbaStart)

def tableParts (c : Copy) : List (Nat × Bytes × Nat) := entParts c.hdr.entries c.ent

def partKey (gp : GptPart) : Nat × Bytes × Nat := (gp.gpIndex, gp.gpType, gp.gpStart)

def bootCopy (bios : Bios) (d : Nat × Nat → Sector) (dsk : Dsk) (c : Copy) : Copy :=
  (gptreadTable bios d dsk (gptreadHdr bios d dsk c 1).2).2

/-- With `c` in memory before, the boot blocks and the loader see the same GPT: what the boot blocks accept
the loader reads in the same way, and what the loader accepts the boot blocks accept. -/
structure SameGpt (bios : Bios) (d : Nat × Nat → Sector) (dsk : Dsk) (c : Copy) : Prop where
  listed : Accepted bios d dsk c 1 → ∃ parts, diskReadgpt (drvread bios d dsk) = .ok parts ∧
    bdOpenGpt (drvread bios d dsk) (-1) 0xff = .ok ⟨parts, 0, -1⟩ ∧
    (∀ slice partition opened, bdOpenGpt (drvread bios d dsk) slice partition = .ok opened → opened.partitions = parts) ∧
    parts.map partKey = tableParts (bootCopy bios d dsk c)
  disk : ∀ parts, diskReadgpt (drvread bios d dsk) = .ok parts → Accepted bios d dsk c 1
  bd : ∀ slice partition opened, bdOpenGpt (drvread bios d dsk) slice partition = .ok opened → Accepted bios d dsk c 1

/-- The header lies in struct gpt_hdr, the entries have the size of struct gpt_ent, and none in use is past
the sectors that the loader walks. -/
structure Plain (d : Nat × Nat → Sector) (drive : Nat) : Prop where
  size : (hdrOf d drive).hdrSize ≤ 96
  entsz : (hdrOf d drive).entries = 0 ∨ (hdrOf d drive).entsz = 128
  walked : ∀ i < (hdrOf d drive).entries, 4 * walkedSectors (hdrOf d drive) ≤ i →
    used (slot (hdrOf d drive) d drive i) = false

section

variable {bios : Bios} {d : Nat × Nat → Sector} {dsk : Dsk}

theorem walkedSectors_le (hdr : Hdr) : walkedSectors hdr ≤ hdr.entries / hdr.entriesPerSec := by
  rw [walkedSectors]
  split <;> omega

variable {hdr : Hdr} {n j : Nat}

theorem entsz_of_fields (fields : badHdr hdr = false) : hdr.entsz = 128 ∨ hdr.entsz = 256 ∨ hdr.entsz = 512 := by
  simp only [badHdr, decide_eq_false_iff_not, not_or, not_lt, not_not] at fields
  obtain ⟨-, -, -, least, divides⟩ := fields
  obtain ⟨q, product⟩ := Nat.dvd_of_mod_eq_zero divides
  have few : 128 * q ≤ 512 := (Nat.mul_le_mul_right q least).trans_eq product.symm
  have some : q = 1 ∨ q = 2 ∨ q = 3 ∨ q = 4 := by
    rw [devBsize] at product
    rcases Nat.eq_zero_or_pos q with rfl | _
    · omega
    · omega
  rw [devBsize] at product
  rcases some with rfl | rfl | rfl | rfl <;> omega

theorem perSec_positive (fields : badHdr hdr = false) : 0 < hdr.entriesPerSec := by
  rw [Hdr.entriesPerSec]
  rcases entsz_of_fields fields with size | size | size <;> rw [size] <;> decide

variable (gpt : Labelled bios d dsk.drive)

include gpt

theorem walkGpt_labelled :
    walkGpt (drvread bios d dsk) =
      .ok (saved (hdrOf d dsk.drive) (tableSector (hdrOf d dsk.drive) d dsk.drive) 0 (walkedSectors (hdrOf d dsk.drive))) := by
  have first : drvread bios d dsk 0 = some (d (dsk.drive, 0)) := by rw [drvread, if_pos gpt.mbrReads]
  have second : drvread bios d dsk 1 = some (d (dsk.drive, 1)) := by rw [drvread, if_pos gpt.hdrReads]
  rw [walkGpt, first]
  dsimp only
  rw [gpt.pmbr, second]
  dsimp only
  rw [show badHdr (Hdr.ofSector (d (dsk.drive, 1))) = false from gpt.fields]
  refine readTable_saved fun i less => ?_
  have inside : (hdrOf d dsk.drive).entriesPerSec * i < (hdrOf d dsk.drive).entries := by
    have sectors := lt_of_lt_of_le less (walkedSectors_le _)
    exact lt_of_lt_of_le (Nat.mul_lt_mul_of_pos_left sectors (perSec_positive gpt.fields))
      (Nat.mul_div_le _ _)
  exact (if_pos (gpt.tableReads i inside))

theorem gptreadHdr_labelled (c : Copy) :
    gptreadHdr bios d dsk c 1 =
      if (crc32 (c.hdrBytes ((hdrOf d dsk.drive).setCrcSelf 0))).toNat ≠ (hdrOf d dsk.drive).crcSelf then
        (-1, withHdr c ((hdrOf d dsk.drive).setCrcSelf 0))
      else (0, withHdr c (hdrOf d dsk.drive)) := by
  have fields := gpt.fields
  have entries := gpt.entries
  simp only [badHdr, decide_eq_false_iff_not, not_or, not_lt, not_not] at fields
  obtain ⟨sig, self, revision, least, divides⟩ := fields
  rw [gptreadHdr, drvread, if_pos gpt.hdrReads]
  dsimp only
  rw [if_neg, setCrcSelf_setCrcSelf, setCrcSelf_crcSelf]
  · rfl
  · simp only [not_or, not_lt, not_not]
    exact ⟨sig, self, revision, least, entries, divides⟩

theorem accepted_iff (c : Copy) :
    Accepted bios d dsk c 1 ↔ (crc32 (c.hdrBytes ((hdrOf d dsk.drive).setCrcSelf 0))).toNat =
      (hdrOf d dsk.drive).crcSelf ∧ (gptreadTable bios d dsk (withHdr c (hdrOf d dsk.drive))).1 = 0 := by
  rw [Accepted, gptreadHdr_labelled gpt]
  split
  next differs => exact iff_of_false (fun both => absurd both.1 (by simp)) fun both => differs both.1
  next equal => exact ⟨fun both => ⟨not_not.mp equal, both.2⟩, fun both => ⟨rfl, both.2⟩⟩

theorem bootCopy_eq {c : Copy} (accepted : Accepted bios d dsk c 1) :
    bootCopy bios d dsk c = (gptreadTable bios d dsk (withHdr c (hdrOf d dsk.drive))).2 := by
  rw [bootCopy, gptreadHdr_labelled gpt, if_neg (not_not.mpr ((accepted_iff gpt c).mp accepted).1)]

omit gpt

theorem gptreadTable_slots (bios : Bios) (d : Nat × Nat → Sector) (dsk : Dsk) {c : Copy}
    (positive : 0 < c.hdr.entriesPerSec) (most : c.hdr.entries ≤ maxtblents) (some : c.hdr.entries ≠ 0)
    (reads : ∀ i, c.hdr.entriesPerSec * i < c.hdr.entries → bios.reads dsk.drive ((c.hdr.lbaTable + i) % 2 ^ 64) = true) :
    ∃ c', Reloaded c c' ∧ (∀ i, c'.ent i = if i < c.hdr.entries then slot c.hdr d dsk.drive i else c.ent i) ∧
      gptreadTable bios d dsk c = if c'.crcOfTable ≠ c.hdr.crcTable then (-1, c') else (0, c') := by
  have spec := tableLoop_slots bios d dsk c.hdr.entries 0 c positive most
    (by rw [Nat.mul_zero]; exact Nat.pos_of_ne_zero some) (Nat.le_add_left ..)
  rw [Nat.mul_zero] at spec
  rw [gptreadTable, if_neg some]
  rcases walk : tableLoop bios d dsk c.hdr.entries 0 0 c with ⟨flag, c'⟩
  rw [walk] at spec
  obtain ⟨same, success, loaded⟩ := spec
  obtain rfl : flag = true := success.mpr fun i _ inside => reads i inside
  refine ⟨c', same, fun i => ?_, ?_⟩
  · simpa only [Nat.zero_le, true_and] using loaded rfl i
  · dsimp only
    rw [same.hdr]

theorem gptreadTable_labelled (gpt : Labelled bios d dsk.drive) (some : (hdrOf d dsk.drive).entries ≠ 0) (c : Copy) :
    ∃ c', Reloaded (withHdr c (hdrOf d dsk.drive)) c' ∧
      (∀ i, c'.ent i = if i < (hdrOf d dsk.drive).entries then slot (hdrOf d dsk.drive) d dsk.drive i else c.ent i) ∧
      gptreadTable bios d dsk (withHdr c (hdrOf d dsk.drive)) =
        if c'.crcOfTable ≠ (hdrOf d dsk.drive).crcTable then (-1, c') else (0, c') :=
  @gptreadTable_slots bios d dsk (withHdr c (hdrOf d dsk.drive)) (perSec_positive gpt.fields) gpt.entries some
    gpt.tableReads

/-- The bytes of a table that was read up to entry `n`: what was read, and behind it what was there before. -/
theorem tableBytes_reloaded {c c' : Copy} (behind : c'.tableBehind = c.tableBehind) (most : n ≤ maxtblents)
    (kept : ∀ i, n ≤ i → c'.ent i = c.ent i) : c'.tableBytes 0 = entBytes n c'.ent ++ c.tableBytes n := by
  have rest : c'.table.drop n = c.table.drop n := by
    apply ext_getElem (by rw [length_drop, length_drop, c.size, c'.size])
    intro i first second
    have same := kept (n + i) (Nat.le_add_right ..)
    have inside : n + i < c.table.length := by simpa using Nat.add_lt_of_lt_sub' (by simpa using second)
    have inside' : n + i < c'.table.length := by rwa [c'.size, ← c.size]
    simpa [Copy.ent, inside, inside'] using same
  have first : (c'.table.take n).flatMap Ent.bytes = entBytes n c'.ent := by
    rw [← entBytes_table c' most, Copy.tableBytes, drop_zero, take_flatMap (fun e => e.size) _ (by rw [c'.size]; exact most)]
  calc c'.tableBytes 0 = (c'.table.take n ++ c'.table.drop n).flatMap Ent.bytes ++ c'.tableBehind := by
        rw [take_append_drop, Copy.tableBytes, drop_zero]
    _ = (c'.table.take n).flatMap Ent.bytes ++ ((c'.table.drop n).flatMap Ent.bytes ++ c'.tableBehind) := by
        rw [flatMap_append, append_assoc]
    _ = entBytes n c'.ent ++ c.tableBytes n := by rw [first, rest, behind, Copy.tableBytes]

theorem length_entBytes (n : Nat) (ent : Nat → Ent) : (entBytes n ent).length = n * 128 := by
  rw [entBytes, length_flatMap_of_sized (fun i => (ent i).size), length_range]

theorem exists_behind (most : n ≤ maxtblents) : ∃ rest, ∀ a : UInt8, ∃ c : Copy, c.hdrBehind =
    [] ∧ c.tableBytes n = a :: rest := by
  rcases Nat.lt_or_eq_of_le most with _ | rfl
  · let marked (a : UInt8) : Ent := ⟨a :: replicate 127 0, by simp⟩
    let others := replicate (maxtblents - n - 1) Ent.zero
    have size (a : UInt8) : (replicate n Ent.zero ++ marked a :: others).length = maxtblents := by
      simp only [others, length_append, length_replicate, length_cons]
      omega
    refine ⟨replicate 127 0 ++ others.flatMap Ent.bytes, fun a =>
      ⟨{ sampleCopy with table := replicate n Ent.zero ++ marked a :: others, size := size a }, rfl, ?_⟩⟩
    rw [Copy.tableBytes, drop_left' (by simp), flatMap_cons]
    exact append_nil _
  · exact ⟨[], fun a => ⟨{ sampleCopy with tableBehind := [a] }, rfl, rfl⟩⟩

theorem hdrSize_of_accepted (gpt : Labelled bios d dsk.drive) (accepted : ∀ c, Accepted bios d dsk c 1) :
    (hdrOf d dsk.drive).hdrSize ≤ 96 := by
  by_contra large
  have sum (a : UInt8) : (crc32 (((hdrOf d dsk.drive).setCrcSelf 0).bytes ++ a :: [])).toNat =
    (hdrOf d dsk.drive).crcSelf := by
    have equal := ((accepted_iff gpt _).mp (accepted { sampleCopy with hdrBehind := [a] })).1
    rw [Copy.hdrBytes, hdrSize_setCrcSelf, take_of_length_le] at equal
    · exact equal
    · rw [length_append, Hdr.size, length_singleton]
      omega
  exact absurd (crc32_one_byte (UInt32.toNat_inj.mp ((sum 0).trans (sum 1).symm))) (by decide)

theorem entsz_of_accepted (gpt : Labelled bios d dsk.drive) (accepted : ∀ c, Accepted bios d dsk c 1) :
    (hdrOf d dsk.drive).entries = 0 ∨ (hdrOf d dsk.drive).entsz = 128 := by
  by_contra neither
  rw [not_or] at neither
  obtain ⟨some, _⟩ := neither
  have large : 256 ≤ (hdrOf d dsk.drive).entsz := by
    have sizes := entsz_of_fields gpt.fields
    omega
  obtain ⟨rest, behind⟩ := exists_behind gpt.entries
  set hdr := hdrOf d dsk.drive
  have room : hdr.entries * 128 + 1 ≤ hdr.entries * hdr.entsz := by
    have := Nat.mul_le_mul_left hdr.entries large
    omega
  have sum (a : UInt8) : (crc32 (entBytes hdr.entries (slot hdr d dsk.drive) ++
      a :: rest.take (hdr.entries * hdr.entsz - hdr.entries * 128 - 1))).toNat = hdr.crcTable := by
    obtain ⟨c, -, first⟩ := behind a
    have table := ((accepted_iff gpt c).mp (accepted c)).2
    obtain ⟨c', same, ents, read⟩ := gptreadTable_labelled gpt some c
    have kept (i : Nat) (beyond : hdr.entries ≤ i) : c'.ent i = c.ent i := by rw [ents, if_neg (not_lt.mpr beyond)]
    have memory : c'.tableBytes 0 = entBytes hdr.entries (slot hdr d dsk.drive) ++ a :: rest := by
      rw [tableBytes_reloaded same.tableBehind gpt.entries kept, entBytes_congr fun i less => by rw [ents, if_pos less], ← first]
      rfl
    rw [read] at table
    split at table
    next => cases table
    next equal =>
      have length := length_entBytes hdr.entries (slot hdr d dsk.drive)
      have more : hdr.entries * hdr.entsz - hdr.entries * 128 = (hdr.entries * hdr.entsz - hdr.entries * 128 - 1) + 1 := by omega
      rw [not_not, Copy.crcOfTable, same.hdr, memory, take_append, length, take_of_length_le] at equal
      · change (crc32 (_ ++ (a :: rest).take (hdr.entries * hdr.entsz - hdr.entries * 128))).toNat = hdr.crcTable at equal
        rwa [more, take_succ_cons] at equal
      · rw [length]
        exact le_of_lt room
  exact absurd (crc32_one_byte (UInt32.toNat_inj.mp ((sum 0).trans (sum 1).symm))) (by decide)

theorem ofSector_bytes (s : Sector) (less : j < 4) : (Ent.ofSector s j).bytes = slice (128 * j) 128 s.bytes := by
  have length : (slice (128 * j) 128 s.bytes).length = 128 := slice_length (by rw [s.size, devBsize]; omega)
  exact (takeD_eq_take _ (le_of_eq length.symm)).trans (take_of_length_le (le_of_eq length))

theorem slot_sector (entsz : hdr.entsz = 128) (d : Nat × Nat → Sector) (drive sec : Nat) (less : j < 4) :
    slot hdr d drive (4 * sec + j) = Ent.ofSector (tableSector hdr d drive sec) j := by
  have perSec : hdr.entriesPerSec = 4 := by rw [Hdr.entriesPerSec, entsz]; rfl
  rw [slot, perSec, tableSector, show (4 * sec + j) / 4 = sec by omega, show (4 * sec + j) % 4 = j by omega]

theorem entAt_slot (entsz : hdr.entsz = 128) (d : Nat × Nat → Sector) (drive sec : Nat) (less : j < 4) :
    entAt hdr (tableSector hdr d drive sec) j = slot hdr d drive (4 * sec + j) := by
  have offset : j * hdr.entsz = 128 * j := by rw [entsz, Nat.mul_comm]
  rw [slot_sector entsz d drive sec less]
  simp only [entAt, Ent.ofSector, offset]

theorem tableOnDisk_entBytes (entsz : hdr.entsz = 128) (d : Nat × Nat → Sector) (drive : Nat) :
    tableOnDisk hdr d drive = entBytes hdr.entries (slot hdr d drive) := by
  have perSec : hdr.entriesPerSec = 4 := by rw [Hdr.entriesPerSec, entsz]; rfl
  have sector (sec : Nat) : (tableSector hdr d drive sec).bytes =
      ((range 4).map (4 * sec + ·)).flatMap fun i => (slot hdr d drive i).bytes := by
    have size := (tableSector hdr d drive sec).size
    calc (tableSector hdr d drive sec).bytes = (tableSector hdr d drive sec).bytes.take (128 * 4) :=
          (take_of_length_le (le_of_eq size)).symm
      _ = (range 4).flatMap fun j => slice (128 * j) 128 (tableSector hdr d drive sec).bytes := (flatMap_slice ..).symm
      _ = (range 4).flatMap fun j => (slot hdr d drive (4 * sec + j)).bytes := by
          refine flatMap_congr fun j member => ?_
          rw [slot_sector entsz d drive sec (mem_range.mp member), ofSector_bytes _ (mem_range.mp member)]
      _ = _ := by rw [flatMap_map]
  have whole := take_flatMap (f := fun i => (slot hdr d drive i).bytes) (fun i => (slot hdr d drive i).size) []
    (l := range (4 * ((hdr.entries + 4 - 1) / 4))) (n := hdr.entries) (by rw [length_range]; omega)
  rw [append_nil, take_range, Nat.min_eq_left (by omega), Tiling.range_mul_comm, flatMap_assoc] at whole
  simp only [tableOnDisk, perSec, entsz, sector]
  exact whole

theorem saved_entParts (entsz : hdr.entsz = 128) (d : Nat × Nat → Sector) (drive k : Nat) :
    (saved hdr (tableSector hdr d drive) 0 k).map partKey = entParts (4 * k) (slot hdr d drive) := by
  have perSec : hdr.entriesPerSec = 4 := by rw [Hdr.entriesPerSec, entsz]; rfl
  have sector (sec : Nat) :
    ((usedSlots hdr (tableSector hdr d drive sec)).map (gptPart hdr sec (tableSector hdr d drive sec))).map partKey =
      (((range 4).map (4 * sec + ·)).filter fun i => used (slot hdr d drive i)).map
        fun i => (i + 1, (slot hdr d drive i).type, (slot hdr d drive i).lbaStart) := by
    simp only [usedSlots, perSec, filter_map, map_map]
    rw [filter_congr fun j member => by rw [entAt_slot entsz d drive sec (mem_range.mp member)]]
    refine map_congr_left fun j member => ?_
    have less : j < 4 := mem_range.mp (mem_filter.mp member).1
    simp only [Function.comp_apply, partKey, gptPart, perSec, entAt_slot entsz d drive sec less, Nat.mul_comm sec 4]
  rw [saved, ← range_eq_range', map_flatMap, entParts, Tiling.range_mul_comm, filter_flatMap, map_flatMap]
  exact flatMap_congr fun sec _ => sector sec

theorem entParts_eq_iff {m : Nat} (less : m ≤ n) (ent : Nat → Ent) :
    entParts m ent = entParts n ent ↔ ∀ i < n, m ≤ i → used (ent i) = false := by
  obtain ⟨_, rfl⟩ := Nat.exists_eq_add_of_le less
  rw [entParts, entParts, range_add, filter_append, map_append, self_eq_append_right, map_eq_nil_iff,
    filter_eq_nil_iff]
  refine ⟨fun none i less low => ?_, fun all i member => ?_⟩
  · simpa using none i (List.mem_map.mpr ⟨i - m, mem_range.mpr (by omega), by omega⟩)
  · obtain ⟨j, inside, rfl⟩ := List.mem_map.mp member
    have less := mem_range.mp inside
    simpa using all (m + j) (by omega) (by omega)

theorem plain_accepted (gpt : Labelled bios d dsk.drive) (size : (hdrOf d dsk.drive).hdrSize ≤ 96)
    (entsz : (hdrOf d dsk.drive).entries = 0 ∨ (hdrOf d dsk.drive).entsz = 128) (c : Copy) :
    Accepted bios d dsk c 1 := by
  have sum : (crc32 (c.hdrBytes ((hdrOf d dsk.drive).setCrcSelf 0))).toNat = (hdrOf d dsk.drive).crcSelf := by
    have disk := gpt.hdrCrc
    rw [headerSum, take_append_of_le_length (by rw [Hdr.size]; exact size)] at disk
    rw [hdrBytes_eq (by rwa [hdrSize_setCrcSelf]), hdrSize_setCrcSelf]
    exact disk
  refine (accepted_iff gpt c).mpr ⟨sum, ?_⟩
  by_cases none : (hdrOf d dsk.drive).entries = 0
  · rw [gptreadTable, if_pos (by exact none)]
  · obtain ⟨c', same, ents, read⟩ := gptreadTable_labelled gpt none c
    have size := entsz.resolve_left none
    have table : c'.crcOfTable = (hdrOf d dsk.drive).crcTable := by
      have header : c'.hdr = hdrOf d dsk.drive := same.hdr
      rw [Copy.crcOfTable, header, size, entBytes_table c' gpt.entries,
        entBytes_congr fun i less => by rw [ents, if_pos less], ← gpt.tableCrc, tableOnDisk_entBytes size]
    rw [read, if_neg (not_not.mpr table)]

theorem entParts_congr {ent ent' : Nat → Ent} (same : ∀ i < n, ent i = ent' i) : entParts n ent = entParts n ent' := by
  rw [entParts, entParts, filter_congr fun i member => by rw [same i (mem_range.mp member)]]
  refine map_congr_left fun i member => ?_
  rw [same i (mem_range.mp (mem_filter.mp member).1)]

theorem bootCopy_parts (gpt : Labelled bios d dsk.drive) {c : Copy} (accepted : Accepted bios d dsk c 1) :
    tableParts (bootCopy bios d dsk c) = entParts (hdrOf d dsk.drive).entries (slot (hdrOf d dsk.drive) d dsk.drive) := by
  rw [bootCopy_eq gpt accepted, tableParts]
  by_cases none : (hdrOf d dsk.drive).entries = 0
  · rw [gptreadTable, if_pos (by exact none)]
    change entParts (hdrOf d dsk.drive).entries c.ent = _
    rw [none]
    rfl
  · obtain ⟨c', same, ents, read⟩ := gptreadTable_labelled gpt none c
    have table := ((accepted_iff gpt c).mp accepted).2
    have header : c'.hdr = hdrOf d dsk.drive := same.hdr
    rw [read] at table ⊢
    split at table
    next => cases table
    next equal =>
      rw [if_neg equal, header]
      exact entParts_congr fun i less => by rw [ents, if_pos less]

theorem listed_iff (entsz : (hdrOf d dsk.drive).entries = 0 ∨ (hdrOf d dsk.drive).entsz = 128) :
    (saved (hdrOf d dsk.drive) (tableSector (hdrOf d dsk.drive) d dsk.drive) 0 (walkedSectors (hdrOf d dsk.drive))).map
      partKey = entParts (hdrOf d dsk.drive).entries (slot (hdrOf d dsk.drive) d dsk.drive) ↔
    ∀ i < (hdrOf d dsk.drive).entries, 4 * walkedSectors (hdrOf d dsk.drive) ≤ i →
      used (slot (hdrOf d dsk.drive) d dsk.drive i) = false := by
  have most := walkedSectors_le (hdrOf d dsk.drive)
  generalize hdrOf d dsk.drive = hdr at *
  rcases entsz with none | size
  · rw [none, Nat.zero_div, Nat.le_zero] at most
    rw [none, most]
    simp [saved, entParts]
  · have perSec : hdr.entriesPerSec = 4 := by rw [Hdr.entriesPerSec, size]; rfl
    rw [saved_entParts size, entParts_eq_iff (by rw [perSec] at most; omega)]

/-- The boot blocks and the loader see the same GPT, whatever was left in memory, exactly when the header
and the entries have the size of their structs and no entry in use is past the sectors the loader walks. -/
theorem same_gpt_iff (gpt : Labelled bios d dsk.drive) : (∀ c, SameGpt bios d dsk c) ↔ Plain d dsk.drive := by
  have parts := walkGpt_labelled gpt
  constructor
  · intro same
    have accepted (c : Copy) : Accepted bios d dsk c 1 := (same c).disk _ parts
    have entsz := entsz_of_accepted gpt accepted
    refine ⟨hdrSize_of_accepted gpt accepted, entsz, (listed_iff entsz).mp ?_⟩
    obtain ⟨_, walked, -, -, listed⟩ := (same sampleCopy).listed (accepted sampleCopy)
    cases walked.symm.trans parts
    rw [listed, bootCopy_parts gpt (accepted sampleCopy)]
  · intro plain c
    have accepted := plain_accepted gpt plain.size plain.entsz c
    refine ⟨fun _ => ⟨_, parts, ?_, ?_, ?_⟩, fun _ _ => accepted, fun _ _ _ _ => accepted⟩
    · rw [bdOpenGpt, parts]
      rfl
    · intro slice partition opened done
      exact Except.ok.inj ((bdOpenGpt_partitions done).symm.trans parts)
    · rw [(listed_iff plain.entsz).mpr plain.walked, bootCopy_parts gpt accepted]

end

def samplePmbr : Bytes := replicate 450 0 ++ [0xee] ++ replicate 59 0 ++ [0x55, 0xaa]

def samplePart (start : Nat) : Ent :=
  ⟨sampleUuid ++ replicate 16 0 ++ toLe 8 start ++ toLe 8 (start + 1) ++ replicate 80 0, by simp [sampleUuid]⟩

def gptDisk (ents : List Ent) : Nat × Nat → Sector := fun x =>
  if x = (128, 0) then Sector.ofBytes samplePmbr else sampleDisk 92 ents x

/-- The sums of the sample tables with one entry and with four, and what is read from them. -/
theorem samples_read :
    checkPmbr (Sector.ofBytes samplePmbr) = .ok () ∧
    ((headerSum (gptDisk [samplePart 4] (128, 1)) = (hdrOf (gptDisk [samplePart 4]) 128).crcSelf ∧
      (crc32 (tableOnDisk (hdrOf (gptDisk [samplePart 4]) 128) (gptDisk [samplePart 4]) 128)).toNat =
        (hdrOf (gptDisk [samplePart 4]) 128).crcTable) ∧
      diskReadgpt (drvread sampleBios (gptDisk [samplePart 4]) sampleDsk) = .ok [] ∧
      tableParts (bootCopy sampleBios (gptDisk [samplePart 4]) sampleDsk sampleCopy) = [(1, sampleUuid, 4)]) ∧
    (headerSum (gptDisk [samplePart 4, Ent.zero, Ent.zero, samplePart 6] (128, 1)) =
        (hdrOf (gptDisk [samplePart 4, Ent.zero, Ent.zero, samplePart 6]) 128).crcSelf ∧
      (crc32 (tableOnDisk (hdrOf (gptDisk [samplePart 4, Ent.zero, Ent.zero, samplePart 6]) 128)
        (gptDisk [samplePart 4, Ent.zero, Ent.zero, samplePart 6]) 128)).toNat =
        (hdrOf (gptDisk [samplePart 4, Ent.zero, Ent.zero, samplePart 6]) 128).crcTable) ∧
      diskReadgpt (drvread sampleBios (gptDisk [samplePart 4, Ent.zero, Ent.zero, samplePart 6]) sampleDsk) =
        .ok [⟨1, sampleUuid, 4, 5⟩, ⟨4, sampleUuid, 6, 7⟩] := by
  decide +kernel

theorem gptDisk_labelled {ents : List Ent} {n : Nat} (some : 0 < n) (few : n ≤ 4)
    (entries : (hdrOf (gptDisk ents) 128).entries = n) (perSec : (hdrOf (gptDisk ents) 128).entriesPerSec = 4)
    (table : (hdrOf (gptDisk ents) 128).lbaTable = 2) (fields : badHdr (hdrOf (gptDisk ents) 128) = false)
    (hdrCrc : headerSum (gptDisk ents (128, 1)) = (hdrOf (gptDisk ents) 128).crcSelf)
    (tableCrc : (crc32 (tableOnDisk (hdrOf (gptDisk ents) 128) (gptDisk ents) 128)).toNat =
      (hdrOf (gptDisk ents) 128).crcTable) :
    Labelled sampleBios (gptDisk ents) sampleDsk.drive where
  mbrReads := rfl
  pmbr := samples_read.1
  hdrReads := rfl
  fields := fields
  entries := entries.trans_le (few.trans (by decide))
  hdrCrc := hdrCrc
  tableReads := fun i inside => by
    rw [show sampleDsk.drive = 128 from rfl, perSec, entries] at inside
    obtain rfl : i = 0 := by omega
    rw [show sampleDsk.drive = 128 from rfl, table]
    rfl
  tableCrc := tableCrc

/-- The only entry of a table of one is seen by the boot blocks and not by the loader. -/
theorem one_entry_missed : Labelled sampleBios (gptDisk [samplePart 4]) sampleDsk.drive ∧
    ¬ SameGpt sampleBios (gptDisk [samplePart 4]) sampleDsk sampleCopy := by
  have accepted : Accepted sampleBios (gptDisk [samplePart 4]) sampleDsk sampleCopy 1 := by
    constructor <;> decide +kernel
  obtain ⟨⟨hdrCrc, tableCrc⟩, loader, boot⟩ := samples_read.2.1
  have labelled := gptDisk_labelled (n := 1) (by decide) (by decide) (by decide) (by decide) (by decide) (by decide)
    hdrCrc tableCrc
  refine ⟨labelled, fun same => ?_⟩
  obtain ⟨_, read, -, -, listed⟩ := same.listed accepted
  cases read.symm.trans loader
  rw [boot] at listed
  cases listed

theorem four_entries_same :
    let d := gptDisk [samplePart 4, Ent.zero, Ent.zero, samplePart 6]
    Plain d 128 ∧ ((∀ c, SameGpt sampleBios d sampleDsk c) ↔ Plain d 128) ∧
    diskReadgpt (drvread sampleBios d sampleDsk) = .ok [⟨1, sampleUuid, 4, 5⟩, ⟨4, sampleUuid, 6, 7⟩] := by
  obtain ⟨⟨hdrCrc, tableCrc⟩, loader⟩ := samples_read.2.2
  have labelled := gptDisk_labelled (n := 4) (by decide) (by decide) (by decide) (by decide) (by decide) (by decide)
    hdrCrc tableCrc
  refine ⟨⟨by decide, .inr (by decide), fun i less past => ?_⟩, same_gpt_iff labelled, loader⟩
  have entries : (hdrOf (gptDisk [samplePart 4, Ent.zero, Ent.zero, samplePart 6]) 128).entries = 4 := by decide
  have walked : walkedSectors (hdrOf (gptDisk [samplePart 4, Ent.zero, Ent.zero, samplePart 6]) 128) = 1 := by decide
  omega

end Pcbsd.DiskGpt
