import Pcbsd.Proofs.GptCrash

/-! Entries that were tried in vain: gptread turns BOOTONCE alone into BOOTFAILED in both copies. The loop goes over
the whole sectors of the table, as many as hdr_entries fill. -/

namespace Pcbsd.Proofs.StaleMarks
open Lib Crc32 Gpt Proofs.GptImage Proofs.GptMemory Proofs.GptCrash

variable {bios : Bios} {s : State} {dsk : Dsk} {p : Place} {which w : Which}

variable {off : Nat} {room : off + 4 ≤ 96} {e : Ent} {h : Hdr} {v : Nat}

theorem shaped_setWord (shaped : Shaped p h) (checksum : off = 16 ∨ off = 88) :
    Shaped p (h.setWord off v room) where
  entsz := (congrArg leNat (slice_setWord (by omega))).trans shaped.entsz
  entries := (congrArg leNat (slice_setWord (by omega))).trans shaped.entries
  most := shaped.most
  table := (congrArg leNat (slice_setWord (by omega))).trans shaped.table

theorem lbaSelf_setWord (checksum : off = 16 ∨ off = 88) :
    (h.setWord off v room).lbaSelf = h.lbaSelf := congrArg leNat (slice_setWord (by omega))

theorem writeHdr_tabled (works : ∀ n, bios.writes n = true) (drive : dsk.drive = p.drive)
    (self : (s.copies which).hdr.lbaSelf = p.lba) (own : ∀ i < tableSectors p.entries, p.sector i ≠ p.header)
    (tabled : Tabled p s.disk (s.copies which)) :
    ∃ ws, Updates p which s (writeHdr bios s dsk which) ws ∧
      Tabled p (writeHdr bios s dsk which).disk ((writeHdr bios s dsk which).copies which) ∧
      ((writeHdr bios s dsk which).copies which).table = (s.copies which).table := by
  rw [writeHdr]
  generalize s.copies which = c at self tabled ⊢
  have shaped := tabled.shaped
  generalize written : ((c.hdr.setCrcTable c.crcOfTable).setCrcSelf 0).setCrcSelf
    (crc32 (c.hdrBytes ((c.hdr.setCrcTable c.crcOfTable).setCrcSelf 0))).toNat = h
  have shaped' : Shaped p h := by
    rw [← written]
    exact shaped_setWord (shaped_setWord (shaped_setWord shaped (.inr rfl)) (.inl rfl)) (.inl rfl)
  have self' : h.lbaSelf = p.lba := by
    rw [← written]
    exact (lbaSelf_setWord (.inl rfl)).trans
      ((lbaSelf_setWord (.inl rfl)).trans ((lbaSelf_setWord (.inr rfl)).trans self))
  rw [self']
  have header : (dsk.drive, p.lba) = p.header := by rw [Place.header, drive]
  have inside : (dsk.drive, p.lba) ∈ p.footprint := .inl header
  obtain ⟨updates, _, copy, disk⟩ :=
    write_updates which works s { c with hdr := h } (Sector.ofBytes (c.hdrBytes h)) inside
  refine ⟨_, updates, ?_, by rw [copy]⟩
  rw [copy, disk, header]
  refine ⟨shaped', fun i less => (tabled.agree i less).trans (diskEnt_congr ?_)⟩
  exact (Function.update_of_ne (own _ (by simp only [tableSectors]; omega)) _ _).symm

/-- gptbootconv brings memory and disk to the same table, with the entries of whole sectors converted. -/
theorem gptbootconv_tabled (works : ∀ n, bios.writes n = true) (drive : dsk.drive = p.drive)
    (self : (s.copies which).hdr.lbaSelf = p.lba) (own : ∀ i < tableSectors p.entries, p.sector i ≠ p.header)
    (tabled : Tabled p s.disk (s.copies which)) :
    ∃ ws, Updates p which s (gptbootconv bios s dsk which) ws ∧
      Tabled p (gptbootconv bios s dsk which).disk ((gptbootconv bios s dsk which).copies which) ∧
      ∀ j, ((gptbootconv bios s dsk which).copies which).ent j =
        if Convertible (s.copies which).hdr (s.copies which).ent j then ((s.copies which).ent j).fail
          else (s.copies which).ent j := by
  obtain ⟨_, _⟩ := convSectors_fits tabled.shaped
  have loop := convLoop_spec works drive (convSectors (s.copies which).hdr) 0 false s tabled (by omega) (by omega) _ rfl
  simp only [Nat.zero_add, Nat.mul_zero, Nat.zero_le, true_and] at loop
  obtain ⟨⟨ws, updates⟩, converted, ⟨header, _⟩, _, _, _, ents⟩ := loop
  rw [gptbootconv]
  rcases done : convLoop bios dsk which (convSectors (s.copies which).hdr) 0 false s with ⟨updated, _⟩
  rw [done] at updates converted header ents
  cases updated with
  | false => exact ⟨ws, updates, converted, ents⟩
  | true =>
    obtain ⟨_, updates', tabled', table⟩ := writeHdr_tabled works drive (by rw [header]; exact self) own converted
    refine ⟨_, updates.trans updates', tabled', fun j => ?_⟩
    rw [Copy.ent, table]
    exact ents j

def taken (bios : Bios) (s : State) (dsk : Dsk) (w : Which) : Copy := (readCopies bios s dsk).copies w

def hdrPlace (dsk : Dsk) (h : Hdr) : Place := ⟨dsk.drive, h.lbaSelf, h.lbaTable, h.entries, h.lbaAlt⟩

def place (bios : Bios) (s : State) (dsk : Dsk) (w : Which) : Place := hdrPlace dsk (taken bios s dsk w).hdr

/-- The copies that gptread takes have entries of 128 bytes, and no header or table lies on another. -/
structure ValidGpt (bios : Bios) (s : State) (dsk : Dsk) : Prop where
  entsz : ∀ w, (taken bios s dsk w).lba ≠ 0 → (taken bios s dsk w).hdr.entsz = 128
  own : ∀ w, (taken bios s dsk w).lba ≠ 0 → ∀ i < tableSectors (place bios s dsk w).entries,
    (place bios s dsk w).sector i ≠ (place bios s dsk w).header
  apart : (taken bios s dsk .primary).lba ≠ 0 → (taken bios s dsk .backup).lba ≠ 0 →
    ∀ x ∈ (place bios s dsk .primary).footprint, x ∉ (place bios s dsk .backup).footprint

theorem readCopy_tabled (bios : Bios) (d : Nat × Nat → Sector) (dsk : Dsk) (c : Copy) (lba : Nat)
    (used : (readCopy bios d dsk c lba).lba ≠ 0) (entsz : (readCopy bios d dsk c lba).hdr.entsz = 128) :
    Tabled (hdrPlace dsk (readCopy bios d dsk c lba).hdr) d (readCopy bios d dsk c lba) := by
  have most := readCopy_most bios d dsk c lba used
  rw [readCopy] at used entsz most ⊢
  split at used
  next c' head =>
    split at used
    next c'' tail =>
      have header : c''.hdr = c'.hdr := by
        have same := gptreadTable_reloaded bios d dsk c'
        rw [tail] at same
        exact same.hdr
      simp only [head, tail] at entsz most ⊢
      rw [header] at entsz most
      have perSec : c'.hdr.entriesPerSec = 4 := by rw [Hdr.entriesPerSec, entsz]; rfl
      obtain ⟨_, loaded⟩ := gptreadTable_slot bios d dsk (by rw [perSec]; decide) most (by rw [tail])
      rw [tail] at loaded
      refine ⟨⟨by rw [header]; exact entsz, rfl, by rw [header]; exact most, rfl⟩, fun i less => ?_⟩
      have less' : i < c'.hdr.entries := header ▸ less
      refine (loaded i less').trans ?_
      rw [slot, perSec, diskEnt, Place.sector, hdrPlace, header]
    next => exact absurd rfl used
  next => exact absurd rfl used

theorem taken_tabled (used : (taken bios s dsk w).lba ≠ 0) (entsz : (taken bios s dsk w).hdr.entsz = 128) :
    Tabled (place bios s dsk w) s.disk (taken bios s dsk w) := by
  cases w with
  | primary => exact readCopy_tabled bios s.disk dsk _ 1 used entsz
  | backup =>
    rw [place]
    simp only [taken, readCopies] at used entsz ⊢
    split at used
    next => exact absurd rfl used
    next located =>
      rw [if_neg located] at entsz ⊢
      exact readCopy_tabled bios s.disk dsk _ _ used entsz

theorem Tabled.locality {p : Place} {d d' : Nat × Nat → Sector} {c : Copy} (same : ∀ x ∈ p.footprint, d x = d' x)
    (tabled : Tabled p d c) :
    Tabled p d' c := by
  refine ⟨tabled.shaped, fun i less => (tabled.agree i less).trans (diskEnt_congr (same _ ?_))⟩
  exact .inr ⟨i / 4, by simp only [tableSectors]; omega, rfl⟩

theorem ValidGpt.outside (valid : ValidGpt bios s dsk) {v : Which} (other : w ≠ v)
    (used : (taken bios s dsk w).lba ≠ 0) (used' : (taken bios s dsk v).lba ≠ 0) :
    ∀ x ∈ (place bios s dsk w).footprint, x ∉ (place bios s dsk v).footprint := by
  intro x inside inside'
  cases w with
  | primary =>
    cases v with
    | primary => exact other rfl
    | backup => exact valid.apart used used' x inside inside'
  | backup =>
    cases v with
    | primary => exact valid.apart used' used x inside' inside
    | backup => exact other rfl

theorem convCopy_tabled (works : ∀ n, bios.writes n = true) (valid : ValidGpt bios s dsk) (v : Which) {t : State}
    (same : t.copies v = taken bios s dsk v)
    (tabled : ∀ w, (taken bios s dsk w).lba ≠ 0 → Tabled (place bios s dsk w) t.disk (t.copies w)) :
    (∀ w, (taken bios s dsk w).lba ≠ 0 →
      Tabled (place bios s dsk w) (convCopy bios dsk v t).disk ((convCopy bios dsk v t).copies w)) ∧
    (∀ w, w ≠ v → (convCopy bios dsk v t).copies w = t.copies w) ∧
    ((taken bios s dsk v).lba ≠ 0 → ∀ j, ((convCopy bios dsk v t).copies v).ent j =
      if Convertible (taken bios s dsk v).hdr (taken bios s dsk v).ent j then ((taken bios s dsk v).ent j).fail else
        (taken bios s dsk v).ent j) := by
  rw [convCopy, same]
  by_cases used : (taken bios s dsk v).lba ≠ 0
  · rw [if_pos used]
    have self : (t.copies v).hdr.lbaSelf = (place bios s dsk v).lba := by rw [same]; rfl
    obtain ⟨_, updates, here, ents⟩ := gptbootconv_tabled works rfl self (valid.own v used) (tabled v used)
    rw [same] at ents
    refine ⟨fun w used' => ?_, updates.other, fun _ => ents⟩
    by_cases it : w = v
    · exact it ▸ here
    · rw [updates.other w it]
      refine Tabled.locality (fun x inside => ?_) (tabled w used')
      rw [updates.disk]
      refine (TwoCopies.apply_outside fun write written equal => ?_).symm
      exact valid.outside it used' used x inside (equal ▸ updates.inside write written)
  · rw [if_neg used]
    exact ⟨tabled, fun _ _ => rfl, fun used' => absurd used' used⟩

theorem gptread_tabled (works : ∀ n, bios.writes n = true) (valid : ValidGpt bios s dsk)
    (used : (taken bios s dsk w).lba ≠ 0) :
    Tabled (place bios s dsk w) (gptread bios s dsk).2.1.disk ((gptread bios s dsk).2.1.copies w) ∧
    ∀ j, ((gptread bios s dsk).2.1.copies w).ent j =
      if Convertible (taken bios s dsk w).hdr (taken bios s dsk w).ent j then ((taken bios s dsk w).ent j).fail else
        (taken bios s dsk w).ent j := by
  obtain ⟨first, others, ents⟩ := convCopy_tabled works valid .primary
    (t := readCopies bios s dsk) rfl fun w used => taken_tabled used (valid.entsz w used)
  have backup := others .backup (by decide)
  obtain ⟨second, others', ents'⟩ := convCopy_tabled works valid .backup backup first
  refine ⟨second w used, ?_⟩
  cases w with
  | primary =>
    have primary := others' .primary (by decide)
    intro j
    exact (congrArg (fun c => Copy.ent c j) primary).trans (ents used j)
  | backup => exact ents' used

theorem has_mark (e : Ent) {flag : BitVec 64} (some : flag ≠ 0) : (e.mark flag).has flag = true := by
  rw [Ent.has, Ent.mark, attr_setAttr]
  have absorbed : (e.attr ||| flag) &&& flag = flag := by
    ext i
    rw [BitVec.getElem_and, BitVec.getElem_or]
    cases e.attr[i] <;> cases flag[i] <;> rfl
  rw [absorbed]
  exact bne_iff_ne.mpr some

theorem bootfailed_fail (e : Ent) : e.fail.has gptEntAttrBootfailed = true := has_mark _ (by decide)

theorem isTried_of_bootfailed (failed : e.has gptEntAttrBootfailed = true) : isTried e = false := by
  by_contra tried
  have only : e.attr &&& (gptEntAttrBootme ||| gptEntAttrBootonce ||| gptEntAttrBootfailed) = gptEntAttrBootonce := by
    rw [Bool.not_eq_false] at tried
    exact eq_of_beq tried
  have none : e.attr &&& gptEntAttrBootfailed = 0 := by
    have inside : (gptEntAttrBootme ||| gptEntAttrBootonce ||| gptEntAttrBootfailed) &&& gptEntAttrBootfailed =
      gptEntAttrBootfailed :=
      by decide
    rw [← inside, ← BitVec.and_assoc, only]
    decide
  rw [Ent.has, none] at failed
  exact absurd failed (by decide)

/-- What is to become of an entry: BOOTONCE alone turns into BOOTFAILED, and nothing else changes. -/
structure Settled (before after : Ent) : Prop where
  untried : isTried after = false
  failed : isTried before = true → after.has gptEntAttrBootfailed = true ∧ after.has gptEntAttrBootonce = false
  same : isTried before = false → after = before

theorem settled_fail (tried : isTried e = true) : Settled e e.fail where
  untried := isTried_of_bootfailed (bootfailed_fail e)
  failed _ := ⟨bootfailed_fail e, bootonce_fail e⟩
  same untried := absurd (tried.symm.trans untried) (by decide)

theorem settled_self (untried : isTried e = false) : Settled e e where
  untried := untried
  failed tried := absurd (tried.symm.trans untried) (by decide)
  same _ := rfl

/-- Every entry of the copies that gptread takes is settled, in memory and on disk. -/
def MarksConverted (bios : Bios) (s : State) (dsk : Dsk) : Prop :=
  ∀ w, (taken bios s dsk w).lba ≠ 0 → ∀ i < (taken bios s dsk w).hdr.entries,
    Settled ((taken bios s dsk w).ent i) (((gptread bios s dsk).2.1.copies w).ent i) ∧
    Settled (diskEnt (place bios s dsk w) s.disk i) (diskEnt (place bios s dsk w) (gptread bios s dsk).2.1.disk i)

/-- gptread leaves no entry with BOOTONCE alone, and changes no other, exactly when there is none in the part of a
table behind its last whole sector. -/
theorem stale_marks_converted_iff (bios : Bios) (works : ∀ n, bios.writes n = true) (s : State) (dsk : Dsk)
    (valid : ValidGpt bios s dsk) :
    MarksConverted bios s dsk ↔
      ∀ w, (taken bios s dsk w).lba ≠ 0 → ∀ i, 4 * convSectors (taken bios s dsk w).hdr ≤ i →
        i < (taken bios s dsk w).hdr.entries → isTried (diskEnt (place bios s dsk w) s.disk i) = false := by
  constructor
  · intro converted w used i behind less
    have before := (taken_tabled used (valid.entsz w used)).agree i less
    obtain ⟨_, ents⟩ := gptread_tabled works valid used
    have settled := (converted w used i less).1
    rw [ents i, if_neg fun convertible => absurd convertible.1 (by omega)] at settled
    rw [← before]
    exact settled.untried
  · intro whole w used i less
    have before := (taken_tabled used (valid.entsz w used)).agree i less
    obtain ⟨after, ents⟩ := gptread_tabled works valid used
    have memory : Settled ((taken bios s dsk w).ent i) (((gptread bios s dsk).2.1.copies w).ent i) := by
      rw [ents i]
      split
      next convertible => exact settled_fail convertible.2
      next kept =>
        apply settled_self
        by_cases early : i < 4 * convSectors (taken bios s dsk w).hdr
        · by_contra tried
          exact kept ⟨early, by rwa [Bool.not_eq_false] at tried⟩
        · rw [before]
          exact whole w used i (by omega) less
    refine ⟨memory, ?_⟩
    rw [← before, ← after.agree i less]
    exact memory

def triedEnt : Ent := sampleEnt gptEntAttrBootonce

theorem sample_validGpt {ents : List Ent} (fields : ∀ w, let h := (taken sampleBios (sampleState 92 ents) sampleDsk w).hdr
      h.entsz = 128 ∧ h.entries ≤ 4 ∧ h.lbaTable = (if w = .primary then 2 else 8) ∧ h.lbaSelf = if w = .primary then 1 else 9) :
    ValidGpt sampleBios (sampleState 92 ents) sampleDsk := by
  have header : ∀ w, (place sampleBios (sampleState 92 ents) sampleDsk w).header = (128, if w = .primary then 1 else 9) :=
    fun w => Prod.ext rfl (fields w).2.2.2
  have sector : ∀ w, ∀ i < tableSectors (place sampleBios (sampleState 92 ents) sampleDsk w).entries,
      (place sampleBios (sampleState 92 ents) sampleDsk w).sector i = (128, if w = .primary then 2 else 8) := by
    intro w i less
    obtain ⟨_, few, table, _⟩ := fields w
    have few' : (place sampleBios (sampleState 92 ents) sampleDsk w).entries ≤ 4 := few
    obtain rfl : i = 0 := by simp only [tableSectors] at less; omega
    have table' : (place sampleBios (sampleState 92 ents) sampleDsk w).table = if w = .primary then 2 else 8 := table
    rw [Place.sector, table']
    cases w <;> rfl
  constructor
  case entsz => exact fun w _ => (fields w).1
  case own =>
    intro w _ i less
    rw [header, sector w i less]
    cases w <;> decide
  case apart =>
    intro _ _
    rintro _ (rfl | ⟨i, less, rfl⟩) (same | ⟨j, less', same⟩)
    · rw [header, header] at same; exact absurd same (by decide)
    · rw [header, sector _ j less'] at same; exact absurd same (by decide)
    · rw [header, sector _ i less] at same; exact absurd same (by decide)
    · rw [sector _ i less, sector _ j less'] at same; exact absurd same (by decide)

/-- A table of one entry fills no sector: the entry keeps BOOTONCE. -/
theorem lone_mark_stays :
    ValidGpt sampleBios (sampleState 92 [triedEnt]) sampleDsk ∧ (gptread sampleBios (sampleState 92 [triedEnt]) sampleDsk).1 = 0 ∧
    ¬ MarksConverted sampleBios (sampleState 92 [triedEnt]) sampleDsk := by
  have fields : ∀ w, let c := taken sampleBios (sampleState 92 [triedEnt]) sampleDsk w
      (c.hdr.entsz = 128 ∧ c.hdr.entries ≤ 4 ∧
        c.hdr.lbaTable = (if w = .primary then 2 else 8) ∧ c.hdr.lbaSelf = if w = .primary then 1 else 9) ∧
      0 < c.lba ∧ c.hdr.entries = 1 ∧ convSectors c.hdr = 0 ∧ isTried (c.ent 0) = true := by
    intro w
    cases w <;> decide +kernel
  have valid := sample_validGpt fun w => (fields w).1
  obtain ⟨_, used, one, none, tried⟩ := fields .primary
  refine ⟨valid, gptread_zero used, fun converted => ?_⟩
  have settled := (converted .primary (Nat.ne_of_gt used) 0 (by rw [one]; decide)).1
  obtain ⟨_, ents⟩ := gptread_tabled (fun _ => rfl) valid (Nat.ne_of_gt used)
  rw [ents 0, if_neg fun convertible => absurd convertible.1 (by rw [none]; decide)] at settled
  rw [settled.untried] at tried
  exact absurd tried (by decide)

theorem four_marks_converted :
    MarksConverted sampleBios (sampleState 92 [triedEnt, Ent.zero, Ent.zero, triedEnt]) sampleDsk := by
  have fields : ∀ w, let c := taken sampleBios (sampleState 92 [triedEnt, Ent.zero, Ent.zero, triedEnt]) sampleDsk w
      (c.hdr.entsz = 128 ∧ c.hdr.entries ≤ 4 ∧
        c.hdr.lbaTable = (if w = .primary then 2 else 8) ∧ c.hdr.lbaSelf = if w = .primary then 1 else 9) ∧
      c.hdr.entries ≤ 4 * convSectors c.hdr := by
    intro w
    cases w <;> decide +kernel
  exact (stale_marks_converted_iff sampleBios (fun _ => rfl) _ sampleDsk (sample_validGpt fun w => (fields w).1)).mpr
    fun w _ i behind less => absurd (Nat.le_trans (fields w).2 behind) (Nat.not_le.mpr less)

end Pcbsd.Proofs.StaleMarks
