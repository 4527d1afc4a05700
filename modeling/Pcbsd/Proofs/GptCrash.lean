import Pcbsd.Proofs.GptMemory

/-! Updates of the boot attributes and a power cut in the middle of them. Every operation
rewrites one copy of the GPT after the other, so that each prefix of its writes leaves one
copy that gptread accepts. A header is written back with hdr_size bytes only: it has to
reach over hdr_crc_table. -/

namespace Pcbsd.Proofs.GptCrash
open Lib Crc32 Gpt Proofs.GptImage Proofs.GptMemory Function

/-- The writes `ws` fall on one copy, and nothing but that copy changes in memory. -/
structure Updates (p : Place) (which : Which) (s s' : State) (ws : List ((Nat × Nat) × Sector)) : Prop where
  log : s'.log = s.log ++ ws
  disk : s'.disk = TwoCopies.apply ws s.disk
  inside : ∀ w ∈ ws, w.1 ∈ p.footprint
  other : ∀ v, v ≠ which → s'.copies v = s.copies v
  active : s'.active = s.active
  curent : s'.curent = s.curent

theorem Updates.refl (p : Place) (which : Which) (s : State) : Updates p which s s [] :=
  ⟨by simp, rfl, by simp, fun _ _ => rfl, rfl, rfl⟩

theorem Updates.trans {p : Place} {which : Which} {s s' s'' : State} {ws vs : List ((Nat × Nat) × Sector)}
    (first : Updates p which s s' ws) (second : Updates p which s' s'' vs) : Updates p which s s'' (ws ++ vs) := by
  refine ⟨?_, ?_, ?_, fun v other => (second.other v other).trans (first.other v other),
    second.active.trans first.active, second.curent.trans first.curent⟩
  · rw [second.log, first.log, List.append_assoc]
  · rw [second.disk, first.disk, TwoCopies.apply_append]
  · intro w member
    rcases List.mem_append.mp member with member | member
    · exact first.inside w member
    · exact second.inside w member

structure Placed (bios : Bios) (p : Place) : Prop where
  readable : bios.reads p.drive p.lba = true
  tableReadable : ∀ i < tableSectors p.entries, bios.reads p.drive ((p.table + i) % 2 ^ 64) = true
  own : ∀ i < tableSectors p.entries, p.sector i ≠ p.header
  positive : 0 < p.lba

section

variable {bios : Bios} {p : Place} {dsk : Dsk} {which : Which}

theorem write_updates (which : Which) (works : ∀ n, bios.writes n = true) (s : State) (c : Copy) (sector : Sector)
    {lba : Nat} (inside : (dsk.drive, lba) ∈ p.footprint) :
    Updates p which s (drvwrite bios (s.setCopy which c) dsk sector lba).2 [((dsk.drive, lba), sector)] ∧
    (drvwrite bios (s.setCopy which c) dsk sector lba).1 = true ∧
    (drvwrite bios (s.setCopy which c) dsk sector lba).2.copies which = c ∧
    (drvwrite bios (s.setCopy which c) dsk sector lba).2.disk = update s.disk (dsk.drive, lba) sector := by
  rw [drvwrite, works, if_pos rfl]
  refine ⟨⟨rfl, rfl, ?_, fun v other => ?_, rfl, rfl⟩, rfl, update_self .., rfl⟩
  · intro w member
    rw [List.mem_singleton.mp member]
    exact inside
  · exact update_of_ne other _ _

variable {s : State} {c : Copy} {i : Nat}

private theorem sector_ne {j : Nat} (differ : i ≠ j) (small : i < 32) (small' : j < 32) : p.sector i ≠ p.sector j := by
  intro same
  have := congrArg Prod.snd same
  simp only [Place.sector] at this
  omega

theorem store_tabled {d : Nat × Nat → Sector} (shaped : Shaped p c.hdr) (less : i < tableSectors p.entries)
    (agree : ∀ j < p.entries, j / 4 ≠ i → c.ent j = diskEnt p d j) :
    Tabled p (update d (p.sector i) (Sector.ofBytes (c.tableBytes (i * 4)))) c := by
  have most := shaped.most
  simp only [maxtblents, tableSectors] at most less
  refine ⟨shaped, fun j inside => ?_⟩
  by_cases here : j / 4 = i
  · rw [diskEnt, here, update_self, ofSector_tableBytes c (by omega) (by simp only [maxtblents]; omega)]
    congr 1
    omega
  · rw [agree j inside here]
    refine diskEnt_congr (update_of_ne ?_ _ _).symm
    exact sector_ne here (by omega) (by omega)

structure Intact (bios : Bios) (p : Place) (which : Which) (s : State) : Prop where
  synced : Synced p s.disk (s.copies which)
  valid : Valid bios p s.disk

variable (works : ∀ n, bios.writes n = true)

include works

theorem writeHdr_spec (drive : dsk.drive = p.drive) (placed : Placed bios p)
    (synced : Synced p s.disk (s.copies which)) (large : 92 ≤ (s.copies which).hdr.hdrSize) :
    ∃ ws, Updates p which s (writeHdr bios s dsk which) ws ∧ Intact bios p which (writeHdr bios s dsk which) ∧
      ((writeHdr bios s dsk which).copies which).hdr.hdrSize = (s.copies which).hdr.hdrSize ∧
      ((writeHdr bios s dsk which).copies which).table = (s.copies which).table := by
  rw [writeHdr]
  generalize s.copies which = c at synced large ⊢
  set first := (c.hdr.setCrcTable c.crcOfTable).setCrcSelf 0 with before
  set h := first.setCrcSelf (crc32 (c.hdrBytes first)).toNat with after
  have firstGood : Good p first := (synced.good.setCrcTable _).setCrcSelf _
  have good : Good p h := firstGood.setCrcSelf _
  have size : h.hdrSize = c.hdr.hdrSize := by simp [after, before]
  have cleared : h.setCrcSelf 0 = first := by rw [after, setCrcSelf_setCrcSelf, before, setCrcSelf_setCrcSelf]
  have crcSelf : Sealed h := by
    rw [Sealed, cleared, after, hdrSize_setCrcSelf, crcSelf_setCrcSelf _ (UInt32.toNat_lt _),
      hdrBytes_eq firstGood.size]
  have crcTable : h.crcTable = (crc32 (entBytes p.entries c.ent)).toNat := by
    rw [after, crcTable_setCrcSelf, before, crcTable_setCrcSelf, crcOfTable_eq synced.good,
      crcTable_setCrcTable _ (UInt32.toNat_lt _)]
  have self : h.lbaSelf = p.lba := good.self
  simp only [self, hdrBytes_eq good.size]
  have inside : (dsk.drive, p.lba) ∈ p.footprint := .inl (by rw [Place.header, drive])
  obtain ⟨updates, -, copy, disk⟩ := write_updates which works s { c with hdr := h }
    (Sector.ofBytes (h.bytes.take h.hdrSize)) inside
  refine ⟨_, updates, ?_, by rw [copy]; exact size, by rw [copy]⟩
  rw [show (dsk.drive, p.lba) = p.header by rw [Place.header, drive]] at disk
  generalize drvwrite bios _ dsk _ p.lba = r at copy disk
  have ents : ∀ i < p.entries, diskEnt p r.2.disk i = diskEnt p s.disk i := by
    intro i less
    refine diskEnt_congr ?_
    rw [disk]
    exact update_of_ne (placed.own _ (by simp only [tableSectors]; omega)) _ _
  have header : diskHdr p r.2.disk = Hdr.ofSector (Sector.ofBytes (h.bytes.take h.hdrSize)) := by
    rw [diskHdr, disk, update_self]
  have synced' : Synced p r.2.disk (r.2.copies which) := by
    rw [copy]
    exact ⟨synced.lba, good, fun i less => by rw [ents i less]; exact synced.agree i less⟩
  refine ⟨synced', placed.readable, header ▸ written_good good (by omega),
    header ▸ written_sealed good.size (by omega) crcSelf, placed.tableReadable, .inr ?_⟩
  have stored : (diskHdr p r.2.disk).crcTable = h.crcTable := by
    rw [header]
    exact congrArg leNat (slice_written good.size (by omega))
  rw [stored, crcTable, entBytes_congr fun i less => (ents i less).trans (synced.agree i less).symm]

theorem gptupdate_spec (drive : dsk.drive = p.drive) (placed : Placed bios p) (lba : c.lba = p.lba)
    (good : Good p c.hdr) (large : 92 ≤ c.hdr.hdrSize) (inside : s.curent.toNat < p.entries)
    (agree : ∀ j < p.entries, j ≠ s.curent.toNat → c.ent j = diskEnt p s.disk j) :
    ∃ ws, Updates p which s (gptupdate bios (s.setCopy which c) dsk which) ws ∧
      Intact bios p which (gptupdate bios (s.setCopy which c) dsk which) ∧
      ((gptupdate bios (s.setCopy which c) dsk which).copies which).hdr.hdrSize = c.hdr.hdrSize := by
  have perSec : c.hdr.entriesPerSec = 4 := by rw [Hdr.entriesPerSec, good.entsz]; rfl
  have slot : s.curent.toNat / 4 < tableSectors p.entries := by simp only [tableSectors]; omega
  have sector : (dsk.drive, (s.curent.toNat / 4 + p.table) % 2 ^ 64) = p.sector (s.curent.toNat / 4) := by
    rw [Place.sector, drive, Nat.add_comm]
  have member : (dsk.drive, (s.curent.toNat / 4 + p.table) % 2 ^ 64) ∈ p.footprint := by
    rw [sector]
    exact .inr ⟨_, slot, rfl⟩
  have copies : (s.setCopy which c).copies which = c := update_self ..
  have curent : (s.setCopy which c).curent = s.curent := rfl
  rw [gptupdate]
  simp only [copies, curent, perSec, good.table]
  obtain ⟨updates, done, copy, disk⟩ := write_updates which works s c
    (Sector.ofBytes (c.tableBytes (s.curent.toNat / 4 * 4))) member
  rw [sector] at disk
  rcases write : drvwrite bios (s.setCopy which c) dsk (Sector.ofBytes (c.tableBytes (s.curent.toNat / 4 * 4)))
    ((s.curent.toNat / 4 + p.table) % 2 ^ 64) with ⟨ok, t⟩
  rw [write] at updates done copy disk
  obtain rfl : ok = true := done
  have tabled : Tabled p t.disk (t.copies which) := by
    rw [copy, disk]
    refine store_tabled good.shaped slot fun j less other => agree j less fun same => other ?_
    rw [same]
  have synced : Synced p t.disk (t.copies which) := ⟨by rw [copy]; exact lba, by rw [copy]; exact good, tabled.agree⟩
  obtain ⟨ws, updates', intact, size, -⟩ := writeHdr_spec works drive placed synced (by rw [copy]; exact large)
  exact ⟨_, updates.trans updates', intact, by rw [size, copy]⟩

theorem updateCopy_spec (drive : dsk.drive = p.drive) (placed : Placed bios p) (f : Ent → Ent)
    (synced : Synced p s.disk (s.copies which)) (large : 92 ≤ (s.copies which).hdr.hdrSize)
    (inside : s.curent.toNat < p.entries) :
    ∃ ws, Updates p which s (updateCopy bios dsk f which s) ws ∧ Intact bios p which (updateCopy bios dsk f which s) ∧
      ((updateCopy bios dsk f which s).copies which).hdr.hdrSize = (s.copies which).hdr.hdrSize := by
  have most := synced.good.most
  rw [updateCopy, if_pos (by rw [synced.lba]; exact placed.positive)]
  refine gptupdate_spec works drive placed synced.lba synced.good large inside fun j less other => ?_
  rw [ent_modifyEnt _ _ _ _ (by omega), if_neg other]
  exact synced.agree j less

/-- The loop over the sectors of the table from sector `i` on. Without an entry to convert
it does nothing. -/
theorem convLoop_spec (drive : dsk.drive = p.drive) (k i : Nat) (flag : Bool) (s : State)
    (tabled : Tabled p s.disk (s.copies which)) (inside : 4 * (i + k) ≤ p.entries) (fits : p.table + (i + k) < 2 ^ 64)
    (header : Hdr) (same : (s.copies which).hdr = header) :
    let r := convLoop bios dsk which k i flag s
    (∃ ws, Updates p which s r.2 ws) ∧ Tabled p r.2.disk (r.2.copies which) ∧
    ((r.2.copies which).hdr = header ∧ (r.2.copies which).lba = (s.copies which).lba) ∧
    ((∀ j, 4 * i ≤ j → j < 4 * (i + k) → isTried ((s.copies which).ent j) = false) → r = (flag, s)) ∧
    ((∃ j, 4 * i ≤ j ∧ j < 4 * (i + k) ∧ isTried ((s.copies which).ent j) = true) → r.1 = true) ∧
    (flag = true → r.1 = true) ∧
    ∀ j, (r.2.copies which).ent j =
      if 4 * i ≤ j ∧ j < 4 * (i + k) ∧ isTried ((s.copies which).ent j) = true then ((s.copies which).ent j).fail
      else (s.copies which).ent j := by
  induction k generalizing i flag s with
  | zero =>
    refine ⟨⟨[], .refl ..⟩, tabled, ⟨same, rfl⟩,
      fun _ => rfl, fun ⟨j, low, high, _⟩ => by omega, fun set => set, fun j => ?_⟩
    rw [if_neg (by omega)]
    rfl
  | succ k ih =>
    have most : p.entries ≤ 128 := tabled.shaped.most
    have shaped := tabled.shaped
    have perSec := shaped.perSec
    obtain ⟨reloaded, changed, ents⟩ := convSector_spec (s.copies which) (i * 4) 4 (by simp only [maxtblents]; omega)
    rw [convLoop]
    simp only [perSec]
    rcases step : convSector (s.copies which) (i * 4) 4 with ⟨updated, c⟩
    rw [step] at reloaded changed ents
    cases updated with
    | false =>
      have untried : ∀ j, 4 * i ≤ j → j < 4 * (i + 1) → isTried ((s.copies which).ent j) = false := by
        intro j low high
        by_contra tried
        exact absurd (changed.mpr ⟨j, by omega, by omega, by simpa using tried⟩) (by simp)
      obtain ⟨updates, tabled', header', quiet, found, keep, result⟩ :=
        ih (i + 1) flag s tabled (by omega) (by omega) same
      refine ⟨updates, tabled', header', fun none => quiet fun j low high => none j (by omega) (by omega), ?_,
        keep, fun j => ?_⟩
      · rintro ⟨j, low, high, tried⟩
        refine found ⟨j, ?_, by omega, tried⟩
        by_contra early
        rw [untried j low (by omega)] at tried
        exact absurd tried (by simp)
      · rw [result]
        by_cases later : 4 * (i + 1) ≤ j
        · have range : 4 * i ≤ j ∧ j < 4 * (i + (k + 1)) ↔ 4 * (i + 1) ≤ j ∧ j < 4 * (i + 1 + k) := by omega
          simp only [← and_assoc, range]
        · rw [if_neg (by omega), if_neg]
          rintro ⟨low, -, tried⟩
          rw [untried j low (by omega)] at tried
          exact absurd tried (by simp)
    | true =>
      have header' : c.hdr = (s.copies which).hdr := reloaded.hdr
      have slot : i < tableSectors p.entries := by simp only [tableSectors]; omega
      have table : c.hdr.lbaTable + i = (p.table + i) % 2 ^ 64 := by
        rw [header', shaped.table, Nat.mod_eq_of_lt (by omega)]
      have sector : (dsk.drive, (p.table + i) % 2 ^ 64) = p.sector i := by rw [Place.sector, drive]
      have member : (dsk.drive, (p.table + i) % 2 ^ 64) ∈ p.footprint := by
        rw [sector]
        exact .inr ⟨i, slot, rfl⟩
      simp only [table]
      obtain ⟨updates, -, copy, disk⟩ := write_updates which works s c (Sector.ofBytes (c.tableBytes (i * 4))) member
      rw [sector] at disk
      generalize (drvwrite bios (s.setCopy which c) dsk (Sector.ofBytes (c.tableBytes (i * 4)))
        ((p.table + i) % 2 ^ 64)).2 = t at updates copy disk ⊢
      have tabled' : Tabled p t.disk (t.copies which) := by
        rw [copy, disk]
        refine store_tabled (header' ▸ shaped) slot fun j less other => ?_
        rw [ents, if_neg (by omega)]
        exact tabled.agree j less
      obtain ⟨⟨ws, updates'⟩, tabled'', ⟨header'', lba⟩, -, -, keep, result⟩ :=
        ih (i + 1) true t tabled' (by omega) (by omega) (by rw [copy, header', same])
      have place : c.lba = (s.copies which).lba := reloaded.lba
      refine ⟨⟨_, updates.trans updates'⟩, tabled'', ⟨header'', by rw [lba, copy, place]⟩,
        fun none => ?_, fun _ => keep rfl, fun _ => keep rfl, fun j => ?_⟩
      · obtain ⟨j, low, high, tried⟩ := changed.mp rfl
        rw [none j (by omega) (by omega)] at tried
        exact absurd tried (by simp)
      · rw [result, copy, ents]
        by_cases later : 4 * (i + 1) ≤ j
        · have range : 4 * i ≤ j ∧ j < 4 * (i + (k + 1)) ↔ 4 * (i + 1) ≤ j ∧ j < 4 * (i + 1 + k) := by omega
          rw [if_neg (c := i * 4 ≤ j ∧ j < i * 4 + 4 ∧ _) (by omega)]
          simp only [← and_assoc, range]
        · have range : 4 * i ≤ j ∧ j < 4 * (i + (k + 1)) ↔ i * 4 ≤ j ∧ j < i * 4 + 4 := by omega
          rw [if_neg (by omega)]
          simp only [← and_assoc, range]

omit works

/-- An entry that gptbootconv converts: it lies in a sector filled by the table. -/
def Convertible (h : Hdr) (ent : Nat → Ent) (j : Nat) : Prop := j < 4 * convSectors h ∧ isTried (ent j) = true

instance (h : Hdr) (ent : Nat → Ent) (j : Nat) : Decidable (Convertible h ent j) := inferInstanceAs (Decidable (_ ∧ _))

theorem convSectors_fits {h : Hdr} (shaped : Shaped p h) :
    4 * convSectors h ≤ p.entries ∧ p.table + convSectors h < 2 ^ 64 := by
  have small : h.lbaTable < 2 ^ 64 := le_lt 8 72 h.bytes
  rw [convSectors, shaped.perSec, shaped.entries, shaped.table]
  rw [shaped.table] at small
  split <;> omega

theorem gptbootconv_spec (works : ∀ n, bios.writes n = true) (drive : dsk.drive = p.drive) (placed : Placed bios p)
    (intact : Intact bios p which s)
    (large : ∀ j, Convertible (s.copies which).hdr (s.copies which).ent j → 92 ≤ (s.copies which).hdr.hdrSize) :
    ∃ ws, Updates p which s (gptbootconv bios s dsk which) ws ∧ Intact bios p which (gptbootconv bios s dsk which) ∧
      ((gptbootconv bios s dsk which).copies which).hdr.hdrSize = (s.copies which).hdr.hdrSize ∧
      ∀ j, ((gptbootconv bios s dsk which).copies which).ent j =
        if Convertible (s.copies which).hdr (s.copies which).ent j then ((s.copies which).ent j).fail
        else (s.copies which).ent j := by
  obtain ⟨_, _⟩ := convSectors_fits intact.synced.good.shaped
  have loop := convLoop_spec works drive (convSectors (s.copies which).hdr) 0 false s intact.synced.tabled (by omega)
    (by omega) _ rfl
  simp only [Nat.zero_add, Nat.mul_zero, Nat.zero_le, true_and, forall_const] at loop
  obtain ⟨⟨ws, updates⟩, tabled, ⟨header, lba⟩, quiet, found, -, ents⟩ := loop
  rw [gptbootconv]
  by_cases any : ∃ j, Convertible (s.copies which).hdr (s.copies which).ent j
  · obtain ⟨j, convertible⟩ := any
    have flag := found ⟨j, convertible⟩
    rcases done : convLoop bios dsk which (convSectors (s.copies which).hdr) 0 false s with ⟨updated, t⟩
    rw [done] at updates tabled header lba flag ents
    obtain rfl : updated = true := flag
    have synced : Synced p t.disk (t.copies which) :=
      ⟨lba.trans intact.synced.lba, header ▸ intact.synced.good, tabled.agree⟩
    obtain ⟨_, updates', intact', size, table⟩ :=
      writeHdr_spec works drive placed synced (by rw [header]; exact large j convertible)
    refine ⟨_, updates.trans updates', intact', by rw [size, header], fun i => ?_⟩
    rw [Copy.ent, table]
    exact ents i
  · have none : ∀ j, j < 4 * convSectors (s.copies which).hdr → isTried ((s.copies which).ent j) = false := by
      intro j less
      by_contra tried
      exact any ⟨j, less, by simpa using tried⟩
    rw [quiet none]
    refine ⟨[], .refl .., intact, rfl, fun j => ?_⟩
    rw [if_neg fun convertible => any ⟨j, convertible⟩]

theorem convCopy_spec (dsk : Dsk) (works : ∀ n, bios.writes n = true) (drive : dsk.drive = p.drive)
    (placed : Placed bios p) (intact : Intact bios p which s)
    (large : ∀ j, Convertible (s.copies which).hdr (s.copies which).ent j → 92 ≤ (s.copies which).hdr.hdrSize) :
    ∃ ws, Updates p which s (convCopy bios dsk which s) ws ∧ Intact bios p which (convCopy bios dsk which s) ∧
      ((convCopy bios dsk which s).copies which).hdr.hdrSize = (s.copies which).hdr.hdrSize ∧
      ∀ j, ((convCopy bios dsk which s).copies which).ent j =
        if Convertible (s.copies which).hdr (s.copies which).ent j then ((s.copies which).ent j).fail
        else (s.copies which).ent j := by
  rw [convCopy, if_pos (by rw [intact.synced.lba]; exact Nat.ne_of_gt placed.positive)]
  exact gptbootconv_spec works drive placed intact large

end

structure Layout (bios : Bios) (place : Which → Place) (drive : Nat) : Prop where
  drive : ∀ w, (place w).drive = drive
  placed : ∀ w, Placed bios (place w)
  entries : ∀ w, (place w).entries = (place .primary).entries
  apart : ∀ v w, v ≠ w → ∀ x ∈ (place v).footprint, x ∉ (place w).footprint

theorem Synced.locality {p : Place} {d d' : Nat × Nat → Sector} {c : Copy} (same : ∀ x ∈ p.footprint, d x = d' x)
    (synced : Synced p d c) : Synced p d' c := by
  refine ⟨synced.lba, synced.good, fun i less => (synced.agree i less).trans (diskEnt_congr (same _ ?_))⟩
  exact .inr ⟨i / 4, by simp only [tableSectors]; omega, rfl⟩

/-- Everything written since the disk was `d` is safe, and memory agrees with the disk. -/
structure Consistent (bios : Bios) (place : Which → Place) (d : Nat × Nat → Sector) (s : State) : Prop where
  safe : TwoCopies.Safe (image bios (place .primary)) (image bios (place .backup)) d s.log
  disk : s.disk = TwoCopies.apply s.log d
  synced : ∀ w, Synced (place w) s.disk (s.copies w)

section

variable {bios : Bios} {place : Which → Place} {d : Nat × Nat → Sector} {s s' : State}

theorem Consistent.valid (consistent : Consistent bios place d s) (w : Which) : Valid bios (place w) s.disk := by
  rw [consistent.disk]
  cases w with
  | primary => exact consistent.safe.left
  | backup => exact consistent.safe.right

theorem Consistent.intact (consistent : Consistent bios place d s) (w : Which) : Intact bios (place w) w s :=
  ⟨consistent.synced w, consistent.valid w⟩

theorem Consistent.moved (consistent : Consistent bios place d s) (curent : Int) (bootonce : Bool) :
    Consistent bios place d (moved s curent bootonce) := ⟨consistent.safe, consistent.disk, consistent.synced⟩

variable {drive : Nat} {b : Boot}

theorem Consistent.update (layout : Layout bios place drive) (consistent : Consistent bios place d s) {w : Which}
    {ws : List ((Nat × Nat) × Sector)} (updates : Updates (place w) w s s' ws) (intact : Intact bios (place w) w s') :
    Consistent bios place d s' := by
  have disk : s'.disk = TwoCopies.apply s'.log d := by
    rw [updates.disk, updates.log, TwoCopies.apply_append, consistent.disk]
  have restored : Valid bios (place w) (TwoCopies.apply ws (TwoCopies.apply s.log d)) := by
    rw [← consistent.disk, ← updates.disk]
    exact intact.valid
  refine ⟨?_, disk, fun v => ?_⟩
  · rw [updates.log]
    refine consistent.safe.append ?_
    cases w with
    | primary => exact .update consistent.safe.right updates.inside (layout.apart _ _ (by decide)) restored
    | backup => exact (TwoCopies.Safe.update (a := image bios (place .backup)) consistent.safe.left updates.inside
        (layout.apart _ _ (by decide)) restored).symm
  · by_cases same : v = w
    · exact same ▸ intact.synced
    · rw [updates.other v same]
      refine Synced.locality (fun x member => ?_) (consistent.synced v)
      rw [updates.disk]
      refine (TwoCopies.apply_outside fun write written equal => ?_).symm
      exact layout.apart w v (Ne.symm same) _ (updates.inside write written) (equal ▸ member)

/-- Between operations the primary copy is in use, and unless both headers cover
hdr_crc_table there is no BOOTONCE left that would make an operation write. -/
structure Ready (bios : Bios) (place : Which → Place) (d : Nat × Nat → Sector) (s : State) : Prop where
  consistent : Consistent bios place d s
  active : s.active = .primary
  covered : (∀ i < (place .primary).entries, ((s.copies .primary).ent i).has gptEntAttrBootonce = false) ∨
    ∀ w, 92 ≤ (s.copies w).hdr.hdrSize

theorem Ready.moved (ready : Ready bios place d s) (curent : Int) (bootonce : Bool) :
    Ready bios place d (moved s curent bootonce) :=
  ⟨ready.consistent.moved curent bootonce, ready.active, ready.covered⟩

theorem Ready.entries (ready : Ready bios place d s) : s.gpthdr.entries = (place .primary).entries := by
  rw [State.gpthdr, ready.active, (ready.consistent.synced .primary).good.entries]

theorem Ready.updateCopy (dsk : Dsk) (layout : Layout bios place dsk.drive) (works : ∀ n, bios.writes n = true)
    (ready : Ready bios place d s) (large : ∀ w, 92 ≤ (s.copies w).hdr.hdrSize)
    (inside : s.curent.toNat < (place .primary).entries) (f : Ent → Ent) (w : Which) :
    let t := Gpt.updateCopy bios dsk f w s
    Ready bios place d t ∧ (∀ w, 92 ≤ (t.copies w).hdr.hdrSize) ∧ t.curent = s.curent := by
  intro t
  obtain ⟨_, updates, intact, size⟩ := updateCopy_spec works (layout.drive w).symm (layout.placed w) f
    (ready.consistent.synced w) (large w) (by rw [layout.entries w]; exact inside)
  have sizes : ∀ v, 92 ≤ (t.copies v).hdr.hdrSize := by
    intro v
    by_cases same : v = w
    · subst same
      exact size ▸ large v
    · rw [updates.other v same]
      exact large v
  exact ⟨⟨ready.consistent.update layout updates intact, updates.active.trans ready.active, .inr sizes⟩, sizes,
    updates.curent⟩

theorem Ready.updateBoth (dsk : Dsk) (layout : Layout bios place dsk.drive) (works : ∀ n, bios.writes n = true)
    (ready : Ready bios place d s) (inside : s.curent.toNat < (place .primary).entries)
    (marked : (s.gpttable s.curent.toNat).has gptEntAttrBootonce = true) (f : Ent → Ent) :
    Ready bios place d (Gpt.updateBoth bios dsk f s) ∧ (Gpt.updateBoth bios dsk f s).curent = s.curent := by
  rw [State.gpttable, ready.active] at marked
  have large : ∀ w, 92 ≤ (s.copies w).hdr.hdrSize := by
    refine ready.covered.resolve_left fun none => ?_
    rw [none _ inside] at marked
    exact absurd marked (by decide)
  obtain ⟨first, sizes, curent⟩ := ready.updateCopy dsk layout works large inside f .primary
  obtain ⟨second, -, curent'⟩ := first.updateCopy dsk layout works sizes (by rw [curent]; exact inside) f .backup
  exact ⟨second, curent'.trans curent⟩

inductive Op where
  | find (uuid : Bytes) (part : Int)
  | bootfailed

structure Boot where
  state : State
  dsk : Dsk
  ok : Bool

def begin (bios : Bios) (s : State) (dsk : Dsk) : Boot :=
  ⟨(gptread bios s dsk).2.1, (gptread bios s dsk).2.2, false⟩

def step (bios : Bios) (b : Boot) : Op → Boot
  | .find uuid part =>
    let r := gptfind bios b.state uuid b.dsk part
    ⟨r.2.1, r.2.2, r.1 == 0⟩
  | .bootfailed => { b with state := gptbootfailed bios b.state b.dsk }

def run (bios : Bios) (b : Boot) (ops : List Op) : Boot := ops.foldl (step bios) b

def Allowed (bios : Bios) : Boot → List Op → Prop
  | _, [] => True
  | b, op :: ops => (op = .bootfailed → b.ok = true) ∧ Allowed bios (step bios b op) ops

structure Running (bios : Bios) (place : Which → Place) (d : Nat × Nat → Sector) (drive : Nat) (b : Boot) : Prop where
  ready : Ready bios place d b.state
  drive : b.dsk.drive = drive
  inside : b.ok = true → b.state.curent.toNat < (place .primary).entries

theorem found_running (layout : Layout bios place drive) (works : ∀ n, bios.writes n = true)
    (ready : Ready bios place d s) (inside : s.curent.toNat < (place .primary).entries) {dsk : Dsk}
    (same : dsk.drive = drive) :
    Running bios place d drive ⟨(found bios s dsk).2.1, (found bios s dsk).2.2, (found bios s dsk).1 == 0⟩ := by
  subst same
  rw [found]
  split
  next marked =>
    obtain ⟨ready', curent⟩ := ready.updateBoth { dsk with part := s.curent + 1, start := (s.gpttable s.curent.toNat).lbaStart }
      layout works inside marked (·.clear gptEntAttrBootme)
    exact ⟨ready', rfl, fun _ => by rw [curent]; exact inside⟩
  next => exact ⟨ready, rfl, fun _ => inside⟩

theorem step_running (layout : Layout bios place drive) (works : ∀ n, bios.writes n = true)
    (running : Running bios place d drive b) (op : Op) (allowed : op = .bootfailed → b.ok = true) :
    Running bios place d drive (step bios b op) := by
  cases op with
  | find uuid part =>
    rw [step]
    rcases gptfind_cases bios b.state uuid b.dsk part with ⟨curent, bootonce, failed⟩ | ⟨curent, bootonce, less, success⟩
    · rw [failed]
      exact ⟨running.ready.moved curent bootonce, running.drive, fun absurd => by simp at absurd⟩
    · rw [success]
      rw [running.ready.entries] at less
      exact found_running layout works (running.ready.moved curent bootonce) less running.drive
  | bootfailed =>
    have inside := running.inside (allowed rfl)
    obtain ⟨ready, rfl, -⟩ := running
    rw [step, gptbootfailed]
    split
    next => exact ⟨ready, rfl, fun _ => inside⟩
    next marked =>
      obtain ⟨ready', curent⟩ := ready.updateBoth _ layout works inside (by simpa using marked) Ent.fail
      exact ⟨ready', rfl, fun _ => by rw [curent]; exact inside⟩

theorem run_running (layout : Layout bios place drive) (works : ∀ n, bios.writes n = true) (ops : List Op)
    (running : Running bios place d drive b) (allowed : Allowed bios b ops) :
    Running bios place d drive (run bios b ops) := by
  induction ops generalizing b with
  | nil => exact running
  | cons op ops ih => exact ih (step_running layout works running op allowed.1) allowed.2

end

def headerLba (bios : Bios) (dsk : Dsk) : Which → Nat
  | .primary => 1
  | .backup => bios.sectors dsk.drive - 1

def places (bios : Bios) (d : Nat × Nat → Sector) (dsk : Dsk) (w : Which) : Place :=
  placeOf d dsk.drive (headerLba bios dsk w)

/-- A drive with two valid copies of the GPT, at LBA 1 and at the last LBA, with as many
entries of 128 bytes each, on sectors of their own. -/
structure TwoGpts (bios : Bios) (s : State) (dsk : Dsk) : Prop where
  accepted : ∀ w, Accepted bios s.disk dsk (s.copies w) (headerLba bios dsk w)
  entsz : ∀ w, (diskHdr (places bios s.disk dsk w) s.disk).entsz = 128
  size : ∀ w, (diskHdr (places bios s.disk dsk w) s.disk).hdrSize ≤ 96
  entries : ∀ w, (places bios s.disk dsk w).entries = (places bios s.disk dsk .primary).entries
  located : 1 < bios.sectors dsk.drive
  alt : (places bios s.disk dsk .primary).alt = bios.sectors dsk.drive - 1
  headers : (places bios s.disk dsk .primary).header ≠ (places bios s.disk dsk .backup).header
  tables : ∀ v w, ∀ i < tableSectors (places bios s.disk dsk v).entries,
    (places bios s.disk dsk v).sector i ≠ (places bios s.disk dsk w).header
  apart : ∀ i < tableSectors (places bios s.disk dsk .primary).entries,
    ∀ j < tableSectors (places bios s.disk dsk .backup).entries,
    (places bios s.disk dsk .primary).sector i ≠ (places bios s.disk dsk .backup).sector j

def ConvertibleOnDisk (bios : Bios) (d : Nat × Nat → Sector) (dsk : Dsk) (w : Which) (j : Nat) : Prop :=
  Convertible (diskHdr (places bios d dsk w) d) (diskEnt (places bios d dsk w) d) j

/-- A run may write the header of a copy back: gptread converts an entry of that copy, or
an entry of the primary copy still has BOOTONCE after that and can be found. -/
def Rewritten (bios : Bios) (d : Nat × Nat → Sector) (dsk : Dsk) (w : Which) : Prop :=
  (∃ j, ConvertibleOnDisk bios d dsk w j) ∨
  ∃ j < (places bios d dsk .primary).entries,
    (diskEnt (places bios d dsk .primary) d j).has gptEntAttrBootonce = true ∧ ¬ ConvertibleOnDisk bios d dsk .primary j

section

variable {bios : Bios} {s : State} {dsk : Dsk}

theorem TwoGpts.valid (gpts : TwoGpts bios s dsk) (w : Which) : Valid bios (places bios s.disk dsk w) s.disk :=
  valid_of_accepted dsk (gpts.accepted w) (gpts.size w) (gpts.entsz w)

theorem TwoGpts.layout (gpts : TwoGpts bios s dsk) : Layout bios (places bios s.disk dsk) dsk.drive := by
  have located := gpts.located
  have outside : ∀ v w, v ≠ w → ∀ x ∈ (places bios s.disk dsk v).footprint,
    x ∉ (places bios s.disk dsk w).footprint := by
    have headers : ∀ v w, v ≠ w → (places bios s.disk dsk v).header ≠ (places bios s.disk dsk w).header := by
      intro v w differ
      cases v <;> cases w
      · exact absurd rfl differ
      · exact gpts.headers
      · exact gpts.headers.symm
      · exact absurd rfl differ
    have tables : ∀ v w, v ≠ w → ∀ i < tableSectors (places bios s.disk dsk v).entries,
        ∀ j < tableSectors (places bios s.disk dsk w).entries,
        (places bios s.disk dsk v).sector i ≠ (places bios s.disk dsk w).sector j := by
      intro v w differ i less j less'
      cases v <;> cases w
      · exact absurd rfl differ
      · exact gpts.apart i less j less'
      · exact (gpts.apart j less' i less).symm
      · exact absurd rfl differ
    rintro v w differ x (rfl | ⟨i, less, rfl⟩) (same | ⟨j, less', same⟩)
    · exact headers v w differ same
    · exact gpts.tables w v j less' same.symm
    · exact gpts.tables v w i less same
    · exact tables v w differ i less j less' same
  refine ⟨fun _ => rfl, fun w => ?_, gpts.entries, outside⟩
  refine ⟨(gpts.valid w).readable, (gpts.valid w).tableReadable, gpts.tables w w, ?_⟩
  cases w with
  | primary => exact Nat.one_pos
  | backup =>
    change 0 < bios.sectors dsk.drive - 1
    omega

theorem readCopies_loads (gpts : TwoGpts bios s dsk) (w : Which) :
    Synced (places bios s.disk dsk w) s.disk ((readCopies bios s dsk).copies w) ∧
    ((readCopies bios s dsk).copies w).hdr = diskHdr (places bios s.disk dsk w) s.disk ∧
    (readCopies bios s dsk).active = .primary := by
  have located := gpts.located
  obtain ⟨synced, header⟩ := readCopy_synced (gpts.valid .primary) dsk rfl (s.copies .primary)
  have lba : (readCopy bios s.disk dsk (s.copies .primary) 1).lba = 1 := synced.lba
  have alt : altlba bios dsk (readCopy bios s.disk dsk (s.copies .primary) 1) = bios.sectors dsk.drive - 1 := by
    rw [altlba, if_pos (by omega)]
    exact synced.good.alt.trans gpts.alt
  have active : (readCopies bios s dsk).active = .primary := by
    rw [readCopies_active]
    exact if_pos (lba ▸ Nat.one_pos)
  cases w with
  | primary => exact ⟨synced, header, active⟩
  | backup =>
    obtain ⟨synced', header'⟩ := readCopy_synced (gpts.valid .backup) dsk rfl (s.copies .backup)
    have backup : (readCopies bios s dsk).copies .backup =
        readCopy bios s.disk dsk (s.copies .backup) (bios.sectors dsk.drive - 1) := by
      simp only [readCopies, alt]
      rw [if_neg (by omega)]
    rw [backup]
    exact ⟨synced', header', active⟩

theorem convertible_iff {p : Place} {d : Nat × Nat → Sector} {c : Copy} (synced : Synced p d c)
    (header : c.hdr = diskHdr p d) (j : Nat) :
    Convertible c.hdr c.ent j ↔ Convertible (diskHdr p d) (diskEnt p d) j := by
  obtain ⟨_, -⟩ := convSectors_fits synced.good.shaped
  rw [← header]
  refine and_congr_right fun less => ?_
  rw [synced.agree j (by omega)]

theorem begin_running (works : ∀ n, bios.writes n = true) (fresh : s.log = []) (gpts : TwoGpts bios s dsk)
    (covers : ∀ w, Rewritten bios s.disk dsk w → 92 ≤ (diskHdr (places bios s.disk dsk w) s.disk).hdrSize) :
    Running bios (places bios s.disk dsk) s.disk dsk.drive (begin bios s dsk) := by
  have layout := gpts.layout
  have loads := readCopies_loads gpts
  have consistent : Consistent bios (places bios s.disk dsk) s.disk (readCopies bios s dsk) := by
    have log : (readCopies bios s dsk).log = [] := fresh
    refine ⟨?_, ?_, fun w => (loads w).1⟩
    · rw [log]
      exact .nil (gpts.valid .primary) (gpts.valid .backup)
    · rw [log]
      rfl
  have convertible : ∀ w j, Convertible ((readCopies bios s dsk).copies w).hdr
    ((readCopies bios s dsk).copies w).ent j ↔
      ConvertibleOnDisk bios s.disk dsk w j := fun w => convertible_iff (loads w).1 (loads w).2.1
  have large : ∀ w j, Convertible ((readCopies bios s dsk).copies w).hdr ((readCopies bios s dsk).copies w).ent j →
      92 ≤ ((readCopies bios s dsk).copies w).hdr.hdrSize := by
    intro w j conv
    rw [(loads w).2.1]
    exact covers w (.inl ⟨j, (convertible w j).mp conv⟩)
  obtain ⟨_, updates, intact, size, ents⟩ := convCopy_spec dsk works rfl (layout.placed .primary)
    (consistent.intact .primary) (large .primary)
  have first := consistent.update layout updates intact
  have other := updates.other .backup (by decide)
  obtain ⟨_, updates', intact', size', -⟩ := convCopy_spec dsk works rfl (layout.placed .backup)
    (first.intact .backup) (by rw [other]; exact large .backup)
  have second := first.update layout updates' intact'
  have other' := updates'.other .primary (by decide)
  refine ⟨⟨second, ?_, ?_⟩, rfl, fun absurd => by simp [begin] at absurd⟩
  · exact updates'.active.trans (updates.active.trans (loads .primary).2.2)
  · -- either some BOOTONCE is left for gptfind, and then both headers are covered, or none is
    by_cases pending : ∃ j < (places bios s.disk dsk .primary).entries,
        (diskEnt (places bios s.disk dsk .primary) s.disk j).has gptEntAttrBootonce = true ∧
        ¬ ConvertibleOnDisk bios s.disk dsk .primary j
    · refine .inr fun w => ?_
      have covered := covers w (.inr pending)
      cases w with
      | primary =>
        change 92 ≤ ((convCopy bios dsk .backup _).copies .primary).hdr.hdrSize
        rw [other', size, (loads .primary).2.1]
        exact covered
      | backup =>
        change 92 ≤ ((convCopy bios dsk .backup _).copies .backup).hdr.hdrSize
        rw [size', other, (loads .backup).2.1]
        exact covered
    · refine .inl fun i less => ?_
      change (((convCopy bios dsk .backup _).copies .primary).ent i).has gptEntAttrBootonce = false
      rw [other', ents]
      split
      next => exact bootonce_fail _
      next still =>
        rw [(loads .primary).1.agree i less]
        by_contra marked
        rw [convertible] at still
        exact pending ⟨i, less, by simpa using marked, still⟩

theorem gptread_zero {m : State} {w : Which} (used : 0 < ((readCopies bios m dsk).copies w).lba) :
    (gptread bios m dsk).1 = 0 := by
  have kept := (gptread_kept bios m dsk).1
  have either : ¬ (((gptread bios m dsk).2.1.copies .primary).lba = 0 ∧
    ((gptread bios m dsk).2.1.copies .backup).lba = 0) := by
    rw [kept.lba, kept.lba]
    cases w <;> omega
  exact if_neg either

theorem gptread_of_valid {place : Which → Place} {m : State} (layout : Layout bios place dsk.drive)
    (lbas : ∀ w, (place w).lba = headerLba bios dsk w) (located : 1 < bios.sectors dsk.drive)
    (one : Valid bios (place .primary) m.disk ∨ Valid bios (place .backup) m.disk) : (gptread bios m dsk).1 = 0 := by
  by_cases primary : 0 < ((readCopies bios m dsk).copies .primary).lba
  · exact gptread_zero primary
  · have alt : altlba bios dsk (readCopy bios m.disk dsk (m.copies .primary) 1) = bios.sectors dsk.drive - 1 :=
      if_neg primary
    rcases one with valid | valid
    · obtain ⟨synced, -⟩ := readCopy_synced valid dsk (layout.drive .primary).symm (m.copies .primary)
      have lba := synced.lba
      rw [lbas] at lba
      exact absurd (lba ▸ Nat.one_pos) primary
    · refine gptread_zero (w := .backup) ?_
      obtain ⟨synced, -⟩ := readCopy_synced valid dsk (layout.drive .backup).symm (m.copies .backup)
      have lba := synced.lba
      rw [lbas] at lba
      simp only [readCopies, alt]
      rw [if_neg (by omega)]
      exact lba ▸ (by change 0 < bios.sectors dsk.drive - 1; omega)

/-- Crash consistency. When every copy that a run may write back has a header that covers
hdr_crc_table, every prefix of the writes leaves a copy that is accepted, and whole
operations leave both. -/
theorem boot_attributes_crash_consistent (bios : Bios) (works : ∀ n, bios.writes n = true) (s : State)
    (fresh : s.log = []) (dsk : Dsk) (gpts : TwoGpts bios s dsk)
    (covers : ∀ w, Rewritten bios s.disk dsk w → 92 ≤ (diskHdr (places bios s.disk dsk w) s.disk).hdrSize)
    (ops : List Op) (allowed : Allowed bios (begin bios s dsk) ops) :
    let b := run bios (begin bios s dsk) ops
    (∀ k, let d := TwoCopies.apply (b.state.log.take k) s.disk
      (∃ w, ∀ c, Accepted bios d dsk c (headerLba bios dsk w)) ∧
      ∀ m : State, m.disk = d → (gptread bios m dsk).1 = 0) ∧
    b.state.disk = TwoCopies.apply b.state.log s.disk ∧
    ∀ w c, Accepted bios b.state.disk dsk c (headerLba bios dsk w) := by
  intro b
  have layout := gpts.layout
  have running := run_running layout works ops (begin_running works fresh gpts covers) allowed
  have consistent := running.ready.consistent
  refine ⟨fun k => ?_, consistent.disk, fun w c => accepted_of_valid (consistent.valid w) rfl c⟩
  have one := consistent.safe.always k
  refine ⟨?_, fun m same => gptread_of_valid layout (fun _ => rfl) gpts.located (same ▸ one)⟩
  rcases one with valid | valid
  · exact ⟨.primary, fun c => accepted_of_valid valid rfl c⟩
  · exact ⟨.backup, fun c => accepted_of_valid valid rfl c⟩

end

def markedEnt : Ent := sampleEnt (gptEntAttrBootme ||| gptEntAttrBootonce)

theorem sample_twoGpts {size : Nat}
    (accepted : ∀ w, Accepted sampleBios (sampleDisk size [markedEnt]) sampleDsk sampleCopy
      (headerLba sampleBios sampleDsk w))
    (fields : ∀ w, let p := places sampleBios (sampleDisk size [markedEnt]) sampleDsk w
      (diskHdr p (sampleDisk size [markedEnt])).entsz = 128 ∧ (diskHdr p (sampleDisk size [markedEnt])).hdrSize ≤ 96 ∧
      p.entries = 1 ∧ p.table = (match w with | .primary => 2 | .backup => 8) ∧
      p.alt = (match w with | .primary => 9 | .backup => 1)) :
    TwoGpts sampleBios (sampleState size [markedEnt]) sampleDsk := by
  have headers : ∀ w, (places sampleBios (sampleDisk size [markedEnt]) sampleDsk w).header =
    (128, headerLba sampleBios sampleDsk w) :=
    fun _ => rfl
  have tables : ∀ w, ∀ i < tableSectors (places sampleBios (sampleDisk size [markedEnt]) sampleDsk w).entries,
      (places sampleBios (sampleDisk size [markedEnt]) sampleDsk w).sector i =
        (128, match w with | .primary => 2 | .backup => 8) := by
    intro w i less
    obtain ⟨-, -, _, table, -⟩ := fields w
    obtain rfl : i = 0 := by simp only [tableSectors] at less; omega
    rw [Place.sector, table]
    cases w <;> rfl
  have disk : (sampleState size [markedEnt]).disk = sampleDisk size [markedEnt] := rfl
  constructor <;> try rw [disk]
  case accepted => exact accepted
  case entsz => exact fun w => (fields w).1
  case size => exact fun w => (fields w).2.1
  case entries => exact fun w => (fields w).2.2.1.trans (fields .primary).2.2.1.symm
  case located => decide
  case alt => exact (fields .primary).2.2.2.2
  case headers =>
    rw [headers, headers]
    decide
  case tables =>
    intro v w i less
    rw [tables v i less, headers]
    cases v <;> cases w <;> decide
  case apart =>
    intro i less j less'
    rw [tables .primary i less, tables .backup j less']
    decide

def restarted (d : Nat × Nat → Sector) : State := { sampleState 88 [markedEnt] with disk := d }

/-- With headers of 88 bytes the first gptfind drops hdr_crc_table from both copies. -/
theorem short_header_loses_both_copies :
    TwoGpts sampleBios (sampleState 88 [markedEnt]) sampleDsk ∧
    let b := run sampleBios (begin sampleBios (sampleState 88 [markedEnt]) sampleDsk) [.find sampleUuid (-1)]
    ¬ ∀ k, ∀ m : State, m.disk = TwoCopies.apply (b.state.log.take k) (sampleDisk 88 [markedEnt]) →
      (gptread sampleBios m sampleDsk).1 = 0 := by
  refine ⟨sample_twoGpts (fun w => ?_) (fun w => ?_), fun all => ?_⟩
  · cases w <;> exact ⟨by decide +kernel, by decide +kernel⟩
  · cases w <;> decide
  · have again := all 4 (restarted _) (by rw [restarted])
    revert again
    decide +kernel

theorem full_header_crash_consistent :
    let b :=
  run sampleBios (begin sampleBios (sampleState 92 [markedEnt]) sampleDsk) [.find sampleUuid (-1), .bootfailed]
    ∀ w c, Accepted sampleBios b.state.disk sampleDsk c (headerLba sampleBios sampleDsk w) := by
  have gpts : TwoGpts sampleBios (sampleState 92 [markedEnt]) sampleDsk := by
    refine sample_twoGpts (fun w => ?_) (fun w => ?_)
    · cases w <;> exact ⟨by decide +kernel, by decide +kernel⟩
    · cases w <;> decide
  refine (boot_attributes_crash_consistent sampleBios (fun _ => rfl) (sampleState 92 [markedEnt]) rfl sampleDsk gpts
    (fun w _ => ?_) [.find sampleUuid (-1), .bootfailed] ⟨by simp, fun _ => ?_, trivial⟩).2.2
  · cases w <;> decide
  · decide +kernel

end Pcbsd.Proofs.GptCrash
