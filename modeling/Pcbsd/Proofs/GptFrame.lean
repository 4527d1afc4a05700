import Pcbsd.Proofs.StaleMarks

/-! What the updates of the boot attributes leave alone. A sector of the table is written whole from memory, and to
both copies at the index that was chosen in one: where the copies have as many sectors, and no header or rest of a
sector lies on an entry, only flags of the entries that are converted or selected change. -/

namespace Pcbsd.Proofs.GptFrame
open Lib Crc32 Gpt Proofs.GptImage Proofs.GptMemory Proofs.GptCrash Proofs.StaleMarks List Function

def bootFlags : BitVec 64 := gptEntAttrBootme ||| gptEntAttrBootonce ||| gptEntAttrBootfailed

def OnlyFlags (e e' : Ent) : Prop := ∃ v : BitVec 64, e' = e.setAttr v ∧ v &&& ~~~bootFlags = e.attr &&& ~~~bootFlags

theorem setAttr_setAttr (e : Ent) (v w : BitVec 64) : (e.setAttr v).setAttr w = e.setAttr w := by
  rw [Ent.setAttr, Ent.setAttr, Ent.setAttr, Ent.mk.injEq]
  exact put_put (by rw [length_toLe, length_toLe]) (by rw [e.size, length_toLe]; decide)

theorem OnlyFlags.trans {e e' e'' : Ent} (first : OnlyFlags e e') (second : OnlyFlags e' e'') : OnlyFlags e e'' := by
  obtain ⟨v, rfl, kept⟩ := first
  obtain ⟨w, rfl, kept'⟩ := second
  exact ⟨w, setAttr_setAttr e v w, by rw [kept', attr_setAttr, kept]⟩

theorem onlyFlags_clear (e : Ent) {flag : BitVec 64} (part : ~~~flag &&& ~~~bootFlags = ~~~bootFlags) :
    OnlyFlags e (e.clear flag) :=
  ⟨_, rfl, by rw [BitVec.and_assoc, part]⟩

theorem onlyFlags_mark (e : Ent) {flag : BitVec 64} (part : flag &&& ~~~bootFlags = 0) : OnlyFlags e (e.mark flag) :=
  ⟨_, rfl, by rw [BitVec.and_or_distrib_right, part]; exact BitVec.or_zero⟩

theorem onlyFlags_fail (e : Ent) : OnlyFlags e e.fail :=
  (onlyFlags_clear e (by decide)).trans (onlyFlags_mark _ (by decide))

abbrev Address := (Nat × Nat) × Nat

section

variable (bios : Bios) (s : State) (dsk : Dsk)

def Used (w : Which) : Prop := (taken bios s dsk w).lba ≠ 0

def hdr (w : Which) : Hdr := (taken bios s dsk w).hdr

def arraySectors (h : Hdr) : Nat := (h.entries + (h.entriesPerSec - 1)) / h.entriesPerSec

def OwnSector (x : Nat × Nat) : Prop :=
  ∃ w, Used bios s dsk w ∧ (x = (place bios s dsk w).header ∨ ∃ j < arraySectors (hdr bios s dsk w),
    x = (place bios s dsk w).sector j)

def address (w : Which) (i : Nat) : Address := ((place bios s dsk w).sector (i / 4), i % 4)

/-- The entries that gptread took from the disk `d` are as they were, but for the flags of those in `targets`; a table
with larger entries is as it was. -/
structure OnlyTargets (targets : Set Address) (d d' : Nat × Nat → Sector) : Prop where
  entries : ∀ w, Used bios s dsk w → (hdr bios s dsk w).entsz = 128 → ∀ i < (hdr bios s dsk w).entries,
    diskEnt (place bios s dsk w) d' i = diskEnt (place bios s dsk w) d i ∨
    address bios s dsk w i ∈ targets ∧ OnlyFlags (diskEnt (place bios s dsk w) d i) (diskEnt (place bios s dsk w) d' i)
  larger : ∀ w, Used bios s dsk w → (hdr bios s dsk w).entsz ≠ 128 → ∀ j < arraySectors (hdr bios s dsk w),
    d' ((place bios s dsk w).sector j) = d ((place bios s dsk w).sector j)

/-- Writing the sector `j` of the table, and then the header, of one copy touches no entry but those of the sector. -/
structure Fits (w : Which) (j : Nat) : Prop where
  entsz : (hdr bios s dsk w).entsz = 128
  inside : j < arraySectors (hdr bios s dsk w)
  header : ∀ v, Used bios s dsk v → ∀ k < arraySectors (hdr bios s dsk v), (place bios s dsk w).header ≠
    (place bios s dsk v).sector k
  rest : ∀ v, Used bios s dsk v → (hdr bios s dsk v).entsz = 128 → ∀ i < (hdr bios s dsk v).entries,
    ∀ k, (hdr bios s dsk w).entries ≤ k → k / 4 = j → address bios s dsk w k ≠ address bios s dsk v i
  larger : ∀ v, Used bios s dsk v → (hdr bios s dsk v).entsz ≠ 128 → ∀ k < arraySectors (hdr bios s dsk v),
    (place bios s dsk w).sector j ≠ (place bios s dsk v).sector k

structure Stands (targets : Set Address) (w : Which) (c : Copy) : Prop where
  entsz : c.hdr.entsz = (hdr bios s dsk w).entsz
  entries : c.hdr.entries = (hdr bios s dsk w).entries
  table : c.hdr.lbaTable = (hdr bios s dsk w).lbaTable
  self : c.hdr.lbaSelf = (hdr bios s dsk w).lbaSelf
  lba : c.lba = (taken bios s dsk w).lba
  memory : Used bios s dsk w → (hdr bios s dsk w).entsz = 128 → ∀ i < (hdr bios s dsk w).entries,
    c.ent i = diskEnt (place bios s dsk w) s.disk i ∨
    address bios s dsk w i ∈ targets ∧ OnlyFlags (diskEnt (place bios s dsk w) s.disk i) (c.ent i)

structure Framed (targets : Set Address) (t : State) : Prop where
  stands : ∀ w, Stands bios s dsk targets w (t.copies w)
  disk : OnlyTargets bios s dsk targets s.disk t.disk
  log : ∃ ws, t.log = s.log ++ ws ∧ ∀ x ∈ ws, OwnSector bios s dsk x.1

end

variable {bios : Bios} {s t : State} {dsk dsk' : Dsk} {targets : Set Address} {w : Which}

theorem hdr_most (used : Used bios s dsk w) : (hdr bios s dsk w).entries ≤ maxtblents :=
  readCopies_most bios s dsk w used

variable {selected : Nat → Prop} {d' : Nat × Nat → Sector} {c : Copy} {f : Ent → Ent} {x : Nat × Nat} {j : Nat}
  {h : Hdr} {i : Nat} {b : Boot}

theorem arraySectors_of_entsz (entsz : h.entsz = 128) : arraySectors h = tableSectors h.entries := by
  have perSec : h.entriesPerSec = 4 := by rw [Hdr.entriesPerSec, entsz]; rfl
  rw [arraySectors, perSec, tableSectors]

theorem Framed.setCopy (framed : Framed bios s dsk targets t) (stands : Stands bios s dsk targets w c) :
    Framed bios s dsk targets (t.setCopy w c) where
  stands v := by
    by_cases same : v = w
    · rw [same, copies_setCopy_self]
      exact stands
    · rw [copies_setCopy_other t c same]
      exact framed.stands v
  disk := framed.disk
  log := framed.log

theorem OnlyTargets.write_header {d : Nat × Nat → Sector} (only : OnlyTargets bios s dsk targets d d')
    (sector : Sector)
    (apart : ∀ v, Used bios s dsk v → ∀ k < arraySectors (hdr bios s dsk v), x ≠ (place bios s dsk v).sector k) :
    OnlyTargets bios s dsk targets d (update d' x sector) where
  entries v used entsz i less := by
    have here : i / 4 < arraySectors (hdr bios s dsk v) := by
      rw [arraySectors_of_entsz entsz, tableSectors]
      omega
    have same : diskEnt (place bios s dsk v) (update d' x sector) i = diskEnt (place bios s dsk v) d' i :=
      diskEnt_congr (update_of_ne (apart v used _ here).symm _ _)
    rw [same]
    exact only.entries v used entsz i less
  larger v used entsz j less := by
    rw [update_of_ne (apart v used j less).symm]
    exact only.larger v used entsz j less

theorem OnlyTargets.write_sector (only : OnlyTargets bios s dsk targets s.disk d') (used : Used bios s dsk w)
    (stands : Stands bios s dsk targets w c) (fits : Fits bios s dsk w j) :
    OnlyTargets bios s dsk targets s.disk
      (update d' ((place bios s dsk w).sector j) (Sector.ofBytes (c.tableBytes (4 * j)))) where
  entries v usedV entsz i less := by
    by_cases here : (place bios s dsk v).sector (i / 4) = (place bios s dsk w).sector j
    · have most := hdr_most used
      have inside := fits.inside
      rw [arraySectors_of_entsz fits.entsz, tableSectors] at inside
      simp only [maxtblents] at most
      have slot : i % 4 < 4 := Nat.mod_lt i (by decide)
      have written :
          diskEnt (place bios s dsk v)
            (update d' ((place bios s dsk w).sector j) (Sector.ofBytes (c.tableBytes (4 * j)))) i =
          c.ent (4 * j + i % 4) := by
        rw [diskEnt, here, update_self, ofSector_tableBytes c slot (by simp only [maxtblents]; omega)]
      have same : address bios s dsk w (4 * j + i % 4) = address bios s dsk v i := by
        have sector : (4 * j + i % 4) / 4 = j := by omega
        have index : (4 * j + i % 4) % 4 = i % 4 := by omega
        rw [address, address, sector, index, here]
      have own : 4 * j + i % 4 < (hdr bios s dsk w).entries := by
        by_contra beyond
        exact fits.rest v usedV entsz i less _ (Nat.not_lt.mp beyond) (by omega) same
      have before : diskEnt (place bios s dsk w) s.disk (4 * j + i % 4) = diskEnt (place bios s dsk v) s.disk i := by
        change Ent.ofSector (s.disk (address bios s dsk w (4 * j + i % 4)).1) (address bios s dsk w (4 * j + i % 4)).2 =
          _
        rw [same]
        rfl
      have memory := stands.memory used fits.entsz _ own
      rw [written, ← same, ← before]
      exact memory
    · have kept :
          diskEnt (place bios s dsk v)
            (update d' ((place bios s dsk w).sector j) (Sector.ofBytes (c.tableBytes (4 * j)))) i =
          diskEnt (place bios s dsk v) d' i := diskEnt_congr (update_of_ne here _ _)
      rw [kept]
      exact only.entries v usedV entsz i less
  larger v usedV entsz k less := by
    rw [update_of_ne (fits.larger v usedV entsz k less).symm]
    exact only.larger v usedV entsz k less

theorem Framed.drvwrite (works : ∀ n, bios.writes n = true) (framed : Framed bios s dsk targets t) {sector : Sector}
    {lba : Nat} (here : (dsk'.drive, lba) = x) (own : OwnSector bios s dsk x)
    (only : OnlyTargets bios s dsk targets s.disk (update t.disk x sector)) :
    Framed bios s dsk targets (Gpt.drvwrite bios t dsk' sector lba).2 := by
  rw [Gpt.drvwrite, works, if_pos rfl, here]
  refine ⟨framed.stands, only, ?_⟩
  obtain ⟨ws, log, owns⟩ := framed.log
  refine ⟨ws ++ [(x, sector)], ?_, fun y inside => ?_⟩
  · rw [log, append_assoc]
  · rcases mem_append.mp inside with old | new
    · exact owns y old
    · rw [mem_singleton.mp new]
      exact own

theorem sector_here (drive : dsk'.drive = dsk.drive) (table : h.lbaTable = (hdr bios s dsk w).lbaTable) (j : Nat) :
    (dsk'.drive, (h.lbaTable + j) % 2 ^ 64) = (place bios s dsk w).sector j := by rw [drive, table]; rfl

theorem Framed.writeSector (works : ∀ n, bios.writes n = true) (drive : dsk'.drive = dsk.drive)
    (framed : Framed bios s dsk targets t) (used : Used bios s dsk w) (stands : Stands bios s dsk targets w c)
    (fits : Fits bios s dsk w j) :
    Framed bios s dsk targets
      (Gpt.drvwrite bios (t.setCopy w c) dsk' (Sector.ofBytes (c.tableBytes (4 * j))) ((c.hdr.lbaTable + j) % 2 ^ 64)).2 :=
  (framed.setCopy stands).drvwrite works (sector_here drive stands.table j) ⟨w, used, .inr ⟨j, fits.inside, rfl⟩⟩
    (framed.disk.write_sector used stands fits)

theorem Stands.setHdr (stands : Stands bios s dsk targets w c)
    (same : ∀ off n, off + n ≤ 16 ∨ 20 ≤ off ∧ off + n ≤ 88 → slice off n h.bytes = slice off n c.hdr.bytes) :
    Stands bios s dsk targets w { c with hdr := h } where
  entsz := (congrArg leNat (same 84 4 (by omega))).trans stands.entsz
  entries := (congrArg leNat (same 80 4 (by omega))).trans stands.entries
  table := (congrArg leNat (same 72 8 (by omega))).trans stands.table
  self := (congrArg leNat (same 24 8 (by omega))).trans stands.self
  lba := stands.lba
  memory := stands.memory

theorem Framed.writeHdr (works : ∀ n, bios.writes n = true) (drive : dsk'.drive = dsk.drive)
    (framed : Framed bios s dsk targets t) (used : Used bios s dsk w)
    (apart : ∀ v, Used bios s dsk v → ∀ k < arraySectors (hdr bios s dsk v), (place bios s dsk w).header ≠
      (place bios s dsk v).sector k) :
    Framed bios s dsk targets (Gpt.writeHdr bios t dsk' w) := by
  have stands := framed.stands w
  rw [Gpt.writeHdr]
  generalize t.copies w = c at stands ⊢
  generalize written : ((c.hdr.setCrcTable c.crcOfTable).setCrcSelf 0).setCrcSelf
    (crc32 (c.hdrBytes ((c.hdr.setCrcTable c.crcOfTable).setCrcSelf 0))).toNat = h
  have stands' : Stands bios s dsk targets w { c with hdr := h } := by
    apply stands.setHdr
    intro off n inside
    rw [← written]
    exact (slice_setWord (by omega)).trans ((slice_setWord (by omega)).trans (slice_setWord (by omega)))
  have here : (dsk'.drive, h.lbaSelf) = (place bios s dsk w).header := Prod.ext drive stands'.self
  exact (framed.setCopy stands').drvwrite works here ⟨w, used, .inl rfl⟩ (framed.disk.write_header _ apart)

theorem Stands.modifyEnt (stands : Stands bios s dsk targets w c) (flags : ∀ e, OnlyFlags e (f e))
    (inside : i < maxtblents)
    (target : (hdr bios s dsk w).entsz = 128 → i < (hdr bios s dsk w).entries → address bios s dsk w i ∈ targets) :
    Stands bios s dsk targets w (c.modifyEnt i f) where
  entsz := stands.entsz
  entries := stands.entries
  table := stands.table
  self := stands.self
  lba := stands.lba
  memory used entsz j less := by
    rw [ent_modifyEnt c i j f inside]
    by_cases here : j = i
    · rw [if_pos here]
      subst here
      refine .inr ⟨target entsz less, ?_⟩
      rcases stands.memory used entsz j less with same | ⟨_, before⟩
      · rw [← same]
        exact flags _
      · exact before.trans (flags _)
    · rw [if_neg here]
      exact stands.memory used entsz j less

theorem Fits.small (used : Used bios s dsk w) (fits : Fits bios s dsk w j) : 4 * j + 4 ≤ maxtblents := by
  have most := hdr_most used
  have inside := fits.inside
  rw [arraySectors_of_entsz fits.entsz, tableSectors] at inside
  simp only [maxtblents] at most ⊢
  omega

theorem Stands.perSec (stands : Stands bios s dsk targets w c)
    (entsz : (hdr bios s dsk w).entsz = 128) : c.hdr.entriesPerSec =
    4 := by
  rw [Hdr.entriesPerSec, stands.entsz, entsz]
  rfl

theorem Framed.updateCopy (works : ∀ n, bios.writes n = true) (drive : dsk'.drive = dsk.drive)
    (framed : Framed bios s dsk targets t) (flags : ∀ e, OnlyFlags e (f e)) (w : Which)
    (fits : Used bios s dsk w → Fits bios s dsk w (t.curent.toNat / 4))
    (target : Used bios s dsk w → t.curent.toNat < (hdr bios s dsk w).entries → address bios s dsk w t.curent.toNat ∈ targets) :
    Framed bios s dsk targets (Gpt.updateCopy bios dsk' f w t) := by
  rw [Gpt.updateCopy]
  split
  next taken =>
    have used : Used bios s dsk w := by
      rw [(framed.stands w).lba] at taken
      exact Nat.ne_of_gt taken
    have fits := fits used
    have small := fits.small used
    have stands := (framed.stands w).modifyEnt flags (i := t.curent.toNat) (by omega) fun _ less => target used less
    rw [gptupdate, copies_setCopy_self]
    generalize (t.copies w).modifyEnt t.curent.toNat f = c at stands ⊢
    have curent : (t.setCopy w c).curent = t.curent := rfl
    simp only [curent, stands.perSec fits.entsz]
    have written := framed.writeSector works drive used stands fits
    rw [Nat.mul_comm, Nat.add_comm] at written
    split
    next failed =>
      rw [failed] at written
      exact written
    next done =>
      rw [done] at written
      exact written.writeHdr works drive used fits.header
  next => exact framed

theorem curent_updateCopy (bios : Bios) (dsk : Dsk) (f : Ent → Ent) (w : Which) (t : State) :
    (Gpt.updateCopy bios dsk f w t).curent =
    t.curent :=
  (updateCopy_kept bios dsk f w t).curent

theorem Framed.updateBoth (works : ∀ n, bios.writes n = true) (drive : dsk'.drive = dsk.drive)
    (framed : Framed bios s dsk targets t) (flags : ∀ e, OnlyFlags e (f e))
    (fits : ∀ w, Used bios s dsk w → Fits bios s dsk w (t.curent.toNat / 4))
    (target : ∀ w, Used bios s dsk w → t.curent.toNat < (hdr bios s dsk w).entries →
      address bios s dsk w t.curent.toNat ∈ targets) :
    Framed bios s dsk targets (Gpt.updateBoth bios dsk' f t) := by
  have first := framed.updateCopy works drive flags .primary (fits .primary) (target .primary)
  apply first.updateCopy works drive flags .backup
  · rw [curent_updateCopy]
    exact fits .backup
  · rw [curent_updateCopy]
    exact target .backup

theorem Stands.convSector (stands : Stands bios s dsk targets w c) {nent k : Nat} (inside : nent + k ≤ maxtblents)
    (target : ∀ i, nent ≤ i → i < nent + k → isTried (c.ent i) = true → address bios s dsk w i ∈ targets) :
    Stands bios s dsk targets w (Gpt.convSector c nent k).2 := by
  obtain ⟨reloaded, _, ents⟩ := convSector_spec c nent k inside
  have header := reloaded.hdr
  refine ⟨by rw [header]; exact stands.entsz, by rw [header]; exact stands.entries, by rw [header]; exact stands.table,
    by rw [header]; exact stands.self, reloaded.lba.trans stands.lba, fun used entsz i less => ?_⟩
  rw [ents i]
  split
  next here =>
    refine .inr ⟨target i here.1 here.2.1 here.2.2, ?_⟩
    rcases stands.memory used entsz i less with same | ⟨_, before⟩
    · rw [← same]
      exact onlyFlags_fail _
    · exact before.trans (onlyFlags_fail _)
  next => exact stands.memory used entsz i less

theorem Framed.convLoop (works : ∀ n, bios.writes n = true) (drive : dsk'.drive = dsk.drive)
    (used : Used bios s dsk w) (k i : Nat) (flag : Bool) (t : State) (framed : Framed bios s dsk targets t)
    (fits64 : (hdr bios s dsk w).lbaTable + (i + k) < 2 ^ 64)
    (room : (hdr bios s dsk w).entriesPerSec * (i + k) ≤ (hdr bios s dsk w).entries)
    (each : ∀ j, (hdr bios s dsk w).entriesPerSec * i ≤ j → j < (hdr bios s dsk w).entriesPerSec * (i + k) →
      isTried ((t.copies w).ent j) = true → Fits bios s dsk w (j / 4) ∧ address bios s dsk w j ∈ targets) :
    Framed bios s dsk targets (Gpt.convLoop bios dsk' w k i flag t).2 ∧
      (∀ v, v ≠ w → (Gpt.convLoop bios dsk' w k i flag t).2.copies v = t.copies v) ∧
    ((Gpt.convLoop bios dsk' w k i flag t).1 = true → flag = true ∨ ∃ j, Fits bios s dsk w j) := by
  induction k generalizing i flag t with
  | zero => exact ⟨framed, fun _ _ => rfl, fun set => .inl set⟩
  | succ k ih =>
    have most := hdr_most used
    have stands := framed.stands w
    have perSec : (t.copies w).hdr.entriesPerSec = (hdr bios s dsk w).entriesPerSec := by
      rw [Hdr.entriesPerSec, stands.entsz, Hdr.entriesPerSec]
    have sector : (hdr bios s dsk w).entriesPerSec * i + (hdr bios s dsk w).entriesPerSec ≤
      (hdr bios s dsk w).entries := by
      have first : i + 1 ≤ i + (k + 1) := by omega
      rw [← Nat.mul_succ]
      exact Nat.le_trans (Nat.mul_le_mul_left _ first) room
    have next : (hdr bios s dsk w).entriesPerSec * (i + 1) = (hdr bios s dsk w).entriesPerSec * i +
      (hdr bios s dsk w).entriesPerSec :=
      Nat.mul_succ ..
    have last : i + (k + 1) = i + 1 + k := by omega
    rw [Gpt.convLoop]
    simp only [perSec]
    rw [Nat.mul_comm i]
    have inside := Nat.le_trans sector most
    obtain ⟨reloaded, changed, ents⟩ := convSector_spec (t.copies w) _ _ inside
    have after := stands.convSector inside fun j low high tried => (each j low (by
      have first : i + 1 ≤ i + (k + 1) := by omega
      exact Nat.lt_of_lt_of_le (next ▸ high) (Nat.mul_le_mul_left _ first)) tried).2
    rcases ran : Gpt.convSector (t.copies w) ((hdr bios s dsk w).entriesPerSec * i)
      (hdr bios s dsk w).entriesPerSec with ⟨updated, c⟩
    rw [ran] at reloaded changed ents after
    cases updated with
    | false =>
      apply ih (i + 1) flag t framed
      · rwa [← last]
      · rwa [← last]
      · intro j low high
        rw [← last] at high
        exact each j (by omega) high
    | true =>
      obtain ⟨j, low, high, tried⟩ := changed.mp rfl
      have fits := (each j low (by
        have first : i + 1 ≤ i + (k + 1) := by omega
        exact Nat.lt_of_lt_of_le (next ▸ high) (Nat.mul_le_mul_left _ first)) tried).1
      have four : (hdr bios s dsk w).entriesPerSec = 4 := by rw [← perSec]; exact stands.perSec fits.entsz
      rw [four] at low high ents next ⊢
      have here : j / 4 = i := by omega
      rw [here] at fits
      have written := framed.writeSector works drive used after fits
      have small : c.hdr.lbaTable + i < 2 ^ 64 := by
        rw [after.table]
        omega
      rw [Nat.mod_eq_of_lt small] at written
      simp only
      generalize drives : (Gpt.drvwrite bios (t.setCopy w c) dsk' (Sector.ofBytes (c.tableBytes (4 * i)))
        (c.hdr.lbaTable + i)).2 = t' at written
      have copies : t'.copies = (t.setCopy w c).copies := by
        rw [← drives]
        exact (drvwrite_copies ..).1
      have rest : ∀ j, 4 * (i + 1) ≤ j → (t'.copies w).ent j = (t.copies w).ent j := by
        intro j behind
        rw [copies, copies_setCopy_self, ents j, if_neg (by omega)]
      obtain ⟨framed', others, _⟩ := ih (i + 1) true t' written (by rwa [← last]) (by rwa [← last]) (by
        intro j low' high' tried'
        rw [four] at low'
        rw [rest j low'] at tried'
        rw [← last] at high'
        exact each j (by rw [four]; omega) high' tried')
      refine ⟨framed', fun v other => ?_, fun _ => .inr ⟨i, fits⟩⟩
      rw [others v other, copies, copies_setCopy_other t c other]

def ConvFits (bios : Bios) (s : State) (dsk : Dsk) : Prop :=
  ∀ w, Used bios s dsk w → ∀ j < (hdr bios s dsk w).entriesPerSec * convSectors (hdr bios s dsk w),
    isTried ((taken bios s dsk w).ent j) = true → Fits bios s dsk w (j / 4)

theorem Framed.convCopy (works : ∀ n, bios.writes n = true) (drive : dsk'.drive = dsk.drive)
    (framed : Framed bios s dsk targets t) (w : Which) (same : t.copies w = taken bios s dsk w)
    (each : Used bios s dsk w → ∀ j < (hdr bios s dsk w).entriesPerSec * convSectors (hdr bios s dsk w),
      isTried ((taken bios s dsk w).ent j) = true → Fits bios s dsk w (j / 4) ∧ address bios s dsk w j ∈ targets) :
    Framed bios s dsk targets (Gpt.convCopy bios dsk' w t) ∧ ∀ v, v ≠ w →
    (Gpt.convCopy bios dsk' w t).copies v = t.copies v := by
  rw [Gpt.convCopy, same]
  split
  next used =>
    obtain ⟨small, room⟩ := convSectors_room (hdr bios s dsk w)
    have loop := framed.convLoop works drive used (convSectors (hdr bios s dsk w)) 0 false t
    rw [Nat.zero_add, Nat.mul_zero, same] at loop
    obtain ⟨framed', others, any⟩ := loop small room fun j _ less tried => each used j less tried
    rw [gptbootconv, same]
    rcases ran : Gpt.convLoop bios dsk' w (convSectors (taken bios s dsk w).hdr) 0 false t with ⟨flag, t'⟩
    rw [hdr, ran] at framed' others any
    cases flag with
    | false => exact ⟨framed', others⟩
    | true =>
      obtain absurd | ⟨j, fits⟩ := any rfl
      · cases absurd
      · refine ⟨framed'.writeHdr works drive used fits.header, fun v other => ?_⟩
        rw [← others v other]
        exact writeHdr_other bios t' dsk' other
  next => exact ⟨framed, fun _ _ => rfl⟩

theorem framed_readCopies (bios : Bios) (s : State) (dsk : Dsk) (targets : Set Address) : Framed bios s dsk targets
    (readCopies bios s dsk) where
  stands _ := ⟨rfl, rfl, rfl, rfl, rfl, fun used entsz i less => .inl ((taken_tabled used entsz).agree i less)⟩
  disk := ⟨fun _ _ _ _ _ => .inl rfl, fun _ _ _ _ _ => rfl⟩
  log := ⟨[], (append_nil _).symm, fun _ inside => absurd inside not_mem_nil⟩

def Selected (bios : Bios) : Boot → List Op → Nat → Prop
  | _, [], _ => False
  | b, op :: ops, i => ((step bios b op).ok = true ∧ (step bios b op).state.curent = i) ∨ Selected bios (step bios b op) ops i

def Targets (bios : Bios) (s : State) (dsk : Dsk) (selected : Nat → Prop) : Set Address :=
  { a | ∃ w i, Used bios s dsk w ∧ (hdr bios s dsk w).entsz = 128 ∧ i < (hdr bios s dsk w).entries ∧
    a = address bios s dsk w i ∧ (isTried ((taken bios s dsk w).ent i) = true ∨ selected i) }

def Selectable (b : Boot) (op : Op) (i : Nat) : Prop :=
  i < b.state.gpthdr.entries ∧ (b.state.gpttable i).has gptEntAttrBootonce = true ∧
  match op with
  | .find uuid part => isType uuid (b.state.gpttable i) = true ∧ (0 ≤ part → (i : Int) + 1 = part)
  | .bootfailed => b.state.curent = i

/-- At each call, each entry that may be updated lies in a sector that fits, in all copies. -/
def RunFits (bios : Bios) (s : State) (dsk : Dsk) : Boot → List Op → Prop
  | _, [] => True
  | b, op :: ops => (∀ i, Selectable b op i → ∀ w, Used bios s dsk w → Fits bios s dsk w (i / 4)) ∧
      RunFits bios s dsk (step bios b op) ops

structure Going (bios : Bios) (s : State) (dsk : Dsk) (selected : Nat → Prop) (b : Boot) : Prop where
  framed : Framed bios s dsk (Targets bios s dsk selected) b.state
  drive : b.dsk.drive = dsk.drive
  chosen : b.ok = true → ∃ i : Nat, b.state.curent = i ∧ i < b.state.gpthdr.entries ∧ selected i

theorem target_of_selected (used : Used bios s dsk w) (fits : Fits bios s dsk w j)
    (less : i < (hdr bios s dsk w).entries) (chosen : selected i) :
    address bios s dsk w i ∈ Targets bios s dsk selected := ⟨w, i, used, fits.entsz, less, rfl, .inr chosen⟩

theorem Framed.moved (framed : Framed bios s dsk targets t) (curent : Int) (bootonce : Bool) : Framed bios s dsk targets
    (moved t curent bootonce) :=
  ⟨framed.stands, framed.disk, framed.log⟩

theorem curent_found (bios : Bios) (t : State) (dsk : Dsk) :
    (found bios t dsk).2.1.curent = t.curent ∧ (found bios t dsk).1 = 0 := by
  rw [found]
  split
  · exact ⟨(updateBoth_kept ..).curent, rfl⟩
  · exact ⟨rfl, rfl⟩

theorem Framed.found (works : ∀ n, bios.writes n = true) (drive : dsk'.drive = dsk.drive)
    (framed : Framed bios s dsk targets t) (here : t.curent = i)
    (fits : (t.gpttable i).has gptEntAttrBootonce = true → ∀ w, Used bios s dsk w → Fits bios s dsk w (i / 4))
    (target : (t.gpttable i).has gptEntAttrBootonce = true → ∀ w, Used bios s dsk w → i < (hdr bios s dsk w).entries →
      address bios s dsk w i ∈ targets) :
    Framed bios s dsk targets (Gpt.found bios t dsk').2.1 := by
  rw [Gpt.found, here]
  split
  next marked =>
    have index : t.curent.toNat = i := by rw [here, Int.toNat_natCast]
    exact framed.updateBoth works drive (fun e => onlyFlags_clear e (by decide)) (by rw [index]; exact fits marked)
      (by rw [index]; exact target marked)
  next => exact framed

theorem step_going (works : ∀ n, bios.writes n = true) (op : Op) (going : Going bios s dsk selected b)
    (allowed : op = .bootfailed → b.ok = true)
    (fits : ∀ i, Selectable b op i → ∀ w, Used bios s dsk w → Fits bios s dsk w (i / 4))
    (listed : ∀ i : Nat, (step bios b op).ok = true → (step bios b op).state.curent = i → selected i) :
    Going bios s dsk selected (step bios b op) := by
  cases op with
  | find uuid part =>
    rw [step] at listed ⊢
    rcases gptfind_picks bios b.state uuid b.dsk part with ⟨curent, bootonce, missed⟩ | ⟨i, bootonce, less,
      typed, asked, hit⟩
    · rw [missed]
      exact ⟨going.framed.moved curent bootonce, going.drive, fun absurd => by cases absurd⟩
    · rw [hit] at listed ⊢
      obtain ⟨curent, success⟩ := curent_found bios (moved b.state i bootonce) b.dsk
      have chosen : selected i := listed i (by rw [success]; rfl) curent
      have fits' : ((moved b.state i bootonce).gpttable i).has gptEntAttrBootonce = true → ∀ w, Used bios s dsk w →
        Fits bios s dsk w (i / 4) :=
        fun marked => fits i ⟨less, marked, typed, asked⟩
      refine ⟨(going.framed.moved i bootonce).found works going.drive rfl fits' fun marked w used inside => ?_, ?_,
        fun _ => ⟨i, curent, ?_, chosen⟩⟩
      · exact target_of_selected used (fits' marked w used) inside chosen
      · rw [found]
        split <;> exact going.drive
      · rw [found]
        split
        · exact ((updateBoth_kept ..).gpthdr).symm ▸ less
        · exact less
  | bootfailed =>
    rw [step] at listed ⊢
    obtain ⟨i, curent, less, chosen⟩ := going.chosen (allowed rfl)
    have kept : Kept b.state (gptbootfailed bios b.state b.dsk) := by
      rw [gptbootfailed]
      split
      · exact .refl _
      · exact updateBoth_kept ..
    refine ⟨?_, going.drive, fun _ => ⟨i, kept.curent.trans curent, by rw [kept.gpthdr]; exact less, chosen⟩⟩
    have index : b.state.curent.toNat = i := by rw [curent, Int.toNat_natCast]
    rw [gptbootfailed, index]
    split
    next => exact going.framed
    next marked =>
      have marked' : (b.state.gpttable i).has gptEntAttrBootonce = true := by simpa using marked
      have fits' := fits i ⟨less, marked', curent⟩
      apply going.framed.updateBoth works going.drive onlyFlags_fail
      · rw [index]
        exact fits'
      · rw [index]
        exact fun w used inside => target_of_selected used (fits' w used) inside chosen

theorem run_going (works : ∀ n, bios.writes n = true) (ops : List Op) (going : Going bios s dsk selected b)
    (allowed : Allowed bios b ops) (fits : RunFits bios s dsk b ops)
    (listed : ∀ i, Selected bios b ops i → selected i) :
    Going bios s dsk selected (run bios b ops) := by
  induction ops generalizing b with
  | nil => exact going
  | cons op ops ih =>
    have stepped := step_going works op going allowed.1 fits.1 fun i ok here => listed i (.inl ⟨ok, here⟩)
    exact ih stepped allowed.2 fits.2 fun i later => listed i (.inr later)

theorem entries_begin (bios : Bios) (s : State) (dsk : Dsk) :
    (begin bios s dsk).state.gpthdr.entries = (hdr bios s dsk (readCopies bios s dsk).active).entries :=
  (gptread_kept bios s dsk).1.gpthdr

theorem begin_going (works : ∀ n, bios.writes n = true) (fits : ConvFits bios s dsk) (selected : Nat → Prop) :
    Going bios s dsk selected (begin bios s dsk) := by
  have each : ∀ w, Used bios s dsk w → ∀ j < (hdr bios s dsk w).entriesPerSec * convSectors (hdr bios s dsk w),
      isTried ((taken bios s dsk w).ent j) = true → Fits bios s dsk w (j / 4) ∧
        address bios s dsk w j ∈ Targets bios s dsk selected := by
    intro w used j less tried
    have here := fits w used j less tried
    have inside := Nat.lt_of_lt_of_le less (convSectors_room (hdr bios s dsk w)).2
    exact ⟨here, w, j, used, here.entsz, inside, rfl, .inl tried⟩
  obtain ⟨first, others⟩ :=
    (framed_readCopies bios s dsk (Targets bios s dsk selected)).convCopy works rfl .primary rfl (each .primary)
  obtain ⟨second, _⟩ := first.convCopy works rfl .backup (others .backup (by decide)) (each .backup)
  exact ⟨second, rfl, fun absurd => by cases absurd⟩

/-- Updates of the boot attributes write to the headers and tables of the copies alone, and change nothing but flags of
the entries that are converted or selected. -/
theorem boot_attributes_frame (bios : Bios) (works : ∀ n, bios.writes n = true) (s : State) (dsk : Dsk)
    (conv : ConvFits bios s dsk) (ops : List Op) (allowed : Allowed bios (begin bios s dsk) ops)
    (fits : RunFits bios s dsk (begin bios s dsk) ops) :
    let t := (run bios (begin bios s dsk) ops).state
    (∃ ws, t.log = s.log ++ ws ∧ ∀ x ∈ ws, OwnSector bios s dsk x.1) ∧
    OnlyTargets bios s dsk (Targets bios s dsk (Selected bios (begin bios s dsk) ops)) s.disk t.disk := by
  intro t
  have going := run_going works ops (begin_going works conv (Selected bios (begin bios s dsk) ops)) allowed fits
    fun _ chosen => chosen
  exact ⟨going.framed.log, going.framed.disk⟩

/-- A primary table of five entries, the last of them marked, and a backup table of four. -/
def unevenDisk : Nat × Nat → Sector := fun x =>
  let ents := [Ent.zero, Ent.zero, Ent.zero, Ent.zero]
  if x = (128, 1) then Sector.ofBytes (sampleHdr 92 1 9 2 (ents ++ [markedEnt])).bytes
  else if x = (128, 2) ∨ x = (128, 7) then Sector.ofBytes (ents.flatMap Ent.bytes)
  else if x = (128, 3) then Sector.ofBytes markedEnt.bytes
  else if x = (128, 9) then Sector.ofBytes (sampleHdr 92 9 1 7 ents).bytes
  else Sector.ofBytes []

def unevenState : State := { sampleState 92 [] with disk := unevenDisk }

/-- The fifth entry is selected: sector 8, behind the backup table, is written. -/
theorem sector_behind_backup_written :
    (∀ w, Used sampleBios unevenState sampleDsk w) ∧
    let t := (run sampleBios (begin sampleBios unevenState sampleDsk) [.find sampleUuid (-1)]).state
    Allowed sampleBios (begin sampleBios unevenState sampleDsk) [.find sampleUuid (-1)] ∧
    ¬ ∃ ws, t.log = unevenState.log ++ ws ∧ ∀ x ∈ ws, OwnSector sampleBios unevenState sampleDsk x.1 := by
  have fields : ∀ w, 0 < (taken sampleBios unevenState sampleDsk w).lba ∧
    (hdr sampleBios unevenState sampleDsk w).entsz = 128 ∧
      (hdr sampleBios unevenState sampleDsk w).entries = (if w = .primary then 5 else 4) ∧
      (hdr sampleBios unevenState sampleDsk w).lbaTable = (if w = .primary then 2 else 7) ∧
      (hdr sampleBios unevenState sampleDsk w).lbaSelf = if w = .primary then 1 else 9 := by
    intro w
    cases w <;> decide +kernel
  refine ⟨fun w => Nat.ne_of_gt (fields w).1, ⟨(fun absurd => by cases absurd), trivial⟩, ?_⟩
  rintro ⟨ws, log, own⟩
  have written : (128, 8) ∈
    (run sampleBios (begin sampleBios unevenState sampleDsk) [.find sampleUuid (-1)]).state.log.map Prod.fst := by
    decide +kernel
  rw [log] at written
  obtain ⟨x, inside, here⟩ := List.mem_map.mp written
  obtain ⟨w, _, header | ⟨j, less, sector⟩⟩ := own x inside
  · obtain ⟨_, _, _, _, self⟩ := fields w
    rw [here] at header
    have self' : 8 = (hdr sampleBios unevenState sampleDsk w).lbaSelf := congrArg Prod.snd header
    rw [self] at self'
    cases w <;> exact absurd self' (by decide)
  · obtain ⟨_, entsz, entries, table, _⟩ := fields w
    rw [arraySectors_of_entsz entsz, tableSectors, entries] at less
    rw [here] at sector
    have lba : 8 = ((hdr sampleBios unevenState sampleDsk w).lbaTable + j) % 2 ^ 64 := congrArg Prod.snd sector
    rw [table] at lba
    cases w with
    | primary => simp only [if_true] at less lba; omega
    | backup => simp only [reduceCtorEq, if_false] at less lba; omega

theorem sample_framed :
    let b := begin sampleBios (sampleState 92 [markedEnt]) sampleDsk
    OnlyTargets sampleBios (sampleState 92 [markedEnt]) sampleDsk
      (Targets sampleBios (sampleState 92 [markedEnt]) sampleDsk (Selected sampleBios b [.find sampleUuid (-1)]))
      (sampleDisk 92 [markedEnt]) (run sampleBios b [.find sampleUuid (-1)]).state.disk := by
  have fields : ∀ w, (hdr sampleBios (sampleState 92 [markedEnt]) sampleDsk w).entsz = 128 ∧
      (hdr sampleBios (sampleState 92 [markedEnt]) sampleDsk w).entries = 1 ∧
      (hdr sampleBios (sampleState 92 [markedEnt]) sampleDsk w).lbaTable = (if w = .primary then 2 else 8) ∧
      (hdr sampleBios (sampleState 92 [markedEnt]) sampleDsk w).lbaSelf = if w = .primary then 1 else 9 := by
    intro w
    cases w <;> decide +kernel
  have sectors : ∀ w, arraySectors (hdr sampleBios (sampleState 92 [markedEnt]) sampleDsk w) = 1 := by
    intro w
    rw [arraySectors_of_entsz (fields w).1, (fields w).2.1]
    rfl
  have sector : ∀ w, (place sampleBios (sampleState 92 [markedEnt]) sampleDsk w).sector 0 = (128, if w = .primary then 2 else 8) := by
    intro w
    have table : (place sampleBios (sampleState 92 [markedEnt]) sampleDsk w).table = if w = .primary then 2 else 8 := (fields w).2.2.1
    rw [Place.sector, table]
    cases w <;> rfl
  have header : ∀ w, (place sampleBios (sampleState 92 [markedEnt]) sampleDsk w).header = (128, if w = .primary then 1 else 9) :=
    fun w => Prod.ext rfl (fields w).2.2.2
  have fits : ∀ w, Fits sampleBios (sampleState 92 [markedEnt]) sampleDsk w 0 := by
    intro w
    refine ⟨(fields w).1, by rw [sectors w]; decide, fun v _ k less => ?_, fun v _ _ i less k low here same => ?_, fun v _ entsz => ?_⟩
    · rw [sectors v] at less
      obtain rfl : k = 0 := by omega
      rw [header, sector]
      cases w <;> cases v <;> decide
    · rw [(fields v).2.1] at less
      rw [(fields w).2.1] at low
      have index : k % 4 = i % 4 := congrArg Prod.snd same
      omega
    · exact absurd (fields v).1 entsz
  have one := (entries_begin ..).trans (fields _).2.1
  have conv : ConvFits sampleBios (sampleState 92 [markedEnt]) sampleDsk := by
    intro w _ j less _
    have none := (convSectors_room (hdr sampleBios (sampleState 92 [markedEnt]) sampleDsk w)).2
    rw [(fields w).2.1] at none
    obtain rfl : j = 0 := by omega
    exact fits w
  apply (boot_attributes_frame sampleBios (fun _ => rfl) (sampleState 92 [markedEnt]) sampleDsk conv [.find sampleUuid (-1)] ?_ ?_).2
  · exact ⟨(fun absurd => by cases absurd), trivial⟩
  · refine ⟨fun i selectable w _ => ?_, trivial⟩
    have less := selectable.1
    obtain rfl : i = 0 := by omega
    exact fits w

end Pcbsd.Proofs.GptFrame
