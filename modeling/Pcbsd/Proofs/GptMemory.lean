import Pcbsd.Proofs.GptImage

/-! What the functions of gpt.c do to the variables in memory, whether their writes succeed
or not: an update changes one entry and the checksums, and nothing else. -/

namespace Pcbsd.Proofs.GptMemory
open Lib Gpt Proofs.GptImage Function

theorem attr_setAttr (e : Ent) (v : BitVec 64) : (e.setAttr v).attr = v := by
  rw [Ent.attr, Ent.setAttr]
  simp only
  rw [le_put_self (by rw [e.size]; decide) v.isLt, BitVec.ofNat_toNat, BitVec.setWidth_eq]

theorem type_setAttr (e : Ent) (v : BitVec 64) : (e.setAttr v).type = e.type :=
  slice_put_other (by rw [e.size, length_toLe]; decide) (by omega)

theorem lbaStart_setAttr (e : Ent) (v : BitVec 64) : (e.setAttr v).lbaStart = e.lbaStart :=
  le_put_other (by rw [e.size]; decide) (by omega)

theorem has_clear (e : Ent) (flag : BitVec 64) : (e.clear flag).has flag = false := by
  rw [Ent.has, Ent.clear, attr_setAttr, BitVec.and_assoc, BitVec.and_comm (~~~flag), BitVec.and_not_self]
  simp

variable {uuid : Bytes} {s : State} {other flag : BitVec 64} {s' : State} {e' e : Ent} {v w : Which} {t : State}

theorem has_clear_of_apart (e : Ent) (apart : ~~~flag &&& other = other) :
    (e.clear flag).has other = e.has other := by
  rw [Ent.has, Ent.clear, attr_setAttr, BitVec.and_assoc, apart, Ent.has]

theorem has_mark_of_apart (e : Ent) (apart : flag &&& other = 0) :
    (e.mark flag).has other = e.has other := by
  rw [Ent.has, Ent.mark, attr_setAttr, BitVec.and_or_distrib_right, apart, Ent.has]
  simp

theorem bootonce_fail (e : Ent) : e.fail.has gptEntAttrBootonce = false := by
  rw [Ent.fail, has_mark_of_apart _ (by decide), has_clear]

theorem bootme_fail (e : Ent) : e.fail.has gptEntAttrBootme = e.has gptEntAttrBootme := by
  rw [Ent.fail, has_mark_of_apart _ (by decide), has_clear_of_apart _ (by decide)]

theorem type_fail (e : Ent) : e.fail.type = e.type := by
  rw [Ent.fail, Ent.mark, type_setAttr, Ent.clear, type_setAttr]

theorem lbaStart_fail (e : Ent) : e.fail.lbaStart = e.lbaStart := by
  rw [Ent.fail, Ent.mark, lbaStart_setAttr, Ent.clear, lbaStart_setAttr]

structure Kept (s s' : State) : Prop where
  lba : ∀ w, (s'.copies w).lba = (s.copies w).lba
  entries : ∀ w, (s'.copies w).hdr.entries = (s.copies w).hdr.entries
  active : s'.active = s.active
  curent : s'.curent = s.curent
  bootonce : s'.bootonce = s.bootonce

theorem Kept.refl (s : State) : Kept s s := ⟨fun _ => rfl, fun _ => rfl, rfl, rfl, rfl⟩

theorem Kept.trans {s'' : State} (first : Kept s s') (second : Kept s' s'') : Kept s s'' :=
  ⟨fun w => (second.lba w).trans (first.lba w), fun w => (second.entries w).trans (first.entries w),
    second.active.trans first.active, second.curent.trans first.curent, second.bootonce.trans first.bootonce⟩

theorem Kept.gpthdr (kept : Kept s s') : s'.gpthdr.entries = s.gpthdr.entries := by
  rw [State.gpthdr, kept.active, kept.entries, State.gpthdr]

def SameTables (s s' : State) : Prop := ∀ w, (s'.copies w).table = (s.copies w).table

theorem SameTables.ent (same : SameTables s s') (w : Which) (i : Nat) :
    (s'.copies w).ent i = (s.copies w).ent i := by rw [Copy.ent, Copy.ent, same w]

variable (bios : Bios)

theorem drvwrite_copies (s : State) (dsk : Dsk) (sector : Sector) (lba : Nat) :
    (drvwrite bios s dsk sector lba).2.copies = s.copies ∧ Kept s (drvwrite bios s dsk sector lba).2 := by
  rw [drvwrite]
  split <;> exact ⟨rfl, fun _ => rfl, fun _ => rfl, rfl, rfl, rfl⟩

theorem copies_setCopy_self (t : State) (w : Which) (c : Copy) : (t.setCopy w c).copies w = c := update_self ..

theorem copies_setCopy_other (t : State) (c : Copy) (other : v ≠ w) : (t.setCopy w c).copies v = t.copies v :=
  update_of_ne other _ _

theorem setCopy_kept {which : Which} {c : Copy} (lba : c.lba = (s.copies which).lba)
    (entries : c.hdr.entries = (s.copies which).hdr.entries) : Kept s (s.setCopy which c) := by
  refine ⟨fun w => ?_, fun w => ?_, rfl, rfl, rfl⟩
  all_goals
    by_cases same : w = which
    · subst same
      simpa [State.setCopy] using ‹_›
    · simp [State.setCopy, update_of_ne same]

theorem entries_setCrcSelf (h : Hdr) (v : Nat) : (h.setCrcSelf v).entries = h.entries :=
  congrArg leNat (slice_setWord (by omega))

theorem entries_setCrcTable (h : Hdr) (v : Nat) : (h.setCrcTable v).entries = h.entries :=
  congrArg leNat (slice_setWord (by omega))

theorem writeHdr_kept (s : State) (dsk : Dsk) (which : Which) :
    Kept s (writeHdr bios s dsk which) ∧ SameTables s (writeHdr bios s dsk which) := by
  rw [writeHdr]
  refine ⟨Kept.trans ?_ (drvwrite_copies ..).2, fun w => ?_⟩
  · exact setCopy_kept rfl (by simp only [entries_setCrcSelf, entries_setCrcTable])
  · rw [(drvwrite_copies ..).1]
    by_cases same : w = which
    · subst same
      simp [State.setCopy]
    · simp [State.setCopy, update_of_ne same]

theorem writeHdr_other (t : State) (dsk : Dsk) (other : v ≠ w) : (Gpt.writeHdr bios t dsk w).copies v =
    t.copies v := by
  rw [Gpt.writeHdr, (drvwrite_copies ..).1]
  exact copies_setCopy_other t _ other

theorem gptupdate_kept (s : State) (dsk : Dsk) (which : Which) :
    Kept s (gptupdate bios s dsk which) ∧ SameTables s (gptupdate bios s dsk which) := by
  rw [gptupdate]
  split
  next t written =>
    obtain ⟨copies, kept⟩ := congrArg Prod.snd written ▸ drvwrite_copies bios s dsk _ _
    exact ⟨kept, fun w => congrFun (congrArg (fun c w => Copy.table (c w)) copies) w⟩
  next t written =>
    obtain ⟨copies, kept⟩ := congrArg Prod.snd written ▸ drvwrite_copies bios s dsk _ _
    obtain ⟨kept', same⟩ := writeHdr_kept bios t dsk which
    exact ⟨kept.trans kept', fun w => (same w).trans (congrArg Copy.table (congrFun copies w))⟩

variable (dsk : Dsk)

theorem updateCopy_kept (f : Ent → Ent) (which : Which) (s : State) :
    Kept s (updateCopy bios dsk f which s) := by
  rw [updateCopy]
  split
  · refine Kept.trans ?_ (gptupdate_kept ..).1
    exact setCopy_kept rfl rfl
  · exact .refl s

theorem updateCopy_ent (f : Ent → Ent) (which w : Which) (s : State) (inside : s.curent.toNat < maxtblents) (i : Nat) :
    ((updateCopy bios dsk f which s).copies w).ent i =
      if w = which ∧ 0 < (s.copies w).lba ∧ i = s.curent.toNat then f ((s.copies w).ent i) else (s.copies w).ent i := by
  rw [updateCopy]
  split
  next used =>
    rw [(gptupdate_kept ..).2.ent]
    by_cases same : w = which
    · subst same
      simp only [State.setCopy, update_self, ent_modifyEnt _ _ _ _ inside, used, true_and]
      split
      next here => rw [here]
      next => rfl
    · simp [State.setCopy, same]
  next unused =>
    by_cases same : w = which
    · subst same
      simp [unused]
    · simp [same]

theorem updateBoth_kept (f : Ent → Ent) (s : State) : Kept s (updateBoth bios dsk f s) :=
  (updateCopy_kept ..).trans (updateCopy_kept ..)

theorem updateBoth_ent (f : Ent → Ent) (w : Which) (s : State) (inside : s.curent.toNat < maxtblents)
    (used : 0 < (s.copies w).lba) (i : Nat) :
    ((updateBoth bios dsk f s).copies w).ent i =
      if i = s.curent.toNat then f ((s.copies w).ent i) else (s.copies w).ent i := by
  have kept := updateCopy_kept bios dsk f .primary s
  rw [updateBoth, updateCopy_ent _ _ _ _ _ _ (by rw [kept.curent]; exact inside), updateCopy_ent _ _ _ _ _ _ inside,
    kept.lba, kept.curent]
  cases w <;> simp [used]

theorem convSector_spec (c : Copy) (nent k : Nat) (inside : nent + k ≤ maxtblents) :
    Reloaded c (convSector c nent k).2 ∧
    ((convSector c nent k).1 = true ↔ ∃ i, nent ≤ i ∧ i < nent + k ∧ isTried (c.ent i) = true) ∧
    ∀ i, (convSector c nent k).2.ent i =
      if nent ≤ i ∧ i < nent + k ∧ isTried (c.ent i) = true then (c.ent i).fail else c.ent i := by
  induction k with
  | zero =>
    refine ⟨.refl c, ⟨fun absurd => by simp [convSector] at absurd, fun ⟨i, low, high, _⟩ => by omega⟩, fun i => ?_⟩
    rw [if_neg (by omega)]
    rfl
  | succ k ih =>
    obtain ⟨same, flag, ents⟩ := ih (by omega)
    have here : (convSector c nent k).2.ent (nent + k) = c.ent (nent + k) := by rw [ents, if_neg (by omega)]
    rw [convSector]
    simp only [here]
    split
    next tried =>
      refine ⟨same.trans ⟨rfl, rfl, rfl, rfl⟩, ⟨fun _ => ⟨nent + k, by omega, by omega, tried⟩, fun _ => rfl⟩, fun i => ?_⟩
      rw [ent_modifyEnt _ _ _ _ (by omega), here, ents]
      by_cases last : i = nent + k
      · subst last
        rw [if_pos rfl, if_pos ⟨by omega, by omega, tried⟩]
      · have range : i < nent + (k + 1) ↔ i < nent + k := by omega
        rw [if_neg last]
        simp only [range]
    next untried =>
      refine ⟨same, ?_, fun i => ?_⟩
      · rw [flag]
        refine ⟨fun ⟨i, low, high, tried⟩ => ⟨i, low, by omega, tried⟩, fun ⟨i, low, high, tried⟩ => ⟨i, low, ?_, tried⟩⟩
        have : i ≠ nent + k := fun last => untried (last ▸ tried)
        omega
      · rw [ents]
        by_cases last : i = nent + k
        · subst last
          simp [untried]
        · have range : i < nent + (k + 1) ↔ i < nent + k := by omega
          simp only [range]

/-- What gptbootconv may do to an entry: nothing that gptfind looks at changes. -/
structure SameKind (e e' : Ent) : Prop where
  type : e'.type = e.type
  bootme : e'.has gptEntAttrBootme = e.has gptEntAttrBootme
  bootonce : e.has gptEntAttrBootme = true → e'.has gptEntAttrBootonce = e.has gptEntAttrBootonce
  start : e'.lbaStart = e.lbaStart

theorem SameKind.refl (e : Ent) : SameKind e e := ⟨rfl, rfl, fun _ => rfl, rfl⟩

theorem SameKind.trans {e'' : Ent} (first : SameKind e e') (second : SameKind e' e'') : SameKind e e'' :=
  ⟨second.type.trans first.type, second.bootme.trans first.bootme,
    fun marked => (second.bootonce (first.bootme.trans marked)).trans (first.bootonce marked),
    second.start.trans first.start⟩

theorem sameKind_fail (tried : isTried e = true) : SameKind e e.fail := by
  refine ⟨type_fail e, bootme_fail e, fun marked => ?_, lbaStart_fail e⟩
  have flags : e.attr &&& (gptEntAttrBootme ||| gptEntAttrBootonce ||| gptEntAttrBootfailed) = gptEntAttrBootonce := by
    simpa [isTried] using tried
  have none : e.attr &&& gptEntAttrBootme = 0 := by
    have narrow : (gptEntAttrBootme ||| gptEntAttrBootonce ||| gptEntAttrBootfailed) &&& gptEntAttrBootme = gptEntAttrBootme := by
      decide
    rw [← narrow, ← BitVec.and_assoc, flags]
    decide
  simp [Ent.has, none] at marked

theorem isBootonce_sameKind (same : SameKind e e') : isBootonce uuid e' = isBootonce uuid e := by
  simp only [isBootonce, same.type, same.bootme]
  cases marked : e.has gptEntAttrBootme with
  | true => rw [same.bootonce marked]
  | false => simp

theorem isBootme_sameKind (same : SameKind e e') : isBootme uuid e' = isBootme uuid e := by
  simp only [isBootme, same.type, same.bootme]
  cases marked : e.has gptEntAttrBootme with
  | true => rw [same.bootonce marked]
  | false => simp

def SameKinds (s t : State) : Prop := ∀ w i, SameKind ((s.copies w).ent i) ((t.copies w).ent i)

theorem SameKinds.trans {u : State} (first : SameKinds s t) (second : SameKinds t u) : SameKinds s u :=
  fun w i => (first w i).trans (second w i)

theorem SameTables.sameKinds (same : SameTables s t) : SameKinds s t := fun w i => by
  rw [same.ent]
  exact .refl _

theorem convLoop_kept (which : Which) (k i : Nat) (flag : Bool) (s : State)
    (small : (i + k) * (s.copies which).hdr.entriesPerSec ≤ maxtblents) :
    Kept s (convLoop bios dsk which k i flag s).2 ∧ SameKinds s (convLoop bios dsk which k i flag s).2 := by
  induction k generalizing i flag s with
  | zero => exact ⟨.refl s, fun _ _ => .refl _⟩
  | succ k ih =>
    have here : i * (s.copies which).hdr.entriesPerSec + (s.copies which).hdr.entriesPerSec ≤ maxtblents := by
      refine le_trans ?_ small
      rw [← Nat.succ_mul]
      exact Nat.mul_le_mul_right _ (by omega)
    obtain ⟨same, -, ents⟩ := convSector_spec (s.copies which) _ _ here
    rw [convLoop]
    split
    next => exact ih (i + 1) flag s (by rw [show i + 1 + k = i + (k + 1) by omega]; exact small)
    next c converted =>
      rw [converted] at same ents
      have header : c.hdr = (s.copies which).hdr := same.hdr
      have step : Kept s (s.setCopy which c) := setCopy_kept same.lba (by rw [header])
      have kinds : SameKinds s (s.setCopy which c) := by
        intro w j
        by_cases this : w = which
        · subst this
          simp only [State.setCopy, update_self, ents]
          split
          next tried => exact sameKind_fail tried.2.2
          next => exact .refl _
        · simp only [State.setCopy, update_of_ne this]
          exact .refl _
      obtain ⟨copies, written⟩ := drvwrite_copies bios (s.setCopy which c) dsk
        (Sector.ofBytes (c.tableBytes (i * (s.copies which).hdr.entriesPerSec))) (c.hdr.lbaTable + i)
      obtain ⟨kept', kinds'⟩ := ih (i + 1) true (drvwrite bios (s.setCopy which c) dsk
        (Sector.ofBytes (c.tableBytes (i * (s.copies which).hdr.entriesPerSec))) (c.hdr.lbaTable + i)).2 (by
          rw [copies, show i + 1 + k = i + (k + 1) by omega]
          simp only [State.setCopy, update_self, header]
          exact small)
      refine ⟨(step.trans written).trans kept', kinds.trans (SameKinds.trans (fun w j => ?_) kinds')⟩
      rw [copies]
      exact .refl _

theorem convSectors_room (h : Hdr) :
    h.lbaTable + convSectors h < 2 ^ 64 ∧ h.entriesPerSec * convSectors h ≤ h.entries := by
  have small : h.lbaTable < 2 ^ 64 := le_lt 8 72 h.bytes
  rw [convSectors]
  split
  next fits => exact ⟨fits, Nat.mul_div_le h.entries h.entriesPerSec⟩
  next => exact ⟨small, Nat.zero_le _⟩

theorem gptbootconv_kept (s : State) (dsk : Dsk) (which : Which) (most : (s.copies which).hdr.entries ≤ maxtblents) :
    Kept s (gptbootconv bios s dsk which) ∧ SameKinds s (gptbootconv bios s dsk which) := by
  obtain ⟨kept, kinds⟩ := convLoop_kept bios dsk which (convSectors (s.copies which).hdr) 0 false s
    (by rw [Nat.zero_add, Nat.mul_comm]; exact le_trans (convSectors_room _).2 most)
  rw [gptbootconv]
  split
  next t done =>
    rw [done] at kept kinds
    exact ⟨kept, kinds⟩
  next t done =>
    rw [done] at kept kinds
    obtain ⟨kept', same⟩ := writeHdr_kept bios t dsk which
    exact ⟨kept.trans kept', kinds.trans same.sameKinds⟩

theorem convCopy_kept (which : Which) (s : State)
    (most : (s.copies which).lba ≠ 0 → (s.copies which).hdr.entries ≤ maxtblents) :
    Kept s (convCopy bios dsk which s) ∧ SameKinds s (convCopy bios dsk which s) := by
  rw [convCopy]
  split
  next used => exact gptbootconv_kept _ _ _ _ (most used)
  next => exact ⟨.refl s, fun _ _ => .refl _⟩

theorem copyEnts_reloaded (secbuf : Sector) (nent k : Nat) (c : Copy) : Reloaded c (copyEnts secbuf nent k c) := by
  induction k with
  | zero => exact .refl c
  | succ k ih => exact ih.trans ⟨rfl, rfl, rfl, rfl⟩

variable (d : Nat × Nat → Sector)

theorem tableLoop_reloaded (dsk : Dsk) (fuel slba nent : Nat) (c : Copy) :
    Reloaded c (tableLoop bios d dsk fuel slba nent c).2 := by
  induction fuel generalizing slba nent c with
  | zero => exact .refl c
  | succ fuel ih =>
    rw [tableLoop]
    split
    next => exact .refl c
    next secbuf _ =>
      have step := copyEnts_reloaded secbuf nent (min c.hdr.entriesPerSec (c.hdr.entries - nent)) c
      simp only
      split
      · exact step
      · exact step.trans (ih ..)

theorem gptreadTable_reloaded (dsk : Dsk) (c : Copy) :
    Reloaded c (gptreadTable bios d dsk c).2 := by
  have loop := tableLoop_reloaded bios d dsk c.hdr.entries 0 0 c
  rw [gptreadTable]
  split
  · exact .refl c
  · split
    next read => rwa [read] at loop
    next read =>
      rw [read] at loop
      split <;> exact loop

theorem gptreadHdr_most (dsk : Dsk) (c : Copy) (lba : Nat) (done : (gptreadHdr bios d dsk c lba).1 = 0) :
    (gptreadHdr bios d dsk c lba).2.hdr.entries ≤ maxtblents := by
  rw [gptreadHdr] at done ⊢
  split at done
  next => simp at done
  next _ _ =>
    simp only at done ⊢
    split at done
    next => simp at done
    next fine =>
      rw [if_neg fine]
      split at done
      next => simp at done
      next crc =>
        rw [if_neg crc]
        simp only [not_or, not_lt] at fine
        simp only [entries_setCrcSelf]
        exact fine.2.2.2.2.1

theorem readCopy_most (dsk : Dsk) (c : Copy) (lba : Nat) (used : (readCopy bios d dsk c lba).lba ≠ 0) :
    (readCopy bios d dsk c lba).hdr.entries ≤ maxtblents := by
  rw [readCopy] at used ⊢
  split at used
  next c' head =>
    have most := gptreadHdr_most bios d dsk c lba (by rw [head])
    have table := gptreadTable_reloaded bios d dsk c'
    rw [head] at most
    split at used
    next c'' tail =>
      rw [tail] at table
      have header : c''.hdr = c'.hdr := table.hdr
      rw [header]
      exact most
    next => simp at used
  next => simp at used

theorem readCopies_most (s : State) (dsk : Dsk) (w : Which) (used : ((readCopies bios s dsk).copies w).lba ≠ 0) :
    ((readCopies bios s dsk).copies w).hdr.entries ≤ maxtblents := by
  cases w with
  | primary => exact readCopy_most _ _ _ _ _ used
  | backup =>
    simp only [readCopies] at used ⊢
    split at used
    next => simp at used
    next located =>
      rw [if_neg located]
      exact readCopy_most _ _ _ _ _ used

theorem gptread_kept (s : State) (dsk : Dsk) :
    Kept (readCopies bios s dsk) (gptread bios s dsk).2.1 ∧
    SameKinds (readCopies bios s dsk) (gptread bios s dsk).2.1 := by
  obtain ⟨first, kinds⟩ := convCopy_kept bios dsk .primary _ (readCopies_most bios s dsk .primary)
  obtain ⟨second, kinds'⟩ := convCopy_kept bios dsk .backup (convCopy bios dsk .primary (readCopies bios s dsk)) (by
    intro used
    rw [first.lba] at used
    rw [first.entries]
    exact readCopies_most bios s dsk .backup used)
  exact ⟨first.trans second, kinds.trans kinds'⟩

theorem readCopies_active (s : State) (dsk : Dsk) :
    (readCopies bios s dsk).active =
      if 0 < ((readCopies bios s dsk).copies .primary).lba then .primary
      else if 0 < ((readCopies bios s dsk).copies .backup).lba then .backup
      else s.active := rfl

/-- What gptread leaves when it succeeds: the copy in use is a valid one with at most
MAXTBLENTS entries, and the enumeration is at its start. -/
structure Loaded (s : State) : Prop where
  used : 0 < (s.copies s.active).lba
  most : s.gpthdr.entries ≤ maxtblents

theorem gptread_loaded (s : State) (dsk : Dsk) (done : (gptread bios s dsk).1 = 0) :
    Loaded (gptread bios s dsk).2.1 ∧ (gptread bios s dsk).2.1.curent = -1 ∧ (gptread bios s dsk).2.1.bootonce = true := by
  have kept := (gptread_kept bios s dsk).1
  have used : 0 < ((readCopies bios s dsk).copies (readCopies bios s dsk).active).lba := by
    have either : ¬ (((gptread bios s dsk).2.1.copies .primary).lba = 0 ∧ ((gptread bios s dsk).2.1.copies .backup).lba = 0) := by
      intro neither
      have : (gptread bios s dsk).1 = -1 := if_pos neither
      omega
    rw [kept.lba, kept.lba] at either
    rw [readCopies_active]
    by_cases primary : 0 < ((readCopies bios s dsk).copies .primary).lba
    · rwa [if_pos primary]
    · rw [if_neg primary]
      have backup : 0 < ((readCopies bios s dsk).copies .backup).lba := by omega
      rwa [if_pos backup]
  refine ⟨⟨?_, ?_⟩, kept.curent, kept.bootonce⟩
  · rw [kept.active, kept.lba]
    exact used
  · rw [kept.gpthdr]
    exact readCopies_most bios s dsk _ (by omega)

theorem convLoop_quiet (which : Which) (k i : Nat) (flag : Bool) (s : State)
    (small : (i + k) * (s.copies which).hdr.entriesPerSec ≤ maxtblents)
    (none : ∀ j < (i + k) * (s.copies which).hdr.entriesPerSec, isTried ((s.copies which).ent j) = false) :
    convLoop bios dsk which k i flag s = (flag, s) := by
  induction k generalizing i flag with
  | zero => rfl
  | succ k ih =>
    have here : i * (s.copies which).hdr.entriesPerSec + (s.copies which).hdr.entriesPerSec ≤
        (i + (k + 1)) * (s.copies which).hdr.entriesPerSec := by
      rw [← Nat.succ_mul]
      exact Nat.mul_le_mul_right _ (by omega)
    obtain ⟨-, changed, -⟩ := convSector_spec (s.copies which) _ _ (le_trans here small)
    have unchanged : (convSector (s.copies which) (i * (s.copies which).hdr.entriesPerSec) (s.copies which).hdr.entriesPerSec).1 = false := by
      by_contra updated
      obtain ⟨j, -, _, tried⟩ := changed.mp (by simpa using updated)
      rw [none j (by omega)] at tried
      exact absurd tried (by decide)
    rw [convLoop]
    split
    next => exact ih (i + 1) flag (by rwa [show i + 1 + k = i + (k + 1) by omega]) (by rwa [show i + 1 + k = i + (k + 1) by omega])
    next converted => rw [converted] at unchanged; simp at unchanged

theorem convCopy_quiet (which : Which) (s : State) (most : (s.copies which).hdr.entries ≤ maxtblents)
    (none : ∀ j < (s.copies which).hdr.entries, isTried ((s.copies which).ent j) = false) :
    convCopy bios dsk which s = s := by
  have whole : convSectors (s.copies which).hdr * (s.copies which).hdr.entriesPerSec ≤
    (s.copies which).hdr.entries := by
    rw [convSectors]
    split
    · exact Nat.div_mul_le_self _ _
    · simp
  rw [convCopy]
  split
  · rw [gptbootconv, convLoop_quiet bios dsk which _ 0 false s (by rw [Nat.zero_add]; omega)
      (fun j less => none j (by rw [Nat.zero_add] at less; omega))]
  · rfl

theorem gptread_quiet {bios : Bios} (s : State) (dsk : Dsk) {primary backup : Place} (valid : Valid bios primary s.disk)
    (valid' : Valid bios backup s.disk) (drive : dsk.drive = primary.drive) (drive' : dsk.drive = backup.drive)
    (first : primary.lba = 1) (alt : primary.alt = backup.lba) (located : backup.lba ≠ 0)
    (none : ∀ j < primary.entries, isTried (diskEnt primary s.disk j) = false)
    (none' : ∀ j < backup.entries, isTried (diskEnt backup s.disk j) = false) :
    gptread bios s dsk = (0, readCopies bios s dsk, { dsk with start := 0 }) ∧
    Synced primary s.disk ((readCopies bios s dsk).copies .primary) ∧ (readCopies bios s dsk).active = .primary := by
  obtain ⟨synced, -⟩ := readCopy_synced valid dsk drive (s.copies .primary)
  obtain ⟨synced', -⟩ := readCopy_synced valid' dsk drive' (s.copies .backup)
  rw [first] at synced
  have lba := synced.lba.trans first
  have other : (readCopies bios s dsk).copies .backup = readCopy bios s.disk dsk (s.copies .backup) backup.lba := by
    have place : altlba bios dsk (readCopy bios s.disk dsk (s.copies .primary) 1) = backup.lba := by
      rw [altlba, if_pos (by omega), synced.good.alt, alt]
    simp only [readCopies, place]
    rw [if_neg located]
  have quiet : convCopy bios dsk .primary (readCopies bios s dsk) = readCopies bios s dsk := by
    refine convCopy_quiet bios dsk .primary _ (synced.good.entries.trans_le synced.good.most) fun j less => ?_
    have inside : j < primary.entries := less.trans_eq synced.good.entries
    exact (synced.agree j inside).symm ▸ none j inside
  have quiet' : convCopy bios dsk .backup (readCopies bios s dsk) = readCopies bios s dsk := by
    refine convCopy_quiet bios dsk .backup _ ?_ ?_
    · rw [other]
      exact synced'.good.entries.trans_le synced'.good.most
    · rw [other]
      intro j less
      have inside : j < backup.entries := less.trans_eq synced'.good.entries
      rw [synced'.agree j inside]
      exact none' j inside
  have active : (readCopies bios s dsk).active = .primary := by
    rw [readCopies_active]
    exact if_pos (lba ▸ Nat.one_pos)
  have used : ((readCopies bios s dsk).copies .primary).lba ≠ 0 := by
    have : ((readCopies bios s dsk).copies .primary).lba = 1 := lba
    omega
  refine ⟨?_, synced, active⟩
  rw [gptread, quiet, quiet', if_neg fun both => used both.1]

def moved (s : State) (curent : Int) (bootonce : Bool) : State := { s with curent, bootonce }

theorem Loaded.moved {s : State} (loaded : Loaded s) (curent : Int) (bootonce : Bool) :
    Loaded (moved s curent bootonce) := ⟨loaded.used, loaded.most⟩

theorem Loaded.kept {s t : State} (loaded : Loaded s) (kept : Kept s t) : Loaded t :=
  ⟨by rw [kept.active, kept.lba]; exact loaded.used, by rw [kept.gpthdr]; exact loaded.most⟩

def stop (p : Ent → Bool) (s : State) (start : Nat) : Nat := scan p s.gpttable (s.gpthdr.entries - start) start

def findLast (uuid : Bytes) (s : State) (firsttry : Bool) (start : Nat) : Bool × State :=
  if stop (isBootme uuid) s start < s.gpthdr.entries then (true, moved s (stop (isBootme uuid) s start) false)
  else if firsttry then (decide (stop (isType uuid) s 0 < s.gpthdr.entries), moved s (stop (isType uuid) s 0) false)
  else (false, moved s (stop (isBootme uuid) s start) false)

private theorem search_eq (p : Ent → Bool) (s : State) (curent : Int) (bootonce : Bool) (start : Nat) :
    search p (moved s curent bootonce) start =
      (decide (stop p s start < s.gpthdr.entries), moved s (stop p s start) bootonce) := rfl

private theorem findBootme_eq (uuid : Bytes) (s : State) (firsttry : Bool) (curent : Int) :
    findBootme uuid (moved s curent false) firsttry = findLast uuid s firsttry curent.toNat := by
  have position : (moved s curent false).curent = curent := rfl
  rw [findBootme, findLast, position, search_eq]
  by_cases hit : stop (isBootme uuid) s curent.toNat < s.gpthdr.entries
  · simp only [hit, decide_true, if_true]
  · simp only [hit, decide_false, if_false, search_eq]

theorem findNext_eq (uuid : Bytes) (s : State) :
    findNext uuid s =
      if (s.gpthdr.entries : Int) ≤ s.curent + 1 then (false, moved s s.gpthdr.entries s.bootonce)
      else if s.bootonce then
        if stop (isBootonce uuid) s (s.curent + 1).toNat < s.gpthdr.entries then
          (true, moved s (stop (isBootonce uuid) s (s.curent + 1).toNat) true)
        else findLast uuid s (s.curent == -1) 0
      else findLast uuid s (s.curent == -1) (s.curent + 1).toNat := by
  have start : { s with curent := s.curent + 1 } = moved s (s.curent + 1) s.bootonce := rfl
  have header : (moved s (s.curent + 1) s.bootonce).gpthdr = s.gpthdr := rfl
  rw [findNext]
  simp only [start, header, search_eq]
  split
  next => rfl
  next =>
    cases flag : s.bootonce with
    | true =>
      by_cases hit : stop (isBootonce uuid) s (s.curent + 1).toNat < s.gpthdr.entries
      · simp only [hit, decide_true, if_true]
      · simp only [hit, decide_false, if_false, if_true]
        exact findBootme_eq uuid s (s.curent == -1) 0
    | false => exact findBootme_eq uuid s (s.curent == -1) (s.curent + 1)

theorem scan_stops (p : Ent → Bool) (table : Nat → Ent) (fuel i : Nat) (less : scan p table fuel i < i + fuel) :
    p (table (scan p table fuel i)) = true := by
  induction fuel generalizing i with
  | zero => exact absurd less (Nat.lt_irrefl i)
  | succ fuel ih =>
    rw [scan] at less ⊢
    split at less
    next hit => rwa [if_pos hit]
    next missed =>
      rw [if_neg missed]
      exact ih (i + 1) (by omega)

theorem stop_type (uuid : Bytes) {p : Ent → Bool} (typed : ∀ e, p e = true → isType uuid e = true) {start : Nat}
    (inside : start ≤ s.gpthdr.entries) (less : stop p s start < s.gpthdr.entries) : isType uuid
    (s.gpttable (stop p s start)) = true :=
  typed _ (scan_stops p s.gpttable _ _ (by rw [Nat.add_sub_of_le inside]; exact less))

theorem isType_of_isBootonce (e : Ent) (kind : isBootonce uuid e = true) : isType uuid e = true := by
  rw [isBootonce, Bool.and_eq_true, Bool.and_eq_true] at kind
  exact kind.1.1

theorem isType_of_isBootme (e : Ent) (kind : isBootme uuid e = true) : isType uuid e = true := by
  rw [isBootme, Bool.and_eq_true, Bool.and_eq_true] at kind
  exact kind.1.1

theorem findLast_moves (uuid : Bytes) (s : State) (firsttry : Bool) (start : Nat) (inside : start ≤ s.gpthdr.entries) :
    ∃ hit, ∃ curent : Nat,
    findLast uuid s firsttry start = (hit, moved s curent false) ∧
    (hit = true → curent < s.gpthdr.entries ∧ isType uuid (s.gpttable curent) = true) := by
  rw [findLast]
  split
  next less => exact ⟨true, _, rfl, fun _ => ⟨less, stop_type uuid isType_of_isBootme inside less⟩⟩
  next =>
    split
    · refine ⟨_, _, rfl, fun hit => ?_⟩
      have less := of_decide_eq_true hit
      exact ⟨less, stop_type uuid (fun _ kind => kind) (Nat.zero_le _) less⟩
    · exact ⟨false, _, rfl, fun hit => absurd hit Bool.false_ne_true⟩

theorem findNext_moves (uuid : Bytes) (s : State) : ∃ hit, ∃ curent : Nat, ∃ bootonce,
    findNext uuid s = (hit, moved s curent bootonce) ∧
    (hit = true → curent < s.gpthdr.entries ∧ isType uuid (s.gpttable curent) = true) := by
  rw [findNext_eq]
  split
  next => exact ⟨false, _, s.bootonce, rfl, fun hit => absurd hit Bool.false_ne_true⟩
  next _ =>
    have inside : (s.curent + 1).toNat ≤ s.gpthdr.entries := by omega
    split
    next =>
      split
      next less => exact ⟨true, _, true, rfl, fun _ => ⟨less, stop_type uuid isType_of_isBootonce inside less⟩⟩
      next =>
        obtain ⟨hit, curent, same, bound⟩ := findLast_moves uuid s (s.curent == -1) 0 (Nat.zero_le _)
        exact ⟨hit, curent, false, same, bound⟩
    next =>
      obtain ⟨hit, curent, same, bound⟩ := findLast_moves uuid s (s.curent == -1) (s.curent + 1).toNat inside
      exact ⟨hit, curent, false, same, bound⟩

/-- Either gptfind fails and has moved at most its position, or it goes through `found` at an entry of the type, the
one that was asked for if there was one. -/
theorem gptfind_picks (s : State) (uuid : Bytes) (dsk : Dsk) (part : Int) :
    (∃ curent bootonce, gptfind bios s uuid dsk part = (-1, moved s curent bootonce, dsk)) ∨
    ∃ curent : Nat, ∃ bootonce, curent < s.gpthdr.entries ∧ isType uuid (s.gpttable curent) = true ∧
      (0 ≤ part → (curent : Int) + 1 = part) ∧
      gptfind bios s uuid dsk part = found bios (moved s curent bootonce) dsk := by
  rw [gptfind]
  split
  next _ =>
    split
    · exact .inl ⟨s.curent, s.bootonce, rfl⟩
    next _ =>
      split
      · exact .inl ⟨s.curent, s.bootonce, rfl⟩
      next typed =>
        refine .inr ⟨(part - 1).toNat, s.bootonce, by omega, by simpa using typed, fun _ => by omega, ?_⟩
        rw [moved, Int.toNat_of_nonneg (by omega)]
  next automatic =>
    obtain ⟨hit, curent, bootonce, same, bound⟩ := findNext_moves uuid s
    rw [same]
    cases hit with
    | false => exact .inl ⟨curent, bootonce, rfl⟩
    | true => exact .inr ⟨curent, bootonce, (bound rfl).1, (bound rfl).2, fun asked => absurd asked automatic, rfl⟩

/-- Either gptfind fails and has moved at most its position, or it goes through `found`
with its position inside the table. -/
theorem gptfind_cases (s : State) (uuid : Bytes) (dsk : Dsk) (part : Int) :
    (∃ curent bootonce, gptfind bios s uuid dsk part = (-1, moved s curent bootonce, dsk)) ∨
    ∃ curent : Nat, ∃ bootonce, curent < s.gpthdr.entries ∧
      gptfind bios s uuid dsk part = found bios (moved s curent bootonce) dsk := by
  rcases gptfind_picks bios s uuid dsk part with missed | ⟨curent, bootonce, less, _, _, same⟩
  · exact .inl missed
  · exact .inr ⟨curent, bootonce, less, same⟩

end Pcbsd.Proofs.GptMemory
