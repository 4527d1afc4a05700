import Pcbsd.GptAccess
import Pcbsd.Proofs.GptMemory

/-! The memory that gptread goes to. -/

namespace Pcbsd.Proofs.GptBounds
open Lib Gpt Proofs.GptImage Proofs.GptMemory List

variable {bios : Bios} {d : Nat × Nat → Sector} {dsk : Dsk} {which : Which} {s : State}

theorem value_tracedHdr (c : Copy) (lba : Nat) :
    (tracedHdr bios d dsk which c lba).value = gptreadHdr bios d dsk c lba := by
  rw [tracedHdr, gptreadHdr]
  simp only [tracedDrvread, Traced.value_bind, Traced.value_pure]
  cases drvread bios d dsk lba with
  | none => rfl
  | some _ =>
    simp only [Traced.value_bind]
    split
    · rfl
    · split <;> rfl

theorem value_tracedEnts (secbuf : Sector) (nent k : Nat) (c : Copy) : (tracedEnts which secbuf nent k c).value =
    copyEnts secbuf nent k c := by
  induction k with
  | zero => rfl
  | succ k ih => rw [tracedEnts, copyEnts, Traced.value_bind, Traced.value_bind, Traced.value_pure, ih]

theorem value_tracedTableLoop (fuel slba nent : Nat) (c : Copy) :
    (tracedTableLoop bios d dsk which fuel slba nent c).value = tableLoop bios d dsk fuel slba nent c := by
  induction fuel generalizing slba nent c with
  | zero => rfl
  | succ fuel ih =>
    rw [tracedTableLoop, tableLoop]
    simp only [tracedDrvread, Traced.value_bind, Traced.value_pure]
    cases drvread bios d dsk ((c.hdr.lbaTable + slba) % 2 ^ 64) with
    | none => rfl
    | some _ =>
      simp only [Traced.value_bind, value_tracedEnts]
      split
      · rfl
      · exact ih ..

theorem value_tracedTable (c : Copy) : (tracedTable bios d dsk which c).value = gptreadTable bios d dsk c := by
  rw [tracedTable, gptreadTable]
  simp only [Traced.value_bind]
  split
  · rfl
  · rw [Traced.value_bind, value_tracedTableLoop]
    rcases tableLoop bios d dsk c.hdr.entries 0 0 c with ⟨done, _⟩
    cases done with
    | false => rfl
    | true =>
      dsimp only
      split <;> rfl

theorem readCopy_eq (bios : Bios) (d : Nat × Nat → Sector) (dsk : Dsk) (c : Copy) (lba : Nat) :
    readCopy bios d dsk c lba =
      if (gptreadHdr bios d dsk c lba).1 = 0 then
        { (gptreadTable bios d dsk (gptreadHdr bios d dsk c lba).2).2 with
          lba := if (gptreadTable bios d dsk (gptreadHdr bios d dsk c lba).2).1 = 0 then
              (gptreadTable bios d dsk (gptreadHdr bios d dsk c lba).2).2.hdr.lbaSelf else 0 }
      else { (gptreadHdr bios d dsk c lba).2 with lba := 0 } := by
  rw [readCopy]
  split
  next c' head =>
    rw [head, if_pos rfl]
    split
    next c'' tail => rw [tail, if_pos rfl]
    next rc c'' other tail => rw [tail, if_neg fun zero => other zero]
  next rc c' other head => rw [head, if_neg fun zero => other zero]

theorem value_tracedCopy (c : Copy) (lba : Nat) :
    (tracedCopy bios d dsk which c lba).value = readCopy bios d dsk c lba := by
  rw [tracedCopy, readCopy_eq, Traced.value_bind, value_tracedHdr]
  dsimp only
  split
  · rw [Traced.value_bind, value_tracedTable]
    rfl
  · rfl

theorem value_tracedConvSector (c : Copy) (nent k : Nat) :
    (tracedConvSector which c nent k).value = convSector c nent k := by
  induction k with
  | zero => rfl
  | succ k ih =>
    rw [tracedConvSector, convSector, Traced.value_bind, ih]
    rcases convSector c nent k with ⟨_, _⟩
    dsimp only
    split <;> rfl

theorem value_tracedConvLoop (k i : Nat) (updated : Bool) (s : State) :
    (tracedConvLoop bios dsk which k i updated s).value = convLoop bios dsk which k i updated s := by
  induction k generalizing i updated s with
  | zero => rfl
  | succ k ih =>
    rw [tracedConvLoop, convLoop]
    simp only [Traced.value_bind, value_tracedConvSector]
    rcases convSector (s.copies which) (i * (s.copies which).hdr.entriesPerSec)
      (s.copies which).hdr.entriesPerSec with ⟨changed, _⟩
    cases changed with
    | false => exact ih ..
    | true =>
      exact ih ..

theorem value_tracedBootconv (s : State) : (tracedBootconv bios dsk which s).value = gptbootconv bios s dsk which := by
  rw [tracedBootconv, gptbootconv]
  simp only [Traced.value_bind, value_tracedConvLoop]
  rcases convLoop bios dsk which (convSectors (s.copies which).hdr) 0 false s with ⟨updated, _⟩
  cases updated <;> rfl

theorem value_tracedConvCopy (s : State) : (tracedConvCopy bios dsk which s).value = convCopy bios dsk which s := by
  rw [tracedConvCopy, convCopy]
  split
  · exact value_tracedBootconv s
  · rfl

theorem value_tracedCopies (s : State) : (tracedCopies bios dsk s).value = readCopies bios s dsk := by
  rw [tracedCopies, readCopies]
  simp only [Traced.value_bind, value_tracedCopy]
  by_cases missing : altlba bios dsk (readCopy bios s.disk dsk (s.copies .primary) 1) = 0
  · rw [if_pos missing, if_pos missing]
    rfl
  · rw [if_neg missing, if_neg missing, Traced.value_bind, value_tracedCopy]
    rfl

theorem value_tracedGptread (s : State) : (tracedGptread bios dsk s).value = gptread bios s dsk := by
  rw [tracedGptread, gptread]
  simp only [Traced.value_bind, value_tracedCopies, value_tracedConvCopy]
  rfl

/-- All the memory that is touched is that of the buffer, of the headers and of the tables. -/
abbrev InBounds {α : Type} (x : Traced Access α) : Prop := x.All Access.Inside

def hdrAt (d : Nat × Nat → Sector) (dsk : Dsk) (lba : Nat) : Hdr := Hdr.ofSector (d (dsk.drive, lba))

structure Checked (h : Hdr) (lba : Nat) : Prop where
  sig : h.sig = gptHdrSig
  self : h.lbaSelf = lba
  revision : 0x00010000 ≤ h.revision
  entsz : 128 ≤ h.entsz
  most : h.entries ≤ maxtblents
  whole : devBsize % h.entsz = 0

theorem checked_iff (h : Hdr) (lba : Nat) :
    Checked h lba ↔ ¬ (h.sig ≠ gptHdrSig ∨ h.lbaSelf ≠ lba ∨ h.revision < 0x00010000 ∨ h.entsz < 128 ∨
      maxtblents < h.entries ∨ devBsize % h.entsz ≠ 0) := by
  simp only [not_or, not_not, not_lt]
  constructor
  · intro checked
    exact ⟨checked.sig, checked.self, checked.revision, checked.entsz, checked.most, checked.whole⟩
  · rintro ⟨sig, self, revision, entsz, most, whole⟩
    exact ⟨sig, self, revision, entsz, most, whole⟩

variable {lba : Nat} {c : Copy} {h : Hdr} {n k : Nat}

theorem Checked.record (checked : Checked h lba) : h.entriesPerSec * h.entsz = devBsize :=
  Nat.div_mul_cancel (Nat.dvd_of_mod_eq_zero checked.whole)

def HeaderFits (bios : Bios) (d : Nat × Nat → Sector) (dsk : Dsk) (lba : Nat) : Prop :=
  bios.reads dsk.drive lba = true → Checked (hdrAt d dsk lba) lba → (hdrAt d dsk lba).hdrSize ≤ 96

def TableFits (bios : Bios) (d : Nat × Nat → Sector) (dsk : Dsk) (lba : Nat) : Prop :=
  bios.reads dsk.drive lba = true → Checked (hdrAt d dsk lba) lba → Sealed (hdrAt d dsk lba) →
  (∀ i, (hdrAt d dsk lba).entriesPerSec * i < (hdrAt d dsk lba).entries →
    bios.reads dsk.drive (((hdrAt d dsk lba).lbaTable + i) % 2 ^ 64) = true) →
  (hdrAt d dsk lba).entries * (hdrAt d dsk lba).entsz ≤ maxtblents * 128

theorem inside_secbuf : (⟨.secbuf, 0, devBsize⟩ : Access).Inside := Nat.le_refl _

theorem inside_hdr_iff : (⟨.hdr which, 0, n⟩ : Access).Inside ↔ n ≤ 96 := by rw [Access.Inside, Nat.zero_add]; rfl

theorem inside_table_iff {off : Nat} : (⟨.table which, off, n⟩ : Access).Inside ↔ off + n ≤ maxtblents * 128 := Iff.rfl

theorem inBounds_tracedDrvread (lba : Nat) : InBounds (tracedDrvread bios d dsk lba) := by
  rw [tracedDrvread, touch]
  simp only [Traced.all_bind, Traced.all_tell, forall_mem_singleton, Traced.all_pure, and_true]
  exact inside_secbuf

theorem inBounds_tracedDrvwrite (s : State) (sector : Sector) (lba : Nat) :
    InBounds (tracedDrvwrite bios dsk s sector lba) := by
  rw [tracedDrvwrite, touch]
  simp only [Traced.all_bind, Traced.all_tell, forall_mem_singleton, Traced.all_pure, and_true]
  exact inside_secbuf

theorem value_tracedDrvread (lba : Nat) : (tracedDrvread bios d dsk lba).value = drvread bios d dsk lba := rfl

theorem inBounds_tracedHdr_iff (c : Copy) (lba : Nat) :
    InBounds (tracedHdr bios d dsk which c lba) ↔ HeaderFits bios d dsk lba := by
  rw [tracedHdr, InBounds, Traced.all_bind, value_tracedDrvread, drvread, HeaderFits]
  by_cases reads : bios.reads dsk.drive lba = true
  · rw [if_pos reads]
    simp only [inBounds_tracedDrvread, true_and, reads, true_imp_iff]
    rw [touch, Traced.all_bind, Traced.all_tell]
    have first : ∀ a ∈ [(⟨.secbuf, 0, 96⟩ : Access), ⟨.hdr which, 0, 96⟩], a.Inside := by
      intro a inside
      rcases mem_pair.mp inside with rfl | rfl
      · exact (by decide : 0 + 96 ≤ devBsize)
      · exact Nat.le_refl _
    rw [checked_iff]
    split
    next bad => exact iff_of_true ⟨first, (Traced.all_pure _).mpr trivial⟩ fun fine => absurd bad fine
    next fine =>
      have here : Hdr.ofSector (d (dsk.drive, lba)) = hdrAt d dsk lba := rfl
      rw [here] at fine ⊢
      simp only [fine, not_false_eq_true, true_imp_iff]
      rw [touch, Traced.all_bind, Traced.all_tell, hdrSize_setCrcSelf]
      constructor
      · rintro ⟨_, crc, _⟩
        exact inside_hdr_iff.mp (crc ⟨.hdr which, 0, (hdrAt d dsk lba).hdrSize⟩ (mem_cons_of_mem _ mem_cons_self))
      · intro small
        refine ⟨first, fun a inside => ?_, ?_⟩
        · rcases mem_pair.mp inside with rfl | rfl
          · exact (by decide : 16 + 4 ≤ 96)
          · exact inside_hdr_iff.mpr small
        · split
          · exact (Traced.all_pure _).mpr trivial
          · rw [touch, Traced.all_bind, Traced.all_tell, forall_mem_singleton]
            exact ⟨(by decide : 16 + 4 ≤ 96), (Traced.all_pure _).mpr trivial⟩
  · rw [if_neg reads]
    exact iff_of_true ⟨inBounds_tracedDrvread lba, (Traced.all_pure _).mpr trivial⟩ fun absurd' => absurd absurd' reads

theorem gptreadHdr_done (done : (gptreadHdr bios d dsk c lba).1 = 0) :
    bios.reads dsk.drive lba = true ∧ Checked (hdrAt d dsk lba) lba ∧
    (gptreadHdr bios d dsk c lba).2 = withHdr c (hdrAt d dsk lba) := by
  have failed : ¬ (-1 : Int) = 0 := by decide
  rw [gptreadHdr, drvread] at done ⊢
  by_cases reads : bios.reads dsk.drive lba = true
  · rw [if_pos reads] at done ⊢
    refine ⟨reads, ?_⟩
    have here : Hdr.ofSector (d (dsk.drive, lba)) = hdrAt d dsk lba := rfl
    simp only [here] at done ⊢
    rw [checked_iff]
    split at done
    next => exact absurd done failed
    next fine =>
      rw [if_neg fine]
      refine ⟨fine, ?_⟩
      split at done
      next => exact absurd done failed
      next crc =>
        rw [if_neg crc, setCrcSelf_setCrcSelf, setCrcSelf_crcSelf]
        rfl
  · rw [if_neg reads] at done
    exact absurd done failed

theorem gptreadHdr_done_iff (c : Copy) (fits : HeaderFits bios d dsk lba) :
    (gptreadHdr bios d dsk c lba).1 = 0 ↔
      bios.reads dsk.drive lba = true ∧ Checked (hdrAt d dsk lba) lba ∧ Sealed (hdrAt d dsk lba) := by
  have failed : ¬ (-1 : Int) = 0 := by decide
  rw [gptreadHdr, drvread]
  by_cases reads : bios.reads dsk.drive lba = true
  · rw [if_pos reads, and_iff_right reads]
    have here : Hdr.ofSector (d (dsk.drive, lba)) = hdrAt d dsk lba := rfl
    simp only [here]
    split
    next bad => exact iff_of_false failed fun both => (checked_iff _ _).mp both.1 bad
    next fine =>
      have checked := (checked_iff _ _).mpr fine
      rw [and_iff_right checked, Sealed, hdrBytes_eq (by rw [hdrSize_setCrcSelf]; exact fits reads checked), hdrSize_setCrcSelf]
      split
      next differs => exact iff_of_false failed differs
      next equal => exact iff_of_true rfl (not_not.mp equal)
  · rw [if_neg reads]
    exact iff_of_false failed fun both => reads both.1

theorem inBounds_tracedEnts (secbuf : Sector) (nent : Nat) (c : Copy) (few : k ≤ 4) (room : nent + k ≤ maxtblents) :
    InBounds (tracedEnts which secbuf nent k c) := by
  induction k with
  | zero => exact (Traced.all_pure _).mpr trivial
  | succ k ih =>
    rw [tracedEnts, InBounds, Traced.all_bind, touch, Traced.all_bind, Traced.all_tell]
    refine ⟨ih (by omega) (by omega), fun a inside => ?_, (Traced.all_pure _).mpr trivial⟩
    rcases mem_pair.mp inside with rfl | rfl
    · change 128 * k + 128 ≤ devBsize
      simp only [devBsize]
      omega
    · rw [inside_table_iff]
      omega

theorem inBounds_tracedTableLoop (fuel slba nent : Nat) (c : Copy) (few : c.hdr.entriesPerSec ≤ 4)
    (most : c.hdr.entries ≤ maxtblents) (inside : nent ≤ c.hdr.entries) :
    InBounds (tracedTableLoop bios d dsk which fuel slba nent c) := by
  induction fuel generalizing slba nent c with
  | zero => exact (Traced.all_pure _).mpr trivial
  | succ fuel ih =>
    rw [tracedTableLoop, InBounds, Traced.all_bind]
    refine ⟨inBounds_tracedDrvread _, ?_⟩
    rw [value_tracedDrvread]
    cases drvread bios d dsk ((c.hdr.lbaTable + slba) % 2 ^ 64) with
    | none => exact (Traced.all_pure _).mpr trivial
    | some secbuf =>
      rw [Traced.all_bind, value_tracedEnts]
      refine ⟨inBounds_tracedEnts secbuf nent c (by omega) (by omega), ?_⟩
      have same := (copyEnts_reloaded secbuf nent (min c.hdr.entriesPerSec (c.hdr.entries - nent)) c).hdr
      split
      · exact (Traced.all_pure _).mpr trivial
      · apply ih
        · rw [same]; exact few
        · rw [same]; exact most
        · rw [same]; omega

theorem Checked.few (checked : Checked h lba) : 0 < h.entriesPerSec ∧ h.entriesPerSec ≤ 4 := by
  have record := checked.record
  have entsz := checked.entsz
  constructor
  · apply Nat.pos_of_ne_zero
    intro zero
    rw [zero, Nat.zero_mul] at record
    exact absurd record (by decide)
  · by_contra many
    have large : 5 * 128 ≤ h.entriesPerSec * h.entsz := Nat.mul_le_mul (by omega) entsz
    rw [record] at large
    exact absurd large (by decide)

theorem inBounds_tracedTable_iff (checked : Checked c.hdr lba) :
    InBounds (tracedTable bios d dsk which c) ↔
      ((∀ i, c.hdr.entriesPerSec * i < c.hdr.entries → bios.reads dsk.drive ((c.hdr.lbaTable + i) % 2 ^ 64) = true) →
        c.hdr.entries * c.hdr.entsz ≤ maxtblents * 128) := by
  obtain ⟨positive, few⟩ := checked.few
  have most := checked.most
  rw [tracedTable, InBounds, touch, Traced.all_bind, Traced.all_tell, forall_mem_singleton, inside_hdr_iff]
  simp only [Nat.le_refl, true_and]
  by_cases none : c.hdr.entries = 0
  · rw [if_pos none, none, Nat.zero_mul]
    exact iff_of_true ((Traced.all_pure _).mpr trivial) fun _ => Nat.zero_le _
  · rw [if_neg none, Traced.all_bind, value_tracedTableLoop]
    have loop : InBounds (tracedTableLoop bios d dsk which c.hdr.entries 0 0 c) :=
      inBounds_tracedTableLoop c.hdr.entries 0 0 c few most (Nat.zero_le _)
    have slots := tableLoop_slots bios d dsk c.hdr.entries 0 c positive most (by omega) (by omega)
    rw [Nat.mul_zero] at slots
    rcases walk : tableLoop bios d dsk c.hdr.entries 0 0 c with ⟨done, c'⟩
    rw [walk] at slots
    obtain ⟨same, success, _⟩ := slots
    have header : c'.hdr = c.hdr := same.hdr
    cases done with
    | false =>
      refine iff_of_true ⟨loop, (Traced.all_pure _).mpr trivial⟩ fun reads => ?_
      exact absurd (success.mpr fun i _ less => reads i less) Bool.false_ne_true
    | true =>
      have reads := success.mp rfl
      dsimp only
      rw [touch, Traced.all_bind, Traced.all_tell, forall_mem_singleton, inside_table_iff, header, Nat.zero_add]
      constructor
      · exact fun bounds _ => bounds.2.1
      · intro small
        refine ⟨loop, small fun i less => reads i (Nat.zero_le i) less, ?_⟩
        split <;> exact (Traced.all_pure _).mpr trivial

theorem inBounds_tracedCopy_iff (c : Copy) (lba : Nat) :
    InBounds (tracedCopy bios d dsk which c lba) ↔ HeaderFits bios d dsk lba ∧ TableFits bios d dsk lba := by
  rw [tracedCopy, InBounds, Traced.all_bind, value_tracedHdr, TableFits]
  rw [show Traced.All Access.Inside (tracedHdr bios d dsk which c lba) ↔ _ from inBounds_tracedHdr_iff c lba]
  refine and_congr_right fun fits => ?_
  have accepted := gptreadHdr_done_iff c fits
  by_cases done : (gptreadHdr bios d dsk c lba).1 = 0
  · obtain ⟨reads, checked, crc⟩ := accepted.mp done
    obtain ⟨_, _, loaded⟩ := gptreadHdr_done done
    rcases head : gptreadHdr bios d dsk c lba with ⟨rc, c'⟩
    rw [head] at done loaded
    dsimp only at done loaded ⊢
    rw [if_pos done]
    refine Iff.trans ?_ ⟨fun fits _ _ _ => fits, fun fits => fits reads checked crc⟩
    have table : InBounds (tracedTable bios d dsk which c') ↔ _ := inBounds_tracedTable_iff (by rw [loaded]; exact checked)
    rw [Traced.all_bind]
    refine (and_iff_left ((Traced.all_pure _).mpr trivial)).trans (table.trans ?_)
    rw [loaded]
    rfl
  · refine iff_of_true ?_ fun reads checked crc => absurd (accepted.mpr ⟨reads, checked, crc⟩) done
    rcases head : gptreadHdr bios d dsk c lba with ⟨rc, c'⟩
    rw [head] at done
    dsimp only at done ⊢
    rw [if_neg done]
    exact (Traced.all_pure _).mpr trivial

structure Bounded (h : Hdr) : Prop where
  header : h.hdrSize ≤ 96
  most : h.entries ≤ maxtblents
  entsz : 128 ≤ h.entsz
  record : h.entriesPerSec * h.entsz = devBsize
  table : h.entries * h.entsz ≤ maxtblents * 128

theorem convSector_hdr (c : Copy) (nent k : Nat) : (convSector c nent k).2.hdr = c.hdr := by
  induction k with
  | zero => rfl
  | succ k ih =>
    rw [convSector]
    dsimp only
    split <;> exact ih

theorem convLoop_copies (bios : Bios) (dsk : Dsk) (which : Which) (k i : Nat) (updated : Bool) (s : State) :
    ((convLoop bios dsk which k i updated s).2.copies which).hdr = (s.copies which).hdr ∧
    ∀ v, v ≠ which → (convLoop bios dsk which k i updated s).2.copies v = s.copies v := by
  induction k generalizing i updated s with
  | zero => exact ⟨rfl, fun _ _ => rfl⟩
  | succ k ih =>
    have same := convSector_hdr (s.copies which) (i * (s.copies which).hdr.entriesPerSec)
      (s.copies which).hdr.entriesPerSec
    rw [convLoop]
    rcases ran : convSector (s.copies which) (i * (s.copies which).hdr.entriesPerSec)
      (s.copies which).hdr.entriesPerSec with ⟨changed, c⟩
    rw [ran] at same
    cases changed with
    | false => exact ih (i + 1) updated s
    | true =>
      dsimp only at same ⊢
      generalize written : (drvwrite bios (s.setCopy which c) dsk _ (c.hdr.lbaTable + i)).2 = t
      have kept : t.copies = (s.setCopy which c).copies := by rw [← written, (drvwrite_copies ..).1]
      obtain ⟨header, others⟩ := ih (i + 1) true t
      rw [kept, copies_setCopy_self] at header
      refine ⟨header.trans same, fun v other => ?_⟩
      rw [others v other, kept, copies_setCopy_other s c other]

theorem convCopy_other (bios : Bios) (dsk : Dsk) (s : State) {v : Which} (other : v ≠ which) :
    (convCopy bios dsk which s).copies v = s.copies v := by
  have loop := (convLoop_copies bios dsk which (convSectors (s.copies which).hdr) 0 false s).2 v other
  rw [convCopy, gptbootconv]
  split
  · rcases ran : convLoop bios dsk which (convSectors (s.copies which).hdr) 0 false s with ⟨updated, t⟩
    rw [ran] at loop
    cases updated with
    | false => exact loop
    | true => exact (writeHdr_other bios t dsk other).trans loop
  · rfl

theorem inBounds_tracedConvSector (c : Copy) (nent : Nat) (room : nent + k ≤ maxtblents) :
    InBounds (tracedConvSector which c nent k) := by
  induction k with
  | zero => exact (Traced.all_pure _).mpr trivial
  | succ k ih =>
    rw [tracedConvSector, InBounds, Traced.all_bind, value_tracedConvSector]
    refine ⟨ih (by omega), ?_⟩
    rcases convSector c nent k with ⟨_, _⟩
    rw [touch, Traced.all_bind, Traced.all_tell, forall_mem_singleton, inside_table_iff]
    refine ⟨by omega, ?_⟩
    split <;> exact (Traced.all_pure _).mpr trivial

theorem Bounded.sector (bounded : Bounded h) {i : Nat} (inside : h.entriesPerSec * (i + 1) ≤ h.entries) :
    128 * (i * h.entriesPerSec) + devBsize ≤ maxtblents * 128 := by
  have entsz := bounded.entsz
  calc 128 * (i * h.entriesPerSec) + devBsize
      ≤ h.entsz * (i * h.entriesPerSec) + devBsize := Nat.add_le_add_right (Nat.mul_le_mul_right _ entsz) _
    _ = h.entriesPerSec * (i + 1) * h.entsz := by
      rw [← bounded.record, Nat.mul_succ, Nat.add_mul, Nat.mul_comm h.entsz, Nat.mul_comm i]
    _ ≤ h.entries * h.entsz := Nat.mul_le_mul_right _ inside
    _ ≤ maxtblents * 128 := bounded.table

theorem inBounds_tracedConvLoop (k i : Nat) (updated : Bool) (s : State) (header : (s.copies which).hdr = h)
    (bounded : Bounded h) (room : h.entriesPerSec * (i + k) ≤ h.entries) : InBounds
    (tracedConvLoop bios dsk which k i updated s) := by
  induction k generalizing i updated s with
  | zero => exact (Traced.all_pure _).mpr trivial
  | succ k ih =>
    have most := bounded.most
    have first : h.entriesPerSec * (i + 1) ≤ h.entries := Nat.le_trans (Nat.mul_le_mul_left _ (by omega)) room
    have next : h.entriesPerSec * (i + 1) = i * h.entriesPerSec + h.entriesPerSec := by rw [Nat.mul_succ, Nat.mul_comm]
    have last : i + (k + 1) = i + 1 + k := by omega
    rw [last] at room
    rw [tracedConvLoop, InBounds]
    simp only [header]
    rw [Traced.all_bind, value_tracedConvSector]
    refine ⟨inBounds_tracedConvSector _ _ (by omega), ?_⟩
    have same := convSector_hdr (s.copies which) (i * h.entriesPerSec) h.entriesPerSec
    rcases ran : convSector (s.copies which) (i * h.entriesPerSec) h.entriesPerSec with ⟨changed, c⟩
    rw [ran] at same
    cases changed with
    | false => exact ih (i + 1) updated s header room
    | true =>
      rw [touch, Traced.all_bind, Traced.all_tell, Traced.all_bind]
      refine ⟨fun a inside => ?_, inBounds_tracedDrvwrite _ _ _, ?_⟩
      · rcases mem_pair.mp inside with rfl | rfl
        · exact bounded.sector first
        · exact inside_secbuf
      · apply ih
        · change ((drvwrite bios (s.setCopy which c) dsk _ (c.hdr.lbaTable + i)).2.copies which).hdr = h
          rw [(drvwrite_copies ..).1, copies_setCopy_self]
          exact same.trans header
        · exact room

theorem inBounds_tracedWriteHdr {s : State} (bounded : Bounded (s.copies which).hdr) :
    InBounds (tracedWriteHdr bios dsk which s) := by
  have header := bounded.header
  have table := bounded.table
  have small : ∀ off, off + 4 ≤ 96 → (⟨.hdr which, off, 4⟩ : Access).Inside := fun _ inside => inside
  have secbuf : ∀ n, n ≤ 96 → (⟨.secbuf, 0, n⟩ : Access).Inside := by
    intro n less
    rw [Access.Inside, Nat.zero_add]
    exact Nat.le_trans less (by decide : 96 ≤ devBsize)
  rw [tracedWriteHdr, InBounds]
  simp only [touch, Traced.all_bind, Traced.all_tell, Traced.all_pure, and_true, forall_mem_cons, not_mem_nil,
    false_imp_iff, implies_true, hdrSize_setCrcSelf, hdrSize_setCrcTable]
  refine ⟨⟨?_, small 88 (by decide), small 16 (by decide)⟩, ⟨inside_hdr_iff.mpr header, small 16 (by decide)⟩,
    ⟨inside_secbuf, inside_hdr_iff.mpr header, secbuf _ header⟩, inBounds_tracedDrvwrite _ _ _⟩
  rw [inside_table_iff, Nat.zero_add]
  exact table

theorem inBounds_tracedConvCopy (bios : Bios) (dsk : Dsk) {s : State}
    (bounded : (s.copies which).lba ≠ 0 → Bounded (s.copies which).hdr) :
    InBounds (tracedConvCopy bios dsk which s) := by
  rw [tracedConvCopy]
  split
  next used =>
    have bounded := bounded used
    rw [tracedBootconv, InBounds, touch, Traced.all_bind, Traced.all_tell, forall_mem_singleton, Traced.all_bind,
      value_tracedConvLoop]
    have room := (convSectors_room (s.copies which).hdr).2
    rw [← Nat.zero_add (convSectors _)] at room
    refine ⟨inside_hdr_iff.mpr (Nat.le_refl _), inBounds_tracedConvLoop _ 0 false s rfl bounded room, ?_⟩
    have header := (convLoop_copies bios dsk which (convSectors (s.copies which).hdr) 0 false s).1
    rcases ran : convLoop bios dsk which (convSectors (s.copies which).hdr) 0 false s with ⟨updated, _⟩
    rw [ran] at header
    cases updated with
    | false => exact (Traced.all_pure _).mpr trivial
    | true =>
      apply inBounds_tracedWriteHdr
      rw [header]
      exact bounded
  · exact (Traced.all_pure _).mpr trivial

theorem gptreadTable_reads (positive : 0 < c.hdr.entriesPerSec) (most : c.hdr.entries ≤ maxtblents)
    (done : (gptreadTable bios d dsk c).1 = 0) (i : Nat) (less : c.hdr.entriesPerSec * i < c.hdr.entries) :
    bios.reads dsk.drive ((c.hdr.lbaTable + i) % 2 ^ 64) = true := by
  rw [gptreadTable, if_neg (Nat.ne_of_gt (Nat.lt_of_le_of_lt (Nat.zero_le _) less))] at done
  have slots := tableLoop_slots bios d dsk c.hdr.entries 0 c positive most (by omega) (by omega)
  rw [Nat.mul_zero] at slots
  rcases ran : tableLoop bios d dsk c.hdr.entries 0 0 c with ⟨flag, _⟩
  rw [ran] at slots done
  cases flag with
  | false =>
    have failed : ¬ (-1 : Int) = 0 := by decide
    exact absurd done failed
  | true => exact slots.2.1.mp rfl i (Nat.zero_le i) less

theorem readCopy_bounded (header : HeaderFits bios d dsk lba) (table : TableFits bios d dsk lba)
    (used : (readCopy bios d dsk c lba).lba ≠ 0) : Bounded (readCopy bios d dsk c lba).hdr := by
  rw [readCopy_eq] at used ⊢
  by_cases done : (gptreadHdr bios d dsk c lba).1 = 0
  · rw [if_pos done] at used ⊢
    obtain ⟨reads, checked, loaded⟩ := gptreadHdr_done done
    have fits := table reads checked ((gptreadHdr_done_iff c header).mp done).2.2
    rw [loaded] at used ⊢
    have kept : (gptreadTable bios d dsk (withHdr c (hdrAt d dsk lba))).2.hdr = hdrAt d dsk lba := (gptreadTable_reloaded ..).hdr
    rw [kept]
    have accepted : (gptreadTable bios d dsk (withHdr c (hdrAt d dsk lba))).1 = 0 := by
      by_contra failed
      exact used (if_neg failed)
    exact ⟨header reads checked, checked.most, checked.entsz, checked.record,
      fits fun i less => gptreadTable_reads checked.few.1 checked.most accepted i less⟩
  · rw [if_neg done] at used
    exact absurd rfl used

def backupLba (bios : Bios) (s : State) (dsk : Dsk) : Nat :=
  altlba bios dsk (readCopy bios s.disk dsk (s.copies .primary) 1)

theorem inBounds_tracedCopies_iff (bios : Bios) (dsk : Dsk) (s : State) :
    InBounds (tracedCopies bios dsk s) ↔
      (HeaderFits bios s.disk dsk 1 ∧ TableFits bios s.disk dsk 1) ∧
      (backupLba bios s dsk ≠ 0 →
        HeaderFits bios s.disk dsk (backupLba bios s dsk) ∧ TableFits bios s.disk dsk (backupLba bios s dsk)) := by
  rw [tracedCopies, InBounds, Traced.all_bind, value_tracedCopy]
  refine and_congr (inBounds_tracedCopy_iff _ _) ?_
  have here : altlba bios dsk (readCopy bios s.disk dsk (s.copies .primary) 1) = backupLba bios s dsk := rfl
  rw [here]
  by_cases missing : backupLba bios s dsk = 0
  · rw [if_pos missing, Traced.all_bind]
    exact iff_of_true ⟨(Traced.all_pure _).mpr trivial, (Traced.all_pure _).mpr trivial⟩ fun located => absurd missing located
  · rw [if_neg missing, Traced.all_bind]
    refine (and_iff_left ((Traced.all_pure _).mpr trivial)).trans ((inBounds_tracedCopy_iff _ _).trans ?_)
    exact ⟨fun fits _ => fits, fun fits => fits missing⟩

theorem readCopies_bounded (inside : InBounds (tracedCopies bios dsk s)) (w : Which)
    (used : ((readCopies bios s dsk).copies w).lba ≠ 0) :
    Bounded ((readCopies bios s dsk).copies w).hdr := by
  obtain ⟨⟨header, table⟩, backup⟩ := (inBounds_tracedCopies_iff bios dsk s).mp inside
  cases w with
  | primary => exact readCopy_bounded header table used
  | backup =>
    simp only [readCopies] at used ⊢
    by_cases missing : altlba bios dsk (readCopy bios s.disk dsk (s.copies .primary) 1) = 0
    · rw [if_pos missing] at used
      exact absurd rfl used
    · rw [if_neg missing] at used ⊢
      obtain ⟨header', table'⟩ := backup missing
      exact readCopy_bounded header' table' used

/-- gptread stays inside its buffers exactly when each header that reaches its checksum is no larger than the struct,
and each table that reaches its checksum no larger than the array. -/
theorem gptread_inBounds_iff (bios : Bios) (dsk : Dsk) (s : State) :
    InBounds (tracedGptread bios dsk s) ↔
      (HeaderFits bios s.disk dsk 1 ∧ TableFits bios s.disk dsk 1) ∧
      (backupLba bios s dsk ≠ 0 →
        HeaderFits bios s.disk dsk (backupLba bios s dsk) ∧ TableFits bios s.disk dsk (backupLba bios s dsk)) := by
  rw [tracedGptread, InBounds, Traced.all_bind, value_tracedCopies, Traced.all_bind, value_tracedConvCopy,
    Traced.all_bind]
  refine Iff.trans ?_ (inBounds_tracedCopies_iff bios dsk s)
  refine ⟨fun all => all.1, fun inside => ⟨inside, ?_, ?_, (Traced.all_pure _).mpr trivial⟩⟩
  · exact inBounds_tracedConvCopy bios dsk fun used => readCopies_bounded inside .primary used
  · apply inBounds_tracedConvCopy bios dsk
    rw [convCopy_other bios dsk (readCopies bios s dsk) (by decide : Which.backup ≠ .primary)]
    exact fun used => readCopies_bounded inside .backup used

/-- A header of no entries that claims 200 bytes. -/
theorem long_header_overread : ¬ InBounds (tracedGptread sampleBios sampleDsk (sampleState 200 [])) := by
  intro inside
  rw [tracedGptread, InBounds, Traced.all_bind] at inside
  have fits := ((inBounds_tracedCopies_iff _ _ _).mp inside.1).1.1
  have checked : Checked (hdrAt (sampleDisk 200 []) sampleDsk 1) 1 ∧
    (hdrAt (sampleDisk 200 []) sampleDsk 1).hdrSize = 200 := by
    rw [checked_iff]
    decide +kernel
  have small := fits rfl checked.1
  have size : (hdrAt (sampleState 200 []).disk sampleDsk 1).hdrSize = 200 := checked.2
  omega

end Pcbsd.Proofs.GptBounds
