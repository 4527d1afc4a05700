import Pcbsd.Proofs.DiskGptSame
import Pcbsd.Proofs.MbrOpening
import Mathlib.Data.List.Perm.Subperm

/-! Whether a partition opens under the number it is listed with. The lines are counted, and the table is searched for
the index of an entry. -/

namespace Pcbsd.DiskPrint
open Lib Gpt DiskGpt MbrOpen List Option

section

variable {n : Nat} {p : Nat → Bool}

theorem filter_range_of_gapless (gapless : ∀ k < n, p k = true → ∀ j < k, p j = true) :
    (List.range n).filter p = List.range ((List.range n).filter p).length := by
  induction n with
  | zero => rfl
  | succ n ih =>
    have before := ih fun k less => gapless k (by omega)
    rw [range_succ, filter_append]
    by_cases last : p n = true
    · have all := filter_eq_self.mpr fun j member => gapless n (Nat.lt_succ_self n) last j (mem_range.mp member)
      rw [filter_cons_of_pos last, filter_nil, all, length_append, length_range, length_singleton, range_succ]
    · rw [filter_cons_of_neg last, filter_nil, append_nil]
      exact before

theorem gapless_of_first (first : ∀ i < ((List.range n).filter p).length, i < n ∧ p i = true) :
    ∀ k < n, p k = true → ∀ j < k, p j = true := by
  intro k less used j before
  have inside : List.range ((List.range n).filter p).length ⊆ (List.range n).filter p := by
    intro i member
    obtain ⟨below, here⟩ := first i (mem_range.mp member)
    exact mem_filter.mpr ⟨mem_range.mpr below, here⟩
  have same := (subperm_of_subset nodup_range inside).perm_of_length_le (by rw [length_range])
  have member := same.mem_iff.mpr (mem_filter.mpr ⟨mem_range.mpr less, used⟩)
  exact (first j (by have := mem_range.mp member; omega)).2

end

variable (strategy : Int → Except Errno Sector)

def sectorAt (lba : Nat) : Sector := (strategy lba).toOption.getD (Sector.ofBytes [])

def gptHdr : Hdr := Hdr.ofSector (sectorAt strategy 1)

def tblAt (sec : Nat) : Sector := sectorAt strategy (((gptHdr strategy).lbaTable + sec) % 2 ^ 64)

def entOf (k : Nat) : Ent := entAt (gptHdr strategy) (tblAt strategy (k / (gptHdr strategy).entriesPerSec))
    (k % (gptHdr strategy).entriesPerSec)

def entryCount : Nat := (gptHdr strategy).entriesPerSec * walkedSectors (gptHdr strategy)

def InUse (k : Nat) : Prop := k < entryCount strategy ∧ used (entOf strategy k) = true

def partAt (k : Nat) : GptPart where
  gpIndex := k + 1
  gpType := (entOf strategy k).type
  gpStart := (entOf strategy k).lbaStart
  gpEnd := lbaEnd (entOf strategy k)

def usedIndices : List Nat := (List.range (entryCount strategy)).filter fun k => used (entOf strategy k)

variable {strategy}

theorem mem_usedIndices {k : Nat} : k ∈ usedIndices strategy ↔ InUse strategy k := by
  rw [usedIndices, mem_filter, mem_range, InUse]

theorem countTable_reads {read : Nat → Option Sector} {hdr : Hdr} {k sec part n : Nat}
    (done : countTable read hdr k sec part = .ok n) (i : Nat) (low : sec ≤ i) (high : i < sec + k) :
    (read ((hdr.lbaTable + i) % 2 ^ 64)).isSome = true := by
  induction k generalizing sec part with
  | zero => omega
  | succ k ih =>
    rw [countTable] at done
    cases there : read ((hdr.lbaTable + sec) % 2 ^ 64) with
    | none => rw [there] at done; cases done
    | some _ =>
      rw [there] at done
      by_cases here : i = sec
      · rw [here, there]; rfl
      · exact ih done (by omega) (by omega)

theorem saved_indices (hdr : Hdr) (tbl : Nat → Sector) (positive : 0 < hdr.entriesPerSec) (k : Nat) :
    saved hdr tbl 0 k = ((List.range (hdr.entriesPerSec * k)).filter fun i =>
      used (entAt hdr (tbl (i / hdr.entriesPerSec))
      (i % hdr.entriesPerSec))).map fun i =>
        gptPart hdr (i / hdr.entriesPerSec) (tbl (i / hdr.entriesPerSec)) (i % hdr.entriesPerSec) := by
  rw [saved, ← range_eq_range', Tiling.range_mul_comm, filter_flatMap, map_flatMap]
  refine flatMap_congr fun sec _ => ?_
  have place : ∀ i < hdr.entriesPerSec, (hdr.entriesPerSec * sec + i) / hdr.entriesPerSec = sec ∧
      (hdr.entriesPerSec * sec + i) % hdr.entriesPerSec = i := by
    intro i less
    exact ⟨by rw [Nat.mul_add_div positive, Nat.div_eq_of_lt less, Nat.add_zero], by rw [Nat.mul_add_mod,
      Nat.mod_eq_of_lt less]⟩
  rw [List.filter_map, List.map_map, usedSlots]
  have same : (List.range hdr.entriesPerSec).filter
    ((fun i => used (entAt hdr (tbl (i / hdr.entriesPerSec)) (i % hdr.entriesPerSec))) ∘
      (hdr.entriesPerSec * sec + ·)) = (List.range hdr.entriesPerSec).filter fun i => used (entAt hdr (tbl sec) i) := by
    refine filter_congr fun i member => ?_
    obtain ⟨quotient, rest⟩ := place i (mem_range.mp member)
    simp only [Function.comp_apply, quotient, rest]
  rw [same]
  refine map_congr_left fun i member => ?_
  obtain ⟨quotient, rest⟩ := place i (mem_range.mp (mem_filter.mp member).1)
  simp only [Function.comp_apply, quotient, rest]

theorem readgpt_parts {parts : List GptPart} (done : readgpt strategy = .ok parts) : parts = (usedIndices strategy).map
    (partAt strategy) := by
  rw [readgpt, diskReadgpt, walkGpt] at done
  cases mbr : (strategy ((0 : Nat) : Int)).toOption with
  | none => rw [mbr] at done; cases done
  | some tbl =>
    rw [mbr] at done
    dsimp only at done
    cases pmbr : checkPmbr tbl with
    | error rc => rw [pmbr] at done; cases done
    | ok _ =>
      rw [pmbr] at done
      cases header : (strategy ((1 : Nat) : Int)).toOption with
      | none => rw [header] at done; cases done
      | some gpt =>
        rw [header] at done
        dsimp only at done
        have here : gptHdr strategy = Hdr.ofSector gpt := by rw [gptHdr, sectorAt, header, getD_some]
        rw [← here] at done
        cases bad : badHdr (gptHdr strategy) with
        | true => rw [bad, if_pos rfl] at done; cases done
        | false =>
          rw [bad, if_neg Bool.false_ne_true] at done
          have positive := perSec_positive bad
          have reads : ∀ i < walkedSectors (gptHdr strategy),
              (strategy (((gptHdr strategy).lbaTable + i) % 2 ^ 64 : Nat)).toOption = some (tblAt strategy i) := by
            intro i less
            rw [readTable] at done
            cases counted : countTable (fun lba => (strategy lba).toOption) (gptHdr strategy) (walkedSectors (gptHdr strategy)) 0 0 with
            | error rc => rw [counted] at done; cases done
            | ok _ =>
              have there := countTable_reads counted i (Nat.zero_le i) (by omega)
              rw [tblAt, sectorAt]
              exact eq_some_of_isSome there ▸ by rw [getD_some]
          rw [readTable_saved reads] at done
          rw [← Except.ok.inj done, saved_indices _ _ positive, usedIndices, entryCount]
          refine map_congr_left fun k _ => ?_
          have index : k / (gptHdr strategy).entriesPerSec * (gptHdr strategy).entriesPerSec + k % (gptHdr strategy).entriesPerSec = k :=
            Nat.div_add_mod' k _
          rw [gptPart, partAt, entOf, index]

theorem find_part (k : Nat) (slice : Int) (number : slice = (k : Int) + 1) :
    ((usedIndices strategy).map (partAt strategy)).find? (fun gp => gp.gpIndex = slice) =
      if k ∈ usedIndices strategy then some (partAt strategy k) else none := by
  have chosen : ∀ i, decide (((partAt strategy i).gpIndex : Int) = slice) = true ↔ i = k := by
    intro i
    have index : (partAt strategy i).gpIndex = i + 1 := rfl
    rw [index, decide_eq_true_iff, number]
    omega
  induction usedIndices strategy with
  | nil => rfl
  | cons i _ ih =>
    rw [map_cons, find?_cons]
    by_cases here : i = k
    · rw [(chosen i).mpr here, here, if_pos mem_cons_self]
    · have other : decide (((partAt strategy i).gpIndex : Int) = slice) = false := by
        rw [← Bool.not_eq_true, chosen]
        exact here
      rw [other, ih]
      refine if_congr ?_ rfl rfl
      rw [mem_cons]
      exact ⟨Or.inr, fun either => either.resolve_left fun same => here same.symm⟩

theorem mbr_not_opened {maxpartitions : Nat} (few : maxpartitions ≤ 0xff) (nextdospart : Nat)
    (nslices slice offset : Int) (slot entry : Option Nat) :
    diskOpenmbr strategy nextdospart maxpartitions nslices slice 0xff ≠ .opened offset slot entry := by
  intro opened
  rcases diskOpenmbr_settles strategy nextdospart maxpartitions nslices slice 0xff with ⟨_, inside⟩ | ⟨_, outside⟩
  · rw [opened] at inside
    rcases inside with ⟨_, absurd⟩ | absurd | ⟨_, _, _, same, source⟩
    · cases absurd
    · cases absurd
    · cases same
      have small := source.inLabel 255 (source.requested (by decide))
      omega
  · rw [opened] at outside
    cases outside

theorem toInt_eq_iff {n : Nat} (small : n < 2 ^ 64) : toInt n = n ↔ n < 2 ^ 31 := by
  rw [toInt, Int.bmod_def]
  split <;> omega

/-- The lines that disk_print lists all open the partitions they tell of, exactly where no unused entry is in front of
one in use, and each starts in the first 2^31 sectors. -/
theorem listed_open_iff (strategy : Int → Except Errno Sector) (nextdospart maxpartitions : Nat) (few : maxpartitions ≤ 0xff)
    (nslices : Int) (lines : List Listed) (printed : listed strategy = .ok lines) :
    (∀ l ∈ lines, ∃ slot entry,
      diskOpen strategy nextdospart maxpartitions nslices l.number 0xff = .opened l.part.gpStart slot entry) ↔
    ∀ k, InUse strategy k → (∀ j < k, InUse strategy j) ∧ (entOf strategy k).lbaStart < 2 ^ 31 := by
  rw [listed] at printed
  cases read : readgpt strategy with
  | error _ => rw [read] at printed; cases printed
  | ok parts =>
    rw [read] at printed
    have shown := (Except.ok.inj printed).symm
    have all := readgpt_parts read
    have opens : ∀ i gp, (∃ slot entry, diskOpen strategy nextdospart maxpartitions nslices ((i + 1 : Nat) : Int) 0xff =
        .opened (GptPart.gpStart gp) slot entry) ↔ InUse strategy i ∧ toInt (entOf strategy i).lbaStart = gp.gpStart := by
      intro i gp
      rw [diskOpen, diskOpengpt, read]
      dsimp only
      rw [if_neg (by omega), if_neg (by decide), if_pos (by omega), all, find_part i _ (by push_cast; rfl)]
      by_cases used : i ∈ usedIndices strategy
      · rw [if_pos used]
        have start : (partAt strategy i).gpStart = (entOf strategy i).lbaStart := rfl
        dsimp only
        rw [start]
        constructor
        · rintro ⟨slot, entry, same⟩
          exact ⟨mem_usedIndices.mp used, (Opened.opened.inj same).1⟩
        · rintro ⟨_, same⟩
          exact ⟨none, none, by rw [same]⟩
      · rw [if_neg used]
        refine iff_of_false ?_ fun both => used (mem_usedIndices.mpr both.1)
        rintro ⟨slot, entry, opened⟩
        exact mbr_not_opened few nextdospart nslices _ _ slot entry opened
    have count : parts.length = (usedIndices strategy).length := by rw [all, length_map]
    have lineAt : ∀ i (less : i < (usedIndices strategy).length),
        (⟨i + 1, partAt strategy ((usedIndices strategy).get ⟨i, less⟩)⟩ : Listed) ∈ lines := by
      intro i less
      rw [shown, mem_mapIdx]
      refine ⟨i, by rw [count]; exact less, ?_⟩
      simp only [all, getElem_map, get_eq_getElem]
    constructor
    · intro every
      have first : ∀ i < (usedIndices strategy).length, i < entryCount strategy ∧ used (entOf strategy i) = true :=
        fun i less => ((opens i _).mp (every _ (lineAt i less))).1
      have gapless := gapless_of_first first
      have whole := filter_range_of_gapless gapless
      intro k inUse
      have before : ∀ j < k, InUse strategy j := fun j less => ⟨Nat.lt_trans less inUse.1, gapless k inUse.1 inUse.2 j less⟩
      refine ⟨before, ?_⟩
      have member := mem_usedIndices.mpr inUse
      have indices : usedIndices strategy = List.range (usedIndices strategy).length := whole
      have below : k < (usedIndices strategy).length := by
        rw [indices] at member
        exact mem_range.mp member
      have own : (usedIndices strategy).get ⟨k, below⟩ = k := by
        rw [get_eq_getElem, getElem_of_eq indices, getElem_range]
      have line := lineAt k below
      rw [own] at line
      exact (toInt_eq_iff (le_lt 8 32 _)).mp ((opens k _).mp (every _ line)).2
    · intro fits l member
      have gapless : ∀ k < entryCount strategy, used (entOf strategy k) = true → ∀ j < k, used (entOf strategy j) = true :=
        fun k less inUse j before => ((fits k ⟨less, inUse⟩).1 j before).2
      have indices : usedIndices strategy = List.range (usedIndices strategy).length := filter_range_of_gapless gapless
      rw [shown, mem_mapIdx] at member
      obtain ⟨i, less, rfl⟩ := member
      have below : i < (usedIndices strategy).length := by rw [← count]; exact less
      have own : parts[i] = partAt strategy i := by
        simp only [all, getElem_map]
        rw [getElem_of_eq indices, getElem_range]
      have inUse : InUse strategy i := by
        apply mem_usedIndices.mp
        rw [indices]
        exact mem_range.mpr below
      exact (opens i _).mpr ⟨inUse, by rw [own]; exact (toInt_eq_iff (le_lt 8 32 _)).mpr (fits i inUse).2⟩

def gptStrategy (ents : List Ent) (lba : Int) : Except Errno Sector := .ok (gptDisk ents (128, lba.toNat))

/-- Of four entries the first and the last are in use; the last is listed as p2, and there is no entry of that index. -/
theorem second_line_not_opened :
    ∃ lines, listed (gptStrategy [samplePart 4, Ent.zero, Ent.zero, samplePart 6]) = .ok lines ∧
    ¬ ∀ l ∈ lines, ∃ slot entry,
      diskOpen (gptStrategy [samplePart 4, Ent.zero, Ent.zero, samplePart 6]) 32 8 0 l.number 0xff =
        .opened l.part.gpStart slot entry := by
  have second : ∃ lines, listed (gptStrategy [samplePart 4, Ent.zero, Ent.zero, samplePart 6]) = .ok lines ∧
      ∃ l ∈ lines, l.number = 2 := by
    generalize shown : listed (gptStrategy [samplePart 4, Ent.zero, Ent.zero, samplePart 6]) = result
    have numbers : result.toOption.map (·.map Listed.number) = some [1, 2] := by rw [← shown]; decide +kernel
    cases result with
    | error _ => cases numbers
    | ok lines =>
      refine ⟨lines, rfl, ?_⟩
      have same : lines.map Listed.number = [1, 2] := some.inj numbers
      have member : 2 ∈ lines.map Listed.number := same ▸ mem_cons_of_mem 1 mem_cons_self
      obtain ⟨l, inside, number⟩ := List.mem_map.mp member
      exact ⟨l, inside, number⟩
  obtain ⟨lines, shown, l, member, number⟩ := second
  have refused : diskOpen (gptStrategy [samplePart 4, Ent.zero, Ent.zero, samplePart 6]) 32 8 0 2 0xff =
    .failed .enoent :=
    by decide +kernel
  refine ⟨lines, shown, fun every => ?_⟩
  obtain ⟨slot, entry, opened⟩ := every l member
  rw [number] at opened
  have absurd := refused.symm.trans opened
  cases absurd

theorem first_lines_opened :
    ∃ lines, listed (gptStrategy [samplePart 4, samplePart 6, Ent.zero, Ent.zero]) = .ok lines ∧
    ∀ l ∈ lines, ∃ slot entry,
      diskOpen (gptStrategy [samplePart 4, samplePart 6, Ent.zero, Ent.zero]) 32 8 0 l.number 0xff =
        .opened l.part.gpStart slot entry := by
  have fields : ((listed (gptStrategy [samplePart 4, samplePart 6, Ent.zero, Ent.zero])).toOption.isSome = true ∧
      entryCount (gptStrategy [samplePart 4, samplePart 6, Ent.zero, Ent.zero]) = 4) ∧
      ∀ k < 4, used (entOf (gptStrategy [samplePart 4, samplePart 6, Ent.zero, Ent.zero]) k) = decide (k < 2) ∧
        (entOf (gptStrategy [samplePart 4, samplePart 6, Ent.zero, Ent.zero]) k).lbaStart < 2 ^ 31 := by decide +kernel
  obtain ⟨⟨some, count⟩, entries⟩ := fields
  cases shown : listed (gptStrategy [samplePart 4, samplePart 6, Ent.zero, Ent.zero]) with
  | error _ => rw [shown] at some; cases some
  | ok lines =>
    refine ⟨lines, rfl, (listed_open_iff _ 32 8 (by decide) 0 lines shown).mpr fun k inUse => ?_⟩
    have less : k < 4 := by rw [← count]; exact inUse.1
    obtain ⟨here, start⟩ := entries k less
    have first : k < 2 := of_decide_eq_true (here.symm.trans inUse.2)
    refine ⟨fun j before => ⟨by rw [count]; omega, ?_⟩, start⟩
    rw [(entries j (by omega)).1]
    exact decide_eq_true (by omega)

end Pcbsd.DiskPrint
