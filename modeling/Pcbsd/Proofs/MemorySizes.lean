import Pcbsd.Biosmem
import Pcbsd.Lib.Best

/-! What bios_getmem makes of the map: where memtop and the heap lie in the memory that the BIOS reports, and for which
answers the 32 bits of its variables are too few. -/

namespace Pcbsd.Biosmem
open Lib List

variable {answers : Answers} {entries : List Smap} {smap : Smap} {v : Vars}

def mapped (entries : List Smap) : Nat := ((entries.filter AtMega).getLast?).elim 0 Smap.length

def fallback (answers : Answers) : Nat :=
  let size := answers.e801.elim 0 fun regs => e801Size regs % 2 ^ 32
  if size = 0 then ext88Size answers.ext88 else size

def extended (answers : Answers) : Nat :=
  let size := mapped answers.entries % 2 ^ 32
  if size = 0 then fallback answers else size

def Reported (answers : Answers) (size : Nat) : Prop :=
  (∃ smap ∈ answers.entries, AtMega smap ∧ size = smap.length) ∨ (∃ regs, answers.e801 = some regs ∧ size = e801Size regs) ∨
    size = ext88Size answers.ext88

theorem lowEntry_extmem (v : Vars) (smap : Smap) : (lowEntry v smap).biosExtmem = v.biosExtmem := by
  rw [lowEntry]
  split <;> rfl

theorem lowEntry_heap (v : Vars) (smap : Smap) :
    (lowEntry v smap).highHeapSize = v.highHeapSize ∧ (lowEntry v smap).highHeapBase = v.highHeapBase := by
  rw [lowEntry]
  split <;> exact ⟨rfl, rfl⟩

theorem extEntry_heap (v : Vars) (smap : Smap) :
    (extEntry v smap).highHeapSize = v.highHeapSize ∧ (extEntry v smap).highHeapBase = v.highHeapBase := by
  rw [extEntry]
  split <;> exact ⟨rfl, rfl⟩

theorem highEntry_extmem (v : Vars) (smap : Smap) : (highEntry v smap).biosExtmem = v.biosExtmem := by
  rw [highEntry]
  split
  · split <;> rfl
  · rfl

theorem smapEntry_extmem (v : Vars) (smap : Smap) :
    (smapEntry v smap).biosExtmem = if AtMega smap then smap.length % 2 ^ 32 else v.biosExtmem := by
  rw [smapEntry, highEntry_extmem, extEntry]
  by_cases here : AtMega smap
  · rw [if_pos here, if_pos here]
  · rw [if_neg here, if_neg here, lowEntry_extmem]

theorem loop_extmem (entries : List Smap) : (entries.foldl smapEntry ⟨0, 0, 0, 0⟩).biosExtmem = mapped entries % 2 ^ 32 := by
  induction entries using reverseRecOn with
  | nil => rfl
  | append_singleton entries last ih =>
    rw [foldl_append, foldl_cons, foldl_nil, smapEntry_extmem, ih, mapped, mapped, filter_append]
    by_cases here : AtMega last
    · rw [if_pos here, filter_cons_of_pos (by simpa using here), filter_nil, getLast?_concat]
      rfl
    · rw [if_neg here, filter_cons_of_neg (by simpa using here), filter_nil, append_nil]

def Bounded (smap : Smap) : Prop := smap.base + smap.length < 2 ^ 64

instance : DecidablePred Bounded := fun _ => inferInstanceAs (Decidable (_ < _))

theorem truncated_eq (bounded : Bounded smap) (high : High smap) : smap.truncated = min smap.length (2 ^ 32 - smap.base) := by
  rw [Smap.truncated, Nat.mod_eq_of_lt bounded]
  split <;> omega

def segments (entries : List Smap) : List (Nat × Smap) := (entries.filter High).map fun smap => (smap.truncated, smap)

def heapOf (best : Option (Nat × Smap)) : Nat × Nat := best.elim (0, 0) fun best => (best.1, best.2.base)

theorem loop_heap (bounded : ∀ smap ∈ entries, Bounded smap) :
    ((entries.foldl smapEntry ⟨0, 0, 0, 0⟩).highHeapSize, (entries.foldl smapEntry ⟨0, 0, 0, 0⟩).highHeapBase) =
      heapOf (bestOf (fun _ => true) 0 (segments entries)) := by
  induction entries using reverseRecOn with
  | nil => rfl
  | append_singleton entries last ih =>
    have ih := ih fun smap member => bounded smap (mem_append_left _ member)
    rw [foldl_append, foldl_cons, foldl_nil, smapEntry, segments, filter_append, map_append]
    generalize entries.foldl smapEntry ⟨0, 0, 0, 0⟩ = v at ih ⊢
    obtain ⟨size, _⟩ := Prod.mk.inj ih
    have sameSize := (extEntry_heap (lowEntry v last) last).1.trans (lowEntry_heap v last).1
    have sameBase := (extEntry_heap (lowEntry v last) last).2.trans (lowEntry_heap v last).2
    rw [highEntry]
    by_cases high : High last
    · have own := truncated_eq (bounded last (mem_append_right _ mem_cons_self)) high
      have small : last.truncated < 2 ^ 32 := by
        have above := high.2.1
        omega
      rw [if_pos high, filter_cons_of_pos (by simpa using high), filter_nil, map_singleton, bestOf_snoc,
        better, sameSize]
      have key : (bestOf (fun _ => true) 0 (segments entries)).elim 0 Prod.fst = v.highHeapSize := by
        rw [size]
        cases bestOf (fun _ => true) 0 (segments entries) <;> rfl
      have same : (filter (fun smap => decide (High smap)) entries).map (fun smap => (smap.truncated, smap)) =
        segments entries := rfl
      rw [same, key]
      by_cases larger : v.highHeapSize < last.truncated
      · rw [if_pos larger, if_pos ⟨rfl, larger⟩, Nat.mod_eq_of_lt small, Nat.mod_eq_of_lt high.2.2]
        rfl
      · rw [if_neg larger, if_neg fun both => larger both.2, sameSize, sameBase]
        exact ih
    · rw [if_neg high, filter_cons_of_neg (by simpa using high), filter_nil, map_nil, append_nil, sameSize, sameBase]
      exact ih

theorem fallback_lt (answers : Answers) : fallback answers < 2 ^ 32 := by
  have old : ext88Size answers.ext88 < 2 ^ 32 := by
    rw [ext88Size]
    omega
  have new : (answers.e801.elim 0 fun regs => e801Size regs % 2 ^ 32) < 2 ^ 32 := by
    cases answers.e801 with
    | none => decide
    | some regs => exact Nat.mod_lt _ (by decide)
  rw [fallback]
  split
  · exact old
  · exact new

theorem extended_lt (answers : Answers) : extended answers < 2 ^ 32 := by
  rw [extended]
  split
  · exact fallback_lt answers
  · exact Nat.mod_lt _ (by decide)

theorem sizes_extmem (answers : Answers) : (sizes answers).biosExtmem = extended answers := by
  have loop := loop_extmem answers.entries
  rw [sizes, fallbacks, extended, fallback]
  generalize answers.entries.foldl smapEntry ⟨0, 0, 0, 0⟩ = v at loop ⊢
  have low : (if v.biosBasemem = 0 then { v with biosBasemem := answers.int12 % 2 ^ 16 * 1024 } else v).biosExtmem =
    v.biosExtmem := by
    split <;> rfl
  rw [low, ← loop]
  by_cases mapped : v.biosExtmem = 0
  · rw [if_pos mapped, if_pos mapped, mapped]
    dsimp only
    split <;> rfl
  · rw [if_neg mapped, if_neg mapped, low, if_neg mapped, low]

theorem fallbacks_heap (answers : Answers) (v : Vars) :
    ((fallbacks answers v).highHeapSize, (fallbacks answers v).highHeapBase) = (v.highHeapSize, v.highHeapBase) := by
  rw [fallbacks]
  split <;> split <;> first | rfl | (split <;> rfl)

theorem sizes_heap (bounded : ∀ smap ∈ answers.entries, Bounded smap) :
    ((sizes answers).highHeapSize, (sizes answers).highHeapBase) =
      heapOf (bestOf (fun _ => true) 0 (segments answers.entries)) := by
  rw [sizes, fallbacks_heap, loop_heap bounded]

theorem exists_reported (answers : Answers) : ∃ size, Reported answers size ∧ extended answers ≤ size := by
  rw [extended]
  by_cases none_ : mapped answers.entries % 2 ^ 32 = 0
  · rw [if_pos none_, fallback]
    by_cases old : (answers.e801.elim 0 fun regs => e801Size regs % 2 ^ 32) = 0
    · rw [if_pos old]
      exact ⟨_, .inr (.inr rfl), le_rfl⟩
    · rw [if_neg old]
      cases found : answers.e801 with
      | none => rw [found] at old; exact absurd rfl old
      | some regs => exact ⟨_, .inr (.inl ⟨regs, found, rfl⟩), Nat.mod_le _ _⟩
  · rw [if_neg none_]
    rw [mapped] at none_ ⊢
    cases last : (answers.entries.filter AtMega).getLast? with
    | none => rw [last] at none_; exact absurd rfl none_
    | some smap =>
      obtain ⟨member, here⟩ := mem_filter.mp (mem_of_getLast? last)
      exact ⟨_, .inl ⟨smap, member, of_decide_eq_true here, rfl⟩, Nat.mod_le _ _⟩

/-- memtop lies between 1 MB and the end of an entry at 1 MB, clipped to 4 GB. -/
def TopInside (answers : Answers) (memtop : Nat) : Prop :=
  (∃ smap ∈ answers.entries, AtMega smap) →
    mega ≤ memtop ∧ ∃ smap ∈ answers.entries, AtMega smap ∧ memtop ≤ min (smap.base + smap.length) (2 ^ 32)

/-- The heap lies below 4 GB, in an entry above 1 MB or in the extended memory that starts at 1 MB. -/
def HeapInside (answers : Answers) (v : Vars) : Prop :=
  v.highHeapSize ≠ 0 →
    v.highHeapBase + v.highHeapSize ≤ 2 ^ 32 ∧
      ((∃ smap ∈ answers.entries, smap.type = smapTypeMemory ∧ mega < smap.base ∧ smap.base ≤ v.highHeapBase ∧
          v.highHeapBase + v.highHeapSize ≤ smap.base + smap.length) ∨
        ∃ size, Reported answers size ∧ mega ≤ v.highHeapBase ∧ v.highHeapBase + v.highHeapSize ≤ mega + size)

/-- The extended memory ends below 4 GB, and an entry at 1 MB is as large as it. -/
def TopFits (answers : Answers) : Prop :=
  (∃ smap ∈ answers.entries, AtMega smap) →
    mega + extended answers < 2 ^ 32 ∧ ∃ smap ∈ answers.entries, AtMega smap ∧ extended answers ≤ smap.length

/-- Where the heap is taken from the end of extended memory, that ends at 4 GB at the latest. -/
def HeapFits (answers : Answers) : Prop :=
  heapMin ≤ extended answers → (∀ smap ∈ answers.entries, High smap → min smap.length (2 ^ 32 - smap.base) < heapMin) →
    mega + extended answers ≤ 2 ^ 32

theorem topInside_iff (answers : Answers) : TopInside answers (memtopOf (sizes answers)) ↔ TopFits answers := by
  have small := extended_lt answers
  refine imp_congr_right fun _ => ?_
  rw [memtopOf, sizes_extmem]
  by_cases room : mega + extended answers < 2 ^ 32
  · rw [Nat.mod_eq_of_lt room]
    refine and_congr (iff_of_true (Nat.le_add_right _ _) room)
      (exists_congr fun smap => and_congr_right fun _ => and_congr_right fun here => ?_)
    rw [here.2, Nat.le_min]
    omega
  · have wrapped : (mega + extended answers) % 2 ^ 32 < mega := by
      omega
    exact iff_of_false (fun both => absurd both.1 (Nat.not_le.mpr wrapped)) fun both => room both.1

variable (bounded : ∀ smap ∈ answers.entries, Bounded smap)

include bounded

theorem best_inside (some_ : (sizes answers).highHeapSize ≠ 0) :
    ∃ smap ∈ answers.entries, High smap ∧ (sizes answers).highHeapBase = smap.base ∧
      (sizes answers).highHeapSize = min smap.length (2 ^ 32 - smap.base) := by
  have heap := sizes_heap bounded
  cases best : bestOf (fun _ => true) 0 (segments answers.entries) with
  | none =>
    rw [best] at heap
    exact absurd (Prod.mk.inj heap).1 some_
  | some item =>
    rw [best] at heap
    obtain ⟨_, _, place, -, -⟩ := ((bestOf_spec (segments answers.entries)).1 item best).place
    have member := place ▸ mem_append_right _ mem_cons_self
    obtain ⟨smap, inside, rfl⟩ := List.mem_map.mp member
    obtain ⟨inside, high⟩ := mem_filter.mp inside
    have high := of_decide_eq_true high
    obtain ⟨size, base⟩ := Prod.mk.inj heap
    exact ⟨smap, inside, high, base, size.trans (truncated_eq (bounded smap inside) high)⟩

theorem heapSize_lt_iff :
    (sizes answers).highHeapSize < heapMin ↔ ∀ smap ∈ answers.entries, High smap →
    min smap.length (2 ^ 32 - smap.base) < heapMin := by
  constructor
  · intro small smap member high
    have listed : (smap.truncated, smap) ∈ segments answers.entries :=
      List.mem_map.mpr ⟨smap, mem_filter.mpr ⟨member, decide_eq_true high⟩, rfl⟩
    have heap := sizes_heap bounded
    rw [← truncated_eq (bounded smap member) high]
    cases best : bestOf (fun _ => true) 0 (segments answers.entries) with
    | none =>
      have none_ := (bestOf_spec (segments answers.entries)).2 best _ listed rfl
      exact Nat.lt_of_le_of_lt none_ (by decide)
    | some item =>
      rw [best] at heap
      have largest := ((bestOf_spec (segments answers.entries)).1 item best).le listed rfl
      have size := (Prod.mk.inj heap).1
      exact Nat.lt_of_le_of_lt largest (size ▸ small)
  · intro all
    by_contra large
    have some_ : (sizes answers).highHeapSize ≠ 0 := fun none_ => large (by rw [none_]; decide)
    obtain ⟨smap, member, high, -, size⟩ := best_inside bounded some_
    rw [size] at large
    exact large (all smap member high)

theorem heap_of_best : HeapInside answers (sizes answers) := by
  intro some_
  obtain ⟨smap, member, high, base, size⟩ := best_inside bounded some_
  obtain ⟨memory, above, _⟩ := high
  rw [base, size]
  refine ⟨?_, .inl ⟨smap, member, memory, above, le_rfl, ?_⟩⟩
  · have := Nat.min_le_right smap.length (2 ^ 32 - smap.base)
    omega
  · exact Nat.add_le_add_left (Nat.min_le_left _ _) _

omit bounded

theorem heap_of_end (answers : Answers) (v : Vars) (large : heapMin ≤ extended answers)
    (size : v.highHeapSize = heapMin) (base : v.highHeapBase + heapMin = mega + extended answers) :
    HeapInside answers v ↔ mega + extended answers ≤ 2 ^ 32 := by
  have some_ : v.highHeapSize ≠ 0 := by
    rw [size]
    decide
  constructor
  · intro inside
    have below := (inside some_).1
    rwa [size, base] at below
  · intro below _
    obtain ⟨reported, known, _⟩ := exists_reported answers
    rw [size, base]
    exact ⟨below, .inr ⟨reported, known, by omega, by omega⟩⟩

theorem endBase (answers : Answers) (large : heapMin ≤ extended answers) :
    (memtopOf (sizes answers) + 2 ^ 32 - heapMin) % 2 ^ 32 + heapMin = mega + extended answers ∧
      ((sizes answers).biosExtmem + mega + 2 ^ 32 - heapMin) % 2 ^ 32 + heapMin = mega + extended answers := by
  have small := extended_lt answers
  have three : heapMin = 3145728 := rfl
  have one : mega = 1048576 := rfl
  rw [memtopOf, sizes_extmem]
  omega

theorem heapInside_iff (bounded : ∀ smap ∈ answers.entries, Bounded smap) :
    (HeapInside answers (getmem answers).2 ↔ HeapFits answers) ∧
    (HeapInside answers (zfsbootGetmem answers) ↔ HeapFits answers) := by
  rw [getmem, zfsbootGetmem, HeapFits, ← heapSize_lt_iff bounded, sizes_extmem]
  by_cases end_ : heapMin ≤ extended answers ∧ (sizes answers).highHeapSize < heapMin
  · rw [if_pos end_, if_pos end_]
    have base := endBase answers end_.1
    have holds : (heapMin ≤ extended answers → (sizes answers).highHeapSize < heapMin →
      mega + extended answers ≤ 2 ^ 32) ↔
        mega + extended answers ≤ 2 ^ 32 := ⟨fun implies => implies end_.1 end_.2, fun below _ _ => below⟩
    rw [holds]
    constructor
    · apply heap_of_end answers _ end_.1 rfl
      exact base.1
    · apply heap_of_end answers _ end_.1 rfl
      have own := base.2
      rw [sizes_extmem] at own
      exact own
  · rw [if_neg end_, if_neg end_]
    have both := iff_of_true (heap_of_best bounded)
      (show heapMin ≤ extended answers → (sizes answers).highHeapSize < heapMin → mega + extended answers ≤ 2 ^ 32 from
        fun large small => absurd ⟨large, small⟩ end_)
    exact ⟨both, both⟩

theorem getmem_memtop (answers : Answers) : (getmem answers).1 = memtopOf (sizes answers) := by
  rw [getmem]
  split <;> rfl

/-- memtop and both heaps lie in the memory that the BIOS reports exactly if the sizes fit. -/
theorem getmem_inside_iff (bounded : ∀ smap ∈ answers.entries, Bounded smap) :
    (TopInside answers (getmem answers).1 ∧ HeapInside answers (getmem answers).2 ∧
      HeapInside answers (zfsbootGetmem answers)) ↔ TopFits answers ∧ HeapFits answers := by
  rw [getmem_memtop, topInside_iff, (heapInside_iff bounded).1, (heapInside_iff bounded).2, and_self]

def plainAnswers : Answers := ⟨[⟨0, 0xa0000, 1⟩, ⟨mega, 0x7f00000, 1⟩, ⟨0x10000000, 0x40000000, 1⟩], 640, none, 0⟩

theorem plainAnswers_inside :
    (TopInside plainAnswers (getmem plainAnswers).1 ∧ HeapInside plainAnswers (getmem plainAnswers).2 ∧
      HeapInside plainAnswers (zfsbootGetmem plainAnswers)) ↔ TopFits plainAnswers ∧ HeapFits plainAnswers :=
  getmem_inside_iff (by decide)

def fullAnswers : Answers := ⟨[⟨mega, 0xfff00000, 1⟩], 640, none, 0⟩

theorem fullAnswers_memtop : (getmem fullAnswers).1 = 0 ∧ ¬TopInside fullAnswers (getmem fullAnswers).1 := by
  have zero : (getmem fullAnswers).1 = 0 := by decide
  refine ⟨zero, fun inside => ?_⟩
  have above := (inside ⟨_, mem_cons_self, rfl, rfl⟩).1
  exact absurd above (by decide)

end Pcbsd.Biosmem
