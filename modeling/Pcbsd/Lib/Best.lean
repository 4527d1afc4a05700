import Mathlib.Data.List.Induction
import Mathlib.Order.Lattice

/-! The item with the greatest key, found in one pass over a list that keeps the best so far. -/

namespace Pcbsd.Lib
open List Option

variable {κ α β : Type} [LinearOrder κ] (within : κ → Bool) (least : κ)

def better (best : Option (κ × α)) (item : κ × α) : Option (κ × α) :=
  if within item.1 ∧ best.elim least Prod.fst < item.1 then some item else best

def bestOf (items : List (κ × α)) : Option (κ × α) := items.foldl (better within least) none

/-- The first of the items with the greatest key, among those within the bounds and above the least. -/
structure IsBest (items : List (κ × α)) (item : κ × α) : Prop where
  allowed : within item.1 = true
  above : least < item.1
  place : ∃ front back, items = front ++ item :: back ∧ (∀ other ∈ front, within other.1 = true → other.1 < item.1) ∧
    ∀ other ∈ back, within other.1 = true → other.1 ≤ item.1

variable {within least} {items : List (κ × α)} {item other : κ × α}

theorem bestOf_snoc : bestOf within least (items ++ [item]) = better within least (bestOf within least items) item := by
  rw [bestOf, foldl_append]
  rfl

theorem IsBest.le (best : IsBest within least items item) (member : other ∈ items) (inside : within other.1 = true) :
    other.1 ≤ item.1 := by
  obtain ⟨_, _, rfl, before, behind⟩ := best.place
  rcases mem_append.mp member with early | late
  · exact (before other early inside).le
  · rcases mem_cons.mp late with rfl | later
    · exact le_rfl
    · exact behind other later inside

theorem bestOf_spec (items : List (κ × α)) :
    (∀ item, bestOf within least items = some item → IsBest within least items item) ∧
      (bestOf within least items = none → ∀ item ∈ items, within item.1 = true → item.1 ≤ least) := by
  induction items using reverseRecOn with
  | nil => exact ⟨fun _ found => (some_ne_none _ found.symm).elim, fun _ item member => absurd member not_mem_nil⟩
  | append_singleton items last ih =>
    rw [bestOf_snoc, better]
    cases before : bestOf within least items with
    | none =>
      have small := ih.2 before
      by_cases taken : within last.1 ∧ least < last.1
      · rw [elim_none, if_pos taken]
        refine ⟨fun item found => ?_, fun found => (some_ne_none _ found).elim⟩
        cases found
        exact ⟨taken.1, taken.2, items, [], rfl, fun other member inside => (small other member inside).trans_lt taken.2,
          fun other member => absurd member not_mem_nil⟩
      · rw [elim_none, if_neg taken]
        refine ⟨fun item found => (some_ne_none _ found.symm).elim, fun _ item member inside => ?_⟩
        rcases mem_append.mp member with early | final
        · exact small item early inside
        · rw [mem_singleton] at final
          subst final
          exact not_lt.mp fun above => taken ⟨inside, above⟩
    | some best =>
      have greatest := ih.1 best before
      by_cases taken : within last.1 ∧ best.1 < last.1
      · rw [elim_some, if_pos taken]
        refine ⟨fun item found => ?_, fun found => (some_ne_none _ found).elim⟩
        cases found
        exact ⟨taken.1, greatest.above.trans taken.2, items, [], rfl,
          fun other member inside => (greatest.le member inside).trans_lt taken.2, fun other member => absurd member not_mem_nil⟩
      · rw [elim_some, if_neg taken]
        refine ⟨fun item found => ?_, fun found => (some_ne_none _ found).elim⟩
        cases found
        obtain ⟨front, back, rfl, first, behind⟩ := greatest.place
        refine ⟨greatest.allowed, greatest.above, front, back ++ [last], by simp, first, fun other member inside => ?_⟩
        rcases mem_append.mp member with early | final
        · exact behind other early inside
        · rw [mem_singleton] at final
          subst final
          exact not_lt.mp fun above => taken ⟨inside, above⟩

theorem bestOf_eq_some_iff : bestOf within least items = some item ↔ IsBest within least items item := by
  refine ⟨(bestOf_spec items).1 item, fun best => ?_⟩
  obtain ⟨front, back, rfl, before, behind⟩ := best.place
  induction back using reverseRecOn with
  | nil =>
    rw [bestOf_snoc, better, if_pos]
    refine ⟨best.allowed, ?_⟩
    cases earlier : bestOf within least front with
    | none => exact best.above
    | some other =>
      have found := (bestOf_spec front).1 other earlier
      obtain ⟨_, _, rfl, -, -⟩ := found.place
      exact before other (mem_append_right _ mem_cons_self) found.allowed
  | append_singleton back last ih =>
    have shorter : IsBest within least (front ++ item :: back) item :=
      ⟨best.allowed, best.above, front, back, rfl, before, fun other member => behind other (mem_append_left _ member)⟩
    rw [← cons_append, ← append_assoc, bestOf_snoc, ih shorter fun other member => behind other (mem_append_left _ member)]
    rw [better, elim_some, if_neg]
    exact fun both => (behind last (mem_append_right _ (mem_singleton_self _)) both.1).not_gt both.2

theorem bestOf_eq_none_iff :
    bestOf within least items = none ↔ ∀ item ∈ items, within item.1 = true → item.1 ≤ least := by
  refine ⟨(bestOf_spec items).2, fun small => ?_⟩
  cases found : bestOf within least items with
  | none => rfl
  | some best =>
    have greatest := (bestOf_spec items).1 best found
    obtain ⟨_, _, rfl, -, -⟩ := greatest.place
    exact absurd greatest.above (small best (mem_append_right _ mem_cons_self) greatest.allowed).not_gt

theorem bestOf_map (f : κ × α → β) (items : List (κ × α)) :
    bestOf within least (items.map fun item => (item.1, f item)) = (bestOf within least items).map fun item =>
      (item.1, f item) := by
  induction items using reverseRecOn with
  | nil => rfl
  | append_singleton items _ ih =>
    rw [map_append, map_singleton, bestOf_snoc, ih, bestOf_snoc, better, better]
    have key : ((bestOf within least items).map fun item => (item.1, f item)).elim least Prod.fst =
        (bestOf within least items).elim least Prod.fst := by
      cases bestOf within least items <;> rfl
    rw [key]
    split <;> rfl

end Pcbsd.Lib
