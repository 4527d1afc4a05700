import Mathlib.Data.Option.Basic
import Mathlib.Tactic.Common

/-! The first of a list that a search accepts; the search is told the place. -/

namespace Pcbsd.Lib
open List

variable {α β : Type}

def firstMatch (search : Nat → α → Option β) (start : Nat) : List α → Option β
  | [] => none
  | a :: rest =>
    match search start a with
    | some b => some b
    | none => firstMatch search (start + 1) rest

variable {search : Nat → α → Option β} {start : Nat} {l : List α} {b : β}

theorem firstMatch_none : firstMatch search start l = none ↔ ∀ i a, l[i]? = some a → search (start + i) a = none := by
  induction l generalizing start with
  | nil => exact ⟨fun _ i a there => absurd there (Option.some_ne_none a).symm, fun _ => rfl⟩
  | cons first _ ih =>
    rw [firstMatch]
    constructor
    · intro nothing i a there
      cases here : search start first with
      | some _ => simp only [here, reduceCtorEq] at nothing
      | none =>
        simp only [here] at nothing
        cases i with
        | zero =>
          cases there
          exact here
        | succ i =>
          have later := ih.mp nothing i a there
          rwa [Nat.add_right_comm] at later
    · intro nothing
      have here := nothing 0 first rfl
      rw [Nat.add_zero] at here
      simp only [here]
      apply ih.mpr
      intro i a there
      have later := nothing (i + 1) a there
      rwa [← Nat.add_assoc, Nat.add_right_comm] at later

theorem firstMatch_some : firstMatch search start l = some b ↔
    ∃ i a, l[i]? = some a ∧ search (start + i) a = some b ∧ ∀ j < i, ∀ c, l[j]? = some c →
    search (start + j) c = none := by
  induction l generalizing start with
  | nil => exact ⟨fun found => absurd found (Option.some_ne_none b).symm,
      fun ⟨i, a, there, _⟩ => absurd there (Option.some_ne_none a).symm⟩
  | cons first _ ih =>
    rw [firstMatch]
    constructor
    · intro found
      cases here : search start first with
      | some c =>
        simp only [here, Option.some.injEq] at found
        subst found
        exact ⟨0, first, rfl, here, fun j below => absurd below (Nat.not_lt_zero j)⟩
      | none =>
        simp only [here] at found
        obtain ⟨i, a, there, hit, before⟩ := ih.mp found
        refine ⟨i + 1, a, there, by rwa [← Nat.add_assoc, Nat.add_right_comm], fun j below c place => ?_⟩
        cases j with
        | zero =>
          cases place
          exact here
        | succ j =>
          have earlier := before j (Nat.lt_of_succ_lt_succ below) c place
          rwa [Nat.add_right_comm] at earlier
    · rintro ⟨i, a, there, hit, before⟩
      cases i with
      | zero =>
        cases there
        rw [Nat.add_zero] at hit
        simp only [hit]
      | succ i =>
        have here := before 0 (Nat.succ_pos i) first rfl
        rw [Nat.add_zero] at here
        simp only [here]
        refine ih.mpr ⟨i, a, there, by rwa [Nat.add_right_comm], fun j below c place => ?_⟩
        have earlier := before (j + 1) (Nat.succ_lt_succ below) c place
        rwa [← Nat.add_assoc, Nat.add_right_comm] at earlier

theorem firstSplit_unique {p : α → Prop} {front other back rest : List α} {a c : α}
    (same : front ++ a :: back = other ++ c :: rest) (before : ∀ x ∈ front, ¬ p x) (here : p a)
    (before_ : ∀ x ∈ other, ¬ p x) (here_ : p c) : front = other ∧ a = c ∧ back = rest := by
  induction front generalizing other with
  | nil =>
    cases other with
    | nil =>
      cases same
      exact ⟨rfl, rfl, rfl⟩
    | cons x other =>
      cases same
      exact absurd here (before_ _ mem_cons_self)
  | cons x front ih =>
    cases other with
    | nil =>
      cases same
      exact absurd here_ (before _ mem_cons_self)
    | cons _ other =>
      obtain ⟨rfl, rest_⟩ := cons_eq_cons.mp same
      obtain ⟨rfl, equal⟩ := ih rest_ (fun z member => before z (mem_cons_of_mem _ member))
        fun z member => before_ z (mem_cons_of_mem _ member)
      exact ⟨rfl, equal⟩

end Pcbsd.Lib
