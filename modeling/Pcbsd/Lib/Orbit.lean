import Mathlib.Data.Finset.Card
import Mathlib.Data.Nat.Find

/-! A partial function applied again and again. -/

namespace Pcbsd.Lib
open Option

variable {α : Type} {step : α → Option α} {items : List α} {a b c : α} {m n : Nat}

@[grind =] def after (step : α → Option α) : Nat → α → Option α
  | 0, a => some a
  | n + 1, a => (step a).bind (after step n)

theorem after_one : after step 1 a = step a := by cases stepped : step a <;> simp [after, stepped]

theorem after_succ (first : step a = some b) : after step (n + 1) a = after step n b := by rw [after, first, bind_some]

theorem after_add (m n : Nat) (a : α) : after step (m + n) a = (after step m a).bind (after step n) := by
  induction m generalizing a with
  | zero => rw [Nat.zero_add, after, bind_some]
  | succ m ih =>
    rw [Nat.succ_add, after, after, bind_assoc]
    congr 1
    funext b
    exact ih b

theorem after_trans (first : after step m a = some b) (second : after step n b = some c) :
    after step (m + n) a = some c := by
  rw [after_add, first, bind_some, second]

theorem after_keeps {P : α → Prop} (keeps : ∀ a, P a → ∀ b, step a = some b → P b) (good : P a)
    (reached : after step n a = some b) : P b := by
  induction n generalizing a with
  | zero => exact some.inj reached ▸ good
  | succ n ih =>
    cases stepped : step a with
    | none => rw [after, stepped] at reached; cases reached
    | some next => exact ih (keeps a good next stepped) (after_succ stepped ▸ reached)

theorem after_split (reached : after step n a = some b) (less : m ≤ n) :
    ∃ c, after step m a = some c ∧ after step (n - m) c = some b := by
  have split : after step (m + (n - m)) a = some b := by rwa [Nat.add_sub_of_le less]
  rw [after_add] at split
  exact bind_eq_some_iff.mp split

theorem after_shortcut {i j : Nat} (reached : after step n a = some b) (order : i < j) (inside : j ≤ n)
    (same : after step i a = after step j a) : ∃ m < n, after step m a = some b := by
  obtain ⟨_, there, onward⟩ := after_split reached inside
  exact ⟨i + (n - j), by omega, after_trans (same.trans there) onward⟩

theorem after_within (closed : ∀ a ∈ items, ∀ b, step a = some b → b ∈ items) (inside : a ∈ items)
    (reached : ∃ n, after step n a = some b) : ∃ m < items.length, after step m a = some b := by
  classical
  refine ⟨Nat.find reached, ?_, Nat.find_spec reached⟩
  by_contra long
  have visits : ∀ i ∈ Finset.range (Nat.find reached + 1), after step i a ∈ items.toFinset.image some := by
    intro i less
    obtain ⟨c, there, _⟩ := after_split (Nat.find_spec reached) (Nat.lt_succ_iff.mp (Finset.mem_range.mp less))
    rw [there, Finset.mem_image]
    exact ⟨c, List.mem_toFinset.mpr (after_keeps closed inside there), rfl⟩
  have few : (items.toFinset.image some).card < (Finset.range (Nat.find reached + 1)).card := by
    have images := Finset.card_image_le (s := items.toFinset) (f := some)
    have bound := List.toFinset_card_le items
    rw [Finset.card_range]
    omega
  obtain ⟨i, below, _, belowToo, apart, same⟩ := Finset.exists_ne_map_eq_of_card_lt_of_maps_to few visits
  rw [Finset.mem_range] at below belowToo
  have shorter : ∃ m < Nat.find reached, after step m a = some b := by
    rcases Nat.lt_or_gt_of_ne apart with order | order
    · exact after_shortcut (Nat.find_spec reached) order (by omega) same
    · exact after_shortcut (Nat.find_spec reached) order (by omega) same.symm
  obtain ⟨m, less, there⟩ := shorter
  exact Nat.find_min reached less there

end Pcbsd.Lib
