import Mathlib.Data.List.Nodup
import Mathlib.Data.List.Basic

/-! Lists without their repetitions. -/

namespace Pcbsd.Lib
open List

variable {α : Type} [BEq α] [LawfulBEq α]

def unseen : List α → List α → List α
  | _, [] => []
  | seen, a :: items => if a ∈ seen then unseen seen items else a :: unseen (seen ++ [a]) items

theorem unseen_eq (seen items : List α) : unseen seen items = (items.filter (· ∉ seen)).eraseDups := by
  induction items generalizing seen with
  | nil => rfl
  | cons a items ih =>
    rw [unseen]
    by_cases old : a ∈ seen
    · rw [if_pos old, filter_cons_of_neg (by simpa using old)]
      exact ih seen
    · rw [if_neg old, filter_cons_of_pos (by simpa using old), eraseDups_cons, filter_filter, ih]
      congr 3
      funext b
      by_cases same : b = a <;> simp [same, old]

theorem eraseDups_filter (p : α → Bool) (items : List α) : (items.filter p).eraseDups = items.eraseDups.filter p := by
  induction count : items.length using Nat.strongRecOn generalizing items with
  | ind count ih =>
    cases items with
    | nil => rfl
    | cons a items =>
      have rest : ((items.filter (! · == a)).filter p).eraseDups = (items.filter (! · == a)).eraseDups.filter p := by
        apply ih _ _ _ rfl
        have shorter := length_filter_le (! · == a) items
        rw [← count, length_cons]
        omega
      rw [eraseDups_cons]
      by_cases passes : p a
      · rw [filter_cons_of_pos passes, filter_cons_of_pos passes, eraseDups_cons, ← rest, filter_comm]
      · rw [filter_cons_of_neg passes, filter_cons_of_neg passes, ← rest, filter_filter]
        congr 2
        funext b
        by_cases same : b = a
        · simp [same, passes]
        · simp [same]

theorem nodup_eraseDups (items : List α) : items.eraseDups.Nodup := by
  induction count : items.length using Nat.strongRecOn generalizing items with
  | ind count ih =>
    cases items with
    | nil => exact nodup_nil
    | cons a items =>
      rw [eraseDups_cons, nodup_cons]
      refine ⟨fun member => ?_, ih _ ?_ _ rfl⟩
      · simp [mem_eraseDups] at member
      · have shorter := length_filter_le (! · == a) items
        rw [← count, length_cons]
        omega

theorem unseen_distinct (seen items : List α) : unseen seen items = items.eraseDups.filter (· ∉ seen) := by
  rw [unseen_eq, eraseDups_filter]

theorem mem_unseen {seen items : List α} {a : α} : a ∈ unseen seen items ↔ a ∈ items ∧ a ∉ seen := by
  rw [unseen_distinct, mem_filter, mem_eraseDups, decide_eq_true_eq]

theorem nodup_unseen (seen items : List α) : (unseen seen items).Nodup := by
  rw [unseen_distinct]
  exact (nodup_eraseDups items).filter _

/-- The old items that stay, then the new ones: that is the order of the list exactly if the old ones
stand at its front in their old order. -/
theorem kept_unseen_iff (seen items : List α) :
    seen.filter (· ∈ items) ++ unseen seen items = items.eraseDups ↔ seen.filter (· ∈ items) <+: items.eraseDups := by
  refine ⟨fun same => same ▸ prefix_append _ _, fun ⟨back, same⟩ => ?_⟩
  have nodup := nodup_eraseDups items
  rw [← same] at nodup
  rw [unseen_distinct, ← same, filter_append]
  congr 1
  have front : (seen.filter (· ∈ items)).filter (· ∉ seen) = [] := by
    rw [filter_eq_nil_iff]
    intro a member
    simpa using (mem_filter.mp member).1
  have rest : back.filter (· ∉ seen) = back := by
    rw [filter_eq_self]
    intro a member
    rw [decide_eq_true_eq]
    intro old
    have listed : a ∈ items := mem_eraseDups.mp (same ▸ mem_append_right _ member)
    exact (nodup_append.mp nodup).2.2 a (mem_filter.mpr ⟨old, by simpa using listed⟩) a member rfl
  rw [front, rest, nil_append]

end Pcbsd.Lib
