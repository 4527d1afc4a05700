import Mathlib.Algebra.Order.Ring.Nat
import Mathlib.Data.List.Induction
import Mathlib.Data.List.Pairwise

/-! Spans of numbers that lie one behind the other and leave nothing out. -/

namespace Pcbsd.Lib.Tiling
open List

structure Span where
  start : Nat
  count : Nat
  deriving DecidableEq

def Span.stop (s : Span) : Nat := s.start + s.count

def Span.Holds (s : Span) (n : Nat) : Prop := s.start ≤ n ∧ n < s.stop

instance (s : Span) (n : Nat) : Decidable (s.Holds n) := inferInstanceAs (Decidable (_ ∧ _))

/-- The spans cover what is between `low` and `high`, in order. -/
def Tiles : Nat → List Span → Nat → Prop
  | low, [], high => low = high
  | low, s :: rest, high => s.start = low ∧ Tiles s.stop rest high

variable {low high n : Nat} {spans : List Span} {s : Span}

theorem Tiles.snoc (tiled : Tiles low spans s.start) : Tiles low (spans ++ [s]) s.stop := by
  induction spans generalizing low with
  | nil => exact ⟨tiled.symm, rfl⟩
  | cons _ _ ih => exact ⟨tiled.1, ih tiled.2⟩

variable (tiled : Tiles low spans high)

include tiled

theorem Tiles.le : low ≤ high := by
  induction spans generalizing low with
  | nil => exact tiled.le
  | cons _ _ ih =>
    have behind := ih tiled.2
    have begins := tiled.1
    simp only [Span.stop] at behind
    omega

theorem Tiles.inside (member : s ∈ spans) : low ≤ s.start ∧ s.stop ≤ high := by
  induction spans generalizing low with
  | nil => exact absurd member not_mem_nil
  | cons _ _ ih =>
    rcases mem_cons.mp member with rfl | later
    · exact ⟨tiled.1.ge, tiled.2.le⟩
    · have bounds := ih tiled.2 later
      have begins := tiled.1
      simp only [Span.stop] at bounds ⊢
      exact ⟨by omega, bounds.2⟩

theorem Tiles.pairwise : spans.Pairwise fun s t => s.stop ≤ t.start := by
  induction spans generalizing low with
  | nil => exact List.Pairwise.nil
  | cons _ _ ih =>
    apply List.Pairwise.cons
    · intro later member
      exact (tiled.2.inside member).1
    · exact ih tiled.2

theorem Tiles.covered (above : low ≤ n) (below : n < high) : ∃ s ∈ spans, s.Holds n := by
  induction spans generalizing low with
  | nil =>
    have same : low = high := tiled
    omega
  | cons first _ ih =>
    by_cases here : n < first.stop
    · exact ⟨first, mem_cons_self, tiled.1.le.trans above, here⟩
    · obtain ⟨s, member, holds⟩ := ih tiled.2 (Nat.le_of_not_lt here)
      exact ⟨s, mem_cons_of_mem _ member, holds⟩

theorem Tiles.holds_unique {t : Span} {i j : Nat} (first : spans[i]? = some s) (second : spans[j]? = some t)
    (inFirst : s.Holds n) (inSecond : t.Holds n) : i = j := by
  have apart := pairwise_iff_getElem.mp tiled.pairwise
  obtain ⟨firstPlace, rfl⟩ := List.getElem?_eq_some_iff.mp first
  obtain ⟨secondPlace, rfl⟩ := List.getElem?_eq_some_iff.mp second
  rcases lt_trichotomy i j with before | same | behind
  · have := apart i j firstPlace secondPlace before
    have above := inSecond.1
    have below := inFirst.2
    omega
  · exact same
  · have := apart j i secondPlace firstPlace behind
    have above := inFirst.1
    have below := inSecond.2
    omega

omit tiled

theorem range_mul (n m : Nat) :
    List.range (n * m) = (List.range n).flatMap fun k => (List.range m).map (k * m + ·) := by
  induction n with
  | zero => rw [Nat.zero_mul, range_zero, flatMap_nil]
  | succ n ih => rw [Nat.succ_mul, range_add, List.range_succ, flatMap_append, ← ih, flatMap_singleton]

theorem range_mul_comm (n m : Nat) :
    List.range (n * m) = (List.range m).flatMap fun k => (List.range n).map (n * k + ·) := by
  simp only [Nat.mul_comm n, range_mul]

end Pcbsd.Lib.Tiling
