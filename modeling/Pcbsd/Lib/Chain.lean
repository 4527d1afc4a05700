import Mathlib.Data.List.Perm.Subperm
import Mathlib.Data.List.Range

/-! Lists kept in a table: every row names the next one, and a mark ends the list. -/

namespace Pcbsd.Lib
open List

inductive Chain (next : Nat → Nat) (stop : Nat) : Nat → List Nat → Prop
  | done : Chain next stop stop []
  | link {i : Nat} {ids : List Nat} (more : i ≠ stop) (rest : Chain next stop (next i) ids) : Chain next stop i (i :: ids)

namespace Chain

variable {next : Nat → Nat} {stop i : Nat} {ids : List Nat}

theorem of_stop (chain : Chain next stop stop ids) : ids = [] := by
  cases chain with
  | done => rfl
  | link more => exact absurd rfl more

theorem of_nil (chain : Chain next stop i []) : i = stop := by
  cases chain
  rfl

variable (chain : Chain next stop i ids)

include chain

theorem unique {other : List Nat} (again : Chain next stop i other) : ids = other := by
  induction chain generalizing other with
  | done =>
    cases again with
    | done => rfl
    | link more => exact absurd rfl more
  | link more _ ih =>
    cases again with
    | done => exact absurd rfl more
    | link _ rest => rw [ih rest]

theorem suffix {j : Nat} (member : j ∈ ids) : ∃ back, Chain next stop j back ∧ back <:+ ids := by
  induction chain with
  | done => simp at member
  | @link i ids more rest ih =>
    obtain rfl | member := mem_cons.mp member
    · exact ⟨j :: ids, .link more rest, suffix_refl _⟩
    · obtain ⟨back, found, tail⟩ := ih member
      exact ⟨back, found, tail.trans (suffix_cons i ids)⟩

theorem nodup : ids.Nodup := by
  induction chain with
  | done => exact nodup_nil
  | @link i ids more rest ih =>
    refine nodup_cons.mpr ⟨fun member => ?_, ih⟩
    obtain ⟨_, again, tail⟩ := suffix rest member
    have whole := unique (.link more rest) again
    have short := tail.length_le
    rw [← whole, length_cons] at short
    omega

theorem length_le {bound : Nat} (within : ∀ j ∈ ids, j < bound) : ids.length ≤ bound := by
  have rows : ids ⊆ range bound := fun j member => mem_range.mpr (within j member)
  simpa using (subperm_of_subset chain.nodup rows).length_le

end Chain

end Pcbsd.Lib
