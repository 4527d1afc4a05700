import Mathlib.Logic.Function.Basic
import Mathlib.Data.Set.Basic

/-! Two copies of the same data on a store whose single writes are atomic. Each copy is
judged by what lies in its own footprint. Updating one copy at a time keeps at least one
of them valid after every prefix of the writes. -/

namespace Pcbsd.Lib.TwoCopies

variable {α β : Type} [DecidableEq α]

def apply (ws : List (α × β)) (d : α → β) : α → β :=
  ws.foldl (fun d w => Function.update d w.1 w.2) d

@[simp] theorem apply_nil (d : α → β) : apply [] d = d := rfl

theorem apply_append (ws vs : List (α × β)) (d : α → β) : apply (ws ++ vs) d = apply vs (apply ws d) :=
  List.foldl_append

theorem apply_outside {ws : List (α × β)} {d : α → β} {x : α} (away : ∀ w ∈ ws, w.1 ≠ x) : apply ws d x = d x := by
  induction ws generalizing d with
  | nil => rfl
  | cons w ws ih =>
    have first : Function.update d w.1 w.2 x = d x := Function.update_of_ne (Ne.symm (away w (by simp))) _ _
    exact (ih fun v member => away v (by simp [member])).trans first

/-- A region of the store with a notion of validity that looks only at the region. -/
structure Copy (α β : Type) where
  footprint : Set α
  valid : (α → β) → Prop
  locality : ∀ d d', (∀ x ∈ footprint, d x = d' x) → valid d → valid d'

/-- Every prefix of the writes leaves a valid copy, and all of them leave both valid. -/
structure Safe (a b : Copy α β) (d : α → β) (ws : List (α × β)) : Prop where
  always : ∀ k, a.valid (apply (ws.take k) d) ∨ b.valid (apply (ws.take k) d)
  left : a.valid (apply ws d)
  right : b.valid (apply ws d)

variable {a b : Copy α β} {d : α → β} {ws vs : List (α × β)}

theorem Safe.symm (safe : Safe a b d ws) : Safe b a d ws := ⟨fun k => (safe.always k).symm, safe.right, safe.left⟩

theorem Safe.nil (left : a.valid d) (right : b.valid d) : Safe a b d [] :=
  ⟨fun k => by simpa using Or.inl left, left, right⟩

theorem Safe.update (right : b.valid d) (inside : ∀ w ∈ ws, w.1 ∈ a.footprint)
    (apart : ∀ x ∈ a.footprint, x ∉ b.footprint) (restored : a.valid (apply ws d)) : Safe a b d ws := by
  have survives : ∀ vs : List (α × β), (∀ w ∈ vs, w ∈ ws) → b.valid (apply vs d) := by
    intro vs part
    refine b.locality d _ (fun x member => (apply_outside ?_).symm) right
    intro w written same
    exact apart w.1 (inside w (part w written)) (same ▸ member)
  exact ⟨fun k => .inr (survives _ fun w member => List.mem_of_mem_take member), restored,
    survives _ fun _ member => member⟩

theorem Safe.append (first : Safe a b d ws) (second : Safe a b (apply ws d) vs) : Safe a b d (ws ++ vs) := by
  refine ⟨fun k => ?_, by rw [apply_append]; exact second.left, by rw [apply_append]; exact second.right⟩
  rw [List.take_append, apply_append]
  by_cases cut : k ≤ ws.length
  · rw [Nat.sub_eq_zero_of_le cut]
    exact first.always k
  · have whole : ws.take k = ws := List.take_of_length_le (by omega)
    rw [whole]
    exact second.always _

end Pcbsd.Lib.TwoCopies
