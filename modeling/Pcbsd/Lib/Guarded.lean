import Mathlib.Data.Option.Basic

/-! Loops whose step may fail, as by an access outside of a list: a loop goes through exactly when each element is
fine in the state that it is met in. -/

namespace Pcbsd.Guarded
open List

variable {α σ : Type} {step : σ → α → Option σ} {fine : σ → α → Prop}

/-- Each element is fine in the state that the elements before it lead to. -/
def Along (step : σ → α → Option σ) (fine : σ → α → Prop) (s : σ) (l : List α) : Prop :=
  ∀ before a behind now, l = before ++ a :: behind → before.foldlM step s = some now → fine now a

theorem along_nil (step : σ → α → Option σ) (fine : σ → α → Prop) (s : σ) : Along step fine s [] := by
  intro before a behind now split
  cases before <;> cases split

theorem along_cons {s next : σ} {a : α} (reads : step s a = some next) (l : List α) :
    Along step fine s (a :: l) ↔ fine s a ∧ Along step fine next l := by
  constructor
  · intro along
    refine ⟨along [] a l s rfl rfl, ?_⟩
    intro before b behind now split run
    apply along (a :: before) b behind now
    · rw [split, cons_append]
    · rw [foldlM_cons, reads]
      exact run
  · rintro ⟨first, rest⟩ before b behind now split run
    cases before with
    | nil =>
      cases split
      cases run
      exact first
    | cons _ before =>
      obtain ⟨rfl, rfl⟩ := List.cons.inj split
      rw [foldlM_cons, reads] at run
      exact rest before b behind now rfl run

theorem isSome_iff_along (defined : ∀ s a, (step s a).isSome ↔ fine s a) (s : σ) (l : List α) :
    (l.foldlM step s).isSome ↔ Along step fine s l := by
  induction l generalizing s with
  | nil => exact iff_of_true rfl (along_nil step fine s)
  | cons a l ih =>
    rw [foldlM_cons]
    cases reads : step s a with
    | none =>
      apply iff_of_false Bool.false_ne_true
      intro along
      have first := (defined s a).mpr (along [] a l s rfl rfl)
      rw [reads] at first
      cases first
    | some next =>
      have first : fine s a := (defined s a).mp (by rw [reads]; rfl)
      rw [along_cons reads, and_iff_right first]
      exact ih next

/-- Where the state plays no role for an invariant, every element is fine. -/
theorem isSome_iff_forall (inv : σ → Prop) (fine : α → Prop) (defined : ∀ s a, inv s → ((step s a).isSome ↔ fine a))
    (keeps : ∀ s a next, inv s → step s a = some next → inv next) {s : σ} (holds : inv s) (l : List α) :
    (l.foldlM step s).isSome ↔ ∀ a ∈ l, fine a := by
  induction l generalizing s with
  | nil => exact iff_of_true rfl (forall_mem_nil fine)
  | cons a l ih =>
    rw [foldlM_cons, forall_mem_cons, ← defined s a holds]
    cases reads : step s a with
    | none => exact iff_of_false Bool.false_ne_true fun both => Bool.false_ne_true both.1
    | some next =>
      exact (ih (keeps s a next holds reads)).trans (and_iff_right rfl).symm

theorem invariant (inv : σ → Prop) (keeps : ∀ s a next, inv s → step s a = some next → inv next) {s last : σ}
    (holds : inv s) {l : List α} (run : l.foldlM step s = some last) : inv last := by
  induction l generalizing s with
  | nil =>
    cases run
    exact holds
  | cons a l ih =>
    obtain ⟨next, reads, rest⟩ := Option.bind_eq_some_iff.mp run
    exact ih (keeps s a next holds reads) rest

theorem isSome_of_step (defined : ∀ s a, (step s a).isSome) (s : σ) (l : List α) : (l.foldlM step s).isSome := by
  apply (isSome_iff_forall (fun _ => True) (fun _ => True) ?_ ?_ trivial l).mpr
  · exact fun _ _ => trivial
  · exact fun s a _ => iff_of_true (defined s a) trivial
  · exact fun _ _ _ _ _ => trivial

theorem foldl_of_foldlM {total : σ → α → σ} (agrees : ∀ s a next, step s a = some next → next = total s a)
    {s last : σ} {l : List α} (run : l.foldlM step s = some last) : last = l.foldl total s := by
  induction l generalizing s with
  | nil =>
    cases run
    rfl
  | cons a l ih =>
    obtain ⟨next, reads, rest⟩ := Option.bind_eq_some_iff.mp run
    rw [foldl_cons, ← agrees s a next reads]
    exact ih rest

end Pcbsd.Guarded
