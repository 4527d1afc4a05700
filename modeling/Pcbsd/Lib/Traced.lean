import Mathlib.Data.List.Basic

/-! Programs with a record of what they do on the way. A property of all that is recorded is checked piece by piece. -/

namespace Pcbsd.Lib

structure Traced (ε α : Type) where
  value : α
  events : List ε

namespace Traced

variable {ε α β : Type} {P : ε → Prop}

instance : Monad (Traced ε) where
  pure a := ⟨a, []⟩
  bind x f := ⟨(f x.value).value, x.events ++ (f x.value).events⟩

def tell (events : List ε) : Traced ε Unit := ⟨(), events⟩

def All (P : ε → Prop) (x : Traced ε α) : Prop := ∀ e ∈ x.events, P e

@[simp] theorem value_pure (a : α) : (pure a : Traced ε α).value = a := rfl

@[simp] theorem value_bind (x : Traced ε α) (f : α → Traced ε β) : (x >>= f).value = (f x.value).value := rfl

@[simp] theorem value_tell (events : List ε) : (tell events).value = () := rfl

@[simp] theorem all_pure (a : α) : All P (pure a) ↔ True :=
  iff_true_intro fun _ inside => absurd inside List.not_mem_nil

@[simp] theorem all_bind (x : Traced ε α) (f : α → Traced ε β) : All P (x >>= f) ↔ All P x ∧ All P (f x.value) :=
  List.forall_mem_append

@[simp] theorem all_tell (events : List ε) : All P (tell events) ↔ ∀ e ∈ events, P e := Iff.rfl

end Traced

end Pcbsd.Lib
