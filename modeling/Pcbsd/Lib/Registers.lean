import Mathlib.Logic.Function.Basic

/-! Banks of registers: what stays when only some of them are written. -/

namespace Pcbsd.Lib.Registers

variable {ι α : Type} {names : List ι} {f g h : ι → α}

/-- The second bank has the values of the first one outside of these registers. -/
def SameBut (names : List ι) (f g : ι → α) : Prop := ∀ i, i ∉ names → g i = f i

theorem SameBut.refl (names : List ι) (f : ι → α) : SameBut names f f := fun _ _ => rfl

theorem SameBut.trans (first : SameBut names f g) (second : SameBut names g h) : SameBut names f h := by
  intro i outside
  rw [second i outside, first i outside]

theorem SameBut.restored (same : SameBut names f g) (back : ∀ i ∈ names, g i = f i) : g = f := by
  funext i
  by_cases member : i ∈ names
  · exact back i member
  · exact same i member

end Pcbsd.Lib.Registers
