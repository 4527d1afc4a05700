import Mathlib.Data.List.Induction
import Pcbsd.Lib.Bytes

/-! The hash of System V object files: a name is taken in character by character, the word has 32 bits, and its four
highest bits are folded back after each character. In a wider word the sums carry into the high part. -/

namespace Pcbsd.Lib.SysvHash
open Lib List

/-- The sum of a character, its four highest bits added in four bits above the lowest ones. -/
def step (h : Nat) (c : UInt8) : Nat := ((16 * h + c.toNat) % 2 ^ 28) ^^^ ((16 * h + c.toNat) / 2 ^ 28 % 16 * 16)

def sysvHash (name : Bytes) : Nat := name.foldl step 0

theorem step_lt (h : Nat) (c : UInt8) : step h c < 2 ^ 28 := by
  apply Nat.xor_lt_two_pow
  · exact Nat.mod_lt _ (by decide)
  · have := Nat.mod_lt ((16 * h + c.toNat) / 2 ^ 28) (show 16 > 0 by decide)
    omega

theorem sysvHash_snoc (name : Bytes) (c : UInt8) : sysvHash (name ++ [c]) = step (sysvHash name) c := foldl_append

theorem sysvHash_lt (name : Bytes) : sysvHash name < 2 ^ 28 := by
  induction name using reverseRecOn with
  | nil => decide
  | append_singleton name c _ =>
    rw [sysvHash_snoc]
    exact step_lt _ c

/-- What the sum of a character carries out of the word. -/
def carry (h : Nat) (c : UInt8) : Nat := (16 * h + c.toNat) / 2 ^ 32

def CarryFree (count : Nat) (name : Bytes) : Prop :=
  ∀ before c rest, name = before ++ c :: rest → rest.length < count → 16 * sysvHash before + c.toNat < 2 ^ 32

/-- The high part of the word, of which `words` are possible. -/
def highStep (words : Nat) (high h : Nat) (c : UInt8) : Nat := (16 * high + carry h c) % words

def wideStep (words : Nat) (s : Nat × Nat) (c : UInt8) : Nat × Nat := (highStep words s.1 s.2 c, step s.2 c)

def wide (words : Nat) (name : Bytes) : Nat × Nat := name.foldl (wideStep words) (0, 0)

variable (words : Nat)

theorem wide_append (name : Bytes) (c : UInt8) : wide words (name ++ [c]) = wideStep words (wide words name) c :=
  foldl_append

theorem wide_low (name : Bytes) : (wide words name).2 = sysvHash name := by
  induction name using reverseRecOn with
  | nil => rfl
  | append_singleton name _ ih =>
    rw [wide_append, sysvHash_snoc, ← ih]
    rfl

theorem wide_snoc (name : Bytes) (c : UInt8) :
    (wide words (name ++ [c])).1 = highStep words (wide words name).1 (sysvHash name) c := by
  rw [wide_append, ← wide_low words name]
  rfl

theorem CarryFree.nil (count : Nat) : CarryFree count [] := by
  intro before c rest split
  simp at split

theorem CarryFree.zero (name : Bytes) : CarryFree 0 name := by
  intro before c rest _ last
  exact absurd last (Nat.not_lt_zero _)

theorem carryFree_snoc (count : Nat) (name : Bytes) (c : UInt8) :
    CarryFree (count + 1) (name ++ [c]) ↔ 16 * sysvHash name + c.toNat < 2 ^ 32 ∧ CarryFree count name := by
  constructor
  · intro free
    refine ⟨free name c [] rfl (Nat.succ_pos count), ?_⟩
    intro before d rest split last
    apply free before d (rest ++ [c])
    · rw [split, append_assoc, cons_append]
    · rw [length_append]
      exact Nat.succ_lt_succ last
  · rintro ⟨here, free⟩ before d rest split last
    rcases eq_nil_or_concat rest with rfl | ⟨rest, _, rfl⟩
    · obtain ⟨rfl, same⟩ := append_inj' split rfl
      rw [← singleton_inj.mp same]
      exact here
    · rw [concat_eq_append, ← cons_append, ← append_assoc] at split
      obtain ⟨rfl, -⟩ := append_inj' split rfl
      rw [concat_eq_append, length_append] at last
      exact free before d rest rfl (Nat.lt_of_succ_lt_succ last)

theorem carry_le (name : Bytes) (c : UInt8) : carry (sysvHash name) c ≤ 1 := by
  have low := sysvHash_lt name
  have character := c.toNat_lt
  unfold carry
  omega

theorem wide_high (count : Nat) (divides : 16 ^ count ∣ words) (name : Bytes) :
    (wide words name).1 % 16 ^ count = 0 ↔ CarryFree count name := by
  induction count generalizing name with
  | zero => exact ⟨fun _ => .zero name, fun _ => Nat.mod_one _⟩
  | succ count ih =>
    rcases eq_nil_or_concat name with rfl | ⟨name, c, rfl⟩
    · exact ⟨fun _ => .nil _, fun _ => Nat.zero_mod _⟩
    · have fewer := ih (Nat.dvd_trans (Nat.pow_dvd_pow 16 (Nat.le_succ count)) divides) name
      have bit := carry_le name c
      have carried : carry (sysvHash name) c = 0 ↔ 16 * sysvHash name + c.toNat < 2 ^ 32 := Nat.div_eq_zero_iff_lt (by decide)
      rw [concat_eq_append, wide_snoc, carryFree_snoc, ← fewer, ← carried]
      change (16 * (wide words name).1 + carry (sysvHash name) c) % words % 16 ^ (count + 1) = 0 ↔ _
      rw [Nat.mod_mod_of_dvd _ divides, Nat.pow_succ', Nat.mod_mul, Nat.mul_add_mod, Nat.mul_add_div (by decide : 16 > 0)]
      obtain none | one : carry (sysvHash name) c = 0 ∨ carry (sysvHash name) c = 1 := by omega
      · simp [none]
      · simp [one]

end Pcbsd.Lib.SysvHash
