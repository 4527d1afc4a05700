import Pcbsd.Lib.SysvHash
import Pcbsd.SymbolLookup

/-! elf_hash computes in an unsigned long. With 32 bits that is the hash of System V. With 64 bits the sums carry into
the high part, which nothing clears, and eight further characters are needed until a carry has left the word. -/

namespace Pcbsd.SymbolLookup
open Lib Lib.SysvHash Reloc List

theorem testBit_mask (i : Nat) : (0xf0000000 : Nat).testBit i = (decide (28 ≤ i) && decide (i < 32)) := by
  have shifted : (0xf0000000 : Nat) = 2 ^ 28 * (2 ^ 4 - 1) := by decide
  rw [shifted, Nat.testBit_two_pow_mul, Nat.testBit_two_pow_sub_one]
  by_cases low : 28 ≤ i
  · have : i - 28 < 4 ↔ i < 32 := by omega
    simp [low, this]
  · simp [low]

theorem masked_eq (high : Nat) {b : Nat} (small : b < 2 ^ 32) :
    (2 ^ 32 * high + b) &&& 0xf0000000 = 2 ^ 28 * (b / 2 ^ 28) := by
  apply Nat.eq_of_testBit_eq
  intro i
  rw [Nat.testBit_and, testBit_mask, Nat.testBit_two_pow_mul, Nat.testBit_div_two_pow,
    Nat.testBit_two_pow_mul_add high small]
  by_cases low : 28 ≤ i
  · by_cases inside : i < 32
    · simp [low, inside]
    · have beyond : b.testBit i = false :=
        Nat.testBit_lt_two_pow (Nat.lt_of_lt_of_le small (Nat.pow_le_pow_right (by decide) (by omega)))
      simp [low, inside, beyond]
  · simp [low]

theorem folded_eq {w high b : Nat} (wide : 32 ≤ w) (small : b < 2 ^ 32) (fits : 2 ^ 32 * high + b < 2 ^ w) :
    ((2 ^ 32 * high + b) ^^^ (b / 2 ^ 28 * 16)) &&& (2 ^ w - 1 - 2 ^ 28 * (b / 2 ^ 28)) = 2 ^ 32 * high +
      ((b % 2 ^ 28) ^^^ (b / 2 ^ 28 * 16)) := by
  have nibble : b / 2 ^ 28 * 16 < 2 ^ 28 := by omega
  have low : (b % 2 ^ 28) ^^^ (b / 2 ^ 28 * 16) < 2 ^ 28 := Nat.xor_lt_two_pow (Nat.mod_lt _ (by decide)) nibble
  have mask : 2 ^ 28 * (b / 2 ^ 28) < 2 ^ w := by omega
  have complement : 2 ^ w - 1 - 2 ^ 28 * (b / 2 ^ 28) = 2 ^ w - (2 ^ 28 * (b / 2 ^ 28) + 1) := by omega
  apply Nat.eq_of_testBit_eq
  intro i
  rw [complement, Nat.testBit_and, Nat.testBit_xor, Nat.testBit_two_pow_sub_succ mask, Nat.testBit_two_pow_mul,
    Nat.testBit_div_two_pow,
    Nat.testBit_two_pow_mul_add high small, Nat.testBit_two_pow_mul_add high (Nat.lt_trans low (by decide))]
  by_cases inside : i < 32
  · by_cases folded : 28 ≤ i
    · have none := Nat.testBit_lt_two_pow (Nat.lt_of_lt_of_le low (Nat.pow_le_pow_right (by decide) folded))
      have clear := Nat.testBit_lt_two_pow (Nat.lt_of_lt_of_le nibble (Nat.pow_le_pow_right (by decide) folded))
      rw [if_pos inside, if_pos inside, none, clear]
      have fixed : b.testBit i = true → i < w → b.testBit i = true := fun set _ => set
      simpa [folded] using fixed
    · have first : i < w := by omega
      rw [if_pos inside, if_pos inside, Nat.testBit_xor, Nat.testBit_mod_two_pow]
      simp [folded, first, show i < 28 by omega]
  · have clear : (b / 2 ^ 28 * 16).testBit i = false :=
      Nat.testBit_lt_two_pow (Nat.lt_of_lt_of_le nibble (Nat.pow_le_pow_right (by decide) (by omega)))
    have gone : b.testBit i = false :=
      Nat.testBit_lt_two_pow (Nat.lt_of_lt_of_le small (Nat.pow_le_pow_right (by decide) (by omega)))
    have beyond : high.testBit (i - 32) = (decide (i < w) && high.testBit (i - 32)) := by
      by_cases first : i < w
      · simp [first]
      · have outside : high.testBit (i - 32) = false := by
          have whole := Nat.testBit_lt_two_pow
            (Nat.lt_of_lt_of_le fits (Nat.pow_le_pow_right (by decide) (Nat.le_of_not_lt first)))
          rwa [Nat.testBit_two_pow_mul_add high small, if_neg inside] at whole
        simp [outside]
    rw [if_neg inside, if_neg inside, clear, show i - 28 + 28 = i by omega, gone, beyond]
    cases high.testBit (i - 32) <;> simp

def highs : Build → Nat
  | .i386 => 1
  | .i386Elf64 => 1
  | .amd64 => 2 ^ 32

theorem pointers_highs (build : Build) :
    ∃ w, 32 ≤ w ∧ build.pointers = 2 ^ w ∧ build.pointers = 2 ^ 32 * highs build := by
  cases build
  · exact ⟨32, by decide⟩
  · exact ⟨32, by decide⟩
  · exact ⟨64, by decide⟩

theorem hashStep_wide (build : Build) (high low : Nat) (c : UInt8) :
    hashStep build (2 ^ 32 * high + low) c = 2 ^ 32 * highStep (highs build) high low c + step low c := by
  obtain ⟨w, wide, power, split⟩ := pointers_highs build
  have positive : 0 < 2 ^ w := Nat.two_pow_pos w
  have small : (16 * low + c.toNat) % 2 ^ 32 < 2 ^ 32 := Nat.mod_lt _ (by decide)
  have sum : (((2 ^ 32 * high + low) <<< 4) + c.toNat) % build.pointers =
      2 ^ 32 * highStep (highs build) high low c + (16 * low + c.toNat) % 2 ^ 32 := by
    have shifted : ((2 ^ 32 * high + low) <<< 4) + c.toNat = 2 ^ 32 * (16 * high) + (16 * low + c.toNat) := by
      omega
    rw [shifted, split, Nat.mod_mul, Nat.mul_add_mod, Nat.mul_add_div (by decide), Nat.add_comm]
    rfl
  have fits : 2 ^ 32 * highStep (highs build) high low c + (16 * low + c.toNat) % 2 ^ 32 < 2 ^ w := by
    rw [← sum, power]
    exact Nat.mod_lt _ positive
  have masked := masked_eq (highStep (highs build) high low c) small
  have folded := folded_eq wide small fits
  have nibble : (16 * low + c.toNat) % 2 ^ 32 / 2 ^ 28 = (16 * low + c.toNat) / 2 ^ 28 % 16 := by omega
  have rest : (16 * low + c.toNat) % 2 ^ 32 % 2 ^ 28 = (16 * low + c.toNat) % 2 ^ 28 := by omega
  have moved : (2 ^ 28 * ((16 * low + c.toNat) % 2 ^ 32 / 2 ^ 28)) >>> 24 =
    (16 * low + c.toNat) % 2 ^ 32 / 2 ^ 28 * 16 := by
    omega
  unfold hashStep
  simp only [sum, masked, moved]
  rw [power]
  split
  · rw [folded, rest, nibble]
    rfl
  · rename_i zero
    have none : (16 * low + c.toNat) % 2 ^ 32 / 2 ^ 28 = 0 := by omega
    rw [none, Nat.zero_mul, Nat.xor_zero, Nat.xor_zero] at folded
    rw [none, folded, step, ← nibble, ← rest, none, Nat.zero_mul, Nat.xor_zero]

theorem elfHash_wide (build : Build) (name : Bytes) :
    elfHash build name = 2 ^ 32 * (wide (highs build) name).1 + sysvHash name := by
  induction name using reverseRecOn with
  | nil => rfl
  | append_singleton name c ih =>
    calc elfHash build (name ++ [c])
        = hashStep build (elfHash build name) c := foldl_append
      _ = hashStep build (2 ^ 32 * (wide (highs build) name).1 + sysvHash name) c := by rw [ih]
      _ = 2 ^ 32 * highStep (highs build) (wide (highs build) name).1 (sysvHash name) c + step (sysvHash name) c :=
        hashStep_wide build _ _ c
      _ = 2 ^ 32 * (wide (highs build) (name ++ [c])).1 + sysvHash (name ++ [c]) := by rw [wide_snoc, sysvHash_snoc]

theorem wide_one (name : Bytes) : (wide 1 name).1 = 0 := by
  induction name using reverseRecOn with
  | nil => rfl
  | append_singleton name _ _ =>
    rw [wide_snoc]
    exact Nat.mod_one _

theorem wide_lt {words : Nat} (positive : 0 < words) (name : Bytes) : (wide words name).1 < words := by
  induction name using reverseRecOn with
  | nil => exact positive
  | append_singleton name _ _ =>
    rw [wide_snoc]
    exact Nat.mod_lt _ positive

theorem elfHash_i386 (name : Bytes) : elfHash .i386 name = sysvHash name := by
  rw [elfHash_wide, highs, wide_one, Nat.mul_zero, Nat.zero_add]

theorem elfHash_amd64 (name : Bytes) : elfHash .amd64 name = sysvHash name ↔ CarryFree 8 name := by
  have small := wide_lt (show 0 < 2 ^ 32 by decide) name
  have digits := wide_high (2 ^ 32) 8 (by decide) name
  have same : (16 ^ 8 : Nat) = 2 ^ 32 := by decide
  rw [elfHash_wide, highs, ← digits]
  omega

/-- The 64-bit hash is the 32-bit one, and has 28 bits, exactly when none of the last eight characters carries. -/
theorem elfHash_widths (name : Bytes) :
    elfHash .amd64 name = elfHash .i386 name ∧ elfHash .amd64 name < 2 ^ 28 ∧ elfHash .i386 name < 2 ^ 28 ↔
    CarryFree 8 name := by
  have short := sysvHash_lt name
  rw [elfHash_i386, ← elfHash_amd64]
  constructor
  · exact And.left
  · intro same
    exact ⟨same, same ▸ short, short⟩

def carryingName : Bytes := [0x4b, 0x48, 0x79, 0x6b, 0x4c, 0x36, 0x4e, 0x39, 0x79, 0x70]

theorem carryingName_differs :
    ¬ ∀ name : Bytes, 0 ∉ name → elfHash .amd64 name = elfHash .i386 name ∧ elfHash .amd64 name < 2 ^ 28 := by
  intro agree
  exact absurd (agree carryingName (by decide)).2 (by decide)

end Pcbsd.SymbolLookup
