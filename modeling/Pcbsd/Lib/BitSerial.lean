import Mathlib.Data.Nat.Bitwise

/-! Cyclic redundancy checks of any width, least significant bit first: the definition one bit at a time, and the
law that lets several bits be taken in one step with a table. A burst of errors that fits into the register is seen. -/

namespace Pcbsd.Lib.BitSerial

/-- The lowest bits of a number, the least significant one first. -/
def bits : Nat → Nat → List Bool
  | 0, _ => []
  | count + 1, x => x.testBit 0 :: bits count (x / 2)

variable {w : Nat} (poly : BitVec w)

def feed (reg : BitVec w) (bit : Bool) : BitVec w := if (reg.getLsbD 0 ^^ bit) then (reg >>> 1) ^^^ poly else reg >>> 1

def serial (message : List Bool) (reg : BitVec w) : BitVec w := message.foldl (feed poly) reg

def turn (reg : BitVec w) : BitVec w := feed poly reg false

theorem serial_append (xs ys : List Bool) (reg : BitVec w) :
    serial poly (xs ++ ys) reg = serial poly ys (serial poly xs reg) :=
  List.foldl_append

theorem turn_xor (x y : BitVec w) : turn poly (x ^^^ y) = turn poly x ^^^ turn poly y := by
  have cancel : ∀ a b : BitVec w, a ^^^ poly ^^^ (b ^^^ poly) = a ^^^ b := by
    intro a b
    rw [BitVec.xor_comm b poly, ← BitVec.xor_assoc, BitVec.xor_assoc a, BitVec.xor_self, BitVec.xor_zero]
  simp only [turn, feed, Bool.xor_false, BitVec.getLsbD_xor, BitVec.ushiftRight_xor_distrib]
  cases x.getLsbD 0 <;> cases y.getLsbD 0
  case false.false => rfl
  case false.true => exact BitVec.xor_assoc _ _ _
  case true.false =>
    change (x >>> 1) ^^^ (y >>> 1) ^^^ poly = (x >>> 1) ^^^ poly ^^^ (y >>> 1)
    rw [BitVec.xor_assoc, BitVec.xor_comm (y >>> 1), ← BitVec.xor_assoc]
  case true.true => exact (cancel _ _).symm

theorem turns_xor (count : Nat) (x y : BitVec w) :
    (turn poly)^[count] (x ^^^ y) = (turn poly)^[count] x ^^^ (turn poly)^[count] y := by
  induction count generalizing x y with
  | zero => rfl
  | succ count ih => rw [Function.iterate_succ_apply, turn_xor, ih, ← Function.iterate_succ_apply, ← Function.iterate_succ_apply]

variable {count x : Nat}

theorem turns_high {x : BitVec w} (clear : ∀ i < count, x.getLsbD i = false) : (turn poly)^[count] x = x >>> count := by
  induction count with
  | zero => simp
  | succ count ih =>
    have low : (x >>> count).getLsbD 0 = false := by simpa using clear count (by omega)
    rw [Function.iterate_succ_apply', ih fun i inside => clear i (by omega)]
    simp [turn, feed, low, BitVec.shiftRight_add]

theorem feed_eq (positive : 0 < w) (reg : BitVec w) (bit : Bool) :
    feed poly reg bit = turn poly (reg ^^^ BitVec.ofNat w bit.toNat) := by
  have low : (BitVec.ofNat w bit.toNat).getLsbD 0 = bit := by cases bit <;> simp [positive]
  have gone : BitVec.ofNat w bit.toNat >>> 1 = 0#w := by
    apply BitVec.eq_of_toNat_eq
    have small : bit.toNat % 2 ^ w ≤ bit.toNat := Nat.mod_le _ _
    have := bit.toNat_le
    simp only [BitVec.toNat_ushiftRight, BitVec.toNat_ofNat, Nat.shiftRight_eq_div_pow, Nat.zero_mod]
    omega
  simp [turn, feed, low, gone, BitVec.ushiftRight_xor_distrib]

theorem turn_double {y : Nat} (fits : 2 * y < 2 ^ w) : turn poly (BitVec.ofNat w (2 * y)) = BitVec.ofNat w y := by
  have even : ∀ i < 1, (BitVec.ofNat w (2 * y)).getLsbD i = false := by
    intro i inside
    obtain rfl : i = 0 := by omega
    rw [BitVec.getLsbD_ofNat, Nat.testBit_zero]
    simp
  have moved := turns_high poly even
  rw [Function.iterate_one] at moved
  rw [moved]
  apply BitVec.eq_of_toNat_eq
  simp only [BitVec.toNat_ushiftRight, BitVec.toNat_ofNat, Nat.shiftRight_eq_div_pow]
  rw [Nat.mod_eq_of_lt fits, Nat.mod_eq_of_lt (by omega)]
  omega

theorem ofNat_halves : BitVec.ofNat w x = BitVec.ofNat w (x.testBit 0).toNat ^^^ BitVec.ofNat w (2 * (x / 2)) := by
  rw [← BitVec.ofNat_xor]
  congr 1
  apply Nat.eq_of_testBit_eq
  intro i
  rw [Nat.testBit_xor]
  cases i with
  | zero => cases low : x.testBit 0 <;> simp [Nat.testBit_zero]
  | succ i =>
    have none : (x.testBit 0).toNat / 2 = 0 := by cases x.testBit 0 <;> rfl
    have same : 2 * (x / 2) / 2 = x / 2 := by omega
    rw [Nat.testBit_succ, Nat.testBit_succ, Nat.testBit_succ, none, same, Nat.zero_testBit, Bool.false_xor]

theorem serial_bits (fits : count ≤ w) (small : x < 2 ^ count) (reg : BitVec w) :
    serial poly (bits count x) reg = (turn poly)^[count] (reg ^^^ BitVec.ofNat w x) := by
  induction count generalizing x reg with
  | zero =>
    obtain rfl : x = 0 := by omega
    simp [serial, bits]
  | succ count ih =>
    have half : x / 2 < 2 ^ count := by omega
    have room : 2 * (x / 2) < 2 ^ w := calc
      2 * (x / 2) < 2 ^ (count + 1) := by omega
      _ ≤ 2 ^ w := Nat.pow_le_pow_right (by decide) fits
    calc serial poly (bits (count + 1) x) reg
        = serial poly (bits count (x / 2)) (feed poly reg (x.testBit 0)) := rfl
      _ = (turn poly)^[count] (feed poly reg (x.testBit 0) ^^^ BitVec.ofNat w (x / 2)) := ih (by omega) half _
      _ = (turn poly)^[count] (turn poly (reg ^^^ BitVec.ofNat w x)) := by
        rw [feed_eq poly (by omega), ← turn_double poly room, ← turn_xor, BitVec.xor_assoc, ← ofNat_halves]
      _ = (turn poly)^[count + 1] (reg ^^^ BitVec.ofNat w x) := (Function.iterate_succ_apply _ _ _).symm

def entry (count index : Nat) : BitVec w := (turn poly)^[count] (BitVec.ofNat w index)

theorem ofNat_mod_xor (x : BitVec w) :
    x = BitVec.ofNat w (x.toNat % 2 ^ count) ^^^ ((x >>> count) <<< count) := by
  apply BitVec.eq_of_getLsbD_eq
  intro i inside
  simp only [BitVec.getLsbD_xor, BitVec.getLsbD_ofNat, Nat.testBit_mod_two_pow, BitVec.getLsbD_shiftLeft,
    BitVec.getLsbD_ushiftRight, BitVec.testBit_toNat, inside, decide_true, Bool.true_and]
  by_cases low : i < count
  · simp [low]
  · simp [low, show count + (i - count) = i by omega]

theorem turns_entry (x : BitVec w) : (turn poly)^[count] x = entry poly count (x.toNat % 2 ^ count) ^^^
    (x >>> count) := by
  have clear : ∀ i < count, ((x >>> count) <<< count).getLsbD i = false := by
    intro i inside
    simp [inside]
  have back : ((x >>> count) <<< count) >>> count = x >>> count := by
    apply BitVec.eq_of_getLsbD_eq
    intro i inside
    by_cases room : count + i < w
    · simp [room]
    · simp [room, BitVec.getLsbD_of_ge x (count + i) (by omega)]
  calc (turn poly)^[count] x
      = (turn poly)^[count] (BitVec.ofNat w (x.toNat % 2 ^ count) ^^^ ((x >>> count) <<< count)) := by rw [← ofNat_mod_xor]
    _ = entry poly count (x.toNat % 2 ^ count) ^^^ (turn poly)^[count] ((x >>> count) <<< count) := turns_xor poly _ _ _
    _ = entry poly count (x.toNat % 2 ^ count) ^^^ (x >>> count) := by rw [turns_high poly clear, back]

theorem bits_eq_map (count x : Nat) : bits count x = (List.range count).map x.testBit := by
  induction count generalizing x with
  | zero => rfl
  | succ count ih =>
    rw [bits, ih, List.range_succ_eq_map, List.map_cons, List.map_map]
    exact congrArg _ (List.map_congr_left fun i _ => (Nat.testBit_succ x i).symm)

theorem exists_bits (message : List Bool) : ∃ x < 2 ^ message.length, message = bits message.length x := by
  induction message with
  | nil => exact ⟨0, by decide, rfl⟩
  | cons bit message ih =>
    obtain ⟨x, _, same⟩ := ih
    have half : (2 * x + bit.toNat) / 2 = x := by have := bit.toNat_le; omega
    have low : (2 * x + bit.toNat).testBit 0 = bit := by cases bit <;> simp [Nat.testBit_zero]
    refine ⟨2 * x + bit.toNat, ?_, ?_⟩
    · have := bit.toNat_le
      rw [List.length_cons, Nat.pow_succ]
      omega
    · rw [List.length_cons, bits, half, low, ← same]

section
variable {poly} (top : poly.getLsbD (w - 1) = true)
include top

theorem turn_injective : Function.Injective (turn poly) := by
  intro x y same
  have high (i : Nat) : (turn poly x).getLsbD i = (turn poly y).getLsbD i := by rw [same]
  have gone (z : BitVec w) : (z >>> 1).getLsbD (w - 1) = false := by
    rw [BitVec.getLsbD_ushiftRight]
    exact BitVec.getLsbD_of_ge _ _ (by omega)
  -- the highest bit of the register tells whether the polynomial was added
  have low : x.getLsbD 0 = y.getLsbD 0 := by
    have last := high (w - 1)
    simp only [turn, feed, Bool.xor_false] at last
    cases first : x.getLsbD 0 <;> cases second : y.getLsbD 0 <;> simp [first, second, gone, top] at last ⊢
  apply BitVec.eq_of_getLsbD_eq
  intro i inside
  cases i with
  | zero => exact low
  | succ i =>
    have next := high i
    simp only [turn, feed, Bool.xor_false, low] at next
    split at next
    · simpa [inside, Nat.add_comm] using next
    · simpa [inside, Nat.add_comm] using next

theorem serial_injective (message : List Bool) : Function.Injective (serial poly message) := by
  have positive : 0 < w := Nat.zero_lt_of_lt (BitVec.lt_of_getLsbD top)
  induction message with
  | nil => exact fun _ _ same => same
  | cons _ message ih =>
    intro x y same
    have fed := ih same
    rw [feed_eq poly positive, feed_eq poly positive] at fed
    exact (BitVec.xor_left_inj _).mp (turn_injective top fed)

/-- No burst of errors that fits into the register goes unseen. -/
theorem serial_burst {burst burst' : List Bool} (length : burst'.length = burst.length) (short : burst.length ≤ w)
    (differs : burst' ≠ burst) (before behind : List Bool) (reg : BitVec w) :
    serial poly (before ++ burst' ++ behind) reg ≠ serial poly (before ++ burst ++ behind) reg := by
  intro same
  simp only [serial_append] at same
  have inner := serial_injective top behind same
  obtain ⟨_, small, is⟩ := exists_bits burst
  obtain ⟨_, small', is'⟩ := exists_bits burst'
  rw [length] at small' is'
  rw [is, is', serial_bits poly short small, serial_bits poly short small'] at inner
  have numbers := congrArg BitVec.toNat ((BitVec.xor_right_inj _).mp ((turn_injective top).iterate _ inner))
  have room : 2 ^ burst.length ≤ 2 ^ w := Nat.pow_le_pow_right (by decide) short
  rw [BitVec.toNat_ofNat, BitVec.toNat_ofNat, Nat.mod_eq_of_lt (by omega), Nat.mod_eq_of_lt (by omega)] at numbers
  exact differs (by rw [is', numbers, ← is])

end

end Pcbsd.Lib.BitSerial
