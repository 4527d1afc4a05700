import Pcbsd.Lib.Bytes

/-! Numbers as text: the digits that printf writes in a base, and strtol reading them back. A long has
32 bits. -/

namespace Pcbsd.Numeral
open Lib List

def isSpace (c : UInt8) : Bool := c == 0x20 || (0x09 ≤ c && c ≤ 0x0d)

def digitOf (c : UInt8) : Option Nat :=
  if 0x30 ≤ c ∧ c ≤ 0x39 then some (c.toNat - 0x30)
  else if 0x61 ≤ c ∧ c ≤ 0x7a then some (c.toNat - 0x61 + 10)
  else if 0x41 ≤ c ∧ c ≤ 0x5a then some (c.toNat - 0x41 + 10)
  else none

def isDigitIn (base : Nat) (c : UInt8) : Bool := (digitOf c).any (· < base)

def digitChar (d : Nat) : UInt8 := if d < 10 then UInt8.ofNat (0x30 + d) else UInt8.ofNat (0x61 + (d - 10))

/-- The value of a string of digits, the first one the most significant. -/
def valueOf (base : Nat) (ds : Bytes) : Nat := ds.foldl (fun v c => v * base + (digitOf c).getD 0) 0

/-- The last `k` digits of a number, without leading zeros. -/
def lastDigits (base : Nat) : Nat → Nat → Bytes
  | 0, _ => []
  | k + 1, n => if n = 0 then [] else lastDigits base k (n / base) ++ [digitChar (n % base)]

def printNat (base n : Nat) : Bytes := if n = 0 then [0x30] else lastDigits base (n.log2 + 1) n

def printPadded (base w n : Nat) : Bytes := (printNat base n).leftpad w 0x30

def printInt (n : Int) : Bytes := if n < 0 then 0x2d :: printNat 10 n.natAbs else printNat 10 n.natAbs

def longMax : Int := 2 ^ 31 - 1
def longMin : Int := -2 ^ 31

/-- A value that does not fit into a long becomes the bound next to it. -/
def clampLong (n : Int) : Int := max longMin (min longMax n)

/-- The sign in front of a number: whether it is negative, and what comes behind it. -/
def sign : Bytes → Bool × Bytes
  | [] => (false, [])
  | c :: str => if c = 0x2d then (true, str) else if c = 0x2b then (false, str) else (false, c :: str)

/-- The base of the digits, with a 0x in front of them taken off. -/
def radix (base : Nat) (str : Bytes) : Nat × Bytes :=
  if (base = 0 ∨ base = 16) ∧ str.head? = some 0x30 ∧ (str[1]? = some 0x78 ∨ str[1]? = some 0x58) ∧
      (str[2]?).any (isDigitIn 16) then (16, str.drop 2)
  else if base = 0 then if str.head? = some 0x30 then (8, str) else (10, str)
  else (base, str)

/-- strtol: the value and what is left at endptr. `none` when there is no number: then the value is 0
and endptr the start. -/
def strtol? (base : Nat) (str : Bytes) : Option (Int × Bytes) :=
  let (negative, unsigned) := sign (str.dropWhile isSpace)
  let (base, digits) := radix base unsigned
  let number := digits.takeWhile (isDigitIn base)
  if number = [] then none
  else
    let value : Int := valueOf base number
    some (clampLong (if negative then -value else value), digits.dropWhile (isDigitIn base))

def strtol (base : Nat) (str : Bytes) : Int := ((strtol? base str).map (·.1)).getD 0

theorem digitOf_digitChar {d : Nat} (small : d < 36) : digitOf (digitChar d) = some d := by
  have each : ∀ d < 36, digitOf (digitChar d) = some d := by decide +kernel
  exact each d small

theorem isDigitIn_digitChar {base d : Nat} (bounded : base ≤ 36) (small : d < base) :
    isDigitIn base (digitChar d) = true := by
  rw [isDigitIn, digitOf_digitChar (by omega)]
  exact decide_eq_true small

theorem valueOf_append_one (base : Nat) (ds : Bytes) (c : UInt8) :
    valueOf base (ds ++ [c]) = valueOf base ds * base + (digitOf c).getD 0 := by
  rw [valueOf, foldl_append]
  rfl

theorem valueOf_zeros (base n : Nat) (ds : Bytes) : valueOf base (replicate n 0x30 ++ ds) = valueOf base ds := by
  induction n with
  | zero => rfl
  | succ n ih =>
    rw [replicate_succ, cons_append, valueOf, foldl_cons]
    have zero : 0 * base + (digitOf 0x30).getD 0 = 0 := by rw [Nat.zero_mul]; rfl
    rw [zero]
    exact ih

section
variable {base : Nat} (more : 2 ≤ base) (bounded : base ≤ 36)
include more bounded

theorem valueOf_lastDigits {k n : Nat} (fits : n < base ^ k) : valueOf base (lastDigits base k n) = n := by
  induction k generalizing n with
  | zero =>
    rw [Nat.pow_zero, Nat.lt_one_iff] at fits
    rw [fits]
    rfl
  | succ k ih =>
    rw [lastDigits]
    split
    next zero => rw [zero]; rfl
    next =>
      have rest : n / base < base ^ k := by
        exact Nat.div_lt_of_lt_mul (by rwa [Nat.mul_comm])
      have digit : n % base < base := Nat.mod_lt _ (by omega)
      rw [valueOf_append_one, ih rest, digitOf_digitChar (by omega)]
      exact Nat.div_add_mod' n base

omit bounded in
theorem log2_fits (n : Nat) : n < base ^ (n.log2 + 1) :=
  lt_of_lt_of_le Nat.lt_log2_self (Nat.pow_le_pow_left more _)

theorem valueOf_printNat (n : Nat) : valueOf base (printNat base n) = n := by
  rw [printNat]
  split
  next zero =>
    rw [zero, ← append_nil [0x30]]
    exact valueOf_zeros base 1 []
  next => exact valueOf_lastDigits more bounded (log2_fits more n)

theorem lastDigits_digits (k n : Nat) : ∀ c ∈ lastDigits base k n, isDigitIn base c = true := by
  induction k generalizing n with
  | zero => intro c member; cases member
  | succ k ih =>
    intro c member
    rw [lastDigits] at member
    split at member
    · cases member
    · rcases mem_append.mp member with front | last
      · exact ih _ c front
      · rw [mem_singleton.mp last]
        exact isDigitIn_digitChar bounded (Nat.mod_lt _ (by omega))

theorem isDigitIn_zero : isDigitIn base 0x30 = true := isDigitIn_digitChar (d := 0) bounded (by omega)

theorem printNat_digits (n : Nat) : ∀ c ∈ printNat base n, isDigitIn base c = true := by
  intro c member
  rw [printNat] at member
  split at member
  · rw [mem_singleton.mp member]
    exact isDigitIn_zero more bounded
  · exact lastDigits_digits more bounded _ n c member

theorem printPadded_digits (w n : Nat) : ∀ c ∈ printPadded base w n, isDigitIn base c = true := by
  intro c member
  rcases mem_append.mp member with pad | digit
  · rw [eq_of_mem_replicate pad]
    exact isDigitIn_zero more bounded
  · exact printNat_digits more bounded n c digit

theorem valueOf_printPadded (w n : Nat) : valueOf base (printPadded base w n) = n := by
  rw [printPadded, leftpad, valueOf_zeros, valueOf_printNat more bounded]

end

variable {base n : Nat} {ds rest : Bytes} {k : Nat}

theorem lastDigits_ne_nil (positive : n ≠ 0) : lastDigits base (k + 1) n ≠ [] := by
  rw [lastDigits, if_neg positive]
  exact append_ne_nil_of_right_ne_nil _ (cons_ne_nil _ _)

theorem printNat_ne_nil (base n : Nat) : printNat base n ≠ [] := by
  rw [printNat]
  split
  · exact cons_ne_nil _ _
  next positive => exact lastDigits_ne_nil positive

theorem length_lastDigits_le (base k n : Nat) : (lastDigits base k n).length ≤ k := by
  induction k generalizing n with
  | zero => exact Nat.le_refl 0
  | succ k ih =>
    rw [lastDigits]
    split
    · exact Nat.zero_le _
    · rw [length_append, length_singleton]
      exact Nat.succ_le_succ (ih _)

theorem lastDigits_of_lt {j : Nat} (fits : n < base ^ k) (room : k ≤ j) :
    lastDigits base j n = lastDigits base k n := by
  induction k generalizing j n with
  | zero =>
    rw [Nat.pow_zero, Nat.lt_one_iff] at fits
    cases j with
    | zero => rfl
    | succ j => rw [fits]; rfl
  | succ k ih =>
    obtain ⟨j, rfl⟩ := Nat.exists_eq_add_of_le' (Nat.lt_of_lt_of_le (Nat.succ_pos k) room)
    rw [lastDigits, lastDigits]
    split
    · rfl
    · have rest : n / base < base ^ k := by
        exact Nat.div_lt_of_lt_mul (by rwa [Nat.mul_comm])
      rw [ih rest (Nat.le_of_succ_le_succ room)]

theorem length_printNat_le (positive : 0 < k) (fits : n < base ^ k) :
    (printNat base n).length ≤ k := by
  rw [printNat]
  split
  · exact positive
  · rcases Nat.le_total k (n.log2 + 1) with room | room
    · rw [lastDigits_of_lt fits room]
      exact length_lastDigits_le ..
    · exact Nat.le_trans (length_lastDigits_le ..) room

theorem length_printPadded {w : Nat} (positive : 0 < w) (fits : n < base ^ w) :
    (printPadded base w n).length = w := by
  have short := length_printNat_le positive fits
  rw [printPadded, leftpad, length_append, length_replicate]
  omega

theorem takeWhile_digits {p : UInt8 → Bool} (digits : ∀ c ∈ ds, p c = true) (ends : ∀ c ∈ rest.head?, p c = false) :
    (ds ++ rest).takeWhile p = ds ∧ (ds ++ rest).dropWhile p = rest := by
  have stop : rest.takeWhile p = [] ∧ rest.dropWhile p = rest := by
    cases rest with
    | nil => exact ⟨rfl, rfl⟩
    | cons c rest =>
      have other : ¬p c = true := by rw [ends c rfl]; exact Bool.false_ne_true
      exact ⟨takeWhile_cons_of_neg other, dropWhile_cons_of_neg other⟩
  induction ds with
  | nil => exact stop
  | cons c ds ih =>
    have here : p c = true := digits c mem_cons_self
    obtain ⟨front, back⟩ := ih fun d member => digits d (mem_cons_of_mem c member)
    rw [cons_append, takeWhile_cons_of_pos here, dropWhile_cons_of_pos here, front, back]
    exact ⟨rfl, rfl⟩

theorem strtol?_digits {radixBase : Nat} {negative : Bool} {str unsigned : Bytes}
    (signed : sign (str.dropWhile isSpace) = (negative, unsigned))
    (based : radix base unsigned = (radixBase, ds ++ rest)) (number : ds ≠ [])
    (digits : ∀ c ∈ ds, isDigitIn radixBase c = true) (ends : ∀ c ∈ rest.head?, isDigitIn radixBase c = false) :
    strtol? base str =
      some (clampLong (if negative then -(valueOf radixBase ds : Int) else (valueOf radixBase ds : Int)), rest) := by
  obtain ⟨front, back⟩ := takeWhile_digits digits ends
  rw [strtol?, signed]
  dsimp only
  rw [based, front, back, if_neg number]

theorem digitChar_ne_zero {d : Nat} (small : d < 36) (positive : d ≠ 0) : digitChar d ≠ 0x30 := by
  have each : ∀ d < 36, d ≠ 0 → digitChar d ≠ 0x30 := by decide +kernel
  exact each d small positive

theorem head_lastDigits (more : 2 ≤ base) (bounded : base ≤ 36) (fits : n < base ^ k) :
    ∀ c ∈ (lastDigits base k n).head?, c ≠ 0x30 := by
  induction k generalizing n with
  | zero => intro c member; cases member
  | succ k ih =>
    intro c member
    rw [lastDigits] at member
    split at member
    · cases member
    next positive =>
      have rest : n / base < base ^ k := by
        exact Nat.div_lt_of_lt_mul (by rwa [Nat.mul_comm])
      rw [head?_append] at member
      cases front : (lastDigits base k (n / base)).head? with
      | some _ =>
        rw [front] at member
        cases member
        exact ih rest c front
      | none =>
        rw [front] at member
        cases member
        have short : n / base = 0 := by
          by_contra long
          cases k with
          | zero =>
            rw [Nat.pow_zero, Nat.lt_one_iff] at rest
            exact long rest
          | succ k => exact lastDigits_ne_nil long (head?_eq_none_iff.mp front)
        have small : n < base := (Nat.div_eq_zero_iff_lt (by omega)).mp short
        rw [Nat.mod_eq_of_lt small]
        exact digitChar_ne_zero (by omega) positive

theorem head_printNat (more : 2 ≤ base) (bounded : base ≤ 36) (positive : n ≠ 0) :
    ∀ c ∈ (printNat base n).head?, c ≠ 0x30 := by
  rw [printNat, if_neg positive]
  exact head_lastDigits more bounded (log2_fits more n)

theorem uint8_cases {p : UInt8 → Prop} (each : ∀ n < 256, p (UInt8.ofNat n)) (c : UInt8) : p c := by
  have here := each c.toNat c.toNat_lt
  rwa [UInt8.ofNat_toNat] at here

theorem digit_plain (c : UInt8) : isDigitIn 10 c = true → isSpace c = false ∧ c ≠ 0x2d ∧ c ≠ 0x2b := by
  revert c
  exact uint8_cases (by decide +kernel)

theorem dropWhile_digits (rest : Bytes) (digits : ∀ c ∈ ds, isDigitIn 10 c = true) (number : ds ≠ []) :
    (ds ++ rest).dropWhile isSpace = ds ++ rest ∧ sign (ds ++ rest) = (false, ds ++ rest) := by
  cases ds with
  | nil => exact absurd rfl number
  | cons c ds =>
    obtain ⟨blank, minus, plus⟩ := digit_plain c (digits c mem_cons_self)
    have other : ¬isSpace c = true := by rw [blank]; exact Bool.false_ne_true
    rw [cons_append, dropWhile_cons_of_neg other, sign, if_neg minus, if_neg plus]
    exact ⟨rfl, rfl⟩

theorem sign_printInt (n : Int) (rest : Bytes) :
    sign ((printInt n ++ rest).dropWhile isSpace) = (decide (n < 0), printNat 10 n.natAbs ++ rest) := by
  have digits := @printNat_digits 10 (by decide) (by decide) n.natAbs
  obtain ⟨front, unsigned⟩ := dropWhile_digits rest digits (printNat_ne_nil 10 n.natAbs)
  rw [printInt]
  split
  next negative =>
    rw [cons_append, dropWhile_cons_of_neg (by decide), decide_eq_true negative]
    rfl
  next positive => rw [front, unsigned, decide_eq_false positive]

theorem clampLong_printed {n : Int} (low : longMin ≤ n) (high : n ≤ longMax) :
    clampLong (if decide (n < 0) = true then -(valueOf 10 (printNat 10 n.natAbs) : Int)
      else (valueOf 10 (printNat 10 n.natAbs) : Int)) = n := by
  rw [valueOf_printNat (by decide) (by decide)]
  have value : (if decide (n < 0) = true then -(n.natAbs : Int) else (n.natAbs : Int)) = n := by
    split
    next negative => have := of_decide_eq_true negative; omega
    next positive => have := of_decide_eq_false (Bool.not_eq_true _ ▸ positive); omega
  rw [value, clampLong, min_eq_right high, max_eq_right low]

section
variable {n : Int} (low : longMin ≤ n) (high : n ≤ longMax)
include low high

theorem strtol?_printInt {rest : Bytes} (ends : ∀ c ∈ rest.head?, isDigitIn 10 c = false) :
    strtol? 10 (printInt n ++ rest) = some (n, rest) := by
  have based : radix 10 (printNat 10 n.natAbs ++ rest) = (10, printNat 10 n.natAbs ++ rest) := by
    rw [radix, if_neg (by rintro ⟨ten | ten, -⟩ <;> cases ten), if_neg (by decide)]
  rw [strtol?_digits (sign_printInt n rest) based (printNat_ne_nil 10 n.natAbs)
    (printNat_digits (by decide) (by decide) _) ends, clampLong_printed low high]

theorem strtol?_printInt_zero {rest : Bytes} (ends : ∀ c ∈ rest.head?, digitOf c = none) :
    strtol? 0 (printInt n ++ rest) = some (n, rest) := by
  have plain (base : Nat) : ∀ c ∈ rest.head?, isDigitIn base c = false := by
    intro c member
    rw [isDigitIn, ends c member]
    rfl
  by_cases zero : n = 0
  · subst zero
    have noPrefix : ¬((rest.head? = some 0x78 ∨ rest.head? = some 0x58)) := by
      rintro (letter | letter)
      · exact absurd (ends _ letter) (by decide)
      · exact absurd (ends _ letter) (by decide)
    have based : radix 0 (printNat 10 (0 : Int).natAbs ++ rest) = (8, [0x30] ++ rest) := by
      rw [radix, if_neg, if_pos rfl]
      · rfl
      · rintro ⟨-, -, letter, -⟩
        have second : (printNat 10 (0 : Int).natAbs ++ rest)[1]? = rest.head? := by
          cases rest <;> rfl
        rw [second] at letter
        exact noPrefix letter
    have zero : ∀ c ∈ [(0x30 : UInt8)], isDigitIn 8 c = true := by
      intro c member
      rw [mem_singleton.mp member]
      rfl
    rw [strtol?_digits (sign_printInt 0 rest) based (cons_ne_nil _ _) zero (plain 8)]
    rfl
  · have head : (printNat 10 n.natAbs ++ rest).head? ≠ some 0x30 := by
      intro first
      cases digits : (printNat 10 n.natAbs).head? with
      | none => exact printNat_ne_nil 10 n.natAbs (head?_eq_none_iff.mp digits)
      | some c =>
        rw [head?_append, digits] at first
        cases first
        exact head_printNat (by decide) (by decide) (by omega) _ digits rfl
    have based : radix 0 (printNat 10 n.natAbs ++ rest) = (10, printNat 10 n.natAbs ++ rest) := by
      rw [radix, if_neg fun wrong => head wrong.2.1, if_pos rfl, if_neg head]
    rw [strtol?_digits (sign_printInt n rest) based (printNat_ne_nil 10 n.natAbs)
      (printNat_digits (by decide) (by decide) _) (plain 10), clampLong_printed low high]

theorem strtol?_printInt_end : strtol? 0 (printInt n) = some (n, []) := by
  have read : strtol? 0 (printInt n ++ []) = some (n, []) := strtol?_printInt_zero low high (by simp)
  rwa [append_nil] at read

end

theorem strtol?_fits {base : Nat} {str rest : Bytes} {n : Int} (read : strtol? base str = some (n, rest)) :
    longMin ≤ n ∧ n ≤ longMax := by
  rw [strtol?] at read
  dsimp only at read
  split at read
  · cases read
  · obtain ⟨rfl, -⟩ := Prod.mk.inj (Option.some.inj read)
    exact ⟨le_max_left _ _, max_le (by decide) (min_le_left _ _)⟩

end Pcbsd.Numeral
