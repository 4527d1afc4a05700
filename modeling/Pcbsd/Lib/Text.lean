import Mathlib.Data.List.Infix
import Pcbsd.Lib.Numeral

/-! Lines of text taken apart as with QString: prefixes, blanks and numbers. -/

namespace Pcbsd.Text
open Lib Numeral List

def startsWith (str front : Bytes) : Bool := front.isPrefixOf str

def contains (str part : Bytes) : Bool := str.tails.any (startsWith · part)

def tokens (str : Bytes) : List Bytes := (str.splitOn 0x20).filter (· ≠ [])

def blanks (n : Nat) : Bytes := replicate n 0x20

def trimmed (str : Bytes) : Bytes := ((str.dropWhile isSpace).reverse.dropWhile isSpace).reverse

/-- A number of which nothing is left over; 0 when there is none or it does not fit. -/
def toNumber (least bound : Int) (str : Bytes) : Int :=
  let (negative, digits) := sign (trimmed str)
  let value : Int := if negative then -valueOf 10 digits else valueOf 10 digits
  if digits ≠ [] ∧ digits.all (isDigitIn 10) ∧ least ≤ value ∧ value < bound then value else 0

def toULongLong (str : Bytes) : Nat := (toNumber 0 (2 ^ 64) str).toNat

def toInt (str : Bytes) : Int := toNumber (-2 ^ 31) (2 ^ 31) str

def Word (str : Bytes) : Prop := str ≠ [] ∧ ∀ c ∈ str, isSpace c = false

/-- A test for a key in a state fails on a line without the key and in another state. -/
theorem unkeyed {found : Bool} {state : Prop} (other : found = false ∨ ¬state) : ¬(found = true ∧ state) := by
  rintro ⟨key, here⟩
  rcases other with none | no
  · rw [key] at none
    cases none
  · exact no here

variable {word front str : Bytes} {n : Nat}

theorem startsWith_iff : startsWith str front = true ↔ front <+: str := isPrefixOf_iff_prefix

@[simp] theorem startsWith_append (front str : Bytes) : startsWith (front ++ str) front = true :=
  startsWith_iff.mpr (prefix_append front str)

theorem startsWith_append_append (front str part : Bytes) :
    startsWith (front ++ str) (front ++ part) = startsWith str part := by
  rw [Bool.eq_iff_iff, startsWith_iff, startsWith_iff, prefix_append_right_inj]

theorem startsWith_blank (whole : (0x20 : UInt8) ∉ front) (str rest : Bytes) :
    startsWith (str ++ 0x20 :: rest) front = startsWith str front := by
  induction str generalizing front with
  | nil =>
    cases front with
    | nil => rfl
    | cons c front =>
      have other : (c == (0x20 : UInt8)) = false := by
        rw [beq_eq_false_iff_ne]
        rintro rfl
        exact whole mem_cons_self
      change ((c == 0x20) && startsWith rest front) = false
      rw [other]
      rfl
  | cons d str ih =>
    cases front with
    | nil => rfl
    | cons c front =>
      change ((c == d) && startsWith (str ++ 0x20 :: rest) front) = ((c == d) && startsWith str front)
      rw [ih fun member => whole (mem_cons_of_mem c member)]

theorem contains_iff {part : Bytes} : contains str part = true ↔ part <:+: str := by
  rw [contains, any_eq_true]
  constructor
  · rintro ⟨_, isTail, front⟩
    exact (startsWith_iff.mp front).isInfix.trans ((mem_tails _ _).mp isTail).isInfix
  · rintro ⟨before, behind, whole⟩
    refine ⟨part ++ behind, ?_, startsWith_append part behind⟩
    rw [mem_tails, ← whole, append_assoc]
    exact suffix_append before _

theorem Word.blank (isWord : Word word) : (0x20 : UInt8) ∉ word := by
  intro member
  have printable := isWord.2 0x20 member
  revert printable
  decide

@[simp] theorem tokens_nil : tokens [] = [] := by
  rw [tokens, splitOn_nil]
  rfl

theorem tokens_blank (str : Bytes) : tokens (0x20 :: str) = tokens str := by
  have split := splitOn_append_cons_self (a := (0x20 : UInt8)) [] str
  rw [nil_append, splitOn_nil] at split
  rw [tokens, split]
  rfl

theorem tokens_blanks (n : Nat) (str : Bytes) : tokens (blanks n ++ str) = tokens str := by
  induction n with
  | zero => rfl
  | succ n ih =>
    rw [blanks, replicate_succ, cons_append, tokens_blank]
    exact ih

theorem tokens_word (isWord : Word word) (str : Bytes) : tokens (word ++ 0x20 :: str) = word :: tokens str := by
  rw [tokens, splitOn_append_cons_self_of_not_mem isWord.blank, filter_cons_of_pos]
  · rfl
  · simpa using isWord.1

theorem tokens_single (isWord : Word word) : tokens word = [word] := by
  rw [tokens, splitOn_eq_singleton isWord.blank, filter_cons_of_pos]
  · rfl
  · simpa using isWord.1

theorem printNat_word (n : Nat) : Word (printNat 10 n) :=
  ⟨printNat_ne_nil 10 n, fun c member => (digit_plain c (printNat_digits (by decide) (by decide) n c member)).1⟩

theorem trimmed_word (isWord : Word word) : trimmed word = word := by
  have front {str : Bytes} (spaceless : ∀ c ∈ str, isSpace c = false) : str.dropWhile isSpace = str := by
    cases str with
    | nil => rfl
    | cons c str =>
      rw [dropWhile_cons_of_neg]
      rw [spaceless c mem_cons_self]
      exact Bool.false_ne_true
  rw [trimmed, front isWord.2, front (fun c member => isWord.2 c (mem_reverse.mp member)), reverse_reverse]

theorem toNumber_printNat {least bound : Int} (low : least ≤ n) (fits : (n : Int) < bound) :
    toNumber least bound (printNat 10 n) = n := by
  have digits := @printNat_digits 10 (by decide) (by decide) n
  have unsigned : sign (printNat 10 n) = (false, printNat 10 n) := by
    have split := (dropWhile_digits [] digits (printNat_ne_nil 10 n)).2
    rwa [append_nil] at split
  rw [toNumber, trimmed_word (printNat_word n), unsigned]
  dsimp only
  rw [if_neg Bool.false_ne_true, valueOf_printNat (by decide) (by decide), if_pos]
  exact ⟨printNat_ne_nil 10 n, List.all_eq_true.mpr digits, low, fits⟩

theorem toULongLong_printNat (fits : n < 2 ^ 64) : toULongLong (printNat 10 n) = n := by
  rw [toULongLong, toNumber_printNat (by omega) (by omega)]
  rfl

theorem toInt_printNat (fits : n < 2 ^ 31) : toInt (printNat 10 n) = n :=
  toNumber_printNat (by omega) (by omega)

end Pcbsd.Text
