import Mathlib.Data.List.Basic
import Pcbsd.Interp

/-! backslash() stays inside its string and inside the copy. What it has written is never longer than what it has
read, and a round either reads on or forgets the backslash in front of a digit. -/

namespace Pcbsd.Backslash
open Lib Interp List

structure Wrote (s : Scan) (k : Nat) (out : Bytes) (s' : Scan) : Prop where
  str : s'.str = s.str + k
  seenbs : s'.seenbs = s.seenbs
  size : s'.newStr.length = s.newStr.length
  i : s'.i = s.i + out.length
  text : s'.newStr.take s'.i = s.newStr.take s.i ++ out

theorem Wrote.refl (s : Scan) : Wrote s 0 [] s := ⟨rfl, rfl, rfl, rfl, (append_nil _).symm⟩

variable {c : UInt8} {out tail rest text : Bytes} {s' : Scan} {k : Nat}

theorem Wrote.trans {s t u : Scan} {l : Nat} {more : Bytes} (first : Wrote s k out t) (second : Wrote t l more u) :
    Wrote s (k + l) (out ++ more) u := by
  constructor
  · rw [second.str, first.str, Nat.add_assoc]
  · rw [second.seenbs, first.seenbs]
  · rw [second.size, first.size]
  · rw [second.i, first.i, length_append, Nat.add_assoc]
  · rw [second.text, first.text, append_assoc]

theorem Wrote.skip (s : Scan) (k : Nat) : Wrote s k [] (s.skip k) := ⟨rfl, rfl, rfl, rfl, (append_nil _).symm⟩

theorem put_wrote {s : Scan} (room : s.i < s.newStr.length) : ∃ s', s.put c = some s' ∧ Wrote s 0 [c] s' := by
  refine ⟨{ s with newStr := s.newStr.set s.i c, i := s.i + 1 }, if_pos room, rfl, rfl, length_set, rfl, ?_⟩
  rw [take_add_one, take_set_of_le (Nat.le_refl _), getElem?_set_self room]
  rfl

theorem put_skip {s : Scan} (room : s.i < s.newStr.length) :
    ∃ s', (s.put c).map (·.skip k) = some s' ∧ Wrote s k [c] s' := by
  obtain ⟨t, done_, wrote⟩ := put_wrote (c := c) room
  refine ⟨t.skip k, by rw [done_]; rfl, ?_⟩
  simpa using wrote.trans (.skip t k)

def Ahead (mem : Bytes) (s : Scan) (tail : Bytes) : Prop := mem.drop s.str = tail ++ [0]

variable {mem : Bytes} {s : Scan}

theorem Ahead.read (ahead : Ahead mem s tail) (k : Nat) : s.read mem k = (tail ++ [0])[k]? := by
  rw [← ahead, getElem?_drop]
  rfl

theorem Ahead.skip (front : Bytes) (ahead : Ahead mem s (front ++ tail)) (further : s'.str = s.str + front.length) :
    Ahead mem s' tail := by
  unfold Ahead at ahead ⊢
  rw [further, ← drop_drop, ahead, append_assoc, drop_left]

def pending (s : Scan) (tail : Bytes) : Bytes := if s.seenbs then charBackslash :: tail else tail

/-- From `s` with the work `text` to `s'` with `rest` ahead: `out` was written, and it takes no more room than its
text. -/
structure Round (mem : Bytes) (s : Scan) (text : Bytes) (s' : Scan) (rest out : Bytes) : Prop where
  ahead : Ahead mem s' rest
  size : s'.newStr.length = s.newStr.length
  i : s'.i = s.i + out.length
  written : s'.newStr.take s'.i = s.newStr.take s.i ++ out
  result : out ++ Interp.backslash (pending s' rest) = Interp.backslash text
  short : out.length + (pending s' rest).length ≤ text.length

theorem Round.of_wrote (front : Bytes) (ahead : Ahead mem s (front ++ rest)) (clear : s.seenbs = false)
    (wrote : Wrote s front.length out s') (result : out ++ Interp.backslash rest = Interp.backslash text)
    (short : out.length + rest.length ≤ text.length) : Round mem s text s' rest out := by
  have same : pending s' rest = rest := by simp [pending, wrote.seenbs, clear]
  exact ⟨ahead.skip front wrote.str, wrote.size, wrote.i, wrote.text, by rw [same, result], by rwa [same]⟩

theorem Round.from (round : Round mem { s with seenbs := false } text s' rest out) :
    Round mem s text s' rest out := ⟨round.ahead, round.size, round.i, round.written, round.result, round.short⟩

theorem isoctal_zero : isoctal 0 = false := by decide

theorem isxdigit_zero : isxdigit 0 = false := by decide

attribute [local simp] Interp.backslash

theorem backslash_cons (other : c ≠ charBackslash) (tail : Bytes) : Interp.backslash
    (c :: tail) = c :: Interp.backslash tail := by
  rw [Interp.backslash.eq_def]
  simp [other]

theorem digit_other (digit : isdigit c) : c ≠ charBackslash := by
  rintro rfl
  exact absurd digit (by decide)

theorem digit_quote (digit : isdigit c) : ¬(c = charApostrophe ∨ c = charQuote ∨ c = charDollar) ∧ c ≠ 0x7a := by
  refine ⟨?_, ?_⟩
  · rintro (rfl | rfl | rfl) <;> exact absurd digit (by decide)
  · rintro rfl
    exact absurd digit (by decide)

section
variable {c d f : UInt8} (digit : isdigit c)
include digit

theorem backslash_short {tail : Bytes} (short : tail.length < 2) :
    Interp.backslash (charBackslash :: c :: tail) = c :: Interp.backslash tail := by
  rcases tail with _ | ⟨_, _ | ⟨_, _⟩⟩
  · simp [Interp.backslash, digit_other digit, digit_quote digit, digit]
  · simp [Interp.backslash, digit_other digit, digit_quote digit, digit]
  · simp only [length_cons] at short
    omega

theorem backslash_octal (three : c ≤ 0x33 ∧ isoctal d ∧ isoctal f) (more : Bytes) :
    Interp.backslash (charBackslash :: c :: d :: f :: more) =
      ((digitValue c <<< 6) + (digitValue d <<< 3) + digitValue f) :: Interp.backslash more := by
  rw [Interp.backslash.eq_def]
  simp only [ne_eq, not_true_eq_false, if_false, digit_other digit, digit_quote digit, digit, if_true]
  rw [if_pos three]

theorem backslash_hex_two {g : UInt8} (three : ¬(c ≤ 0x33 ∧ isoctal d ∧ isoctal f))
    (hex : c = 0x30 ∧ (d = 0x78 ∨ d = 0x58) ∧ isxdigit f) (two : isxdigit g) (more : Bytes) :
    Interp.backslash (charBackslash :: c :: d :: f :: g :: more) = ((digitValue f <<< 4) + digitValue g) ::
      Interp.backslash more := by
  rw [Interp.backslash.eq_def]
  simp only [ne_eq, not_true_eq_false, if_false, digit_other digit, digit_quote digit, digit, if_true]
  rw [if_neg three, if_pos hex, if_pos two]

theorem backslash_hex_one {more : Bytes} (three : ¬(c ≤ 0x33 ∧ isoctal d ∧ isoctal f))
    (hex : c = 0x30 ∧ (d = 0x78 ∨ d = 0x58) ∧ isxdigit f) (one : ∀ g, more.head? = some g → isxdigit g = false) :
    Interp.backslash (charBackslash :: c :: d :: f :: more) = digitValue f :: Interp.backslash more := by
  rw [Interp.backslash.eq_def]
  simp only [ne_eq, not_true_eq_false, if_false, digit_other digit, digit_quote digit, digit, if_true]
  rw [if_neg three, if_pos hex]
  rcases more with _ | ⟨g, more⟩
  · rfl
  · simp only [one g rfl, Bool.false_eq_true, if_false]

theorem backslash_stays (three : ¬(c ≤ 0x33 ∧ isoctal d ∧ isoctal f))
    (hex : ¬(c = 0x30 ∧ (d = 0x78 ∨ d = 0x58) ∧ isxdigit f)) (more : Bytes) :
    Interp.backslash (charBackslash :: c :: d :: f :: more) = c :: Interp.backslash (d :: f :: more) := by
  rw [Interp.backslash.eq_def]
  simp only [ne_eq, not_true_eq_false, if_false, digit_other digit, digit_quote digit, digit, if_true]
  rw [if_neg three, if_neg hex]

end

/-- What a round leaves behind a backslash: the scan has gone on, or only forgotten the backslash. -/
def Rounds (mem : Bytes) (s : Scan) (c : UInt8) (tail : Bytes) (next : Option Scan) : Prop :=
  ∃ s' rest out, next = some s' ∧ Round mem s (charBackslash :: c :: tail) s' rest out ∧ s'.seenbs = false ∧
    rest.length ≤ tail.length + 1

variable {tail : Bytes} {c : UInt8}

theorem Rounds.stays (ahead : Ahead mem s (c :: tail)) (clear : s.seenbs = false) (digit : isdigit c)
    (result : Interp.backslash (charBackslash :: c :: tail) = c :: Interp.backslash tail) : Rounds mem s c tail
    (some s) := by
  refine ⟨s, c :: tail, [], rfl, ?_, clear, Nat.le_refl _⟩
  apply Round.of_wrote [] ahead clear (.refl s)
  · rw [result, backslash_cons (digit_other digit), nil_append]
  · simp

theorem Rounds.one (front : Bytes) {rest : Bytes} {value : UInt8} {k : Nat} (split : c :: tail = front ++ rest)
    (count : front.length = k) (ahead : Ahead mem s (c :: tail)) (clear : s.seenbs = false)
    (room : s.i < s.newStr.length)
    (result : Interp.backslash (charBackslash :: c :: tail) = value :: Interp.backslash rest) :
    Rounds mem s c tail ((s.put value).map (·.skip k)) := by
  have lengths := congrArg length split
  rw [length_cons, length_append] at lengths
  obtain ⟨s', moved, wrote⟩ := put_skip (c := value) (k := k) room
  refine ⟨s', rest, [value], moved, ?_, wrote.seenbs.trans clear, by omega⟩
  rw [split] at ahead
  apply Round.of_wrote front ahead clear (count ▸ wrote)
  · rw [result, singleton_append]
  · simp only [length_cons, length_nil]
    omega

theorem constant_round (ahead : Ahead mem s (c :: tail)) (clear : s.seenbs = false) (digit : isdigit c)
    (room : s.i < s.newStr.length) : Rounds mem s c tail (s.constant mem) := by
  have none : ∀ octal hex, s.octal mem = some octal → s.hex mem = some hex → octal = false → hex = false →
    s.constant mem = some s := by
    rintro octal hex first second rfl rfl
    simp [Scan.constant, first, second]
  have short : tail.length < 2 → Rounds mem s c tail (some s) :=
    fun short => .stays ahead clear digit (backslash_short digit short)
  rcases tail with _ | ⟨d, _ | ⟨f, more⟩⟩
  · have octal : s.octal mem = some false := by simp [Scan.octal, both, ahead.read, isoctal_zero]
    have hex : s.hex mem = some false := by simp [Scan.hex, both, ahead.read]
    rw [none _ _ octal hex rfl rfl]
    exact short (by simp)
  · have octal : s.octal mem = some false := by simp [Scan.octal, both, ahead.read, isoctal_zero]
    have hex : s.hex mem = some false := by simp [Scan.hex, both, ahead.read, isxdigit_zero]
    rw [none _ _ octal hex rfl rfl]
    exact short (by simp)
  · have low : 0x30 ≤ c := by
      simp only [isdigit, Bool.and_eq_true, decide_eq_true_eq] at digit
      exact digit.1
    have octal : s.octal mem = some (decide (c ≤ 0x33 ∧ isoctal d ∧ isoctal f)) := by
      simp only [Scan.octal, ahead.read]
      simp [both, low]
      grind
    have hex : s.hex mem = some (decide (c = 0x30 ∧ (d = 0x78 ∨ d = 0x58) ∧ isxdigit f)) := by
      simp only [Scan.hex, ahead.read]
      simp [both]
      grind
    have first : s.read mem 0 = some c := by simp [ahead.read]
    have second : s.read mem 1 = some d := by simp [ahead.read]
    have third : s.read mem 2 = some f := by simp [ahead.read]
    by_cases three : c ≤ 0x33 ∧ isoctal d ∧ isoctal f
    · rw [decide_eq_true three] at octal
      have taken : s.constant mem = (s.put ((digitValue c <<< 6) + (digitValue d <<< 3) + digitValue f)).map
        (·.skip 3) := by
        simp only [Scan.constant, octal, first, second, third, Option.bind_some, if_true]
      rw [taken]
      exact .one [c, d, f] rfl rfl ahead clear room (backslash_octal digit three more)
    · rw [decide_eq_false three] at octal
      by_cases two : c = 0x30 ∧ (d = 0x78 ∨ d = 0x58) ∧ isxdigit f
      · rw [decide_eq_true two] at hex
        have one : ∀ g, s.read mem 3 = some g → isxdigit g = false →
          s.constant mem = (s.put (digitValue f)).map (·.skip 3) := by
          intro g fourth other
          simp only [Scan.constant, octal, hex, third, fourth, other, Option.bind_some, if_true,
            Bool.false_eq_true, if_false]
        rcases more with _ | ⟨g, more⟩
        · rw [one 0 (by simp [ahead.read]) isxdigit_zero]
          exact .one [c, d, f] rfl rfl ahead clear room (backslash_hex_one digit three two (by simp))
        · have fourth : s.read mem 3 = some g := by simp [ahead.read]
          cases both_ : isxdigit g
          case true =>
            have taken : s.constant mem = (s.put ((digitValue f <<< 4) + digitValue g)).map (·.skip 4) := by
              simp only [Scan.constant, octal, hex, third, fourth, both_, Option.bind_some, if_true,
                Bool.false_eq_true, if_false]
            rw [taken]
            exact .one [c, d, f, g] rfl rfl ahead clear room (backslash_hex_two digit three two both_ more)
          case false =>
            rw [one g fourth both_]
            exact .one [c, d, f] rfl rfl ahead clear room (backslash_hex_one digit three two (by simpa using both_))
      · rw [none _ _ octal hex rfl (decide_eq_false two)]
        exact .stays ahead clear digit (backslash_stays digit three two more)

theorem backslash_double (tail : Bytes) :
    Interp.backslash (charBackslash :: charBackslash :: tail) = charBackslash :: Interp.backslash tail := by
  rw [Interp.backslash.eq_def]
  simp only [ne_eq, not_true_eq_false, if_false, if_true]

section
variable {c : UInt8} (other : c ≠ charBackslash)
include other

theorem backslash_quote (quote : c = charApostrophe ∨ c = charQuote ∨ c = charDollar) (tail : Bytes) :
    Interp.backslash (charBackslash :: c :: tail) = charBackslash :: c :: Interp.backslash tail := by
  rw [Interp.backslash.eq_def]
  simp only [ne_eq, not_true_eq_false, if_false, other]
  rw [if_pos quote]

variable (plain : ¬(c = charApostrophe ∨ c = charQuote ∨ c = charDollar))
include plain

theorem backslash_nothing (nothing : c = 0x7a) (tail : Bytes) :
    Interp.backslash (charBackslash :: c :: tail) = Interp.backslash tail := by
  rw [Interp.backslash.eq_def]
  simp only [ne_eq, not_true_eq_false, if_false, other, plain]
  rw [if_pos nothing]

theorem backslash_letter (more : c ≠ 0x7a) (letter : ¬isdigit c) (tail : Bytes) :
    Interp.backslash (charBackslash :: c :: tail) = (escapeChar c).getD c :: Interp.backslash tail := by
  rw [Interp.backslash.eq_def]
  simp only [ne_eq, not_true_eq_false, if_false, other, plain, more, letter, Bool.false_eq_true]

end

variable {tail src : Bytes} {c : UInt8}

theorem escape_round (ahead : Ahead mem s (c :: tail)) (clear : s.seenbs = false)
    (room : s.i + 1 < s.newStr.length) : Rounds mem s c tail (s.escape mem c) := by
  unfold Scan.escape
  split
  · rename_i double
    subst double
    exact .one [charBackslash] rfl rfl ahead clear (by omega) (backslash_double tail)
  · rename_i other
    split
    · rename_i quote
      obtain ⟨t, first, wrote⟩ := put_wrote (c := charBackslash) (show s.i < s.newStr.length by omega)
      have second : t.i < t.newStr.length := by
        rw [wrote.i, wrote.size]
        exact room
      obtain ⟨s', moved, more⟩ := put_skip (c := c) (k := 1) second
      have all := wrote.trans more
      refine ⟨s', tail, [charBackslash, c], by rw [first]; exact moved, ?_, all.seenbs.trans clear, Nat.le_succ _⟩
      apply Round.of_wrote [c] ahead clear all
      · rw [backslash_quote other quote]
        rfl
      · simp only [length_append, length_cons, length_nil]
        omega
    · rename_i plain
      split
      · rename_i nothing
        refine ⟨s.skip 1, tail, [], rfl, ?_, clear, Nat.le_succ _⟩
        apply Round.of_wrote [c] ahead clear (.skip s 1)
        · rw [backslash_nothing other plain nothing]
          rfl
        · simp only [length_cons, length_nil]
          omega
      · rename_i more
        split
        · rename_i digit
          exact constant_round ahead clear digit (by omega)
        · rename_i letter
          exact .one [c] rfl rfl ahead clear (by omega) (backslash_letter other plain more letter tail)

def roundsLeft (s : Scan) (tail : Bytes) : Nat := 2 * tail.length + s.seenbs.toNat

theorem turn_round (ahead : Ahead mem s (c :: tail)) (room : s.i + (pending s (c :: tail)).length < s.newStr.length) :
    ∃ s' rest out, s.turn mem c = some s' ∧ Round mem s (pending s (c :: tail)) s' rest out ∧
    roundsLeft s' rest < roundsLeft s (c :: tail) := by
  cases seen : s.seenbs
  case false =>
    have text : pending s (c :: tail) = c :: tail := by simp [pending, seen]
    rw [text] at room ⊢
    by_cases start : c = charBackslash
    · refine ⟨{ s with seenbs := true }.skip 1, tail, [], by simp [Scan.turn, seen, start], ?_, ?_⟩
      · refine ⟨ahead.skip [c] rfl, rfl, rfl, (append_nil _).symm, ?_, ?_⟩
        · simp [pending, Scan.skip, start]
        · simp [pending, Scan.skip]
      · simp only [roundsLeft, Scan.skip, seen, length_cons, Bool.toNat_true, Bool.toNat_false]
        omega
    · obtain ⟨s', moved, wrote⟩ := put_skip (c := c) (k := 1) (show s.i < s.newStr.length by omega)
      refine ⟨s', tail, [c], by simp [Scan.turn, seen, start, moved], ?_, ?_⟩
      · apply Round.of_wrote [c] ahead seen wrote
        · rw [backslash_cons start]
          rfl
        · simp only [length_cons, length_nil]
          omega
      · simp only [roundsLeft, wrote.seenbs, seen, length_cons, Bool.toNat_false]
        omega
  case true =>
    have text : pending s (c :: tail) = charBackslash :: c :: tail := by simp [pending, seen]
    rw [text] at room ⊢
    obtain ⟨s', rest, out, moved, round, clear, _⟩ := escape_round (s := { s with seenbs := false }) ahead rfl
      (show s.i + 1 < s.newStr.length by simp only [length_cons] at room; omega)
    refine ⟨s', rest, out, by simp [Scan.turn, seen, moved], round.from, ?_⟩
    simp only [roundsLeft, clear, seen, length_cons, Bool.toNat_false, Bool.toNat_true]
    omega

theorem Ahead.closed {src tail : Bytes} (closed : 0 ∉ src) (ahead : Ahead (src ++ [0]) s tail) : 0 ∉ tail := by
  unfold Ahead at ahead
  by_cases inside : s.str ≤ src.length
  · rw [drop_append_of_le_length inside] at ahead
    obtain ⟨rfl, -⟩ := append_inj' ahead rfl
    exact fun member => closed (mem_of_mem_drop member)
  · rw [drop_of_length_le (by simp; omega)] at ahead
    simp at ahead

theorem finish_returns (room : s.i + (pending s []).length < s.newStr.length) :
    ∃ behind, s.finish = some (s.newStr.take s.i ++ Interp.backslash (pending s []) ++ 0 :: behind) ∧
      (s.newStr.take s.i ++ Interp.backslash (pending s []) ++ 0 :: behind).length = s.newStr.length := by
  have ends : ∀ t : Scan, t.i < t.newStr.length →
      ∃ behind, (t.put 0).map (·.newStr) = some (t.newStr.take t.i ++ 0 :: behind) ∧
        (t.newStr.take t.i ++ 0 :: behind).length = t.newStr.length := by
    intro t inside
    obtain ⟨u, put, wrote⟩ := put_wrote (c := 0) inside
    have whole : u.newStr = t.newStr.take t.i ++ 0 :: u.newStr.drop u.i := by
      rw [← singleton_append, ← append_assoc, ← wrote.text, take_append_drop]
    refine ⟨u.newStr.drop u.i, ?_, ?_⟩
    · rw [put, ← whole]
      rfl
    · rw [← whole, wrote.size]
  cases seen : s.seenbs
  case false =>
    have none : pending s [] = [] := by simp [pending, seen]
    rw [none] at room ⊢
    obtain ⟨behind, finished, size⟩ := ends s room
    refine ⟨behind, ?_, by simpa [Interp.backslash] using size⟩
    simpa [Scan.finish, seen, Interp.backslash] using finished
  case true =>
    have one : pending s [] = [charBackslash] := by simp [pending, seen]
    rw [one] at room ⊢
    obtain ⟨t, put, wrote⟩ := put_wrote (c := charBackslash) (show s.i < s.newStr.length by omega)
    obtain ⟨behind, finished, size⟩ := ends t (by rw [wrote.i, wrote.size]; exact room)
    rw [wrote.text] at finished size
    refine ⟨behind, ?_, by simpa [Interp.backslash, wrote.size] using size⟩
    simpa [Scan.finish, seen, put, Interp.backslash] using finished

/-- The induction is on the rounds that are left. -/
theorem loop_returns (closed : 0 ∉ src) {rounds : Nat} (ahead : Ahead (src ++ [0]) s tail)
    (room : s.i + (pending s tail).length < s.newStr.length) (bound : roundsLeft s tail < rounds) :
    ∃ behind, (∀ fuel, roundsLeft s tail < fuel →
        loop (src ++ [0]) fuel s = .returned (s.newStr.take s.i ++ Interp.backslash (pending s tail) ++ 0 :: behind)) ∧
      (s.newStr.take s.i ++ Interp.backslash (pending s tail) ++ 0 :: behind).length = s.newStr.length := by
  induction rounds generalizing s tail with
  | zero => exact absurd bound (Nat.not_lt_zero _)
  | succ rounds ih =>
    rcases tail with _ | ⟨c, tail⟩
    · obtain ⟨behind, finished, size⟩ := finish_returns room
      refine ⟨behind, ?_, size⟩
      intro fuel enough
      have stop : s.read (src ++ [0]) 0 = some 0 := by simp [ahead.read]
      obtain ⟨fuel, rfl⟩ := Nat.exists_eq_succ_of_ne_zero (Nat.ne_of_gt (Nat.zero_lt_of_lt enough))
      simp only [loop, stop, if_true, finished, leave]
    · have character : s.read (src ++ [0]) 0 = some c := by simp [ahead.read]
      have proper : c ≠ 0 := by
        rintro rfl
        exact ahead.closed closed mem_cons_self
      obtain ⟨_, _, _, turned, round, _⟩ := turn_round ahead room
      have short := round.short
      obtain ⟨behind, returned, size⟩ := ih round.ahead (by rw [round.i, round.size]; omega) (by omega)
      rw [round.written, append_assoc (s.newStr.take s.i), round.result] at size
      refine ⟨behind, ?_, by rw [size, round.size]⟩
      intro fuel enough
      obtain ⟨fuel, rfl⟩ := Nat.exists_eq_succ_of_ne_zero (Nat.ne_of_gt (Nat.zero_lt_of_lt enough))
      have next := returned fuel (by omega)
      rw [round.written, append_assoc (s.newStr.take s.i), round.result] at next
      simp only [loop, character, if_neg proper, turned, next]

theorem backslash_unchanged (none : charBackslash ∉ src) : Interp.backslash src = src := by
  induction src with
  | nil => rfl
  | cons _ src ih =>
    rw [backslash_cons (by rintro rfl; exact none mem_cons_self), ih fun member => none (mem_cons_of_mem _ member)]

/-- backslash ends, reads nothing behind the NUL and writes nothing behind its copy: what it writes in front of its
own NUL is no longer than the string. -/
theorem backslash_in_place (src : Bytes) (closed : 0 ∉ src) :
    ∃ behind, (∀ fuel, 2 * src.length < fuel →
      backslash (src ++ [0]) true fuel = .returned (Interp.backslash src ++ 0 :: behind)) ∧
      (Interp.backslash src ++ 0 :: behind).length = (src ++ [0]).length ∧ (Interp.backslash src).length ≤ src.length ∧
      (charBackslash ∉ src → Interp.backslash src ++ 0 :: behind = src ++ [0]) := by
  have ahead : Ahead (src ++ [0]) ⟨0, false, src ++ [0], 0⟩ src := rfl
  have text : pending ⟨0, false, src ++ [0], 0⟩ src = src := rfl
  have rounds : roundsLeft ⟨0, false, src ++ [0], 0⟩ src = 2 * src.length := rfl
  obtain ⟨behind, returned, size⟩ := loop_returns closed ahead (by simp [text]) (Nat.lt_succ_self _)
  rw [text, take_zero, nil_append] at size
  refine ⟨behind, ?_, size, ?_, ?_⟩
  · intro fuel enough
    have result := returned fuel (by rwa [rounds])
    rwa [text, take_zero, nil_append] at result
  · simp only [length_append, length_cons, length_nil] at size
    omega
  · intro none
    rw [backslash_unchanged none] at size ⊢
    simp only [length_append, length_cons, length_nil] at size
    rw [eq_nil_of_length_eq_zero (show behind.length = 0 by omega)]

/-- "a\'\0" ends in a digit that begins no constant. -/
theorem backslash_in_place_quoted : 0 ∉ ([0x61, 0x5c, 0x27, 0x5c, 0x30] : Bytes) ∧
    ∃ behind, ∀ fuel, 10 < fuel → backslash [0x61, 0x5c, 0x27, 0x5c, 0x30, 0] true fuel =
      .returned ([0x61, 0x5c, 0x27, 0x30, 0] ++ behind) := by
  refine ⟨by decide, ?_⟩
  obtain ⟨behind, returned, -⟩ := backslash_in_place [0x61, 0x5c, 0x27, 0x5c, 0x30] (by decide)
  exact ⟨behind, returned⟩

end Pcbsd.Backslash
