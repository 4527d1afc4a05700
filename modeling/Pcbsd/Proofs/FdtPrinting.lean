import Mathlib.Data.List.Induction
import Pcbsd.FdtProp

/-! Property values printed by the formatter of the device tree and read back by its parser. -/

namespace Pcbsd.Fdt
open Lib Numeral List

theorem isxdigit_of_digits {ds : Bytes} {w n : Nat} (printed : ds = printPadded 16 w n) :
    ∀ c ∈ ds, isxdigit c = true := by
  subst printed
  exact printPadded_digits (by decide) (by decide) w n

theorem skip_stop {p : UInt8 → Bool} {c : UInt8} (buf : Bytes) (other : p c = false) :
    skip p (c :: buf) = c :: buf := by
  rw [skip, if_neg]
  rintro ⟨wrong, -⟩
  rw [other] at wrong
  cases wrong

theorem skip_front {p : UInt8 → Bool} {front : Bytes} (skipped : ∀ c ∈ front, p c = true) {rest : Bytes}
    (long : 2 ≤ rest.length) :
    skip p (front ++ rest) = skip p rest := by
  induction front with
  | nil => rfl
  | cons c front ih =>
    rw [cons_append, skip, if_pos]
    · exact ih fun d member => skipped d (mem_cons_of_mem c member)
    · refine ⟨skipped c mem_cons_self, ?_⟩
      rw [length_cons, length_append]
      omega

theorem skip_short {p : UInt8 → Bool} {buf : Bytes} (short : buf.length ≤ 2) : skip p buf = buf := by
  cases buf with
  | nil => rfl
  | cons _ buf =>
    rw [skip, if_neg]
    rintro ⟨-, _⟩
    omega

theorem hexToken_shape (w n : Nat) : ∃ d ds, printPadded 16 w n = d :: ds := by
  cases digits : printPadded 16 w n with
  | nil =>
    rw [printPadded, leftpad, append_eq_nil_iff] at digits
    exact absurd digits.2 (printNat_ne_nil 16 n)
  | cons d ds => exact ⟨d, ds, rfl⟩

theorem strtol_hexToken {w n : Nat} {rest : Bytes} (ends : ∀ c ∈ rest.head?, isxdigit c = false) :
    strtol 0 (hexToken w n ++ rest) = clampLong n := by
  obtain ⟨d, ds, shape⟩ := hexToken_shape w n
  have digits := isxdigit_of_digits (w := w) (n := n) rfl
  have first : isDigitIn 16 d = true := digits d (by rw [shape]; exact mem_cons_self)
  have signed : sign ((hexToken w n ++ rest).dropWhile isSpace) = (false, hexToken w n ++ rest) := rfl
  have based : radix 0 (hexToken w n ++ rest) = (16, printPadded 16 w n ++ rest) := by
    rw [radix, if_pos]
    · rfl
    · refine ⟨Or.inl rfl, rfl, Or.inl rfl, ?_⟩
      rw [hexToken, shape]
      exact first
  rw [strtol, strtol?_digits signed based (by rw [shape]; exact cons_ne_nil d ds) digits ends,
    valueOf_printPadded (by decide) (by decide)]
  rfl

section
variable {w : Nat}

def behind (w : Nat) (ns : List Nat) (close : UInt8) : Bytes :=
  match ns with
  | [] => [close]
  | n :: ns => 0x20 :: join [0x20] ((n :: ns).map (hexToken w)) ++ [close]

theorem join_cons (n : Nat) (ns : List Nat) (close : UInt8) :
    join [0x20] ((n :: ns).map (hexToken w)) ++ [close] = hexToken w n ++ behind w ns close := by
  cases ns with
  | nil => rfl
  | cons _ ns =>
    rw [map_cons, map_cons, join, behind, map_cons]
    · rw [append_assoc, append_assoc]
      rfl
    · exact cons_ne_nil _ _

theorem skip_last {close : UInt8} {ds : Bytes} (number : ds ≠ [])
    (skipped : ∀ c ∈ ds, (isxdigit c || c == 0x78) = true) :
    (skip (fun c => isxdigit c || c == 0x78) (ds ++ behind w [] close)).length ≤ 2 := by
  obtain ⟨front, last, split⟩ : ∃ front last, ds = front ++ [last] := ⟨_, _, (dropLast_concat_getLast number).symm⟩
  rw [behind, split, append_assoc,
    skip_front (fun c member => skipped c (by rw [split]; exact mem_append_left _ member))
    (by simp), skip_short (by simp)]
  exact Nat.le_refl 2

theorem skip_more {close : UInt8} (n : Nat) (ns : List Nat) {ds : Bytes} (skipped : ∀ c ∈ ds, (isxdigit c || c == 0x78) = true) :
    skip (fun c => isxdigit c || c == 0x78) (ds ++ behind w (n :: ns) close) = 0x20 :: (hexToken w n ++ behind w ns close) := by
  rw [skip_front skipped, behind, cons_append, join_cons]
  · exact skip_stop _ (by decide)
  · rw [behind, cons_append, length_cons, length_append]
    simp

theorem strtovectLoop_round {lim fuel cnt : Nat} {stored : List Int} {separator close : UInt8} {n : Nat} {ns : List Nat}
    (other : isxdigit separator = false) (closes : isxdigit close = false) :
    strtovectLoop 0 lim (fuel + 1) cnt stored (separator :: (hexToken w n ++ behind w ns close)) =
      if cnt + 1 ≤ lim - 1 then
        strtovectLoop 0 lim fuel (cnt + 1) (stored ++ [clampLong n])
          (skip (fun c => isxdigit c || c == 0x78) (0x78 :: (printPadded 16 w n ++ behind w ns close)))
      else (stored ++ [clampLong n], cnt) := by
  obtain ⟨_, _, shape⟩ := hexToken_shape w n
  have ends : ∀ c ∈ (behind w ns close).head?, isxdigit c = false := by
    intro c member
    cases ns with
    | nil => cases member; exact closes
    | cons => cases member; decide
  have long : 2 ≤ (hexToken w n ++ behind w ns close).length := by
    rw [hexToken, shape]
    simp
  have skipped : skip (fun c => !isxdigit c) (separator :: (hexToken w n ++ behind w ns close)) = hexToken w n ++
    behind w ns close := by
    have front : skip (fun c => !isxdigit c) ([separator] ++ (hexToken w n ++ behind w ns close)) =
        skip (fun c => !isxdigit c) (hexToken w n ++ behind w ns close) :=
      skip_front (fun c member => by rw [mem_singleton.mp member, other]; rfl) long
    rw [singleton_append] at front
    rw [front]
    exact skip_stop _ (by decide)
  rw [strtovectLoop, if_pos (by rw [length_cons]; omega), skipped]
  dsimp only
  rw [strtol_hexToken ends]
  rfl

theorem strtovectLoop_ended {lim fuel cnt : Nat} {stored : List Int} {buf : Bytes} (short : buf.length ≤ 2) :
    strtovectLoop 0 lim fuel cnt stored buf = (stored, cnt) := by
  cases fuel with
  | zero => rfl
  | succ fuel => rw [strtovectLoop, if_neg (by omega)]

theorem digits_skipped (w n : Nat) : ∀ c ∈ 0x78 :: printPadded 16 w n, (isxdigit c || c == 0x78) = true := by
  intro c member
  rcases mem_cons.mp member with rfl | digit
  · rfl
  · rw [isxdigit_of_digits rfl c digit]
    rfl

theorem take_full {lim cnt : Nat} {stored : List Int} (counted : stored.length = cnt) (more : List Int) (n : Int)
    (total : Nat) (full : ¬cnt + 1 ≤ lim - 1) (room : cnt + 1 ≤ lim) :
    (stored ++ [n]).take cnt = (stored ++ more).take (min (cnt + (total + 1)) (lim - 1)) := by
  rw [show min (cnt + (total + 1)) (lim - 1) = cnt by omega, ← counted, take_left, take_left]

/-- The loop on printed numbers behind a separator: it stores them until the vector is full, and the number in the
last place is not counted. -/
theorem strtovectLoop_tokens {lim fuel cnt : Nat} {stored : List Int} {separator close : UInt8} {n : Nat}
    {ns : List Nat} (room : cnt + 1 ≤ lim) (enough : ns.length < fuel) (other : isxdigit separator = false)
    (closes : isxdigit close = false) (counted : stored.length = cnt) :
    (strtovectLoop 0 lim fuel cnt stored (separator :: (hexToken w n ++ behind w ns close))).1.take
        (strtovectLoop 0 lim fuel cnt stored (separator :: (hexToken w n ++ behind w ns close))).2 =
      (stored ++ (n :: ns).map fun n : Nat => clampLong n).take (min (cnt + (ns.length + 1)) (lim - 1)) := by
  induction ns generalizing fuel cnt stored separator n with
  | nil =>
    obtain ⟨fuel, rfl⟩ := Nat.exists_eq_succ_of_ne_zero (Nat.ne_of_gt (Nat.zero_lt_of_lt enough))
    rw [strtovectLoop_round other closes]
    split
    next more =>
      have short : (skip (fun c => isxdigit c || c == 0x78) (0x78 :: printPadded 16 w n ++ behind w [] close)).length ≤
        2 :=
        skip_last (cons_ne_nil _ _) (digits_skipped w n)
      rw [cons_append] at short
      rw [strtovectLoop_ended short]
      rw [map_cons, map_nil, show min (cnt + (([] : List Nat).length + 1)) (lim - 1) = cnt +
        1 by rw [length_nil]; omega]
    next full => exact take_full counted _ _ _ full room
  | cons m ns ih =>
    obtain ⟨fuel, rfl⟩ := Nat.exists_eq_succ_of_ne_zero (Nat.ne_of_gt (Nat.zero_lt_of_lt enough))
    rw [strtovectLoop_round other closes]
    split
    next more =>
      have next : skip (fun c => isxdigit c || c == 0x78) (0x78 :: printPadded 16 w n ++ behind w (m :: ns) close) =
          0x20 :: (hexToken w m ++ behind w ns close) := skip_more m ns (digits_skipped w n)
      rw [cons_append] at next
      rw [length_cons] at enough
      rw [next, ih (by omega) (by omega) (by decide) (by rw [length_append, counted]; rfl), append_assoc,
        length_cons, show cnt + 1 + (ns.length + 1) = cnt + (ns.length + 1 + 1) by omega]
      rfl
    next full => exact take_full counted _ _ _ full room

theorem length_lt_behind (w : Nat) (ns : List Nat) (close : UInt8) : ns.length < (behind w ns close).length := by
  induction ns with
  | nil => exact Nat.one_pos
  | cons _ ns _ =>
    rw [behind, cons_append, join_cons, length_cons, length_cons, length_append]
    omega

theorem fdtStrtovect_tokens {separator close : UInt8} {ns : List Nat} (present : ns ≠ []) {lim : Nat} (room : 0 < lim)
    (other : isxdigit separator = false) (closes : isxdigit close = false) :
    fdtStrtovect (separator :: join [0x20] (ns.map (hexToken w)) ++ [close]) lim =
      (ns.map fun n : Nat => clampLong n).take (lim - 1) := by
  cases ns with
  | nil => exact absurd rfl present
  | cons n ns =>
    have enough : ns.length < (separator :: (hexToken w n ++ behind w ns close)).length := by
      have more := length_lt_behind w ns close
      rw [length_cons, length_append]
      omega
    have tokens := @strtovectLoop_tokens w lim _ 0 [] separator close n ns (by omega) enough other closes rfl
    rw [fdtStrtovect, if_neg (by omega), cons_append, join_cons]
    dsimp only
    rw [tokens, nil_append, Nat.zero_add, take_eq_take_iff, length_map, length_cons]
    omega

end

theorem length_join (pieces : List Bytes) (present : pieces ≠ []) :
    (join [0x20] pieces).length = (pieces.map length).sum + (pieces.length - 1) := by
  induction pieces with
  | nil => exact absurd rfl present
  | cons _ more ih =>
    cases more with
    | nil => rfl
    | cons next more =>
      rw [join, length_append, length_append, ih (cons_ne_nil _ _)]
      · simp only [map_cons, sum_cons, length_cons, length_nil]
        omega
      · exact cons_ne_nil _ _

def Fits (out : Formatted) : Prop := out.text.length + 1 ≤ out.allocated

theorem length_hexToken {w n : Nat} (positive : 0 < w) (fits : n < 16 ^ w) : (hexToken w n).length = w + 2 := by
  rw [hexToken, length_cons, length_cons, length_printPadded positive fits]

theorem length_words (data : Bytes) (whole : data.length % 4 = 0) : (words data).length = data.length / 4 := by
  induction data using words.induct with
  | case1 a b c d data ih =>
    simp only [length_cons] at whole
    have rest : data.length % 4 = 0 := by omega
    rw [words, length_cons, ih rest]
    simp only [length_cons]
    omega
  | case2 data short =>
    rw [words]
    · match data, short with
      | [], _ => rfl
      | [_], _ => simp at whole
      | [_, _], _ => simp at whole
      | [_, _, _], _ => simp at whole
      | a :: b :: c :: d :: data, short => exact (short a b c d data rfl).elim
    · exact short

theorem words_small (data : Bytes) : ∀ n ∈ words data, n < 2 ^ 32 := by
  induction data using words.induct with
  | case1 a b c d data ih =>
    intro n member
    rcases mem_cons.mp member with rfl | rest
    · have := a.toNat_lt
      have := b.toNat_lt
      have := c.toNat_lt
      have := d.toNat_lt
      rw [beWord]
      omega
    · exact ih n rest
  | case2 data short =>
    intro n member
    rw [words] at member
    · cases member
    · exact short

theorem words_bytes (data : Bytes) (whole : data.length % 4 = 0) : (words data).flatMap beBytes = data := by
  induction data using words.induct with
  | case1 a b c d data ih =>
    simp only [length_cons] at whole
    have rest : data.length % 4 = 0 := by omega
    have word : beBytes (beWord a b c d) = [a, b, c, d] := by
      have := a.toNat_lt
      have := b.toNat_lt
      have := c.toNat_lt
      have := d.toNat_lt
      have digit {v : Nat} (x : UInt8) (same : v % 256 = x.toNat) : UInt8.ofNat v = x := by
        apply UInt8.toNat_inj.mp
        rw [UInt8.toNat_ofNat', same]
      rw [beBytes, beWord, digit a (by omega), digit b (by omega), digit c (by omega), digit d (by omega)]
    rw [words, flatMap_cons, ih rest, word]
    rfl
  | case2 data short =>
    rw [words]
    · match data, short with
      | [], _ => rfl
      | [_], _ => simp at whole
      | [_, _], _ => simp at whole
      | [_, _, _], _ => simp at whole
      | a :: b :: c :: d :: data, short => exact (short a b c d data rfl).elim
    · exact short

theorem toWord_clampLong {n : Nat} (small : n < 2 ^ 32) : toWord (clampLong n) = n ↔ n < 2 ^ 31 := by
  have bounds : longMin = -2147483648 ∧ longMax = 2147483647 := ⟨rfl, rfl⟩
  rw [toWord, clampLong, bounds.1, bounds.2]
  omega

theorem beBytes_inj {m n : Nat} (left : m < 2 ^ 32) (right : n < 2 ^ 32) (same : beBytes m = beBytes n) : m = n := by
  simp only [beBytes, List.cons.injEq, and_true] at same
  obtain ⟨a, b, c, d⟩ := same
  have value {v w : Nat} (byte : UInt8.ofNat v = UInt8.ofNat w) : v % 256 = w % 256 := by
    have number := congrArg UInt8.toNat byte
    rwa [UInt8.toNat_ofNat', UInt8.toNat_ofNat'] at number
  have := value a
  have := value b
  have := value c
  have := value d
  omega

theorem flatMap_beBytes_inj {xs ys : List Nat} (left : ∀ n ∈ xs, n < 2 ^ 32) (right : ∀ n ∈ ys, n < 2 ^ 32)
    (same : xs.flatMap beBytes = ys.flatMap beBytes) : xs = ys := by
  induction xs generalizing ys with
  | nil =>
    cases ys with
    | nil => rfl
    | cons n ys => cases same
  | cons m xs ih =>
    cases ys with
    | nil => cases same
    | cons n ys =>
      obtain ⟨first, rest⟩ := append_inj same rfl
      rw [beBytes_inj (left m mem_cons_self) (right n mem_cons_self) first,
        ih (fun k member => left k (mem_cons_of_mem m member)) (fun k member => right k (mem_cons_of_mem n member)) rest]

theorem toWord_small (n : Int) : toWord n < 2 ^ 32 := by
  rw [toWord]
  omega

/-- What is typed back is the list of words exactly when no cell is saturated and the last place of the vector stays
free. -/
theorem cells_stored_iff {data : Bytes} (whole : data.length % 4 = 0) :
    ((((words data).map fun n : Nat => clampLong n).take (cellsLimit - 1)).flatMap fun n => beBytes (toWord n)) = data ↔
      (words data).length ≤ 99 ∧ ∀ n ∈ words data, n < 2 ^ 31 := by
  have stored : ((((words data).map fun n : Nat => clampLong n).take (cellsLimit - 1)).flatMap fun n =>
    beBytes (toWord n)) = (((words data).map fun n : Nat => toWord (clampLong n)).take 99).flatMap beBytes := by
    rw [← flatMap_map, map_take, map_map]
    rfl
  rw [stored]
  constructor
  · intro same
    have equal : ((words data).map fun n : Nat => toWord (clampLong n)).take 99 = words data := by
      apply flatMap_beBytes_inj
      · intro n member
        obtain ⟨_, -, rfl⟩ := List.mem_map.mp (mem_of_mem_take member)
        exact toWord_small _
      · exact words_small data
      · rw [same, words_bytes data whole]
    have few : (words data).length ≤ 99 := by
      have lengths := congrArg length equal
      rw [length_take, length_map] at lengths
      omega
    refine ⟨few, fun n member => ?_⟩
    rw [take_of_length_le (by rw [length_map]; exact few)] at equal
    have fixed := map_inj_left.mp (equal.trans (map_id _).symm) n member
    exact (toWord_clampLong (words_small data n member)).mp fixed
  · rintro ⟨few, small⟩
    have fixed := (map_inj_left.mpr fun n member => (toWord_clampLong (words_small data n member)).mpr (small n
      member)).trans (map_id _)
    rw [take_of_length_le (by rw [length_map]; exact few), fixed, words_bytes data whole]

theorem length_sum {k : Nat} {pieces : List Bytes} (least : ∀ piece ∈ pieces, k ≤ piece.length) :
    pieces.length * k ≤ (pieces.map length).sum ∧
      ((pieces.map length).sum ≤ pieces.length * k ↔ ∀ piece ∈ pieces, piece.length = k) := by
  induction pieces with
  | nil => simp
  | cons piece pieces ih =>
    obtain ⟨_, tight⟩ := ih fun other member => least other (mem_cons_of_mem piece member)
    have first := least piece mem_cons_self
    rw [map_cons, sum_cons, length_cons, Nat.succ_mul, forall_mem_cons]
    refine ⟨by omega, ?_⟩
    rw [← tight]
    omega

/-- A bracketed list of at least one printed number: its buffer has five places more than a number takes, for each. -/
theorem fits_iff {k l : Nat} {form : Form} {opening close : UInt8} {pieces : List Bytes} (present : pieces ≠ [])
    (least : ∀ piece ∈ pieces, k ≤ piece.length) (room : l = pieces.length * k + (pieces.length - 1) + 3) :
    Fits ⟨form, opening :: join [0x20] pieces ++ [close], l⟩ ↔ ∀ piece ∈ pieces, piece.length = k := by
  obtain ⟨-, tight⟩ := length_sum least
  rw [Fits, ← tight]
  dsimp only
  rw [length_append, length_cons, length_join pieces present, length_singleton, room]
  omega

theorem fdtDataCell_fits {data : Bytes} (whole : data.length % 4 = 0) (present : data.length ≠ 0) :
    Fits (fdtDataCell data) := by
  have count := length_words data whole
  have lengths : ∀ piece ∈ (words data).map (hexToken 8), piece.length = 10 := by
    intro piece member
    obtain ⟨n, inside, rfl⟩ := List.mem_map.mp member
    have small := words_small data n inside
    exact length_hexToken (by omega) (by omega)
  apply (fits_iff (k := 10) _ _ _).mpr lengths
  · rw [Ne, map_eq_nil_iff]
    intro none
    rw [none, length_nil] at count
    omega
  · exact fun piece member => Nat.le_of_eq (lengths piece member).symm
  · rw [length_map, count]
    split <;> omega

theorem valueOf_lt {base : Nat} {ds : Bytes} (digits : ∀ c ∈ ds, isDigitIn base c = true) :
    valueOf base ds < base ^ ds.length := by
  induction ds using reverseRecOn with
  | nil => exact Nat.one_pos
  | append_singleton ds c ih =>
    have digit : (digitOf c).getD 0 < base := by
      have last := digits c (mem_append_right ds mem_cons_self)
      rw [isDigitIn, Option.any_eq_true] at last
      obtain ⟨_, value, small⟩ := last
      rw [value]
      exact of_decide_eq_true small
    have front := ih fun c member => digits c (mem_append_left _ member)
    rw [valueOf_append_one, length_append, length_singleton, Nat.pow_succ]
    calc valueOf base ds * base + (digitOf c).getD 0 < (valueOf base ds + 1) * base := by rw [Nat.succ_mul]; omega
      _ ≤ base ^ ds.length * base := Nat.mul_le_mul_right base front

theorem length_hexToken_gt {w n : Nat} (large : 16 ^ w ≤ n) : w + 2 < (hexToken w n).length := by
  have value := valueOf_lt (isxdigit_of_digits (w := w) (n := n) rfl)
  rw [valueOf_printPadded (by decide) (by decide)] at value
  have longer := (Nat.pow_lt_pow_iff_right (by decide : 1 < 16)).mp (Nat.lt_of_le_of_lt large value)
  rw [hexToken, length_cons, length_cons]
  omega

theorem fdtDataBytes_fits {charSigned : Bool} {data : Bytes} (present : data.length ≠ 0) :
    Fits (fdtDataBytes charSigned data) ↔ (charSigned = true → ∀ b ∈ data, b < 0x80) := by
  have printed (b : UInt8) : 4 ≤ (hexToken 2 (charArg charSigned b)).length ∧
      ((hexToken 2 (charArg charSigned b)).length = 4 ↔ (charSigned = true → b < 0x80)) := by
    have byte := b.toNat_lt
    by_cases extended : charSigned ∧ 0x80 ≤ b
    · have large : 16 ^ 2 ≤ charArg charSigned b := by
        rw [charArg, if_pos extended]
        omega
      have longer := length_hexToken_gt large
      refine ⟨by omega, fun short => absurd short (by omega), fun low => ?_⟩
      exact absurd (low extended.1) (UInt8.not_lt.mpr extended.2)
    · have small : charArg charSigned b < 16 ^ 2 := by
        rw [charArg, if_neg extended]
        omega
      have length := length_hexToken (by omega) small
      refine ⟨by omega, fun _ signed => ?_, fun _ => length⟩
      rw [not_and, UInt8.not_le] at extended
      exact extended signed
  have all : (∀ piece ∈ data.map fun c => hexToken 2 (charArg charSigned c), piece.length = 4) ↔
      (charSigned = true → ∀ b ∈ data, b < 0x80) := by
    rw [forall_mem_map]
    constructor
    · exact fun short signed b member => (printed b).2.mp (short b member) signed
    · exact fun low b member => (printed b).2.mpr fun signed => low signed b member
  rw [← all]
  apply fits_iff
  · rw [Ne, map_eq_nil_iff]
    rintro rfl
    exact present rfl
  · rw [forall_mem_map]
    exact fun b _ => (printed b).1
  · rw [length_map]
    split <;> omega

theorem toByte_clampLong (b : UInt8) : toByte (clampLong b.toNat) = b := by
  have bounds : longMin = -2147483648 ∧ longMax = 2147483647 := ⟨rfl, rfl⟩
  have byte := b.toNat_lt
  have value : clampLong b.toNat = b.toNat := by
    rw [clampLong, bounds.1, bounds.2]
    omega
  rw [toByte, value]
  apply UInt8.toNat_inj.mp
  rw [UInt8.toNat_ofNat']
  omega

theorem bytes_stored {charSigned : Bool} {data : Bytes} (low : charSigned = true → ∀ b ∈ data, b < 0x80)
    (few : data.length ≤ 99) :
    (((data.map (charArg charSigned)).map fun n : Nat => clampLong n).take (cellsLimit - 1)).map toByte = data := by
  have fixed : ((data.map (charArg charSigned)).map fun n : Nat => toByte (clampLong n)) = data := by
    rw [map_map]
    refine (map_inj_left.mpr fun b member => ?_).trans (map_id data)
    have plain : charArg charSigned b = b.toNat := by
      rw [charArg, if_neg]
      exact fun extended => absurd (low extended.1 b member) (UInt8.not_lt.mpr extended.2)
    change toByte (clampLong (charArg charSigned b : Nat)) = b
    rw [plain]
    exact toByte_clampLong b
  rw [take_of_length_le (by rw [length_map, length_map]; exact few), map_map]
  exact fixed

theorem fdtModprop_cells {present : Bool} {mode : Nat} {data : Bytes} (adding : present = true → mode ≠ 1)
    (changing : present = false → mode ≠ 0) (whole : data.length % 4 = 0) (nonempty : data.length ≠ 0) :
    fdtModprop present mode (fdtDataCell data).text =
      .ok (some ((((words data).map fun n : Nat => clampLong n).take (cellsLimit - 1)).flatMap fun n => beBytes (toWord n))) := by
  have tokens : words data ≠ [] := by
    intro none
    have count := length_words data whole
    rw [none, length_nil] at count
    omega
  have first : (fdtDataCell data).text.head? = some 0x3c := rfl
  have read : fdtStrtovect (fdtDataCell data).text cellsLimit =
      ((words data).map fun n : Nat => clampLong n).take (cellsLimit - 1) :=
    fdtStrtovect_tokens tokens (by decide) (by decide) (by decide)
  rw [fdtModprop, if_neg (by rintro ⟨yes, one⟩; exact adding yes one),
    if_neg (by rintro ⟨no, zero⟩; exact changing (by simpa using no) zero), first, if_neg (by decide), if_pos rfl, read]

theorem fdtModprop_bytes {present : Bool} {mode : Nat} {data : Bytes} (charSigned : Bool)
    (adding : present = true → mode ≠ 1) (changing : present = false → mode ≠ 0) (nonempty : data.length ≠ 0) :
    fdtModprop present mode (fdtDataBytes charSigned data).text =
      .ok (some ((((data.map (charArg charSigned)).map fun n : Nat => clampLong n).take (cellsLimit - 1)).map
        toByte)) := by
  have tokens : data.map (charArg charSigned) ≠ [] := by
    rw [Ne, map_eq_nil_iff]
    rintro rfl
    exact nonempty rfl
  have text : (fdtDataBytes charSigned data).text =
      0x5b :: join [0x20] ((data.map (charArg charSigned)).map (hexToken 2)) ++ [0x5d] := by
    rw [map_map]
    rfl
  have first : (fdtDataBytes charSigned data).text.head? = some 0x5b := rfl
  have read : fdtStrtovect (fdtDataBytes charSigned data).text cellsLimit =
      ((data.map (charArg charSigned)).map fun n : Nat => clampLong n).take (cellsLimit - 1) := by
    rw [text]
    exact fdtStrtovect_tokens tokens (by decide) (by decide) (by decide)
  rw [fdtModprop, if_neg (by rintro ⟨yes, one⟩; exact adding yes one),
    if_neg (by rintro ⟨no, zero⟩; exact changing (by simpa using no) zero), first, if_neg (by decide),
    if_neg (by decide),
    if_pos rfl, read]

/-- A value printed in cells or in bytes, typed back for a property that may take it: the text fits into its buffer
and the original bytes are stored exactly when no cell reaches 2^31, the last place of the vector stays free and,
where char is signed, no byte has its highest bit set. -/
theorem printed_value_reenters_iff {charSigned present : Bool} {mode : Nat} {data : Bytes} {out : Formatted}
    (printed : fdtDataFmt charSigned data = some out) (listed : out.form ≠ .strings)
    (fewBytes : data.length % 4 ≠ 0 → data.length ≤ 100) (adding : present = true → mode ≠ 1)
    (changing : present = false → mode ≠ 0) :
    (Fits out ∧ fdtModprop present mode out.text = .ok (some data)) ↔
      (data.length % 4 = 0 → data.length / 4 ≤ 99 ∧ ∀ n ∈ words data, n < 2 ^ 31) ∧
        (data.length % 4 ≠ 0 → charSigned = true → ∀ b ∈ data, b < 0x80) := by
  rw [fdtDataFmt] at printed
  split at printed
  · cases printed
  next nonempty =>
    split at printed
    · cases printed
      exact absurd rfl listed
    · split at printed
      next whole =>
        cases printed
        rw [fdtModprop_cells adding changing whole nonempty, Except.ok.injEq, Option.some.injEq, cells_stored_iff whole,
          length_words data whole]
        constructor
        · exact fun both => ⟨fun _ => both.2, fun other => absurd whole other⟩
        · exact fun both => ⟨fdtDataCell_fits whole nonempty, both.1 whole⟩
      next other =>
        cases printed
        rw [fdtDataBytes_fits nonempty, fdtModprop_bytes charSigned adding changing nonempty, Except.ok.injEq, Option.some.injEq]
        constructor
        · exact fun both => ⟨fun whole => absurd whole other, fun _ => both.1⟩
        · exact fun both => ⟨both.2 other, bytes_stored (both.2 other) (by omega)⟩

theorem small_cells_reenter :
    Fits (fdtDataCell [0, 0, 0, 1, 0, 0, 0, 0x10]) ∧
      fdtModprop true 0 (fdtDataCell [0, 0, 0, 1, 0, 0, 0, 0x10]).text = .ok (some [0, 0, 0, 1, 0, 0, 0, 0x10]) :=
  (@printed_value_reenters_iff false true 0 [0, 0, 0, 1, 0, 0, 0, 0x10]
    (fdtDataCell [0, 0, 0, 1, 0, 0, 0, 0x10]) (by decide)
    (by decide) (by decide) (by decide) (by decide)).mpr (by decide)

/-- The cell 0x80000001 comes back as 0x7fffffff. -/
theorem large_cell_saturates :
    fdtDataFmt false [0x80, 0, 0, 1] = some (fdtDataCell [0x80, 0, 0, 1]) ∧ (fdtDataCell [0x80, 0, 0, 1]).form = .cells ∧
      fdtModprop true 0 (fdtDataCell [0x80, 0, 0, 1]).text = .ok (some [0x7f, 0xff, 0xff, 0xff]) ∧
      ¬(Fits (fdtDataCell [0x80, 0, 0, 1]) ∧
        fdtModprop true 0 (fdtDataCell [0x80, 0, 0, 1]).text = .ok (some [0x80, 0, 0, 1])) := by
  have stored : fdtModprop true 0 (fdtDataCell [0x80, 0, 0, 1]).text = .ok (some [0x7f, 0xff, 0xff, 0xff]) := rfl
  refine ⟨by decide, rfl, stored, ?_⟩
  rintro ⟨-, same⟩
  cases same

end Pcbsd.Fdt
