import Mathlib.Algebra.Order.Ring.Nat
import Mathlib.Data.List.TakeDrop

/-! Byte strings read and written at offsets, and little-endian numbers in them. -/

namespace Pcbsd.Lib
open List

abbrev Bytes := List UInt8

instance : LawfulBEq Bytes := inferInstance

def ascii (cs : List Char) : Bytes := cs.map fun c => UInt8.ofNat c.toNat

def slash : UInt8 := 0x2f

def slice (off n : Nat) (bs : Bytes) : Bytes := (bs.drop off).take n

def put (off : Nat) (new bs : Bytes) : Bytes := bs.take off ++ new ++ bs.drop (off + new.length)

def leNat : Bytes → Nat
  | [] => 0
  | b :: bs => b.toNat + 256 * leNat bs

def toLe : Nat → Nat → Bytes
  | 0, _ => []
  | n + 1, v => UInt8.ofNat v :: toLe n (v / 256)

def le (n off : Nat) (bs : Bytes) : Nat := leNat (slice off n bs)

@[simp] theorem length_toLe (n v : Nat) : (toLe n v).length = n := by
  induction n generalizing v with
  | zero => rfl
  | succ n ih => simp [toLe, ih]

theorem leNat_toLe (n v : Nat) (small : v < 256 ^ n) : leNat (toLe n v) = v := by
  induction n generalizing v with
  | zero => simp only [Nat.pow_zero, Nat.lt_one_iff] at small; simp [toLe, leNat, small]
  | succ n ih =>
    have rest : v / 256 < 256 ^ n := by
      rw [Nat.div_lt_iff_lt_mul (by omega)]
      rwa [Nat.pow_succ] at small
    simp only [toLe, leNat, ih _ rest, UInt8.toNat_ofNat']
    omega

theorem foldl_reverse_leNat (bs : Bytes) : bs.reverse.foldl (fun value b => value * 256 + b.toNat) 0 = leNat bs := by
  induction bs with
  | nil => rfl
  | cons b bs ih => rw [reverse_cons, foldl_append, ih, foldl_cons, foldl_nil, leNat, Nat.mul_comm, Nat.add_comm]

theorem leNat_lt (bs : Bytes) : leNat bs < 256 ^ bs.length := by
  induction bs with
  | nil => simp [leNat]
  | cons b bs _ =>
    have := b.toNat_lt
    simp only [leNat, length_cons, Nat.pow_succ]
    omega

variable {off : Nat} {bs new : Bytes} {n off' k i v m : Nat}

theorem length_put (room : off + new.length ≤ bs.length) :
    (put off new bs).length = bs.length := by
  simp only [put, length_append, length_take, length_drop]
  omega

theorem slice_length (room : off + n ≤ bs.length) : (slice off n bs).length = n := by
  simp only [slice, length_take, length_drop]
  omega

theorem le_lt (n off : Nat) (bs : Bytes) : le n off bs < 256 ^ n := by
  refine lt_of_lt_of_le (leNat_lt _) (Nat.pow_le_pow_right (by omega) ?_)
  simp only [slice, length_take]; omega

theorem getElem?_put (room : off + new.length ≤ bs.length) :
    (put off new bs)[i]? = if off ≤ i ∧ i < off + new.length then new[i - off]? else bs[i]? := by
  simp only [put, append_assoc]
  split
  next _ =>
    rw [getElem?_append_right (by simp; omega), getElem?_append_left (by simp; omega)]
    congr 1
    simp only [length_take]
    omega
  next _ =>
    by_cases before : i < off
    · rw [getElem?_append_left (by simp; omega), getElem?_take_of_lt before]
    · rw [getElem?_append_right (by simp; omega), getElem?_append_right (by simp; omega),
        getElem?_drop]
      congr 1
      simp only [length_take]
      omega

theorem getElem?_slice (off n i : Nat) (bs : Bytes) :
    (slice off n bs)[i]? = if i < n then bs[off + i]? else none := by
  simp only [slice, getElem?_take, getElem?_drop]

theorem slice_put_self (room : off + new.length ≤ bs.length) :
    slice off new.length (put off new bs) = new := by
  apply ext_getElem?
  intro i
  rw [getElem?_slice, getElem?_put room]
  split
  next _ => rw [if_pos (by omega), Nat.add_sub_cancel_left]
  next _ => rw [getElem?_eq_none (by omega)]

theorem slice_put_other (room : off + new.length ≤ bs.length)
    (apart : off' + n ≤ off ∨ off + new.length ≤ off') : slice off' n (put off new bs) = slice off' n bs := by
  apply ext_getElem?
  intro i
  rw [getElem?_slice, getElem?_slice, getElem?_put room]
  split
  next _ => rw [if_neg (by omega)]
  next => rfl

theorem le_put_self (room : off + n ≤ bs.length) (small : v < 256 ^ n) :
    le n off (put off (toLe n v) bs) = v := by
  have same : slice off (toLe n v).length (put off (toLe n v) bs) = toLe n v := slice_put_self (by simpa using room)
  rw [length_toLe] at same
  rw [le, same, leNat_toLe n v small]

theorem le_put_other (room : off + m ≤ bs.length) (apart : off' + n ≤ off ∨ off + m ≤ off') : le n off'
    (put off (toLe m v) bs) = le n off' bs := by
  rw [le, slice_put_other (by simpa using room) (by simpa using apart), le]

theorem toLe_leNat (bs : Bytes) : toLe bs.length (leNat bs) = bs := by
  induction bs with
  | nil => rfl
  | cons b bs ih =>
    have small := b.toNat_lt
    have low : UInt8.ofNat (b.toNat + 256 * leNat bs) = b := by
      apply UInt8.toNat_inj.mp
      rw [UInt8.toNat_ofNat']
      omega
    have high : (b.toNat + 256 * leNat bs) / 256 = leNat bs := by omega
    simp only [length_cons, toLe, leNat, low, high, ih]

theorem put_le (room : off + n ≤ bs.length) : put off (toLe n (le n off bs)) bs = bs := by
  have length := slice_length room
  have field : toLe n (le n off bs) = slice off n bs := by
    have := toLe_leNat (slice off n bs)
    rwa [length] at this
  rw [field]
  apply ext_getElem?
  intro i
  rw [getElem?_put (by omega), getElem?_slice]
  split
  next inside => rw [if_pos (by omega), Nat.add_sub_of_le inside.1]
  next => rfl

theorem slice_take (bs : Bytes) (covered : off + n ≤ k) : slice off n (bs.take k) = slice off n bs := by
  apply ext_getElem?
  intro i
  rw [getElem?_slice, getElem?_slice]
  split
  next _ => rw [getElem?_take_of_lt (by omega)]
  next => rfl

theorem slice_slice (bs : Bytes) (covered : off + n ≤ m) : slice off n (slice 0 m bs) = slice off n bs :=
  slice_take bs covered

theorem getElem?_takeD (bs : Bytes) (less : i < n) (inside : i < bs.length) :
    (bs.takeD n 0)[i]? = bs[i]? := by
  induction n generalizing i bs with
  | zero => omega
  | succ n ih =>
    cases bs with
    | nil => simp at inside
    | cons _ bs =>
      cases i with
      | zero => rfl
      | succ i => simpa using ih bs (by omega) (by simpa using inside)

theorem slice_append (off n m : Nat) (bs : Bytes) : slice off (n + m) bs = slice off n bs ++ slice (off + n) m bs := by
  rw [slice, slice, slice, take_add, drop_drop]

theorem slice_takeD (inside : off + n ≤ bs.length) (fits : off + n ≤ k) :
    slice off n (bs.takeD k 0) = slice off n bs := by
  apply ext_getElem?
  intro i
  rw [getElem?_slice, getElem?_slice]
  split
  next _ => rw [getElem?_takeD bs (by omega) (by omega)]
  next => rfl

theorem prefix_put (new bs : Bytes) : new <+: put 0 new bs := by simp [put]

theorem put_put {old : Bytes} (same : new.length = old.length) (room : off + new.length ≤ bs.length) :
    put off new (put off old bs) = put off new bs := by
  apply ext_getElem?
  intro i
  have room' : off + old.length ≤ bs.length := by omega
  rw [getElem?_put (by rw [length_put room']; omega), getElem?_put room, getElem?_put room']
  split
  next => rfl
  next _ => rw [if_neg (by omega)]

theorem take_put_congr {bs' : Bytes} (same : bs.take k = bs'.take k) (room : off + new.length ≤ bs.length)
    (room' : off + new.length ≤ bs'.length) :
    (put off new bs).take k = (put off new bs').take k := by
  apply ext_getElem?
  intro i
  rw [getElem?_take, getElem?_take, getElem?_put room, getElem?_put room']
  split
  next less =>
    have equal : bs[i]? = bs'[i]? := by
      have := congrArg (·[i]?) same
      simpa [getElem?_take, less] using this
    rw [equal]
  next => rfl

theorem flatMap_slice (k m : Nat) (bs : Bytes) : ((range m).flatMap fun j => slice (k * j) k bs) = bs.take (k * m) := by
  induction m with
  | zero => simp
  | succ m ih => rw [range_succ, flatMap_append, ih, flatMap_singleton, Nat.mul_succ, take_add, slice]

section

variable {α : Type} {f : α → Bytes} {k : Nat}

theorem length_flatMap_of_sized (sized : ∀ a, (f a).length = k) (l : List α) : (l.flatMap f).length = l.length * k := by
  induction l with
  | nil => simp
  | cons a l ih => rw [flatMap_cons, length_append, sized a, ih, length_cons, Nat.succ_mul, Nat.add_comm]

theorem slice_flatMap (sized : ∀ a, (f a).length = k) (tail : Bytes) {l : List α} {j : Nat} (less : j < l.length) :
    slice (k * j) k (l.flatMap f ++ tail) = f l[j] := by
  induction l generalizing j with
  | nil => simp at less
  | cons a l ih =>
    cases j with
    | zero => simp [slice, sized a]
    | succ j =>
      have rest := ih (j := j) (by simpa using less)
      rw [slice] at rest ⊢
      rw [flatMap_cons, append_assoc, Nat.mul_succ, Nat.add_comm (k * j), ← drop_drop,
        drop_left' (sized a)]
      simpa using rest

theorem take_flatMap (sized : ∀ a, (f a).length = k) (tail : Bytes) {l : List α} {n : Nat} (less : n ≤ l.length) :
    (l.flatMap f ++ tail).take (n * k) = (l.take n).flatMap f := by
  induction l generalizing n with
  | nil => obtain rfl : n = 0 := by simpa using less
           simp
  | cons a l ih =>
    cases n with
    | zero => simp
    | succ n =>
      rw [flatMap_cons, append_assoc, Nat.succ_mul, Nat.add_comm (n * k), take_succ_cons,
        flatMap_cons, take_append, sized a, take_of_length_le (by rw [sized a]; omega),
        Nat.add_sub_cancel_left, ih (by simpa using less)]

end

def At (bs : Bytes) (p : Nat) (xs : Bytes) : Prop := xs <+: bs.drop p

variable {bs xs : Bytes} {p : Nat}

theorem at_append {ys : Bytes} : At bs p (xs ++ ys) ↔ At bs p xs ∧ At bs (p + xs.length) ys := by
  unfold At
  constructor
  · rintro ⟨rest, whole⟩
    rw [← drop_drop, ← whole, append_assoc]
    exact ⟨prefix_append .., by simp⟩
  · rintro ⟨⟨rest, first⟩, second⟩
    rw [← drop_drop, ← first, drop_left] at second
    rw [← first]
    exact (prefix_append_right_inj xs).mpr second

theorem At.getD {i : Nat} (placed : At bs p xs) (less : i < xs.length) :
    bs.getD (p + i) 0 = xs.getD i 0 := by
  obtain ⟨_, whole⟩ := placed
  rw [getD_eq_getElem?_getD, getD_eq_getElem?_getD, ← getElem?_drop, ← whole,
    getElem?_append_left less]

theorem At.slice {bs xs : Bytes} {p : Nat} (placed : At bs p xs) : slice p xs.length bs = xs := by
  obtain ⟨_, whole⟩ := placed
  rw [Lib.slice, ← whole, take_left]

theorem At.length_le (placed : At bs p xs) : xs.length ≤ bs.length - p := by
  simpa using List.IsPrefix.length_le placed

end Pcbsd.Lib

/-! Numbers in big-endian order, and numbers as a machine of either order stores them. -/

namespace Pcbsd.Lib
open List

def toBe (n v : Nat) : Bytes := (toLe n v).reverse

def beNat (bs : Bytes) : Nat := leNat bs.reverse

def toNative (big : Bool) (n v : Nat) : Bytes := if big then toBe n v else toLe n v

def ofNative (big : Bool) (bs : Bytes) : Nat := if big then beNat bs else leNat bs

/-- A number of `n` bytes from the order of the machine to the big-endian one, or back. -/
def swapBe (big : Bool) (n v : Nat) : Nat := if big then v else leNat (toBe n v)

variable {big : Bool} {n m v : Nat} {bs cs : Bytes}

@[simp] theorem length_toBe (n v : Nat) : (toBe n v).length = n := by rw [toBe, length_reverse, length_toLe]

theorem beNat_toBe (small : v < 256 ^ n) : beNat (toBe n v) = v := by
  rw [beNat, toBe, reverse_reverse, leNat_toLe n v small]

theorem beNat_lt (bs : Bytes) : beNat bs < 256 ^ bs.length := by
  have below := leNat_lt bs.reverse
  rwa [length_reverse] at below

theorem leNat_append (bs cs : Bytes) : leNat (bs ++ cs) = leNat bs + 256 ^ bs.length * leNat cs := by
  induction bs with
  | nil => rw [nil_append, leNat, length_nil, Nat.pow_zero, Nat.zero_add, Nat.one_mul]
  | cons _ bs ih => rw [cons_append, leNat, ih, leNat, length_cons, Nat.pow_succ', Nat.mul_add, Nat.mul_assoc, Nat.add_assoc]

theorem beNat_append (bs cs : Bytes) : beNat (bs ++ cs) = beNat bs * 256 ^ cs.length + beNat cs := by
  rw [beNat, reverse_append, leNat_append, length_reverse, Nat.mul_comm, Nat.add_comm]
  rfl

theorem toLe_zero (n : Nat) : toLe n 0 = replicate n 0 := by
  induction n with
  | zero => rfl
  | succ n ih => rw [toLe, Nat.zero_div, ih, replicate_succ]; rfl

theorem toBe_zero (n : Nat) : toBe n 0 = replicate n 0 := by rw [toBe, toLe_zero, reverse_replicate]

theorem toLe_add (n m v : Nat) : toLe (n + m) v = toLe n v ++ toLe m (v / 256 ^ n) := by
  induction n generalizing v with
  | zero => rw [Nat.zero_add, Nat.pow_zero, Nat.div_one, toLe, nil_append]
  | succ n ih => rw [Nat.add_right_comm, toLe, ih, toLe, cons_append, Nat.pow_succ', Nat.div_div_eq_div_mul]

theorem toNative_swapBe (n v : Nat) (big : Bool) : toNative big n (swapBe big n v) = toBe n v := by
  cases big with
  | true => rfl
  | false =>
    have whole := toLe_leNat (toBe n v)
    rw [length_toBe] at whole
    exact whole

theorem swapBe_ofNative (big : Bool) (bs : Bytes) : swapBe big bs.length (ofNative big bs) = beNat bs := by
  cases big with
  | true => rfl
  | false =>
    change leNat (toLe bs.length (leNat bs)).reverse = _
    rw [toLe_leNat]
    rfl

theorem swapBe_wide (small : v < 256 ^ n) : swapBe false (n + m) v % 256 ^ m = 0 := by
  change leNat (toLe (n + m) v).reverse % _ = 0
  rw [toLe_add, Nat.div_eq_of_lt small, toLe_zero, reverse_append, reverse_replicate, leNat_append, length_replicate,
    ← toLe_zero, leNat_toLe m 0 (Nat.pow_pos (by decide)), Nat.zero_add, Nat.mul_mod_right]

end Pcbsd.Lib
