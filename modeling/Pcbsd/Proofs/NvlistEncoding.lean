import Mathlib.Data.List.Find
import Pcbsd.Zfs.Nvlist

/-! Lookups in an nvlist that was encoded as XDR: nvlist_find returns the first pair of the wanted
name and type, and nvlist_next the position behind the list. -/

namespace Pcbsd.Zfs
open Lib List Option

def xdr32 (n : Nat) : Bytes :=
  [UInt8.ofNat (n / 2 ^ 24), UInt8.ofNat (n / 2 ^ 16), UInt8.ofNat (n / 2 ^ 8), UInt8.ofNat n]

def xdr64 (n : Nat) : Bytes := xdr32 (n / 2 ^ 32) ++ xdr32 (n % 2 ^ 32)

def padded (s : Bytes) : Bytes := s ++ replicate ((4 - s.length % 4) % 4) 0

def xdrString (s : Bytes) : Bytes := xdr32 s.length ++ padded s

/-- One name-value pair; its value is already encoded. `decoded` is the size the pair has in
memory, which the loader only compares with zero. -/
structure Pair where
  name : Bytes
  decoded : Nat
  type : Nat
  elements : Nat
  value : Bytes

namespace Pair

def encode (q : Pair) : Bytes :=
  xdr32 (20 + (padded q.name).length + q.value.length) ++ (xdr32 q.decoded ++ (xdr32 q.name.length ++
    (padded q.name ++ (xdr32 q.type ++ (xdr32 q.elements ++ q.value)))))

structure Ok (q : Pair) : Prop where
  decoded : 0 < q.decoded ∧ q.decoded < 2 ^ 32
  type : q.type < 2 ^ 32
  elements : q.elements < 2 ^ 31
  name : 0 ∉ q.name

end Pair

def encodePairs (ps : List Pair) : Bytes := ps.flatMap Pair.encode ++ replicate 8 0

/-- An nvlist: its version and flags, the pairs, and an empty pair at the end. -/
def encodeNvlist (ps : List Pair) : Bytes := xdr32 0 ++ (xdr32 1 ++ encodePairs ps)

@[simp] theorem length_xdr32 (n : Nat) : (xdr32 n).length = 4 := rfl

theorem length_padded (s : Bytes) : (padded s).length = s.length + (4 - s.length % 4) % 4 := by
  simp [padded]

theorem Pair.length_encode (q : Pair) : q.encode.length = 20 + (padded q.name).length + q.value.length := by
  simp only [Pair.encode, length_append, length_xdr32]
  omega

variable {bs : Bytes} {p : Nat}

theorem xdrUInt_at {n : Nat} (placed : At bs p (xdr32 n)) (small : n < 2 ^ 32) : xdrUInt bs p = n := by
  have byte0 := placed.getD (i := 0) (by simp)
  have byte1 := placed.getD (i := 1) (by simp)
  have byte2 := placed.getD (i := 2) (by simp)
  have byte3 := placed.getD (i := 3) (by simp)
  simp only [Nat.add_zero] at byte0
  rw [xdrUInt, byte0, byte1, byte2, byte3]
  simp only [xdr32, getD_cons_zero, getD_cons_succ, UInt8.toNat_ofNat']
  omega

theorem xdrInt_at {n : Nat} (placed : At bs p (xdr32 n)) (small : n < 2 ^ 31) : xdrInt bs p = n := by
  rw [xdrInt, xdrUInt_at placed (by omega), if_pos small]

theorem xdrInt_eq_iff {n m : Nat} (placed : At bs p (xdr32 n)) (small : n < 2 ^ 32) (less : m < 2 ^ 31) :
    xdrInt bs p = m ↔ n = m := by
  rw [xdrInt, xdrUInt_at placed small]
  split <;> omega

theorem xdrUint64_at {n : Nat} (placed : At bs p (xdr64 n)) (small : n < 2 ^ 64) : xdrUint64 bs p = n := by
  rw [xdr64, at_append, length_xdr32] at placed
  rw [xdrUint64, xdrUInt_at placed.1 (by omega), xdrUInt_at placed.2 (by omega)]
  omega

theorem cString_at {s : Bytes} (placed : At bs p (s ++ [0])) (text : 0 ∉ s) : cString bs p = s := by
  obtain ⟨_, whole⟩ := placed
  rw [cString, ← whole, append_assoc, takeWhile_append_of_pos]
  · simp
  · intro b member
    simp only [ne_eq, decide_not, Bool.not_eq_true', decide_eq_false_iff_not]
    rintro rfl
    exact text member

section

variable {q : Pair} (ok : q.Ok) (placed : At bs p q.encode) (small : q.encode.length < 2 ^ 31)

include placed

private theorem placed_fields : At bs p (xdr32 q.encode.length) ∧ At bs (p + 4) (xdr32 q.decoded) ∧
    At bs (p + 8) (xdr32 q.name.length) ∧ At bs (p + 12) (padded q.name) ∧
    At bs (p + 12 + (padded q.name).length) (xdr32 q.type) ∧
    At bs (p + 12 + (padded q.name).length + 4) (xdr32 q.elements) ∧
    At bs (p + 12 + (padded q.name).length + 8) q.value := by
  rw [q.length_encode]
  rw [Pair.encode] at placed
  simp only [at_append, length_xdr32] at placed
  exact placed

include small

private theorem nextPair_at : nextPair bs p = p + q.encode.length := by
  rw [nextPair, xdrInt_at (placed_fields placed).1 (by omega)]
  omega

private theorem pairTypeAt_at : pairTypeAt bs p = p + 12 + (padded q.name).length := by
  have length := q.length_encode
  have pad := length_padded q.name
  rw [pairTypeAt, xdrInt_at (placed_fields placed).2.2.1 (by omega), roundup4, Int.tdiv_eq_ediv_of_nonneg (by omega)]
  omega

include ok

private theorem pairEnd_at : pairEnd bs p = false := by
  obtain ⟨size, decoded, -⟩ := placed_fields placed
  have length := q.length_encode
  have positive := ok.decoded
  have sized : xdrInt bs p ≠ 0 := by
    rw [xdrInt_at size (by omega)]
    omega
  have kept : xdrInt bs (p + 4) ≠ 0 := by
    intro zero
    have := (xdrInt_eq_iff decoded positive.2 (m := 0) (by omega)).mp zero
    omega
  simp [pairEnd, sized, kept]

private theorem sameName_at (key : Bytes) : sameName bs (p + 12) (xdrInt bs (p + 8)) key = true ↔ q.name <+: key := by
  obtain ⟨-, -, namelen, name, -⟩ := placed_fields placed
  have length := q.length_encode
  have pad := length_padded q.name
  rw [padded, at_append] at name
  rw [xdrInt_at namelen (by omega), sameName, Int.toNat_natCast, name.1.slice]
  simp only [Bool.and_eq_true, decide_eq_true_eq, beq_iff_eq]
  constructor
  · rintro ⟨⟨-, -⟩, same⟩
    have start : q.name <+: key ++ [0] := same ▸ take_prefix ..
    rcases prefix_concat_iff.mp start with whole | start
    · exact absurd (by simp [whole]) ok.name
    · exact start
  · intro start
    have shorter := start.length_le
    refine ⟨⟨by omega, by omega⟩, ?_⟩
    rw [take_append_of_le_length shorter]
    exact prefix_iff_eq_take.mp start

end

theorem encodePairs_cons (q : Pair) (ps : List Pair) : encodePairs (q :: ps) = q.encode ++ encodePairs ps := by
  simp [encodePairs]

theorem length_lt_encodePairs (ps : List Pair) : ps.length < (encodePairs ps).length := by
  induction ps with
  | nil => simp [encodePairs]
  | cons q ps _ =>
    rw [encodePairs_cons, length_append, q.length_encode, length_cons]
    omega

/-- The size of a pair is less than 2^24, so that a string that ends right before it is terminated
by the first byte of the size. -/
private theorem encodePairs_zero (ps : List Pair) (small : (encodePairs ps).length < 2 ^ 24) :
    [0] <+: encodePairs ps := by
  cases ps with
  | nil => exact ⟨replicate 7 0, rfl⟩
  | cons q ps =>
    rw [encodePairs_cons, length_append] at small
    rw [encodePairs_cons, Pair.encode, ← q.length_encode]
    have high : UInt8.ofNat (q.encode.length / 2 ^ 24) = 0 := by
      rw [Nat.div_eq_of_lt (by omega)]
      rfl
    rw [xdr32, high]
    exact ⟨_, rfl⟩

private theorem pairEnd_nil (placed : At bs p (encodePairs [])) : pairEnd bs p = true := by
  have words : At bs p (xdr32 0 ++ replicate 4 0) := placed
  have size := (at_append.mp words).1
  simp [pairEnd, xdrInt_at size (by omega)]

theorem nvlistFindLoop_first {key : Bytes} {type : DataType} (ps : List Pair) (ok : ∀ q ∈ ps, q.Ok) {p : Nat}
    (placed : At bs p (encodePairs ps)) (small : (encodePairs ps).length < 2 ^ 31) {fuel : Nat}
    (enough : ps.length < fuel) :
    ((ps.find? fun q => q.name <+: key ∧ q.type = type.code) = none → nvlistFindLoop bs key type fuel p = none) ∧
      ∀ q, (ps.find? fun q => q.name <+: key ∧ q.type = type.code) = some q → ∃ after v,
        after <:+ ps ∧ nvlistFindLoop bs key type fuel p = some ((q.elements : Int), v) ∧
        At bs v (q.value ++ encodePairs after) := by
  induction ps generalizing p fuel with
  | nil =>
    obtain ⟨fuel, rfl⟩ : ∃ n, fuel = n + 1 := ⟨fuel - 1, by simp at enough; omega⟩
    rw [nvlistFindLoop, pairEnd_nil placed]
    simp
  | cons q ps ih =>
    obtain ⟨fuel, rfl⟩ : ∃ n, fuel = n + 1 := ⟨fuel - 1, by simp at enough; omega⟩
    rw [encodePairs_cons, length_append] at small
    rw [encodePairs_cons, at_append] at placed
    have okQ := ok q mem_cons_self
    have fits : q.encode.length < 2 ^ 31 := by omega
    obtain ⟨-, -, -, -, typed, counted, valued⟩ := placed_fields placed.1
    have code : type.code < 2 ^ 31 := by cases type <;> decide
    rw [nvlistFindLoop, pairEnd_at okQ placed.1 fits, pairTypeAt_at placed.1 fits, nextPair_at placed.1 fits]
    simp only [Bool.false_eq_true, if_false, sameName_at okQ placed.1 fits, xdrInt_eq_iff typed okQ.type code]
    by_cases found : q.name <+: key ∧ q.type = type.code
    · rw [find?_cons_of_pos (by simpa using found), if_pos found, xdrInt_at counted okQ.elements]
      refine ⟨by simp, fun q' same => ?_⟩
      obtain rfl := some.inj same
      refine ⟨ps, p + 12 + (padded q.name).length + 8, suffix_cons .., rfl, at_append.mpr ⟨valued, ?_⟩⟩
      rw [show p + 12 + (padded q.name).length + 8 + q.value.length = p +
        q.encode.length by rw [q.length_encode]; omega]
      exact placed.2
    · rw [find?_cons_of_neg (by simpa using found), if_neg found]
      obtain ⟨missing, first⟩ :=
        ih (fun r member => ok r (mem_cons_of_mem _ member)) placed.2 (by omega) (by simpa using enough)
      refine ⟨missing, fun q' here => ?_⟩
      obtain ⟨after, v, suffix, rest⟩ := first q' here
      exact ⟨after, v, suffix.trans (suffix_cons ..), rest⟩

theorem encodePairs_suffix {after ps : List Pair} (suffix : after <:+ ps) :
    (encodePairs after).length ≤ (encodePairs ps).length := by
  obtain ⟨_, rfl⟩ := suffix
  simp [encodePairs]

/-- nvlist_find returns the first pair that has the name and the type; the value ends before a
zero byte. -/
theorem nvlistFindLoop_at {key : Bytes} {type : DataType} (ps : List Pair) (ok : ∀ q ∈ ps, q.Ok)
    (names : ∀ q ∈ ps, q.name = key ∨ ¬ q.name <+: key) {p : Nat} (placed : At bs p (encodePairs ps))
    (small : (encodePairs ps).length < 2 ^ 24) {fuel : Nat} (enough : ps.length < fuel) :
    match ps.find? fun q => q.name = key ∧ q.type = type.code with
    | none => nvlistFindLoop bs key type fuel p = none
    | some q => ∃ v, nvlistFindLoop bs key type fuel p = some ((q.elements : Int), v) ∧ At bs v (q.value ++ [0]) := by
  obtain ⟨missing, first⟩ := @nvlistFindLoop_first bs key type ps ok p placed (by omega) fuel enough
  have same : (ps.find? fun q => q.name <+: key ∧ q.type = type.code) = ps.find? fun q => q.name = key ∧
    q.type = type.code := by
    refine find?_congr fun q member => ?_
    have iff : q.name <+: key ↔ q.name = key :=
      ⟨(names q member).resolve_right ∘ not_not.mpr, fun equal => equal ▸ prefix_rfl⟩
    simp only [iff]
  rw [same] at missing first
  cases found : ps.find? fun q => q.name = key ∧ q.type = type.code with
  | none => exact missing found
  | some q =>
    obtain ⟨after, v, suffix, located, placed⟩ := first q found
    have zero := encodePairs_zero after ((encodePairs_suffix suffix).trans_lt small)
    rw [at_append] at placed
    exact ⟨v, located, at_append.mpr ⟨placed.1, zero.trans placed.2⟩⟩

theorem nvlistNextLoop_at (ps : List Pair) (ok : ∀ q ∈ ps, q.Ok) {p : Nat} (placed : At bs p (encodePairs ps))
    (small : (encodePairs ps).length < 2 ^ 24) {fuel : Nat} (enough : ps.length < fuel) :
    nvlistNextLoop bs fuel p = p + (encodePairs ps).length := by
  induction ps generalizing p fuel with
  | nil =>
    obtain ⟨fuel, rfl⟩ : ∃ n, fuel = n + 1 := ⟨fuel - 1, by simp at enough; omega⟩
    rw [nvlistNextLoop, pairEnd_nil placed]
    rfl
  | cons q ps ih =>
    obtain ⟨fuel, rfl⟩ : ∃ n, fuel = n + 1 := ⟨fuel - 1, by simp at enough; omega⟩
    rw [encodePairs_cons, length_append] at small
    rw [encodePairs_cons, at_append] at placed
    rw [nvlistNextLoop, pairEnd_at (ok q mem_cons_self) placed.1 (by omega), nextPair_at placed.1 (by omega),
      if_neg (by decide), ih (fun r member => ok r (mem_cons_of_mem _ member)) placed.2 (by omega) (by simpa using enough),
      encodePairs_cons, length_append, Nat.add_assoc]

def firstValue (ps : List Pair) (key : Bytes) (type : DataType) : Option Bytes :=
  (ps.find? fun q => q.name = key ∧ q.type = type.code).map Pair.value

/-! The same for a whole list, where the loops have as many turns as the buffer has bytes. -/

section

variable {ps : List Pair} (ok : ∀ q ∈ ps, q.Ok) (placed : At bs p (encodeNvlist ps))
  (small : (encodeNvlist ps).length < 2 ^ 24)

include placed in
private theorem placed_pairs : At bs (p + 8) (encodePairs ps) ∧ ps.length < bs.length := by
  have inside := placed.length_le
  rw [encodeNvlist, at_append, at_append, length_xdr32, length_xdr32] at placed
  refine ⟨placed.2.2, ?_⟩
  have := length_lt_encodePairs ps
  simp only [encodeNvlist, length_append] at inside
  omega

include small in
private theorem pairs_small : (encodePairs ps).length < 2 ^ 24 := by
  simp only [encodeNvlist, length_append] at small
  omega

include ok placed small

theorem nvlistFind_at {key : Bytes} (type : DataType) (names : ∀ q ∈ ps, q.name = key ∨ ¬ q.name <+: key) :
    match ps.find? fun q => q.name = key ∧ q.type = type.code with
    | none => nvlistFind bs p key type = none
    | some q => ∃ v, nvlistFind bs p key type = some ((q.elements : Int), v) ∧ At bs v (q.value ++ [0]) :=
  nvlistFindLoop_at ps ok names (placed_pairs placed).1 (pairs_small small) (placed_pairs placed).2

theorem nvlistNext_at : nvlistNext bs p = p + (encodeNvlist ps).length := by
  rw [nvlistNext, nvlistNextLoop_at ps ok (placed_pairs placed).1 (pairs_small small) (placed_pairs placed).2]
  simp only [encodeNvlist, length_append, length_xdr32]
  omega

theorem nvlistFindUint64_at {key : Bytes} (names : ∀ q ∈ ps, q.name = key ∨ ¬ q.name <+: key) {v : Option Nat}
    (range : ∀ n ∈ v, n < 2 ^ 64) (stored : firstValue ps key .uint64 = v.map xdr64) :
    nvlistFindUint64 bs p key = v := by
  have found := nvlistFind_at ok placed small .uint64 names
  rw [firstValue] at stored
  rw [nvlistFindUint64]
  cases first : ps.find? fun q => q.name = key ∧ q.type = DataType.uint64.code with
  | none =>
    rw [first] at found stored
    rw [found]
    exact (map_eq_none_iff.mp stored.symm).symm
  | some q =>
    rw [first] at found stored
    obtain ⟨_, located, value⟩ := found
    obtain ⟨n, rfl, encoded⟩ := map_eq_some_iff.mp stored.symm
    rw [← encoded] at value
    rw [located, map_some, xdrUint64_at (at_append.mp value).1 (range n rfl)]

theorem nvlistFindString_at {key : Bytes} (names : ∀ q ∈ ps, q.name = key ∨ ¬ q.name <+: key) {v : Option Bytes}
    (text : ∀ s ∈ v, 0 ∉ s) (stored : firstValue ps key .string = v.map xdrString) : nvlistFindString bs p key = v := by
  have found := nvlistFind_at ok placed small .string names
  rw [firstValue] at stored
  rw [nvlistFindString]
  cases first : ps.find? fun q => q.name = key ∧ q.type = DataType.string.code with
  | none =>
    rw [first] at found stored
    rw [found]
    exact (map_eq_none_iff.mp stored.symm).symm
  | some q =>
    rw [first] at found stored
    obtain ⟨_, located, value⟩ := found
    obtain ⟨s, rfl, encoded⟩ := map_eq_some_iff.mp stored.symm
    rw [← encoded, xdrString, append_assoc, at_append, length_xdr32] at value
    have terminated : s ++ [0] <+: padded s ++ [0] := by
      rw [padded, append_assoc, prefix_append_right_inj]
      cases (4 - s.length % 4) % 4 with
      | zero => exact prefix_rfl
      | succ n => exact ⟨replicate n 0 ++ [0], rfl⟩
    rw [located, map_some, cString_at (terminated.trans value.2) (text s rfl)]

end

theorem nvlistFind_first {ps : List Pair} (ok : ∀ q ∈ ps, q.Ok) (placed : At bs p (encodeNvlist ps))
    (small : (encodeNvlist ps).length < 2 ^ 31) (key : Bytes) (type : DataType) :
    ((ps.find? fun q => q.name <+: key ∧ q.type = type.code) = none → nvlistFind bs p key type = none) ∧
      ∀ q, (ps.find? fun q => q.name <+: key ∧ q.type = type.code) = some q →
        ∃ v, nvlistFind bs p key type = some ((q.elements : Int), v) ∧ At bs v q.value := by
  have fits : (encodePairs ps).length < 2 ^ 31 := by
    simp only [encodeNvlist, length_append] at small
    omega
  obtain ⟨missing, first⟩ :=
    @nvlistFindLoop_first bs key type ps ok (p + 8) (placed_pairs placed).1 fits bs.length (placed_pairs placed).2
  refine ⟨missing, fun q found => ?_⟩
  obtain ⟨_, v, -, located, value⟩ := first q found
  exact ⟨v, located, (at_append.mp value).1⟩

end Pcbsd.Zfs
