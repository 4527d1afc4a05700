import Pcbsd.Proofs.NvlistEncoding
import Pcbsd.Zfs.Vdev

/-! Which pair nvlist_find takes. It compares as many bytes as the stored name has, so that a stored name matches
every key that begins with it. -/

namespace Pcbsd.Zfs
open Lib List Option

inductive Typed : DataType → Nat → Bytes → Prop
  | uint64 {n : Nat} (range : n < 2 ^ 64) : Typed .uint64 1 (xdr64 n)
  | string {s : Bytes} (text : 0 ∉ s) : Typed .string 1 (xdrString s)
  | nvlist {ps : List Pair} (kind : Pair → DataType) (ok : ∀ q ∈ ps, q.Ok) (codes : ∀ q ∈ ps, q.type = (kind q).code)
      (typed : ∀ q ∈ ps, Typed (kind q) q.elements q.value) : Typed .nvlist 1 (encodeNvlist ps)
  | nvlistArray {pss : List (List Pair)} (kind : Pair → DataType) (ok : ∀ ps ∈ pss, ∀ q ∈ ps, q.Ok)
      (codes : ∀ ps ∈ pss, ∀ q ∈ ps, q.type = (kind q).code) (typed : ∀ ps ∈ pss, ∀ q ∈ ps, Typed (kind q) q.elements q.value) :
      Typed .nvlistArray pss.length (pss.flatMap encodeNvlist)

structure TypedPair (q : Pair) : Prop extends q.Ok where
  typed : ∃ type : DataType, q.type = type.code ∧ Typed type q.elements q.value

/-- Nvlist_find returned the pair: its number of elements and the place of its value; or there is none and it failed. -/
def Returns (bs : Bytes) (found : Option (Int × Nat)) : Option Pair → Prop
  | none => found = none
  | some q => ∃ v, found = some ((q.elements : Int), v) ∧ At bs v q.value

variable {t u : Bytes} {ps : List Pair} {type' type : DataType} {ps' : List Pair} {q : Pair} {n m : Nat}

theorem DataType.code_injective (same : type.code = type'.code) : type = type' := by
  cases type <;> cases type' <;> first | rfl | exact absurd same (by decide)

theorem xdr32_append (same : xdr32 n ++ t = xdr32 m ++ u) (less : n < 2 ^ 32) (less' : m < 2 ^ 32) : n = m ∧ t = u := by
  obtain ⟨heads, tails⟩ := append_inj same rfl
  have placed : At (xdr32 n) 0 (xdr32 n) := prefix_rfl
  have placed' : At (xdr32 n) 0 (xdr32 m) := by
    rw [heads]
    exact prefix_rfl
  exact ⟨(xdrUInt_at placed less).symm.trans (xdrUInt_at placed' less'), tails⟩

theorem xdrString_append {s s' : Bytes} (same : xdrString s ++ t = xdrString s' ++ u)
    (less : (xdrString s).length < 2 ^ 31) (less' : (xdrString s').length < 2 ^ 31) :
    xdrString s = xdrString s' ∧ t = u := by
  refine append_inj same ?_
  have length : ∀ s, (xdrString s).length = 4 + (padded s).length :=
    fun s => by rw [xdrString, length_append, length_xdr32]
  rw [length, length_padded] at less less'
  obtain ⟨equal, -⟩ := xdr32_append same (by omega) (by omega)
  rw [length, length, length_padded, length_padded, equal]

theorem Pair.encode_append {q' : Pair} (same : q.encode ++ t = q'.encode ++ u) (less : q.encode.length < 2 ^ 31)
    (less' : q'.encode.length < 2 ^ 31) : q.encode = q'.encode ∧ t = u := by
  refine append_inj same ?_
  rw [Pair.encode, Pair.encode, ← q.length_encode, ← q'.length_encode, append_assoc, append_assoc] at same
  exact (xdr32_append same (by omega) (by omega)).1

theorem encodePairs_append (same : encodePairs ps ++ t = encodePairs ps' ++ u)
    (less : (encodePairs ps).length < 2 ^ 31) (less' : (encodePairs ps').length < 2 ^ 31) :
    encodePairs ps = encodePairs ps' ∧ t = u := by
  have sized : ∀ q : Pair, ∀ t u : Bytes, q.encode.length < 2 ^ 31 → q.encode ++ t ≠ encodePairs [] ++ u := by
    intro q t u less same
    have words : encodePairs [] = xdr32 0 ++ xdr32 0 := rfl
    rw [words, Pair.encode, ← q.length_encode, append_assoc, append_assoc] at same
    have zero := (xdr32_append same (by omega) (by omega)).1
    rw [q.length_encode] at zero
    omega
  induction ps generalizing ps' with
  | nil =>
    cases ps' with
    | nil => exact ⟨rfl, append_cancel_left same⟩
    | cons q' ps' =>
      rw [encodePairs_cons, length_append] at less'
      rw [encodePairs_cons q', append_assoc] at same
      exact absurd same.symm (sized q' _ _ (by omega))
  | cons q ps ih =>
    rw [encodePairs_cons, length_append] at less
    cases ps' with
    | nil =>
      rw [encodePairs_cons q, append_assoc] at same
      exact absurd same (sized q _ _ (by omega))
    | cons q' ps' =>
      rw [encodePairs_cons, length_append] at less'
      rw [encodePairs_cons, encodePairs_cons, append_assoc, append_assoc] at same
      obtain ⟨heads, rest⟩ := Pair.encode_append same (by omega) (by omega)
      obtain ⟨tails, ends⟩ := ih rest (by omega) (by omega)
      rw [encodePairs_cons, encodePairs_cons, heads, tails]
      exact ⟨rfl, ends⟩

theorem encodeNvlist_append (same : encodeNvlist ps ++ t = encodeNvlist ps' ++ u)
    (less : (encodeNvlist ps).length < 2 ^ 31) (less' : (encodeNvlist ps').length < 2 ^ 31) :
    encodeNvlist ps = encodeNvlist ps' ∧ t = u := by
  simp only [encodeNvlist, length_append] at less less'
  simp only [encodeNvlist, append_assoc, append_cancel_left_eq] at same ⊢
  obtain ⟨pairs, ends⟩ := encodePairs_append same (by omega) (by omega)
  exact ⟨by rw [pairs], ends⟩

theorem encodeNvlists_append {pss pss' : List (List Pair)} (length : pss.length = pss'.length)
    (same : pss.flatMap encodeNvlist ++ t = pss'.flatMap encodeNvlist ++ u)
    (less : (pss.flatMap encodeNvlist).length < 2 ^ 31) (less' : (pss'.flatMap encodeNvlist).length < 2 ^ 31) :
    pss.flatMap encodeNvlist = pss'.flatMap encodeNvlist := by
  induction pss generalizing pss' with
  | nil =>
    obtain rfl := length_eq_zero_iff.mp length.symm
    rfl
  | cons _ pss ih =>
    cases pss' with
    | nil => cases length
    | cons _ pss' =>
      rw [flatMap_cons, length_append] at less less'
      rw [flatMap_cons, flatMap_cons, append_assoc, append_assoc] at same
      obtain ⟨heads, rest⟩ := encodeNvlist_append same (by omega) (by omega)
      rw [flatMap_cons, flatMap_cons, heads, ih (Nat.succ.inj length) rest (by omega) (by omega)]

theorem Typed.eq_of_at {v v' bs : Bytes} {p : Nat} (first : Typed type n v) (second : Typed type' m v')
    (sameType : type = type') (sameCount : n = m) (placed : At bs p v) (placed' : At bs p v')
    (less : v.length < 2 ^ 31) (less' : v'.length < 2 ^ 31) : v = v' := by
  obtain ⟨_, here⟩ := placed
  obtain ⟨_, here'⟩ := placed'
  have same := here.trans here'.symm
  cases first with
  | uint64 _ =>
    cases second with
    | uint64 _ => exact (append_inj same rfl).1
    | string | nvlist | nvlistArray => cases sameType
  | string _ =>
    cases second with
    | string _ => exact (xdrString_append same less less').1
    | uint64 | nvlist | nvlistArray => cases sameType
  | nvlist kind ok codes typed =>
    cases second with
    | nvlist kind' ok' codes' typed' => exact (encodeNvlist_append same less less').1
    | uint64 | string | nvlistArray => cases sameType
  | nvlistArray kind ok codes typed =>
    cases second with
    | nvlistArray kind' ok' codes' typed' => exact encodeNvlists_append sameCount same less less'
    | uint64 | string | nvlist => cases sameType

theorem value_small (member : q ∈ ps) (small : (encodeNvlist ps).length < 2 ^ 31) : q.value.length < 2 ^ 31 := by
  obtain ⟨_, _, rfl⟩ := append_of_mem member
  have length := q.length_encode
  simp only [encodeNvlist, encodePairs, flatMap_append, flatMap_cons, length_append] at small
  omega

/-- In every list of pairs nvlist_find returns the first pair with the name and the type, or fails if there is none,
exactly when the first pair of the type whose name the queried one begins with is no other one, or has the same
value. -/
theorem nvlistFind_returns_iff {bs : Bytes} {p : Nat} {ps : List Pair} (typed : ∀ q ∈ ps, TypedPair q)
    (placed : At bs p (encodeNvlist ps)) (small : (encodeNvlist ps).length < 2 ^ 31) (name : Bytes) (type : DataType) :
    Returns bs (nvlistFind bs p name type) (ps.find? fun q => q.name = name ∧ q.type = type.code) ↔
      (ps.find? fun q => q.name <+: name ∧ q.type = type.code).map (fun q => (q.elements, q.value)) =
        (ps.find? fun q => q.name = name ∧ q.type = type.code).map fun q => (q.elements, q.value) := by
  obtain ⟨missing, first⟩ := nvlistFind_first (fun q member => (typed q member).toOk) placed small name type
  cases exact_ : ps.find? fun q => q.name = name ∧ q.type = type.code with
  | none =>
    rw [Returns, map_none, map_eq_none_iff]
    refine ⟨fun failed => ?_, missing⟩
    cases taken : ps.find? fun q => q.name <+: name ∧ q.type = type.code with
    | none => rfl
    | some q =>
      obtain ⟨v, located, -⟩ := first q taken
      rw [failed] at located
      cases located
  | some x =>
    have memberX := mem_of_find?_eq_some exact_
    have hasX : x.name = name ∧ x.type = type.code := by simpa using find?_some exact_
    obtain ⟨q, taken⟩ : ∃ q, (ps.find? fun q => q.name <+: name ∧ q.type = type.code) = some q := by
      rw [← isSome_iff_exists, find?_isSome]
      exact ⟨x, memberX, by simp [hasX]⟩
    have memberQ := mem_of_find?_eq_some taken
    have hasQ : q.name <+: name ∧ q.type = type.code := by simpa using find?_some taken
    obtain ⟨v, located, value⟩ := first q taken
    rw [Returns, taken, located, map_some, map_some, Option.some.injEq, Prod.mk.injEq]
    constructor
    · rintro ⟨_, same, value'⟩
      obtain ⟨count, rfl⟩ := Prod.mk.inj (some.inj same)
      have elements : q.elements = x.elements := by exact_mod_cast count
      obtain ⟨typeQ, codeQ, typedQ⟩ := (typed q memberQ).typed
      obtain ⟨typeX, codeX, typedX⟩ := (typed x memberX).typed
      have types : typeQ = typeX := DataType.code_injective (codeQ.symm.trans (hasQ.2.trans (hasX.2.symm.trans codeX)))
      exact ⟨elements, typedQ.eq_of_at typedX types elements value value' (value_small memberQ small)
        (value_small memberX small)⟩
    · rintro ⟨elements, values⟩
      exact ⟨v, by rw [elements], values ▸ value⟩

/-! A number under a name that the queried one begins with comes first. -/

private def namedPairs : List Pair := [⟨chars ['i'], 32, 8, 1, xdr64 5⟩, ⟨configId, 32, 8, 1, xdr64 7⟩]

theorem nvlistFind_returns_id_iff :
    Returns (encodeNvlist namedPairs) (nvlistFind (encodeNvlist namedPairs) 0 configId .uint64)
        (namedPairs.find? fun q => q.name = configId ∧ q.type = DataType.uint64.code) ↔
      (namedPairs.find? fun q => q.name <+: configId ∧ q.type = DataType.uint64.code).map
        (fun q => (q.elements, q.value)) =
        (namedPairs.find? fun q => q.name = configId ∧ q.type = DataType.uint64.code).map fun q =>
          (q.elements, q.value) := by
  have typed : ∀ q ∈ namedPairs, TypedPair q := by
    intro q member
    obtain rfl | rfl : q = ⟨chars ['i'], 32, 8, 1, xdr64 5⟩ ∨ q = ⟨configId, 32, 8, 1, xdr64 7⟩ := by
      simpa [namedPairs] using member
    · exact { decoded := by decide, type := by decide, elements := by decide, name := by decide,
              typed := ⟨.uint64, rfl, .uint64 (by decide)⟩ }
    · exact { decoded := by decide, type := by decide, elements := by decide, name := by decide,
              typed := ⟨.uint64, rfl, .uint64 (by decide)⟩ }
  have placed : At (encodeNvlist namedPairs) 0 (encodeNvlist namedPairs) := prefix_rfl
  exact nvlistFind_returns_iff typed placed (by decide) configId .uint64

theorem nvlistFind_takes_other :
    (namedPairs.find? fun q => q.name = configId ∧ q.type = DataType.uint64.code).map Pair.value = some (xdr64 7) ∧
      nvlistFindUint64 (encodeNvlist namedPairs) 0 configId = some 5 := by
  decide

end Pcbsd.Zfs
