import Mathlib.Data.Fintype.EquivFin
import Pcbsd.Zfs.Nvlist

/-! When walking an nvlist ends and reads nothing outside its buffer: no size is compared with that of the buffer, so
that it depends on the chain of pairs that the sizes make. -/

namespace Pcbsd.Zfs
open Lib List

/-- For every name, with whatever follows it in memory, and every type the walks end and read only bytes of the
buffer. -/
def Robust (bs : Bytes) (nvlist : Int) : Prop :=
  (∀ name type, ∃ turns found, nvlistFindRun bs nvlist name type turns = .done found) ∧
    ∃ turns next, nvlistNextRun bs nvlist turns = .done next

def nameSize (bs : Bytes) (pair : Int) : Int := xdrInt bs (pair + 8).toNat

def typePlace (bs : Bytes) (pair : Int) : Int := pair + 12 + roundup4 (nameSize bs pair)

def pairType (bs : Bytes) (pair : Int) : Int := xdrInt bs (typePlace bs pair).toNat

/-- The pair's name is a beginning of what is in memory from the queried name on. -/
def Names (bs : Bytes) (name : Nat → UInt8) (pair : Int) : Prop :=
  ∀ i < (nameSize bs pair).toNat, name i = bs.getD (pair + 12 + i).toNat 0

/-- From `pair` on, behind the pairs `seen`, the sizes lead through pairs that are in the buffer to one of size zero.
The element count and the value need to be there only if some name is taken to this pair and to none of its type
before it. -/
inductive Chained (bs : Bytes) : List Int → Int → Prop
  | last {seen : List Int} {pair : Int} (header : Inside bs pair 8)
      (ends : xdrInt bs pair.toNat = 0 ∨ xdrInt bs (pair + 4).toNat = 0) : Chained bs seen pair
  | pair {seen : List Int} {pair : Int} (header : Inside bs pair 12)
      (goes : ¬(xdrInt bs pair.toNat = 0 ∨ xdrInt bs (pair + 4).toNat = 0))
      (name : 0 ≤ nameSize bs pair ∧ Inside bs (pair + 12) (nameSize bs pair).toNat)
      (type : Inside bs (typePlace bs pair) 4)
      (value : ∀ name, Names bs name pair → (∀ e ∈ seen, ¬(Names bs name e ∧ pairType bs pair = pairType bs e)) →
        Inside bs (typePlace bs pair + 4) (4 + valueSize (pairType bs pair)))
      (next : Chained bs (pair :: seen) (pair + xdrInt bs pair.toNat)) : Chained bs seen pair

variable {bs : Bytes}

theorem xdrIntAt_inside {q : Int} (inside : Inside bs q 4) : xdrIntAt bs q = some (xdrInt bs q.toNat) := if_pos inside

theorem xdrIntAt_some {q n : Int} (read : xdrIntAt bs q = some n) : Inside bs q 4 ∧ xdrInt bs q.toNat = n := by
  rw [xdrIntAt] at read
  split_ifs at read with inside
  exact ⟨inside, Option.some.inj read⟩

theorem xdrInt_range (p : Nat) : -2 ^ 31 ≤ xdrInt bs p ∧ xdrInt bs p < 2 ^ 31 := by
  have bytes : xdrUInt bs p < 2 ^ 32 := by
    have byte0 := (bs.getD p 0).toNat_lt
    have byte1 := (bs.getD (p + 1) 0).toNat_lt
    have byte2 := (bs.getD (p + 2) 0).toNat_lt
    have byte3 := (bs.getD (p + 3) 0).toNat_lt
    rw [xdrUInt]
    omega
  rw [xdrInt]
  split <;> omega

theorem sizeT_of_nonneg {n : Int} (nonneg : 0 ≤ n) (small : n < 2 ^ 31) : sizeT n = n.toNat := by
  rw [sizeT, Int.emod_eq_of_lt nonneg (by omega)]

theorem sizeT_of_neg {n : Int} (negative : n < 0) (small : -2 ^ 31 ≤ n) : 2 ^ 31 ≤ sizeT n := by
  rw [sizeT]
  omega

section

variable {name : Nat → UInt8} {q : Int}

theorem memcmpAt_inside {n i : Nat} (start : 0 ≤ q) (inside : q + i + n ≤ bs.length) :
    ∃ same, memcmpAt bs name q n i = some same ∧
    (same = true ↔ ∀ j < n, name (i + j) = bs.getD (q + (i + j : Nat)).toNat 0) := by
  induction n generalizing i with
  | zero => exact ⟨true, rfl, by simp⟩
  | succ n ih =>
    have here : byteAt bs (q + i) = some (bs.getD (q + i).toNat 0) := if_pos ⟨by omega, by push_cast at inside ⊢; omega⟩
    rw [memcmpAt, here]
    dsimp only
    by_cases equal : name i = bs.getD (q + i).toNat 0
    · rw [if_pos equal]
      obtain ⟨same, ran, iff⟩ := @ih (i + 1) (by push_cast at inside ⊢; omega)
      refine ⟨same, ran, iff.trans ⟨fun all j less => ?_, fun all j less => ?_⟩⟩
      · cases j with
        | zero => exact equal
        | succ j =>
          have := all j (by omega)
          rwa [Nat.add_right_comm] at this
      · have := all (j + 1) (by omega)
        rwa [← Nat.add_assoc, Nat.add_right_comm] at this
    · rw [if_neg equal]
      exact ⟨false, rfl, by simpa using ⟨0, by omega, equal⟩⟩

theorem memcmpAt_equal {n i : Nat} {same : Bool} (ran : memcmpAt bs name q n i = some same)
    (equal : ∀ j, name j = bs.getD (q + j).toNat 0) (before : q + i ≤ bs.length) : q + i + n ≤ bs.length := by
  induction n generalizing i with
  | zero => simpa using before
  | succ n ih =>
    rw [memcmpAt] at ran
    by_cases here : Inside bs (q + i) 1
    · rw [byteAt, if_pos here] at ran
      dsimp only at ran
      rw [if_pos (equal i)] at ran
      have := ih ran (by push_cast; exact (by simpa [add_assoc] using here.2))
      push_cast at this ⊢
      omega
    · rw [byteAt, if_neg here] at ran
      cases ran

end

variable {pair : Int} {seen : List Int}

theorem nvlistFindTurns_pair (header : Inside bs pair 12)
    (goes : ¬(xdrInt bs pair.toNat = 0 ∨ xdrInt bs (pair + 4).toNat = 0))
    (named : 0 ≤ nameSize bs pair ∧ Inside bs (pair + 12) (nameSize bs pair).toNat)
    (typed : Inside bs (typePlace bs pair) 4) (name : Nat → UInt8) (type : Int) (turns : Nat) :
    (Names bs name pair ∧ type = pairType bs pair → nvlistFindTurns bs name type (turns + 1) pair =
      takeValue bs type (typePlace bs pair)) ∧ (¬(Names bs name pair ∧ type = pairType bs pair) →
        nvlistFindTurns bs name type (turns + 1) pair =
          nvlistFindTurns bs name type turns (pair + xdrInt bs pair.toNat)) := by
  obtain ⟨start, _⟩ := header
  obtain ⟨nonneg, -, ends⟩ := named
  have size := sizeT_of_nonneg nonneg (xdrInt_range _).2
  obtain ⟨same, ran, iff⟩ :=
    @memcmpAt_inside bs name (pair + 12) (nameSize bs pair).toNat 0 (by omega) (by push_cast at ends ⊢; omega)
  simp only [Nat.zero_add] at iff
  have place : pair + 12 + roundup4 (nameSize bs pair) = typePlace bs pair := rfl
  rw [nvlistFindTurns, xdrIntAt_inside (show Inside bs pair 4 from ⟨start, by omega⟩),
    xdrIntAt_inside (show Inside bs (pair + 4) 4 from ⟨by omega, by omega⟩)]
  dsimp only
  rw [if_neg goes, xdrIntAt_inside (show Inside bs (pair + 8) 4 from ⟨by omega, by omega⟩), ← nameSize]
  dsimp only
  rw [place, xdrIntAt_inside typed, ← pairType, size, ran]
  have taken : (same = true ∧ type = pairType bs pair) ↔ (Names bs name pair ∧ type = pairType bs pair) :=
    and_congr_left' iff
  exact ⟨fun here => if_pos (taken.mpr here), fun other => if_neg fun here => other (taken.mp here)⟩

theorem takeValue_done_iff {type p : Int} :
    (∃ found, takeValue bs type p = .done found) ↔ Inside bs (p + 4) 4 ∧ Inside bs (p + 8) (valueSize type) := by
  rw [takeValue]
  by_cases counted : Inside bs (p + 4) 4
  · rw [xdrIntAt_inside counted]
    dsimp only
    by_cases valued : Inside bs (p + 8) (valueSize type)
    · rw [if_pos valued]
      exact iff_of_true ⟨_, rfl⟩ ⟨counted, valued⟩
    · rw [if_neg valued]
      exact iff_of_false (by simp) fun both => valued both.2
  · rw [xdrIntAt, if_neg counted]
    exact iff_of_false (by simp) fun both => counted both.1

theorem inside_value_iff {type p : Int} :
    Inside bs (p + 4) 4 ∧ Inside bs (p + 8) (valueSize type) ↔ Inside bs (p + 4) (4 + valueSize type) := by
  simp only [Inside]
  push_cast
  omega

theorem Chained.find (chained : Chained bs seen pair) {name : Nat → UInt8} {type : Int}
    (unseen : ∀ e ∈ seen, ¬(Names bs name e ∧ type = pairType bs e)) :
    ∃ turns found, nvlistFindTurns bs name type turns pair = .done found := by
  induction chained with
  | last header ends =>
    refine ⟨1, none, ?_⟩
    obtain ⟨start, _⟩ := header
    rw [nvlistFindTurns, xdrIntAt_inside ⟨start, by omega⟩, xdrIntAt_inside ⟨by omega, by omega⟩]
    exact if_pos ends
  | @pair seen pair header goes named typed value next ih =>
    by_cases here : Names bs name pair ∧ type = pairType bs pair
    · have room := value name here.1 fun e member => by rw [← here.2]; exact unseen e member
      rw [← here.2, ← inside_value_iff] at room
      obtain ⟨found, taken⟩ := takeValue_done_iff.mpr room
      exact ⟨1, found, ((nvlistFindTurns_pair header goes named typed name type 0).1 here).trans taken⟩
    · obtain ⟨turns, found, ran⟩ := ih fun e member => (mem_cons.mp member).elim (fun same => same ▸ here) (unseen e)
      exact ⟨turns + 1, found, ((nvlistFindTurns_pair header goes named typed name type turns).2 here).trans ran⟩

theorem Chained.next_ends (chained : Chained bs seen pair) :
    ∃ turns next, nvlistNextTurns bs turns pair = .done next := by
  induction chained with
  | @last seen pair header ends =>
    obtain ⟨start, fits⟩ := header
    refine ⟨1, pair + 8, ?_⟩
    rw [nvlistNextTurns, xdrIntAt_inside ⟨start, by omega⟩, xdrIntAt_inside ⟨by omega, by omega⟩]
    exact if_pos ends
  | @pair seen pair header goes _ _ _ next ih =>
    obtain ⟨start, fits⟩ := header
    obtain ⟨turns, p, ran⟩ := ih
    refine ⟨turns + 1, p, ?_⟩
    rw [nvlistNextTurns, xdrIntAt_inside ⟨start, by omega⟩, xdrIntAt_inside ⟨by omega, by omega⟩]
    exact (if_neg goes).trans ran

theorem nvlistFindTurns_reads {name : Nat → UInt8} {type : Int} {turns : Nat} {found : Option (Int × Int)}
    (ran : nvlistFindTurns bs name type turns pair = .done found)
    (goes : ¬(xdrInt bs pair.toNat = 0 ∨ xdrInt bs (pair + 4).toNat = 0)) :
    Inside bs pair 12 ∧ Inside bs (typePlace bs pair) 4 ∧
    ∃ same, memcmpAt bs name (pair + 12) (sizeT (nameSize bs pair)) 0 = some same := by
  cases turns with
  | zero => cases ran
  | succ turns =>
  rw [nvlistFindTurns] at ran
  cases encoded : xdrIntAt bs pair with
  | none =>
    rw [encoded] at ran
    cases ran
  | some _ =>
  cases decoded : xdrIntAt bs (pair + 4) with
  | none =>
    rw [encoded, decoded] at ran
    cases ran
  | some _ =>
  obtain ⟨first, rfl⟩ := xdrIntAt_some encoded
  obtain ⟨_, rfl⟩ := xdrIntAt_some decoded
  rw [encoded, decoded] at ran
  dsimp only at ran
  rw [if_neg goes] at ran
  cases namelen : xdrIntAt bs (pair + 8) with
  | none =>
    rw [namelen] at ran
    cases ran
  | some _ =>
  obtain ⟨third, rfl⟩ := xdrIntAt_some namelen
  rw [namelen] at ran
  dsimp only at ran
  cases typed : xdrIntAt bs (typePlace bs pair) with
  | none =>
    rw [typePlace, nameSize] at typed
    rw [typed] at ran
    cases ran
  | some _ =>
  cases compared : memcmpAt bs name (pair + 12) (sizeT (nameSize bs pair)) 0 with
  | none =>
    rw [typePlace, nameSize] at typed
    rw [nameSize] at compared
    rw [typed, compared] at ran
    cases ran
  | some same => exact ⟨⟨first.1, by have := third.2; push_cast at this ⊢; omega⟩, (xdrIntAt_some typed).1, same, rfl⟩

theorem chained_of_runs {turns : Nat} {p : Int} (ends : nvlistNextTurns bs turns pair = .done p)
    (fits : bs.length < 2 ^ 31)
    (runs : ∀ name type, (∀ e ∈ seen, ¬(Names bs name e ∧ type = pairType bs e)) →
      ∃ turns found, nvlistFindTurns bs name type turns pair = .done found) : Chained bs seen pair := by
  induction turns generalizing pair seen with
  | zero => cases ends
  | succ turns ih =>
    rw [nvlistNextTurns] at ends
    cases encoded : xdrIntAt bs pair with
    | none =>
      rw [encoded] at ends
      cases ends
    | some _ =>
    cases decoded : xdrIntAt bs (pair + 4) with
    | none =>
      rw [encoded, decoded] at ends
      cases ends
    | some _ =>
    obtain ⟨first, rfl⟩ := xdrIntAt_some encoded
    obtain ⟨second, rfl⟩ := xdrIntAt_some decoded
    rw [encoded, decoded] at ends
    dsimp only at ends
    by_cases last : xdrInt bs pair.toNat = 0 ∨ xdrInt bs (pair + 4).toNat = 0
    · exact .last ⟨first.1, by have := second.2; push_cast at this ⊢; omega⟩ last
    rw [if_neg last] at ends
    -- a type that no pair has takes nothing, and the pair's own name is then compared to its end
    obtain ⟨type, other⟩ := Infinite.exists_notMem_finset ((pair :: seen).map (pairType bs)).toFinset
    simp only [mem_toFinset, mem_map, not_exists, not_and] at other
    obtain ⟨_, _, ran⟩ := runs (fun i => bs.getD (pair + 12 + i).toNat 0) type fun e member both =>
      other e (mem_cons_of_mem _ member) both.2.symm
    obtain ⟨header, typed, _, compared⟩ := nvlistFindTurns_reads ran last
    have start := header.1
    have room := memcmpAt_equal compared (fun _ => rfl) (by have := header.2; push_cast at this ⊢; omega)
    have nonneg : 0 ≤ nameSize bs pair := by
      by_contra negative
      have size := sizeT_of_neg (not_le.mp negative) (xdrInt_range _).1
      omega
    have named : 0 ≤ nameSize bs pair ∧ Inside bs (pair + 12) (nameSize bs pair).toNat := by
      rw [sizeT_of_nonneg nonneg (xdrInt_range _).2] at room
      exact ⟨nonneg, by omega, by push_cast at room ⊢; omega⟩
    refine .pair header last named typed (fun name names unseen => ?_) (ih ends fun name type unseen => ?_)
    · obtain ⟨turns, found, ran⟩ := runs name (pairType bs pair) unseen
      cases turns with
      | zero => cases ran
      | succ turns =>
        rw [(nvlistFindTurns_pair header last named typed name _ turns).1 ⟨names, rfl⟩] at ran
        exact inside_value_iff.mp (takeValue_done_iff.mp ⟨found, ran⟩)
    · obtain ⟨turns, found, ran⟩ := runs name type fun e member => unseen e (mem_cons_of_mem _ member)
      cases turns with
      | zero => cases ran
      | succ turns =>
        rw [(nvlistFindTurns_pair header last named typed name type turns).2 (unseen pair mem_cons_self)] at ran
        exact ⟨turns, found, ran⟩

/-- For all contents of the buffer the walks end and stay in it exactly when the pairs are chained. -/
theorem robust_iff {nvlist : Int} (fits : bs.length < 2 ^ 31) :
    Robust bs nvlist ↔ Inside bs nvlist 8 ∧ Chained bs [] (nvlist + 8) := by
  constructor
  · rintro ⟨finds, turns, _, ran⟩
    rw [nvlistNextRun] at ran
    by_cases header : Inside bs nvlist 8
    · rw [if_pos header] at ran
      refine ⟨header, chained_of_runs ran fits fun name type _ => ?_⟩
      obtain ⟨turns, found, ran⟩ := finds name type
      rw [nvlistFindRun, if_pos header] at ran
      exact ⟨turns, found, ran⟩
    · rw [if_neg header] at ran
      cases ran
  · rintro ⟨header, chained⟩
    refine ⟨fun name type => ?_, ?_⟩
    · obtain ⟨turns, found, ran⟩ := @Chained.find _ _ _ chained name type fun e member => absurd member not_mem_nil
      exact ⟨turns, found, (if_pos header).trans ran⟩
    · obtain ⟨turns, next, ran⟩ := chained.next_ends
      exact ⟨turns, next, (if_pos header).trans ran⟩

theorem getElem?_some_getD {k : Nat} {l : Bytes} (inside : k < l.length) : l[k]? = some (l.getD k 0) := by
  rw [getElem?_eq_getElem inside, getD_eq_getElem?_getD, getElem?_eq_getElem inside, Option.getD_some]

theorem pairEnd_iff (p : Nat) :
    pairEnd bs p = true ↔ xdrInt bs (p : Int).toNat = 0 ∨ xdrInt bs ((p : Int) + 4).toNat = 0 := by
  rw [pairEnd, Bool.or_eq_true, decide_eq_true_eq, decide_eq_true_eq]
  rfl

section

variable {name : Bytes} {memory : Nat → UInt8} (key : ∀ i ≤ name.length, memory i = (name ++ [0]).getD i 0)
  (behind : memory (name.length + 1) ∉ bs)
include key behind

theorem names_iff_sameName {pair : Int} (start : 0 ≤ pair)
    (named : 0 ≤ nameSize bs pair ∧ Inside bs (pair + 12) (nameSize bs pair).toNat) :
    Names bs memory pair ↔ sameName bs (pair.toNat + 12) (nameSize bs pair) name = true := by
  obtain ⟨nonneg, -, ends⟩ := named
  obtain ⟨n, size⟩ := Int.eq_ofNat_of_zero_le nonneg
  rw [size, Int.toNat_natCast] at ends
  have place (i : Nat) : (pair + 12 + i).toNat = pair.toNat + 12 + i := by omega
  have total : (name ++ [0]).length = name.length + 1 := length_append
  simp only [Names, size, Int.toNat_natCast, sameName, place, Bool.and_eq_true, decide_eq_true_eq, beq_iff_eq]
  by_cases short : n ≤ name.length + 1
  · rw [and_iff_right ⟨by omega, by omega⟩]
    constructor
    · intro names
      apply ext_getElem?
      intro i
      rw [getElem?_slice, getElem?_take]
      split
      next less => rw [getElem?_some_getD (by omega), getElem?_some_getD (by omega), ← key i (by omega), names i less]
      next => rfl
    · intro same i less
      have here := congrArg (fun l => l[i]?) same
      simp only [getElem?_slice, getElem?_take, if_pos less] at here
      rw [key i (by omega), getD_eq_getElem?_getD, getD_eq_getElem?_getD, here]
  · refine iff_of_false (fun names => behind ?_) fun both => short (by omega)
    rw [names _ (not_le.mp short)]
    exact mem_of_getElem? (getElem?_some_getD (by omega))

theorem Chained.findLoop {seen : List Int} {pair : Int} (chained : Chained bs seen pair) (type : DataType)
    {turns fuel : Nat} (few : turns ≤ fuel) {found : Option (Int × Int)}
    (ran : nvlistFindTurns bs memory type.code turns pair = .done found) :
    found = (nvlistFindLoop bs name type fuel pair.toNat).map fun value => (value.1, (value.2 : Int)) := by
  induction chained generalizing turns fuel with
  | last header ends =>
    obtain ⟨start, _⟩ := header
    obtain ⟨p, rfl⟩ := Int.eq_ofNat_of_zero_le start
    cases turns with
    | zero => cases ran
    | succ turns =>
    obtain ⟨fuel, rfl⟩ := Nat.exists_eq_add_one.mpr (by omega : 0 < fuel)
    rw [nvlistFindTurns, xdrIntAt_inside ⟨start, by omega⟩, xdrIntAt_inside ⟨by omega, by omega⟩] at ran
    rw [Int.toNat_natCast, nvlistFindLoop, if_pos ((pairEnd_iff p).mpr ends)]
    exact (Run.done.inj ((if_pos ends).symm.trans ran)).symm
  | @pair seen pair header goes named typed value next ih =>
    cases turns with
    | zero => cases ran
    | succ turns =>
    obtain ⟨fuel, rfl⟩ := Nat.exists_eq_add_one.mpr (by omega : 0 < fuel)
    obtain ⟨p, rfl⟩ := Int.eq_ofNat_of_zero_le header.1
    obtain ⟨q, place⟩ := Int.eq_ofNat_of_zero_le typed.1
    have at_ : pairTypeAt bs p = q := by
      have sum : typePlace bs p = p + 12 + roundup4 (xdrInt bs (p + 8)) := rfl
      rw [pairTypeAt, ← sum, place, Int.toNat_natCast]
    have same := names_iff_sameName key behind header.1 named
    have test : (sameName bs (p + 12) (xdrInt bs (p + 8)) name = true ∧ xdrInt bs q = type.code) ↔
        Names bs memory p ∧ (type.code : Int) = pairType bs p := by
      rw [pairType, place, same]
      exact and_congr_right' eq_comm
    rw [Int.toNat_natCast, nvlistFindLoop, if_neg (mt (pairEnd_iff p).mp goes)]
    dsimp only
    rw [at_]
    by_cases here : Names bs memory p ∧ (type.code : Int) = pairType bs p
    · rw [(nvlistFindTurns_pair header goes named typed memory type.code turns).1 here] at ran
      obtain ⟨counted, valued⟩ := takeValue_done_iff.mp ⟨found, ran⟩
      rw [takeValue, xdrIntAt_inside counted] at ran
      dsimp only at ran
      rw [if_pos valued, if_pos (by cases type <;> decide), place] at ran
      rw [if_pos (test.mpr here)]
      exact (Run.done.inj ran).symm
    · rw [(nvlistFindTurns_pair header goes named typed memory type.code turns).2 here] at ran
      rw [if_neg (mt test.mp here)]
      exact ih (by omega) ran

/-- In chained pairs nvlistFind finds what the run over memory finds that ends within as many turns as the buffer has
bytes, for a name with a byte behind it that does not occur in the buffer. -/
theorem nvlistFind_of_run {nvlist : Nat} (chained : Chained bs [] (nvlist + 8)) (type : DataType) {turns : Nat}
    (few : turns ≤ bs.length) {found : Option (Int × Int)}
    (ran : nvlistFindRun bs nvlist memory type.code turns = .done found) :
    found = (nvlistFind bs nvlist name type).map fun value => (value.1, (value.2 : Int)) := by
  rw [nvlistFindRun] at ran
  split at ran
  next _ => exact chained.findLoop key behind type few ran
  next => cases ran

end

/-! A buffer of the size of vp_nvlist whose first two pairs lead to each other. -/

private def loopHead : Bytes := [1, 0, 0, 0] ++ replicate 8 0 ++ xdrSizes 8 ++ xdrSizes 0xfffffff8
where
  xdrSizes (n : Nat) : Bytes :=
    [UInt8.ofNat (n / 2 ^ 24), UInt8.ofNat (n / 2 ^ 16), UInt8.ofNat (n / 2 ^ 8), UInt8.ofNat n, 0, 0, 0, 1]

private theorem loop_goes_on (rest : Bytes) (turns : Nat) : nvlistNextTurns (loopHead ++ rest) turns 12 = .goesOn ∧
    nvlistNextTurns (loopHead ++ rest) turns 20 = .goesOn := by
  have length : (loopHead ++ rest).length = 28 + rest.length := length_append
  have inside : ∀ q : Int, 0 ≤ q → q ≤ 24 → Inside (loopHead ++ rest) q 4 := by
    intro q start ends
    refine ⟨start, ?_⟩
    push_cast
    omega
  have sizes : xdrInt (loopHead ++ rest) 12 = 8 ∧ xdrInt (loopHead ++ rest) 16 = 1 ∧ xdrInt (loopHead ++ rest) 20 = -8 ∧
      xdrInt (loopHead ++ rest) 24 = 1 := by
    simp [xdrInt, xdrUInt, loopHead, loopHead.xdrSizes]
  obtain ⟨size₁, decoded₁, size₂, decoded₂⟩ := sizes
  induction turns with
  | zero => exact ⟨rfl, rfl⟩
  | succ turns ih =>
    have first := (xdrIntAt_inside (inside 12 (by decide) (by decide))).trans (congrArg some size₁)
    have second : xdrIntAt (loopHead ++ rest) (12 + 4) = some 1 :=
      (xdrIntAt_inside (inside 16 (by decide) (by decide))).trans (congrArg some decoded₁)
    have third := (xdrIntAt_inside (inside 20 (by decide) (by decide))).trans (congrArg some size₂)
    have fourth : xdrIntAt (loopHead ++ rest) (20 + 4) = some 1 :=
      (xdrIntAt_inside (inside 24 (by decide) (by decide))).trans (congrArg some decoded₂)
    constructor
    · rw [nvlistNextTurns, first, second]
      exact ih.2
    · rw [nvlistNextTurns, third, fourth]
      exact ih.1

theorem nvlistNext_never_ends :
    (loopHead ++ replicate 114620 0).length = 112 * 1024 - 40 ∧ ¬Robust (loopHead ++ replicate 114620 0) 4 := by
  refine ⟨by rw [length_append, length_replicate]; rfl, ?_⟩
  rintro ⟨-, turns, _, ran⟩
  rw [nvlistNextRun] at ran
  split_ifs at ran
  rw [show (4 : Int) + 8 = 12 from rfl, (loop_goes_on _ turns).1] at ran
  cases ran

/-- Two pairs of one name and type: the second, whose value is behind the end of the buffer, leads back to the zero
pair. -/
private def pairs : Bytes := [1, 0, 0, 0, 0, 0, 0, 0, 0, 0, 0, 1] ++
  [0, 0, 0, 40, 0, 0, 0, 1, 0, 0, 0, 1, 97, 0, 0, 0, 0, 0, 0, 8, 0, 0, 0, 1, 0, 0, 0, 0, 0, 0, 0, 5] ++ replicate 8 0 ++
  [255, 255, 255, 248, 0, 0, 0, 1, 0, 0, 0, 1, 97, 0, 0, 0, 0, 0, 0, 8]

private theorem second_chained : Chained pairs [12] 52 := by
  apply Chained.pair (by decide) (by decide) (by decide) (by decide)
  · intro name named fresh
    have other : ¬Names pairs name 12 := fun named => fresh 12 (mem_cons_self ..) ⟨named, by decide⟩
    refine (other ?_).elim
    intro i small
    obtain rfl : i = 0 := Nat.lt_one_iff.1 (small.trans_eq (by decide))
    exact (named 0 (by decide)).trans (by decide)
  · exact .last (by decide) (by decide)

theorem robust_pairs : pairs.length = 72 ∧ Robust pairs 4 := by
  refine ⟨by decide, (robust_iff (by decide)).2 ⟨by decide, ?_⟩⟩
  apply Chained.pair (by decide) (by decide) (by decide) (by decide) (fun _ _ _ => by decide)
  rw [show ((4 : Int) + 8) + xdrInt pairs ((4 : Int) + 8).toNat = 52 by decide]
  exact second_chained

end Pcbsd.Zfs
