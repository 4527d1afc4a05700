import Pcbsd.Ufsread

/-! When the scan of a directory ends, within its buffer. -/

namespace Pcbsd.Ufsread
open Lib List

variable {mem : Memory} {ls : Bool} {name : Bytes} {p : Nat}

def Within (a : Nat) : Prop := a < devBsize

def Spells (mem : Memory) (name : Bytes) (a : Nat) : Prop := ∀ j ≤ name.length, mem (a + j) = (name ++ [0]).getD j 0

theorem Spells.cons {c : UInt8} {a : Nat} : Spells mem (c :: name) a ↔ mem a = c ∧ Spells mem name (a + 1) := by
  constructor
  · intro all
    refine ⟨all 0 (Nat.zero_le _), fun j le => ?_⟩
    have next := all (j + 1) (Nat.succ_le_succ le)
    rw [Nat.add_assoc, Nat.add_comm 1 j]
    exact next
  · rintro ⟨first, rest⟩ j le
    cases j with
    | zero => exact first
    | succ j =>
      have next := rest j (Nat.le_of_succ_le_succ le)
      rw [Nat.add_assoc, Nat.add_comm 1 j] at next
      exact next

theorem strcmp_value (mem : Memory) (name : Bytes) :
    ∀ a, (tracedStrcmp mem name a).value = true ↔ Spells mem name a := by
  induction name with
  | nil =>
    intro a
    refine (beq_iff_eq (a := mem a) (b := 0)).trans ⟨fun nul j le => ?_, fun all => all 0 (Nat.zero_le _)⟩
    obtain rfl : j = 0 := Nat.le_zero.mp le
    exact nul
  | cons _ name ih =>
    intro a
    rw [Spells.cons, ← ih, tracedStrcmp, Traced.value_bind]
    split
    next same => exact (and_iff_right same).symm
    next other => exact iff_of_false Bool.false_ne_true fun both => other both.1

def Decided (mem : Memory) (name : Bytes) (a : Nat) : Prop :=
  a + name.length < devBsize ∨ ∃ j < name.length, a + j < devBsize ∧ mem (a + j) ≠ name.getD j 0

theorem Decided.cons {c : UInt8} {a : Nat} :
    Decided mem (c :: name) a ↔ a < devBsize ∧ (mem a = c → Decided mem name (a + 1)) := by
  constructor
  · rintro (fits | ⟨j, less, inside, differs⟩)
    · rw [length_cons] at fits
      exact ⟨by omega, fun _ => Or.inl (by omega)⟩
    · refine ⟨by omega, fun same => ?_⟩
      cases j with
      | zero => exact absurd same differs
      | succ j =>
        rw [← Nat.add_assoc, Nat.add_right_comm] at inside differs
        exact Or.inr ⟨j, Nat.lt_of_succ_lt_succ less, inside, differs⟩
  · rintro ⟨inside, rest⟩
    by_cases same : mem a = c
    · rcases rest same with fits | ⟨j, less, within, differs⟩
      · exact Or.inl (by rw [length_cons]; omega)
      · rw [Nat.add_right_comm, Nat.add_assoc] at within differs
        exact Or.inr ⟨j + 1, Nat.succ_lt_succ less, within, differs⟩
    · exact Or.inr ⟨0, Nat.succ_pos _, inside, same⟩

theorem strcmp_inside (mem : Memory) (name : Bytes) :
    ∀ a, Traced.All Within (tracedStrcmp mem name a) ↔ Decided mem name a := by
  induction name with
  | nil =>
    intro a
    refine ⟨fun all => Or.inl (all a (mem_singleton_self a)), ?_⟩
    rintro (fits | ⟨_, less, _⟩) _ inside
    · rw [mem_singleton.mp inside]
      exact fits
    · cases less
  | cons _ name ih =>
    intro a
    rw [Decided.cons, tracedStrcmp, Traced.all_bind, Traced.all_tell, forall_mem_singleton]
    refine and_congr_right fun _ => ?_
    split
    next same => exact (ih (a + 1)).trans ⟨fun decided _ => decided, fun decided => decided same⟩
    next other => exact iff_of_true (fun _ none => absurd none not_mem_nil) fun same => absurd same other

theorem print_inside (mem : Memory) (fuel : Nat) : ∀ a, 0 < fuel → devBsize < a + fuel →
    (Traced.All Within (tracedPrint mem fuel a) ↔ ∃ j, a + j < devBsize ∧ mem (a + j) = 0) := by
  induction fuel with
  | zero => exact fun a none => absurd none (Nat.lt_irrefl 0)
  | succ fuel ih =>
    intro a _ enough
    rw [tracedPrint, Traced.all_bind, Traced.all_tell, forall_mem_singleton]
    by_cases inside : a < devBsize
    · refine (and_iff_right inside).trans ?_
      split
      next nul => exact iff_of_true (fun _ none => absurd none not_mem_nil) ⟨0, inside, nul⟩
      next more =>
        refine (ih (a + 1) (by omega) (by omega)).trans ⟨fun ⟨j, within, nul⟩ => ⟨j + 1, ?_⟩, fun ⟨j, within, nul⟩ => ?_⟩
        · rw [← Nat.add_assoc, Nat.add_right_comm]
          exact ⟨within, nul⟩
        · cases j with
          | zero => exact absurd nul more
          | succ j =>
            rw [← Nat.add_assoc, Nat.add_right_comm] at within nul
            exact ⟨j, within, nul⟩
    · exact iff_of_false (fun both => inside both.1) fun ⟨j, within, _⟩ => inside (by omega)

def NameEnds (mem : Memory) (ls : Bool) (name : Bytes) (p : Nat) : Prop :=
  if ls then ∃ j, p + 8 + j < devBsize ∧ mem (p + 8 + j) = 0 else Decided mem name (p + 8)

def Hit (mem : Memory) (ls : Bool) (name : Bytes) (p : Nat) : Prop := ls = false ∧ Spells mem name (p + 8)

theorem entry_inside (mem : Memory) (ls : Bool) (name : Bytes) (p : Nat) :
    Traced.All Within (tracedEntry mem ls name p) ↔ NameEnds mem ls name p := by
  cases ls with
  | false => exact strcmp_inside mem name (p + 8)
  | true =>
    refine ((Traced.all_bind _ _).trans (and_iff_left ?_)).trans (print_inside mem devBsize (p + 8) (by decide) (by omega))
    exact fun _ none => absurd none not_mem_nil

theorem entry_value (mem : Memory) (ls : Bool) (name : Bytes) (p : Nat) :
    (tracedEntry mem ls name p).value = true ↔ Hit mem ls name p := by
  cases ls with
  | false => exact (strcmp_value mem name (p + 8)).trans (and_iff_right rfl).symm
  | true => exact iff_of_false Bool.false_ne_true fun hit => absurd hit.1 (by decide)

theorem NameEnds.header (ends : NameEnds mem ls name p) : p + 8 < devBsize := by
  rw [NameEnds] at ends
  split at ends
  · obtain ⟨j, within, _⟩ := ends
    omega
  · rcases ends with _ | ⟨j, _, within, _⟩
    · omega
    · omega

theorem scan_over (fuel : Nat) (past : devBsize ≤ p) : tracedScan mem ls name fuel p = pure .passed := by
  cases fuel with
  | zero =>
    rw [tracedScan, if_pos past]
  | succ fuel => rw [tracedScan, if_pos past]

theorem scan_hit (fuel : Nat) (inside : p < devBsize) (hit : Hit mem ls name p) :
    (tracedScan mem ls name (fuel + 1) p).value ≠ .running ∧ (tracedScan mem ls name (fuel + 1) p).value ≠ .passed ∧
      (Traced.All Within (tracedScan mem ls name (fuel + 1) p) ↔ NameEnds mem ls name p) := by
  rw [tracedScan, if_neg (Nat.not_le_of_lt inside), Traced.value_bind, (entry_value mem ls name p).mpr hit, if_pos rfl]
  refine ⟨fun none => (by cases none), fun none => (by cases none), ?_⟩
  rw [Traced.all_bind, entry_inside, (entry_value mem ls name p).mpr hit, if_pos rfl]
  refine and_iff_left_of_imp fun ends => ?_
  have header := ends.header
  rw [Traced.all_bind, Traced.all_tell]
  refine ⟨fun e there => ?_, fun _ none => absurd none not_mem_nil⟩
  rw [Within]
  simp only [mem_cons, not_mem_nil, or_false] at there
  omega

theorem scan_step (fuel : Nat) (inside : p < devBsize) (other : ¬ Hit mem ls name p) :
    (tracedScan mem ls name (fuel + 1) p).value = (tracedScan mem ls name fuel (p + reclen mem p)).value ∧
      (Traced.All Within (tracedScan mem ls name (fuel + 1) p) ↔
        NameEnds mem ls name p ∧ Traced.All Within (tracedScan mem ls name fuel (p + reclen mem p))) := by
  have missed := Bool.eq_false_iff.mpr (mt (entry_value mem ls name p).mp other)
  rw [tracedScan, if_neg (Nat.not_le_of_lt inside), Traced.value_bind, missed, if_neg Bool.false_ne_true]
  refine ⟨rfl, ?_⟩
  rw [Traced.all_bind, entry_inside, missed, if_neg Bool.false_ne_true, Traced.all_bind, Traced.all_tell]
  refine and_congr_right fun ends => and_iff_right fun e there => ?_
  have header := ends.header
  rw [Within]
  simp only [mem_cons, not_mem_nil, or_false] at there
  omega

inductive Reached (mem : Memory) (ls : Bool) (name : Bytes) : Nat → Prop
  | start : Reached mem ls name 0
  | next {p : Nat} (here : Reached mem ls name p) (inside : p < devBsize) (other : ¬ Hit mem ls name p) :
    Reached mem ls name (p + reclen mem p)

/-- Every entry that the cursor comes to has a name that ends in the buffer, and it is the one looked for or has a
length. -/
def EntriesSound (mem : Memory) (ls : Bool) (name : Bytes) : Prop :=
  ∀ p, Reached mem ls name p → p < devBsize → NameEnds mem ls name p ∧ (Hit mem ls name p ∨ reclen mem p ≠ 0)

def Ends (mem : Memory) (ls : Bool) (name : Bytes) (p : Nat) : Prop :=
  ∃ fuel, (tracedScan mem ls name fuel p).value ≠ .running ∧ Traced.All Within (tracedScan mem ls name fuel p)

theorem Ends.turn (ends : Ends mem ls name p) (inside : p < devBsize) : ∃ fuel,
    (tracedScan mem ls name (fuel + 1) p).value ≠ .running ∧
    Traced.All Within (tracedScan mem ls name (fuel + 1) p) := by
  obtain ⟨fuel, stops, within⟩ := ends
  cases fuel with
  | zero =>
    rw [tracedScan, if_neg (Nat.not_le_of_lt inside)] at stops
    exact absurd rfl stops
  | succ fuel => exact ⟨fuel, stops, within⟩

theorem Ends.next (ends : Ends mem ls name p) (inside : p < devBsize) (other : ¬ Hit mem ls name p) :
    Ends mem ls name (p + reclen mem p) := by
  obtain ⟨fuel, stops, within⟩ := ends.turn inside
  rw [(scan_step fuel inside other).1] at stops
  exact ⟨fuel, stops, ((scan_step fuel inside other).2.mp within).2⟩

theorem scan_stays (inside : p < devBsize) (other : ¬ Hit mem ls name p) (zero : reclen mem p = 0) (fuel : Nat) :
    (tracedScan mem ls name fuel p).value = .running := by
  induction fuel with
  | zero => rw [tracedScan, if_neg (Nat.not_le_of_lt inside)]; rfl
  | succ fuel ih => rw [(scan_step fuel inside other).1, zero, Nat.add_zero, ih]

theorem entriesSound_of_ends (ends : Ends mem ls name 0) : EntriesSound mem ls name := by
  have all : ∀ p, Reached mem ls name p → Ends mem ls name p := by
    intro p reached
    induction reached with
    | start => exact ends
    | next _ inside other ih => exact ih.next inside other
  intro p reached inside
  obtain ⟨fuel, stops, within⟩ := (all p reached).turn inside
  by_cases hit : Hit mem ls name p
  · exact ⟨(scan_hit fuel inside hit).2.2.mp within, Or.inl hit⟩
  · exact ⟨((scan_step fuel inside hit).2.mp within).1, Or.inr fun zero => stops (scan_stays inside hit zero (fuel + 1))⟩

theorem ends_of_entriesSound (sound : EntriesSound mem ls name) (left : Nat) : ∀ p, Reached mem ls name p → devBsize ≤ p + left →
    (tracedScan mem ls name left p).value ≠ .running ∧ Traced.All Within (tracedScan mem ls name left p) := by
  have beyond : ∀ fuel p, devBsize ≤ p →
      (tracedScan mem ls name fuel p).value ≠ .running ∧ Traced.All Within (tracedScan mem ls name fuel p) := by
    intro fuel p past
    rw [scan_over fuel past]
    exact ⟨fun none => (by cases none), fun _ none => absurd none not_mem_nil⟩
  induction left with
  | zero => exact fun p _ past => beyond 0 p past
  | succ left ih =>
    intro p reached enough
    by_cases inside : p < devBsize
    · obtain ⟨name_ends, goes⟩ := sound p reached inside
      by_cases hit : Hit mem ls name p
      · exact ⟨(scan_hit left inside hit).1, (scan_hit left inside hit).2.2.mpr name_ends⟩
      · have some := goes.resolve_left hit
        obtain ⟨stops, within⟩ := ih (p + reclen mem p) (.next reached inside hit) (by omega)
        exact ⟨by rw [(scan_step left inside hit).1]; exact stops, (scan_step left inside hit).2.mpr ⟨name_ends, within⟩⟩
    · exact beyond _ p (Nat.le_of_not_lt inside)

def Found (mem : Memory) (ls : Bool) (name : Bytes) : Prop :=
  ∃ p, Reached mem ls name p ∧ p < devBsize ∧ Hit mem ls name p

theorem scan_found (fuel : Nat) : ∀ p, Reached mem ls name p → (tracedScan mem ls name fuel p).value ≠ .running →
    (tracedScan mem ls name fuel p).value ≠ .passed → Found mem ls name := by
  induction fuel with
  | zero =>
    intro p _ stops more
    rw [tracedScan] at stops more
    split at more
    next _ => exact absurd rfl more
    next inside =>
      rw [if_neg inside] at stops
      exact absurd rfl stops
  | succ fuel ih =>
    intro p reached stops more
    by_cases inside : p < devBsize
    · by_cases hit : Hit mem ls name p
      · exact ⟨p, reached, inside, hit⟩
      · rw [(scan_step fuel inside hit).1] at stops more
        exact ih _ (.next reached inside hit) stops more
    · rw [scan_over _ (Nat.le_of_not_lt inside)] at more
      exact absurd rfl more

theorem found_not_passed (found : Found mem ls name) (fuel : Nat) :
    (tracedScan mem ls name fuel 0).value ≠ .passed := by
  obtain ⟨p, reached, inside, hit⟩ := found
  intro passed
  have all : ∀ q, Reached mem ls name q → ∃ fuel, (tracedScan mem ls name fuel q).value = .passed := by
    intro q there
    induction there with
    | start => exact ⟨fuel, passed⟩
    | @next q _ within other ih =>
      obtain ⟨fuel, passed⟩ := ih
      cases fuel with
      | zero =>
        rw [tracedScan, if_neg (Nat.not_le_of_lt within)] at passed
        cases passed
      | succ fuel => exact ⟨fuel, (scan_step fuel within other).1.symm.trans passed⟩
  obtain ⟨fuel, passed⟩ := all p reached
  cases fuel with
  | zero =>
    rw [tracedScan, if_neg (Nat.not_le_of_lt inside)] at passed
    cases passed
  | succ fuel => exact (scan_hit fuel inside hit).2.1 passed

/-- The buffers of a directory, each with what the one before has left behind the piece, up to the first that has the
entry. -/
def DirSound (behind : Memory) (ls : Bool) (name : Bytes) : List Bytes → Bytes → Prop
  | [], _ => True
  | piece :: pieces, buf =>
    let mem := memory (put 0 piece buf) behind
    EntriesSound mem ls name ∧ (Found mem ls name ∨ DirSound behind ls name pieces (put 0 piece buf))

section

variable {behind : Memory} {piece buf : Bytes} {fuel : Nat} (pieces : List Bytes)

theorem fsfind_stops (more : (tracedScan (memory (put 0 piece buf) behind) ls name fuel 0).value ≠ .passed) :
    (tracedFsfind behind ls name fuel (piece :: pieces) buf).value =
      (tracedScan (memory (put 0 piece buf) behind) ls name fuel 0).value ∧
      (Traced.All Within (tracedFsfind behind ls name fuel (piece :: pieces) buf) ↔
        Traced.All Within (tracedScan (memory (put 0 piece buf) behind) ls name fuel 0)) := by
  rw [tracedFsfind, Traced.value_bind, Traced.all_bind]
  cases ended : (tracedScan (memory (put 0 piece buf) behind) ls name fuel 0).value with
  | passed => exact absurd ended more
  | found _ _ => exact ⟨rfl, and_iff_left fun _ none => absurd none not_mem_nil⟩
  | running => exact ⟨rfl, and_iff_left fun _ none => absurd none not_mem_nil⟩

theorem fsfind_passes (passed : (tracedScan (memory (put 0 piece buf) behind) ls name fuel 0).value = .passed) :
    (tracedFsfind behind ls name fuel (piece :: pieces) buf).value =
      (tracedFsfind behind ls name fuel pieces (put 0 piece buf)).value ∧
      (Traced.All Within (tracedFsfind behind ls name fuel (piece :: pieces) buf) ↔
        Traced.All Within (tracedScan (memory (put 0 piece buf) behind) ls name fuel 0) ∧
          Traced.All Within (tracedFsfind behind ls name fuel pieces (put 0 piece buf))) := by
  rw [tracedFsfind, Traced.value_bind, Traced.all_bind, passed]
  exact ⟨rfl, Iff.rfl⟩

end

section

variable {buf : Bytes} {behind : Memory} (room : buf.length = devBsize)
include room

theorem drop_memory {a : Nat} (inside : a < devBsize) : buf.drop a = memory buf behind a :: buf.drop (a + 1) := by
  rw [drop_eq_getElem_cons (by omega), memory, if_pos inside, getD_eq_getElem?_getD, getElem?_eq_getElem (by omega),
    Option.getD_some]

theorem slice_memory (n : Nat) (inside : p + n ≤ devBsize) :
    slice p n buf = (range n).map fun i => memory buf behind (p + i) := by
  apply ext_getElem?
  intro i
  rw [getElem?_slice, getElem?_map]
  split
  next less =>
    rw [getElem?_range less, ← head?_drop, drop_memory room (by omega)]
    rfl
  next _ => rw [getElem?_eq_none (by rw [length_range]; omega), Option.map_none]

theorem takeWhile_strcmp (plain : (0 : UInt8) ∉ name) : ∀ a, Decided (memory buf behind) name a →
    ((buf.drop a).takeWhile (· != 0) = name ↔ (tracedStrcmp (memory buf behind) name a).value = true) := by
  induction name with
  | nil =>
    intro a decided
    rw [drop_memory room (show a < devBsize by rcases decided with fits | ⟨j, less, -⟩; exacts [fits, absurd less (Nat.not_lt_zero j)])]
    rw [tracedStrcmp, takeWhile_cons]
    split
    next more => exact iff_of_false (cons_ne_nil _ _) (by simpa using more)
    next nul => exact iff_of_true rfl (by simpa using nul)
  | cons c name ih =>
    intro a decided
    obtain ⟨inside, rest⟩ := Decided.cons.mp decided
    have some_ : c ≠ 0 := fun zero => plain (zero ▸ mem_cons_self)
    rw [drop_memory room inside, tracedStrcmp, takeWhile_cons, Traced.value_bind]
    by_cases same : memory buf behind a = c
    · rw [if_pos (by rw [same]; simpa using some_), if_pos same, same, cons_inj_right]
      exact ih (fun zero => plain (mem_cons_of_mem _ zero)) (a + 1) (rest same)
    · rw [if_neg same]
      refine iff_of_false ?_ Bool.false_ne_true
      split
      · exact fun other => same (cons.inj other).1
      · exact fun none => by cases none

/-- What a scan comes to, in the words of tracedScan. -/
def scanned : Option (Option (Nat × Nat)) → Scanned
  | none => .running
  | some none => .passed
  | some (some entry) => .found entry.1 entry.2

/-- As long as it reads nothing behind the buffer, the scan finds what it finds in the buffer alone: by induction on
the entries. -/
theorem tracedScan_value (plain : (0 : UInt8) ∉ name) (fuel : Nat) :
    ∀ p, Traced.All Within (tracedScan (memory buf behind) ls name fuel p) →
    (tracedScan (memory buf behind) ls name fuel p).value = scanned (scanDir ls name buf fuel p) := by
  induction fuel with
  | zero =>
    intro p _
    rw [tracedScan, scanDir]
    split <;> rfl
  | succ fuel ih =>
    intro p within
    by_cases past : devBsize ≤ p
    · rw [scan_over _ past, scanDir, if_pos past]
      rfl
    have inside := not_le.mp past
    rw [scanDir, if_neg past]
    have test (ends : NameEnds (memory buf behind) ls name p) :
        (!ls && (buf.drop (p + 8)).takeWhile (· != 0) == name) = true ↔ Hit (memory buf behind) ls name p := by
      cases ls with
      | true => exact iff_of_false (by simp) fun hit => absurd hit.1 (by decide)
      | false =>
        rw [Bool.not_false, Bool.true_and, beq_iff_eq, takeWhile_strcmp room plain _ ends, strcmp_value]
        exact (and_iff_right rfl).symm
    by_cases hit : Hit (memory buf behind) ls name p
    · have ends := (scan_hit fuel inside hit).2.2.mp within
      have header := ends.header
      rw [if_pos ((test ends).mpr hit), tracedScan, if_neg past, Traced.value_bind, (entry_value _ ls name p).mpr hit,
        if_pos rfl, le, le, slice_memory room 4 (by omega), slice_memory room 1 (by omega)]
      rfl
    · obtain ⟨same, parts⟩ := scan_step fuel inside hit
      obtain ⟨ends, rest⟩ := parts.mp within
      have header := ends.header
      rw [if_neg (mt (test ends).mp hit), same, ih _ rest, le, slice_memory room 2 (by omega)]
      rfl

end

/-- A turn of the client's loop over the directory does what a turn over the pieces does that stays in the buffer. -/
theorem fsfindLoop_turn (behind : Memory) (plain : (0 : UInt8) ∉ name) (ino fuel : Nat) (buf : Bytes)
    (k : Nat → Nat → Bytes → Client) :
    ∃ next, fsfindLoop ls name ino (fuel + 1) buf k = .fsread ino devBsize next ∧
      ∀ n piece, (put 0 piece buf).length = devBsize →
      Traced.All Within (tracedFsfind behind ls name devBsize [piece] buf) → next (.count (n + 1) piece) =
        match (tracedFsfind behind ls name devBsize [piece] buf).value with
        | .found found type => k found type (put 0 piece buf)
        | .passed => fsfindLoop ls name ino fuel (put 0 piece buf) k
        | .running => .done := by
  refine ⟨_, rfl, fun n piece room within => ?_⟩
  rw [tracedFsfind, Traced.all_bind] at within
  rw [tracedFsfind, Traced.value_bind, tracedScan_value room plain devBsize 0 within.1]
  dsimp only
  cases scanDir ls name (put 0 piece buf) devBsize 0 with
  | none => rfl
  | some found => cases found <;> rfl

theorem dirSound_of_ends (behind : Memory) (ls : Bool) (name : Bytes) (fuel : Nat) (pieces : List Bytes) : ∀ buf,
    (tracedFsfind behind ls name fuel pieces buf).value ≠ .running →
      Traced.All Within (tracedFsfind behind ls name fuel pieces buf) → DirSound behind ls name pieces buf := by
  induction pieces with
  | nil => exact fun _ _ _ => trivial
  | cons piece pieces ih =>
    intro buf stops within
    by_cases passed : (tracedScan (memory (put 0 piece buf) behind) ls name fuel 0).value = .passed
    · obtain ⟨same, parts⟩ := fsfind_passes pieces passed
      rw [same] at stops
      refine ⟨entriesSound_of_ends ⟨fuel, ?_, (parts.mp within).1⟩, Or.inr (ih _ stops (parts.mp within).2)⟩
      rw [passed]
      exact fun none => by cases none
    · obtain ⟨same, parts⟩ := fsfind_stops pieces passed
      rw [same] at stops
      exact ⟨entriesSound_of_ends ⟨fuel, stops, parts.mp within⟩, Or.inl (scan_found fuel 0 .start stops passed)⟩

theorem ends_of_dirSound (behind : Memory) (ls : Bool) (name : Bytes) (pieces : List Bytes) :
    ∀ buf, DirSound behind ls name pieces buf →
    (tracedFsfind behind ls name devBsize pieces buf).value ≠ .running ∧
      Traced.All Within (tracedFsfind behind ls name devBsize pieces buf) := by
  induction pieces with
  | nil => exact fun _ _ => ⟨fun none => (by cases none), fun _ none => absurd none not_mem_nil⟩
  | cons piece pieces ih =>
    rintro buf ⟨sound, rest⟩
    obtain ⟨stops, within⟩ := ends_of_entriesSound sound devBsize 0 .start (Nat.le_add_left _ _)
    by_cases passed : (tracedScan (memory (put 0 piece buf) behind) ls name devBsize 0).value = .passed
    · obtain ⟨same, parts⟩ := fsfind_passes pieces passed
      obtain ⟨rest_stops, rest_within⟩ := ih _ (rest.resolve_left fun found => found_not_passed found _ passed)
      rw [same]
      exact ⟨rest_stops, parts.mpr ⟨within, rest_within⟩⟩
    · obtain ⟨same, parts⟩ := fsfind_stops pieces passed
      rw [same]
      exact ⟨stops, parts.mpr within⟩

/-- fsfind ends, and has read nothing outside of its buffer, just when the entries are sound. -/
theorem fsfind_ends_iff (behind : Memory) (ls : Bool) (name : Bytes) (pieces : List Bytes) (buf : Bytes) :
    (∃ fuel, (tracedFsfind behind ls name fuel pieces buf).value ≠ .running ∧
      Traced.All Within (tracedFsfind behind ls name fuel pieces buf)) ↔ DirSound behind ls name pieces buf := by
  refine ⟨fun ⟨fuel, stops, within⟩ => ?_, fun sound => ?_⟩
  · exact dirSound_of_ends behind ls name fuel pieces buf stops within
  · exact ⟨devBsize, ends_of_dirSound behind ls name pieces buf sound⟩

/-- A block of zeros has an entry without a length. -/
theorem fsfind_zeros_endless :
    ¬ ∀ (behind : Memory) (ls : Bool) (name : Bytes) (pieces : List Bytes) (buf : Bytes), ∃ fuel,
    (tracedFsfind behind ls name fuel pieces buf).value ≠ .running ∧
    Traced.All Within (tracedFsfind behind ls name fuel pieces buf) := by
  intro all
  obtain ⟨fuel, stops, within⟩ := all (fun _ => 0) false [97] [replicate devBsize 0] (replicate devBsize 0)
  obtain ⟨sound, _⟩ := dirSound_of_ends _ _ _ fuel _ _ stops within
  obtain ⟨_, other | zero⟩ := sound 0 .start (by decide)
  · exact absurd (Spells.cons.mp other.2).1 (by decide)
  · exact zero (by decide)

end Pcbsd.Ufsread
