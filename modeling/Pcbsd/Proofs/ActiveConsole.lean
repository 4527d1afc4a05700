import Mathlib.Data.List.Basic
import Pcbsd.Consoles

/-! Which consoles are active: the listed ones behind an accepted assignment, and at least one in every run that does
not start with a $console of unknown names. -/

namespace Pcbsd.Consoles
open Lib List

variable {s : State} {consoles : List Console} {string name : Bytes} {i : Nat}

def listed (consoles : List Console) (list : List Bytes) (i : Nat) : Bool :=
  list.any fun item => item ≠ [] && consFind consoles item == some i

def Names (consoles : List Console) (string : Bytes) : Prop :=
  ∃ item ∈ items string, item ≠ [] ∧ (consFind consoles item).isSome

def Active (s : State) : Prop := ∃ console ∈ s.consoles, console.flags.activein = true ∧ console.flags.activeout = true

def Sets (before after : List Console) (active : Nat → Bool) : Prop :=
  after = before.mapIdx fun i console => console.setActive (active i)

section

theorem consFind_congr {other : List Console} (same : consoles.map Console.name = other.map Console.name)
    (name : Bytes) :
    consFind consoles name = consFind other name := by
  have by_name (list : List Console) : consFind list name = (list.map Console.name).findIdx? (· == name) := by
    rw [consFind, findIdx?_map]
    rfl
  rw [by_name, by_name, same]

theorem setActive_setActive (first second : Bool) (console : Console) :
    (console.setActive first).setActive second = console.setActive second := rfl

variable {before : List Console} {active : Nat → Bool}

theorem names_of_sets {after : List Console} (sets : Sets before after active) :
    after.map Console.name = before.map Console.name := by
  refine ext_getElem? fun i => ?_
  rw [sets, getElem?_map, getElem?_map, getElem?_mapIdx]
  cases before[i]? <;> rfl

theorem sets_none (consoles : List Console) :
    Sets consoles (consoles.map (Console.setActive false)) fun _ => false := by
  refine ext_getElem? fun i => ?_
  rw [getElem?_map, getElem?_mapIdx]

theorem sets_activate (sets : Sets before s.consoles active) (i : Nat) :
    Sets before (s.activate i).consoles fun j => active j || i == j := by
  have same : (s.activate i).consoles = s.consoles.modify i (Console.setActive true) := rfl
  rw [Sets, same, sets]
  refine ext_getElem? fun j => ?_
  rw [getElem?_modify, getElem?_mapIdx, getElem?_mapIdx]
  cases before[j]? with
  | none => rfl
  | some _ =>
    by_cases here : i = j
    · simp [here, setActive_setActive]
    · simp [here, beq_false_of_ne here]

theorem sets_changeItem (sets : Sets before s.consoles active) (item : Bytes) :
    Sets before (changeItem s item).consoles fun j => active j || listed before [item] j := by
  rw [changeItem]
  by_cases nothing : item = []
  · simpa [listed, nothing] using sets
  · rw [if_neg nothing, consFind_congr (names_of_sets sets)]
    cases found : consFind before item with
    | none => simpa [listed, found] using sets
    | some i =>
      have own := sets_activate sets i
      simpa [listed, nothing, found] using own

theorem sets_foldl (list : List Bytes) (sets : Sets before s.consoles active) :
    Sets before (list.foldl changeItem s).consoles fun j => active j || listed before list j := by
  induction list generalizing s active with
  | nil => simpa [listed] using sets
  | cons item _ ih =>
    have both := ih (sets_changeItem sets item)
    simpa [listed, Bool.or_assoc] using both

theorem consChange_sets (string : Bytes) (s : State) : Sets s.consoles (consChange string s).consoles
    (listed s.consoles (items string)) := by
  have all := @sets_foldl { s with consoles := s.consoles.map (Console.setActive false) } s.consoles _ (items string)
    (sets_none s.consoles)
  rw [consChange]
  simpa using all

end

theorem checkItems_isSome_iff (list : List Bytes) (cons : Option Nat) :
    (checkItems consoles list cons).isSome ↔
      (∀ item ∈ list, item ≠ [] → (consFind consoles item).isSome) ∧ (cons.isSome ∨ ∃ item ∈ list, item ≠ []) := by
  induction list generalizing cons with
  | nil => simp [checkItems]
  | cons item _ ih =>
    rw [checkItems]
    by_cases nothing : item = []
    · rw [if_pos nothing, ih]
      simp [nothing]
    · cases found : consFind consoles item with
      | none => simp [nothing, found]
      | some _ => simp [ih, nothing, found]

theorem consCheck_isSome_iff (string : Bytes) :
    (consCheck consoles string).isSome ↔
      (∀ item ∈ items string, item ≠ [] → (consFind consoles item).isSome) ∧ ∃ item ∈ items string, item ≠ [] := by
  rw [consCheck, checkItems_isSome_iff]
  simp

theorem names_of_check (accepted : (consCheck consoles string).isSome) : Names consoles string := by
  obtain ⟨known, item, member, some_⟩ := consCheck_isSome_iff string |>.mp accepted
  exact ⟨item, member, some_, known item member some_⟩

theorem active_of_sets {before : List Console} {active : Nat → Bool} (sets : Sets before s.consoles active) :
    Active s ↔ ∃ i < before.length, active i = true := by
  rw [Active, sets]
  constructor
  · rintro ⟨_, member, on, -⟩
    obtain ⟨i, inside, rfl⟩ := mem_mapIdx.mp member
    exact ⟨i, inside, on⟩
  · rintro ⟨i, inside, on⟩
    exact ⟨_, mem_mapIdx.mpr ⟨i, inside, rfl⟩, on, on⟩

theorem listed_iff (list : List Bytes) (i : Nat) :
    listed consoles list i = true ↔ ∃ item ∈ list, item ≠ [] ∧ consFind consoles item = some i := by
  rw [listed, any_eq_true]
  refine exists_congr fun item => and_congr_right fun _ => ?_
  rw [Bool.and_eq_true, decide_eq_true_iff, beq_iff_eq]

theorem consChange_active_iff (string : Bytes) (s : State) :
    Active (consChange string s) ↔ Names s.consoles string := by
  rw [active_of_sets (consChange_sets string s)]
  constructor
  · rintro ⟨i, -, on⟩
    obtain ⟨item, member, some_, found⟩ := (listed_iff _ _).mp on
    exact ⟨item, member, some_, by rw [found]; rfl⟩
  · rintro ⟨item, member, some_, known⟩
    obtain ⟨i, found⟩ := Option.isSome_iff_exists.mp known
    refine ⟨i, ?_, (listed_iff _ _).mpr ⟨item, member, some_, found⟩⟩
    exact (findIdx?_eq_some_iff_getElem.mp found).1

/-- What an assignment to $console does: one that is rejected changes nothing, one that is accepted activates the
listed consoles. -/
theorem consSet_spec (value : Option Bytes) (s : State) :
    ((consSet value s).1 = false → (consSet value s).2 = s) ∧
      ((consSet value s).1 = true → ∃ string, value = some string ∧ (consCheck s.consoles string).isSome ∧
        Sets s.consoles (consSet value s).2.consoles (listed s.consoles (items string)) ∧ Active (consSet value s).2) := by
  cases value with
  | none => exact ⟨fun _ => rfl, fun accepted => by cases accepted⟩
  | some string =>
    rw [consSet]
    by_cases unknown : consCheck s.consoles string = none
    · rw [if_pos unknown]
      exact ⟨fun _ => rfl, fun accepted => by cases accepted⟩
    · rw [if_neg unknown]
      have known := Option.isSome_iff_ne_none.mpr unknown
      exact ⟨(fun rejected => by cases rejected), fun _ =>
        ⟨string, rfl, known, consChange_sets string s, (consChange_active_iff string s).mpr (names_of_check known)⟩⟩

theorem consSet_active (value : Option Bytes) (active : Active s) : Active (consSet value s).2 := by
  cases accepted : (consSet value s).1 with
  | false => rwa [(consSet_spec value s).1 accepted]
  | true =>
    obtain ⟨_, -, -, -, still⟩ := (consSet_spec value s).2 accepted
    exact still

theorem assign_active (values : List (Option Bytes)) (active : Active s) : Active (assign values s) := by
  induction values generalizing s with
  | nil => exact active
  | cons value _ ih => exact ih (consSet_active value active)

theorem findWorking_names (probe : Nat → Flags) (cons : Nat) (consoles : List Console) :
    (findWorking probe cons consoles).1.map Console.name = consoles.map Console.name := by
  induction consoles generalizing cons with
  | nil => rfl
  | cons console _ ih =>
    rw [findWorking]
    split
    · rfl
    · exact congrArg (console.name :: ·) (ih (cons + 1))

theorem findWorking_lt {probe : Nat → Flags} {cons active : Nat}
    (found : (findWorking probe cons consoles).2 = some active) :
    cons ≤ active ∧ active < cons + consoles.length := by
  induction consoles generalizing cons with
  | nil => cases found
  | cons _ _ ih =>
    rw [findWorking] at found
    rw [length_cons]
    split at found
    · cases found
      omega
    · have := ih found
      omega

def probed (first second : Nat → Flags) (s : State) : State :=
  { s with consoles := (findWorking second 0 (s.consoles.mapIdx fun cons => Console.probed (first cons))).1 }

theorem probed_names (first second : Nat → Flags) (s : State) :
    (probed first second s).consoles.map Console.name = s.consoles.map Console.name := by
  rw [probed, findWorking_names]
  refine ext_getElem? fun i => ?_
  rw [getElem?_map, getElem?_map, getElem?_mapIdx]
  cases s.consoles[i]? <;> rfl

theorem consProbe_preferred {first second : Nat → Flags} {prefconsole : Bytes} (preferred : s.variable_ = some prefconsole) :
    consProbe first second s = { consChange prefconsole (probed first second s) with variable_ := some prefconsole } := by
  obtain ⟨_, _, value⟩ := s
  obtain rfl : value = some prefconsole := preferred
  rfl

def firstWorking (first second : Nat → Flags) (s : State) : Nat :=
  (findWorking second 0 (s.consoles.mapIdx fun cons => Console.probed (first cons))).2.getD 0

theorem consProbe_unset {first second : Nat → Flags} (unset : s.variable_ = none) :
    (consProbe first second s).consoles = (probed first second s).consoles.modify (firstWorking first second s)
    (Console.setActive true) := by
  obtain ⟨consoles, _, value⟩ := s
  obtain rfl : value = none := unset
  rfl

theorem firstWorking_lt (first second : Nat → Flags) (some_ : s.consoles ≠ []) :
    firstWorking first second s < s.consoles.length := by
  rw [firstWorking]
  cases found : (findWorking second 0 (s.consoles.mapIdx fun cons => Console.probed (first cons))).2 with
  | none => exact length_pos_of_ne_nil some_
  | some _ =>
    have inside := (findWorking_lt found).2
    rwa [length_mapIdx, Nat.zero_add] at inside

theorem consProbe_active_iff (first second : Nat → Flags) (some_ : s.consoles ≠ []) :
    Active (consProbe first second s) ↔ ∀ prefconsole, s.variable_ = some prefconsole →
    Names s.consoles prefconsole := by
  have names := probed_names first second s
  have length : (probed first second s).consoles.length = s.consoles.length := by
    rw [← length_map Console.name, names, length_map]
  cases preferred : s.variable_ with
  | some prefconsole =>
    have known : Names (probed first second s).consoles prefconsole ↔ Names s.consoles prefconsole := by
      rw [Names, Names]
      refine exists_congr fun item => and_congr_right fun _ => and_congr_right fun _ => ?_
      rw [consFind_congr names]
    have active : Active (consProbe first second s) ↔ Active (consChange prefconsole (probed first second s)) := by
      rw [consProbe_preferred preferred]
      rfl
    rw [active, consChange_active_iff, known]
    constructor
    · intro holds _ same
      cases same
      exact holds
    · exact fun all => all _ rfl
  | none =>
    refine iff_of_true ?_ fun _ same => by cases same
    have inside : firstWorking first second s < (probed first second s).consoles.length := by
      rw [length]
      exact firstWorking_lt first second some_
    refine ⟨((probed first second s).consoles[firstWorking first second s]).setActive true, ?_, rfl, rfl⟩
    rw [consProbe_unset preferred]
    apply mem_of_getElem?
    rw [getElem?_modify_eq, getElem?_eq_getElem inside]
    rfl

/-- In every run a console is active behind cons_probe and behind each assignment exactly if $console was unset at first
or named a console; and each assignment is rejected without a change or activates the listed consoles. -/
theorem console_active_iff (first second : Nat → Flags) (some_ : s.consoles ≠ []) (values : List (Option Bytes)) :
    ((∀ n ≤ values.length, Active (assign (values.take n) (consProbe first second s))) ↔
        ∀ prefconsole, s.variable_ = some prefconsole → Names s.consoles prefconsole) ∧
      ∀ s value, ((consSet value s).1 = false → (consSet value s).2.consoles = s.consoles) ∧
        ((consSet value s).1 = true → ∃ string, value = some string ∧
          Sets s.consoles (consSet value s).2.consoles (listed s.consoles (items string))) := by
  refine ⟨?_, fun s value => ⟨fun rejected => ?_, fun accepted => ?_⟩⟩
  · rw [← consProbe_active_iff first second some_]
    exact ⟨fun all => all 0 (Nat.zero_le _), fun active n _ => assign_active (values.take n) active⟩
  · rw [(consSet_spec value s).1 rejected]
  · obtain ⟨string, same, -, sets, -⟩ := (consSet_spec value s).2 accepted
    exact ⟨string, same, sets⟩

/-- A screen without a keyboard and a serial line, with $console set to `value`. -/
def twoConsoles (value : Option Bytes) : State :=
  { consoles := [⟨ascii "vidconsole".toList, present⟩, ⟨ascii "comconsole".toList, present⟩], inits := [],
    variable_ := value }

theorem twoConsoles_active :
    ((∀ n ≤ [some (ascii "comconsole".toList)].length,
          Active (assign ([some (ascii "comconsole".toList)].take n)
            (consProbe (fun _ => present) (fun _ => present) (twoConsoles none)))) ↔
        ∀ prefconsole, (twoConsoles none).variable_ = some prefconsole →
        Names (twoConsoles none).consoles prefconsole) ∧
      ∀ s value, ((consSet value s).1 = false → (consSet value s).2.consoles = s.consoles) ∧
        ((consSet value s).1 = true → ∃ string, value = some string ∧
          Sets s.consoles (consSet value s).2.consoles (listed s.consoles (items string))) :=
  console_active_iff (fun _ => present) (fun _ => present) (cons_ne_nil _ _) [some (ascii "comconsole".toList)]

/-- A $console with an unknown name leaves no console. -/
theorem unknownConsole_inactive :
    ¬Active (consProbe (fun _ => present) (fun _ => present) (twoConsoles (some (ascii "serial".toList)))) := by
  rw [consProbe_active_iff _ _ (cons_ne_nil _ _)]
  intro all
  obtain ⟨item, member, _, known⟩ := all _ rfl
  have unknown : ∀ item ∈ items (ascii "serial".toList),
      (consFind (twoConsoles (some (ascii "serial".toList))).consoles item).isSome = false := by decide
  rw [unknown item member] at known
  cases known

end Pcbsd.Consoles
