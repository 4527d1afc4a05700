import Mathlib.Data.List.Induction
import Pcbsd.Gptboot

/-! What a command line that parse rejects has stored before. -/

namespace Pcbsd.Gptboot
open Lib Gpt List Option

/-- An assignment of parse. `both` is -P without a keyboard, `ioctrl` the choice of the console. -/
inductive Store where
  | type (i : Nat)
  | unit (n : Nat)
  | part (n : Int)
  | drive (n : Nat)
  | speed (j : Int)
  | kname (name : Bytes)
  | toggle (flag : Nat)
  | both
  | ioctrl
  deriving DecidableEq

def Store.run (m : Main) : Store → Main
  | type i => { m with dsk := { m.dsk with type := i } }
  | unit n => { m with dsk := { m.dsk with unit := n } }
  | part n => { m with dsk := { m.dsk with part := n } }
  | drive n => { m with dsk := { m.dsk with drive := n } }
  | speed j => { m with comspeed := j }
  | kname name => { m with kname := name }
  | toggle flag => { m with opts := m.opts ^^^ optSet flag }
  | both => { m with opts := m.opts ||| optSet rbxDual ||| optSet rbxSerial }
  | ioctrl => setIoctrl m

def runs (stores : List Store) (m : Main) : Main := stores.foldl Store.run m

theorem runs_append (first second : List Store) (m : Main) : runs (first ++ second) m = runs second (runs first m) :=
  foldl_append

theorem runs_cons (store : Store) (stores : List Store) (m : Main) :
    runs (store :: stores) m = runs stores (store.run m) := rfl

def before {α : Type} (stores : List Store) (out : List Store × α) : List Store × α := (stores ++ out.1, out.2)

def optStores (env : Env) : Bytes → List Store × Bool
  | [] => ([], true)
  | c :: arg =>
    if c = 0x50 then before (if env.keyboard then [] else [.both]) (optStores env arg)
    else if c = 0x53 then
      if (parseSpeed arg 0).2 = [] ∧ 0 < (parseSpeed arg 0).1 then ([.speed (parseSpeed arg 0).1], true) else ([], false)
    else (optFlags.find? (·.1 == c)).elim ([], false) fun found => before [.toggle found.2] (optStores env arg)

theorem parseOpts_stores (env : Env) (arg : Bytes) :
    ∀ m, parseOpts env arg m = (runs (optStores env arg).1 m, (optStores env arg).2) := by
  induction arg with
  | nil => exact fun m => rfl
  | cons _ arg ih =>
    intro m
    rw [parseOpts, optStores]
    split
    · rw [ih, before, runs_append]
      split
      · rfl
      · rfl
    · split
      · rcases parseSpeed arg 0 with ⟨j, _ | ⟨_, _⟩⟩
        · by_cases some : 0 < j
          · simp only [some, and_true, if_true]
            rfl
          · simp only [some, and_false, if_false]
            rfl
        · rfl
      · rcases find? _ optFlags with _ | ⟨_, _⟩
        · rfl
        · exact ih _

def knameStores (name : Bytes) : List Store × Bool :=
  if name = [] then ([], true) else if 1024 ≤ name.length then ([], false) else ([.kname name], true)

theorem knameStores_rejected {name : Bytes} (rejected : (knameStores name).2 = false) : (knameStores name).1 = [] := by
  rw [knameStores] at rejected ⊢
  split at rejected
  · cases rejected
  · split at rejected
    next empty long => rw [if_neg empty, if_pos long]
    · cases rejected

theorem parseKname_stores (m : Main) (name : Bytes) :
    parseKname m name = if (knameStores name).2 then some (runs (knameStores name).1 m) else none := by
  rw [parseKname, knameStores]
  split
  · rfl
  · split
    · rfl
    · rfl

def unitStores (tok : Bytes) (q arg : Nat) (drv : Option Nat) : List Store × Option Nat :=
  if q ≠ arg + 2 then ([], none)
  else
    (devNm.findIdx? fun nm => tok.getD arg 0 == nm.1 && tok.getD (arg + 1) 0 == nm.2).elim ([], none) fun type =>
      let unit := digit (tok.getD (arg + 3) 0)
      before [.type type, .unit (unit % 2 ^ 32).toNat]
        (if tok.getD (arg + 4) 0 ≠ 0x70 ∨ ¬ (0 ≤ unit ∧ unit ≤ 9) then ([], none)
        else
          let part := digit (tok.getD (arg + 5) 0)
          before [.part part]
            (if part < 1 ∨ 9 < part then ([], none)
            else if tok.getD (arg + 6) 0 ≠ 0x29 then ([], none)
            else ([.drive ((if type ≤ typeMaxhard then drvHard else 0) + drv.getD unit.toNat)], some (arg + 7))))

theorem parseUnit_stores (m : Main) (tok : Bytes) (q arg : Nat) (drv : Option Nat) :
    parseUnit m tok q arg drv = (runs (unitStores tok q arg drv).1 m, (unitStores tok q arg drv).2) := by
  rw [parseUnit, unitStores]
  split
  · rfl
  · rcases devNm.findIdx? _ with _ | _
    · rfl
    · dsimp only [Option.elim]
      split
      · rfl
      · split
        · rfl
        · split
          · rfl
          · rfl

def devStores (tok : Bytes) (q : Nat) : List Store × Option Nat :=
  if tok.getD 1 0 = 0x3a then
    let drv := digit (tok.getD 0 0)
    if ¬ (0 ≤ drv ∧ drv ≤ 9) then ([], none) else unitStores tok q 2 (some drv.toNat)
  else unitStores tok q 0 none

theorem parseDev_stores (m : Main) (tok : Bytes) (q : Nat) :
    parseDev m tok q = (runs (devStores tok q).1 m, (devStores tok q).2) := by
  rw [parseDev, devStores]
  split
  · dsimp only
    split
    · rfl
    · exact parseUnit_stores m tok q 2 _
  · exact parseUnit_stores m tok q 0 none

/-- The stores of an argument, and when it is accepted whether it names a device. -/
def argStores (env : Env) : Bytes → List Store × Option Bool
  | [] => ([], some false)
  | c :: word =>
    if c = 0x2d then if (optStores env word).2 then ((optStores env word).1 ++ [.ioctrl], some false)
      else ((optStores env word).1, none)
    else
      (word.findIdx? (· == 0x28)).elim ((knameStores (c :: word)).1, if (knameStores (c :: word)).2 then some false
        else none) fun q =>
        let dev := devStores (c :: word) (q + 1)
        dev.2.elim (dev.1, none) fun arg =>
          let name := knameStores ((c :: word).drop arg)
          (dev.1 ++ name.1, if name.2 then some true else none)

theorem parseArg_stores (env : Env) (m : Main) (updated : Bool) (tok : Bytes) :
    parseArg env m updated tok = (runs (argStores env tok).1 m, (argStores env tok).2.map (updated || ·)) := by
  rw [parseArg.eq_def, argStores.eq_def]
  rcases tok with _ | ⟨c, word⟩
  · simp only [runs, foldl_nil, map_some, Bool.or_false]
  dsimp only
  split
  · rw [parseOpts_stores]
    cases accepted : (optStores env word).2 with
    | false => rfl
    | true =>
      simp only [if_true, runs_append, map_some, Bool.or_false]
      rfl
  · rcases word.findIdx? (· == 0x28) with _ | q
    · rw [parseKname_stores]
      cases named : (knameStores (c :: word)).2 with
      | false =>
        simp only [elim_none, knameStores_rejected named, Bool.false_eq_true, if_false]
        rfl
      | true => simp only [if_true, elim_none, map_some, Bool.or_false]
    · dsimp only [elim_some]
      rw [parseDev_stores]
      cases ended : (devStores (c :: word) (q + 1)).2 with
      | none => rfl
      | some arg =>
        dsimp only [elim_some]
        rw [parseKname_stores, runs_append]
        cases named : (knameStores ((c :: word).drop arg)).2 with
        | false =>
          rw [knameStores_rejected named]
          rfl
        | true => simp only [if_true, map_some, Bool.or_true]

/-- The stores of a line up to the word that is rejected, and whether all are accepted. -/
def lineStores (env : Env) : (fuel : Nat) → Bytes → List Store × Bool
  | 0, _ => ([], true)
  | _ + 1, [] => ([], true)
  | fuel + 1, c :: arg =>
    if isSpace c then lineStores env fuel arg
    else
      let word := arg.takeWhile fun c => !isSpace c
      let first := argStores env (c :: word)
      if first.2.isSome then before first.1 (lineStores env fuel (arg.drop (word.length + 1))) else (first.1, false)

theorem parseLoop_stores (env : Env) (fuel : Nat) : ∀ str m updated,
    (parseLoop env fuel str m updated).1 = runs (lineStores env fuel str).1 m ∧
      ((parseLoop env fuel str m updated).2.isSome = (lineStores env fuel str).2) := by
  induction fuel with
  | zero => exact fun str m updated => ⟨rfl, rfl⟩
  | succ fuel ih =>
    intro str m updated
    rcases str with _ | ⟨c, arg⟩
    · exact ⟨rfl, rfl⟩
    rw [parseLoop, lineStores]
    split
    · exact ih arg m updated
    · dsimp only
      rw [parseArg_stores]
      cases accepted : (argStores env (c :: arg.takeWhile fun c => !isSpace c)).2 with
      | none => exact ⟨rfl, rfl⟩
      | some device =>
        obtain ⟨main, ends⟩ := ih (arg.drop ((arg.takeWhile fun c => !isSpace c).length + 1))
          (runs (argStores env (c :: arg.takeWhile fun c => !isSpace c)).1 m) (updated || device)
        refine ⟨?_, ends⟩
        simp only [map_some, isSome_some, if_true, before, runs_append]
        exact main

def LastIs {α : Type} (sel : Store → Option α) (stores : List Store) (old : α) : Prop :=
  ∀ v, (stores.filterMap sel).getLast? = some v → v = old

theorem runs_variable {α : Type} (get : Main → α) (sel : Store → Option α)
    (law : ∀ store m, get (store.run m) = (sel store).getD (get m)) (stores : List Store) :
    ∀ m, get (runs stores m) = ((stores.filterMap sel).getLast?).getD (get m) := by
  induction stores with
  | nil => exact fun m => rfl
  | cons store stores ih =>
    intro m
    rw [runs_cons, ih, law]
    cases chosen : sel store with
    | none => rw [filterMap_cons_none chosen, getD_none]
    | some _ =>
      rw [filterMap_cons_some chosen, getLast?_cons, getD_some, getD_some]

theorem lastIs_iff {α : Type} {get : Main → α} {sel : Store → Option α}
    (law : ∀ store m, get (store.run m) = (sel store).getD (get m)) (stores : List Store) (m : Main) :
    get (runs stores m) = get m ↔ LastIs sel stores (get m) := by
  rw [runs_variable get sel law, LastIs]
  cases last : (stores.filterMap sel).getLast? with
  | none => exact ⟨fun _ _ none => (by cases none), fun _ => rfl⟩
  | some v => exact ⟨fun same v' found => by cases found; exact same, fun all => all v rfl⟩

variable {store : Store} {i : Nat}

theorem getLsbD_optSet (flag : Nat) (inside : i < 32) : (optSet flag).getLsbD i = decide (i = flag) := by
  rw [optSet, BitVec.getLsbD_shiftLeft, BitVec.getLsbD_one]
  by_cases same : i = flag
  · subst same
    simp [inside]
  · have apart : ¬ i < flag → ¬ i - flag = 0 := fun _ _ => same (by omega)
    by_cases below : i < flag
    · simp [below, same]
    · simp [below, same, apart below]

def flips (i : Nat) (stores : List Store) : Nat := stores.count (.toggle i)

/-- The stores behind the last -P that found no keyboard, the last one first. -/
def sinceBoth (stores : List Store) : List Store := stores.reverse.takeWhile (· != .both)

def Forced (i : Nat) (stores : List Store) : Prop := .both ∈ stores ∧ (i = rbxDual ∨ i = rbxSerial)

instance (i : Nat) (stores : List Store) : Decidable (Forced i stores) := inferInstanceAs (Decidable (_ ∧ _))

def optAfter (i : Nat) (old : Bool) (stores : List Store) : Bool :=
  if Forced i stores then flips i (sinceBoth stores) % 2 == 0 else old ^^ (flips i stores % 2 == 1)

theorem flips_append (i : Nat) (stores : List Store) (store : Store) :
    flips i (stores ++ [store]) = flips i stores + if store = .toggle i then 1 else 0 := by
  rw [flips, count_append, count_singleton, flips]
  by_cases same : store = .toggle i
  · rw [if_pos (beq_iff_eq.mpr same), if_pos same]
  · rw [if_neg (fun equal => same (beq_iff_eq.mp equal)), if_neg same]

theorem sinceBoth_append (i : Nat) (stores : List Store) (other : store ≠ .both) :
    flips i (sinceBoth (stores ++ [store])) = flips i (sinceBoth stores) + if store = .toggle i then 1 else 0 := by
  rw [sinceBoth, reverse_append, reverse_singleton, singleton_append,
    takeWhile_cons, if_pos (bne_iff_ne.mpr other), ← sinceBoth, flips, count_cons, flips]
  by_cases same : store = .toggle i
  · rw [if_pos (beq_iff_eq.mpr same), if_pos same]
  · rw [if_neg (fun equal => same (beq_iff_eq.mp equal)), if_neg same]

theorem forced_append (i : Nat) (stores : List Store) (other : store ≠ .both) :
    Forced i (stores ++ [store]) ↔ Forced i stores := by
  rw [Forced, Forced, mem_append, mem_singleton]
  exact and_congr_left fun _ => or_iff_left fun same => other same.symm

theorem optAfter_append (i : Nat) (old : Bool) (stores : List Store) (other : store ≠ .both) :
    optAfter i old (stores ++ [store]) = (optAfter i old stores ^^ decide (store = .toggle i)) := by
  have parity : ∀ n : Nat, ((n + 1) % 2 == 0) = !(n % 2 == 0) ∧ ((n + 1) % 2 == 1) = !(n % 2 == 1) := by
    intro n
    rcases Nat.mod_two_eq_zero_or_one n with even | odd
    · have next : (n + 1) % 2 = 1 := by omega
      rw [even, next]
      exact ⟨rfl, rfl⟩
    · have next : (n + 1) % 2 = 0 := by omega
      rw [odd, next]
      exact ⟨rfl, rfl⟩
  rw [optAfter, optAfter, sinceBoth_append i stores other, flips_append]
  by_cases forced : Forced i stores
  · rw [if_pos ((forced_append i stores other).mpr forced), if_pos forced]
    by_cases same : store = .toggle i
    · rw [if_pos same, decide_eq_true same, Bool.xor_true, (parity _).1]
    · rw [if_neg same, decide_eq_false same, Bool.xor_false, Nat.add_zero]
  · rw [if_neg (mt (forced_append i stores other).mp forced), if_neg forced]
    by_cases same : store = .toggle i
    · rw [if_pos same, decide_eq_true same, Bool.xor_true, (parity _).2, Bool.xor_not]
    · rw [if_neg same, decide_eq_false same, Bool.xor_false, Nat.add_zero]

theorem optAfter_both (i : Nat) (old : Bool) (stores : List Store) :
    optAfter i old (stores ++ [.both]) = (optAfter i old stores || decide (i = rbxDual ∨ i = rbxSerial)) := by
  have member : Store.both ∈ stores ++ [.both] := mem_append_right _ (mem_singleton_self _)
  by_cases console : i = rbxDual ∨ i = rbxSerial
  · have forced : Forced i (stores ++ [.both]) := ⟨member, console⟩
    rw [optAfter, if_pos forced, decide_eq_true console, Bool.or_true, sinceBoth, reverse_append]
    rfl
  · have free : ∀ l, ¬ Forced i l := fun l forced => console forced.2
    rw [optAfter, if_neg (free _), optAfter, if_neg (free _), decide_eq_false console, Bool.or_false, flips_append]
    rfl

theorem runs_opt (inside : i < 32) (m : Main) (stores : List Store) :
    (runs stores m).opts.getLsbD i = optAfter i (m.opts.getLsbD i) stores := by
  induction stores using reverseRecOn with
  | nil => exact (Bool.xor_false _).symm
  | append_singleton stores store ih =>
    have last : runs (stores ++ [store]) m = store.run (runs stores m) := runs_append stores [store] m
    by_cases both : store = .both
    · subst both
      have set : (Store.run (runs stores m) .both).opts.getLsbD i =
          ((runs stores m).opts.getLsbD i || decide (i = rbxDual) || decide (i = rbxSerial)) := by
        rw [Store.run, BitVec.getLsbD_or, BitVec.getLsbD_or, getLsbD_optSet _ inside, getLsbD_optSet _ inside]
      rw [last, optAfter_both, set, ih, Bool.or_assoc, Bool.decide_or]
    · rw [last, optAfter_append i _ stores both, ← ih]
      cases store with
      | toggle flag =>
        have flipped : (Store.run (runs stores m) (.toggle flag)).opts.getLsbD i =
            ((runs stores m).opts.getLsbD i ^^ decide (i = flag)) := by
          rw [Store.run, BitVec.getLsbD_xor, getLsbD_optSet _ inside]
        rw [flipped]
        congr 1
        exact decide_eq_decide.mpr ⟨fun same => by rw [same], fun same => (Store.toggle.inj same).symm⟩
      | both => exact absurd rfl both
      | _ => exact (Bool.xor_false _).symm

/-- The option has been toggled an even number of times; behind a -P without a keyboard, where it is set, as its value
before asks. -/
def OptStays (i : Nat) (old : Bool) (stores : List Store) : Prop :=
  if Forced i stores then (flips i (sinceBoth stores) % 2 = 0 ↔ old = true) else flips i stores % 2 = 0

theorem optStays_iff (i : Nat) (old : Bool) (stores : List Store) :
    optAfter i old stores = old ↔ OptStays i old stores := by
  rw [optAfter, OptStays]
  split
  · rw [Bool.eq_iff_iff, beq_iff_eq]
  · rcases Nat.mod_two_eq_zero_or_one (flips i stores) with even | odd
    · rw [even]
      exact iff_of_true (Bool.xor_false old) rfl
    · rw [odd]
      refine iff_of_false (fun same => ?_) (by decide)
      cases old with
      | true => cases same
      | false => cases same

theorem opts_iff (m : Main) (stores : List Store) :
    (runs stores m).opts = m.opts ↔ ∀ i < 32, OptStays i (m.opts.getLsbD i) stores := by
  constructor
  · intro same i inside
    rw [← optStays_iff, ← runs_opt inside, same]
  · intro all
    refine BitVec.eq_of_getLsbD_eq fun i inside => ?_
    rw [runs_opt inside]
    exact (optStays_iff i _ stores).mpr (all i inside)

structure Same (m m' : Main) : Prop where
  type : m'.dsk.type = m.dsk.type
  unit : m'.dsk.unit = m.dsk.unit
  part : m'.dsk.part = m.dsk.part
  drive : m'.dsk.drive = m.dsk.drive
  opts : m'.opts = m.opts
  comspeed : m'.comspeed = m.comspeed
  kname : m'.kname = m.kname

namespace Store

def type? : Store → Option Nat | type i => some i | _ => none
def unit? : Store → Option Nat | unit n => some n | _ => none
def part? : Store → Option Int | part n => some n | _ => none
def drive? : Store → Option Nat | drive n => some n | _ => none
def speed? : Store → Option Int | speed j => some j | _ => none
def kname? : Store → Option Bytes | kname name => some name | _ => none

end Store

structure Harmless (m : Main) (stores : List Store) : Prop where
  type : LastIs Store.type? stores m.dsk.type
  unit : LastIs Store.unit? stores m.dsk.unit
  part : LastIs Store.part? stores m.dsk.part
  drive : LastIs Store.drive? stores m.dsk.drive
  opts : ∀ i < 32, OptStays i (m.opts.getLsbD i) stores
  comspeed : LastIs Store.speed? stores m.comspeed
  kname : LastIs Store.kname? stores m.kname

theorem runs_same_iff (m : Main) (stores : List Store) : Same m (runs stores m) ↔ Harmless m stores := by
  have type := @lastIs_iff _ (·.dsk.type) Store.type? (fun store m => by cases store <;> rfl) stores m
  have unit := @lastIs_iff _ (·.dsk.unit) Store.unit? (fun store m => by cases store <;> rfl) stores m
  have part := @lastIs_iff _ (·.dsk.part) Store.part? (fun store m => by cases store <;> rfl) stores m
  have drive := @lastIs_iff _ (·.dsk.drive) Store.drive? (fun store m => by cases store <;> rfl) stores m
  have speed := @lastIs_iff _ (·.comspeed) Store.speed? (fun store m => by cases store <;> rfl) stores m
  have kname := @lastIs_iff _ (·.kname) Store.kname? (fun store m => by cases store <;> rfl) stores m
  have opts := opts_iff m stores
  constructor
  · intro same
    exact ⟨type.mp same.type, unit.mp same.unit, part.mp same.part, drive.mp same.drive, opts.mp same.opts,
      speed.mp same.comspeed, kname.mp same.kname⟩
  · intro harmless
    exact ⟨type.mpr harmless.type, unit.mpr harmless.unit, part.mpr harmless.part, drive.mpr harmless.drive,
      opts.mpr harmless.opts, speed.mpr harmless.comspeed, kname.mpr harmless.kname⟩

def commandStores (env : Env) (cmdstr : Bytes) : List Store × Bool :=
  lineStores env (cstring env cmdstr).length (cstring env cmdstr)

/-- A command line is either accepted, or rejected without a trace just when all it stored was there before. -/
theorem parse_rejected_iff (env : Env) (m : Main) (cmdstr : Bytes) :
    ((parse env m cmdstr).2 = none → Same m (parse env m cmdstr).1) ↔
      (commandStores env cmdstr).2 = true ∨ Harmless m (commandStores env cmdstr).1 := by
  obtain ⟨main, ends⟩ := parseLoop_stores env (cstring env cmdstr).length (cstring env cmdstr) m false
  rw [← parse, ← commandStores] at main ends
  rw [main, runs_same_iff]
  cases accepted : (commandStores env cmdstr).2 with
  | true =>
    rw [accepted] at ends
    refine iff_of_true (fun rejected => ?_) (Or.inl rfl)
    rw [rejected] at ends
    cases ends
  | false =>
    rw [accepted, isSome_eq_false_iff, isNone_iff_eq_none] at ends
    exact ⟨fun same => Or.inr (same ends), fun kept _ => kept.resolve_left Bool.false_ne_true⟩

def blankCopy : Copy := ⟨Hdr.ofSector (Sector.ofBytes []), [], replicate maxtblents Ent.zero, [], length_replicate, 0⟩

def quietEnv : Env := ⟨⟨fun _ => 0, fun _ _ => false, fun _ => false⟩, fun _ _ => none, fun _ _ => false, false, true,
    []⟩

def atPrompt : Main :=
  ⟨⟨fun _ => blankCopy, .primary, 0, false, fun _ => Sector.ofBytes [], 0, []⟩, ⟨0x80, 0, 0, 2, 0⟩, 0, ioKeyboard, 9600,
    pathBoot3, [], false⟩

def unclosedDevice : Bytes := [0x64, 0x61, 0x28, 0x31, 0x70, 0x33, 0x78]

theorem unclosed_device_stores : ¬ ∀ env m cmdstr, (parse env m cmdstr).2 = none → Same m (parse env m cmdstr).1 := by
  intro all
  have part := (all quietEnv atPrompt unclosedDevice (by decide)).part
  exact absurd part (by decide)

end Pcbsd.Gptboot
