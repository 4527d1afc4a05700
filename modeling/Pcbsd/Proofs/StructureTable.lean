import Mathlib.Data.Nat.Bitwise
import Pcbsd.Smbios

/-! The loop over the SMBIOS structures: where each one ends, and what is left of all of them in the environment and
in the counters. -/

namespace Pcbsd.Proofs.StructureTable
open Lib Smbios List Option Function

/-- A structure: a formatted area that states its length, and strings behind it. -/
structure Structure where
  formatted : Bytes
  strings : List Bytes
  stated : get8 formatted 1 = some formatted.length
  plain : ∀ string ∈ strings, string ≠ [] ∧ 0 ∉ string

/-- The strings, each with a NUL, and the NUL behind them; two NULs if there are none. -/
def stringSet (strings : List Bytes) : Bytes := if strings = [] then [0, 0] else strings.flatMap (· ++ [0]) ++ [0]

namespace Structure

def bytes (x : Structure) : Bytes := x.formatted ++ stringSet x.strings

def field (x : Structure) (off : Nat) : Nat := (get8 x.formatted off).getD 0

def type (x : Structure) : Nat := x.field 0

def denoted (x : Structure) (off : Nat) : Option Bytes := if x.field off = 0 then none else x.strings[x.field off - 1]?

end Structure

def needed (build : Build) (type : Nat) : Nat :=
  if type = 0 then 0x09
  else if type = 1 then if build.serialNumbers then 0x18 else 0x07
  else if type = 2 then if build.serialNumbers then 0x08 else 0x07
  else if type = 3 then if build.serialNumbers then 0x09 else 0x07
  else if type = 4 then 0x19
  else if type = 6 then 0x0b
  else if type = 17 then 0x0e
  else 0

structure Structure.Valid (build : Build) (x : Structure) : Prop where
  long : needed build x.type ≤ x.formatted.length
  indices : ∀ field ∈ stringFields build x.type, x.field field.2 ≤ x.strings.length

namespace Structure

def uuid (build : Build) (ver : Nat) (x : Structure) : Option Bytes :=
  if x.type = 1 then uuidText build ver (slice 8 16 x.formatted) else none

def deviceSize (x : Structure) : Nat :=
  let size := x.field 0x0c + 256 * x.field 0x0d
  if x.type = 17 ∧ size ≠ 0 ∧ size ≠ 0xffff then if 0x8000 ≤ size then size % 0x8000 else size * 1024 else 0

def moduleSize (x : Structure) : Nat :=
  if x.type = 6 ∧ 0 < x.field 0x0a % 0x80 ∧ x.field 0x0a % 0x80 < 22 then 2 ^ (x.field 0x0a % 0x80) * 1024 else 0

def enabledSocket (x : Structure) : Nat := if x.type = 4 ∧ x.field 0x18 % 8 = 1 then 1 else 0

def populatedSocket (x : Structure) : Nat := if x.type = 4 ∧ (x.field 0x18).testBit 6 then 1 else 0

end Structure

def lastOf {α β : Type} (l : List α) (f : α → Option β) : Option β := (l.filterMap f).getLast?

structure Decoded (build : Build) (ver : Nat) (done : List Structure) (before : Env) (s : State) : Prop where
  strings : ∀ type, ∀ field ∈ stringFields build type,
    s.env field.1 = (lastOf done fun x => if x.type = type then x.denoted field.2 else none).or (before field.1)
  uuid : build.serialNumbers = true →
    s.env .systemUuid = (lastOf done (Structure.uuid build ver)).or (before .systemUuid)
  enabledMemory : s.enabledMemory = (done.map Structure.deviceSize).sum % 2 ^ 32
  oldEnabledMemory : s.oldEnabledMemory = (done.map Structure.moduleSize).sum % 2 ^ 32
  enabledSockets : s.enabledSockets = (done.map Structure.enabledSocket).sum % 2 ^ 8
  populatedSockets : s.populatedSockets = (done.map Structure.populatedSocket).sum % 2 ^ 8

variable {build : Build} {ver : Nat} {x : Structure} {tail : Bytes} {s : State}

variable {strings : List Bytes} {string : Bytes} {off value width n : Nat}

theorem strlen_plain (plain : 0 ∉ string) (rest : Bytes) : strlen (string ++ 0 :: rest) = some string.length := by
  induction string with
  | nil => rfl
  | cons _ string ih =>
    rw [mem_cons, not_or] at plain
    rw [cons_append, strlen, if_neg (Ne.symm plain.1), ih plain.2, map_some, length_cons]

theorem flatMap_strings (string : Bytes) (strings : List Bytes) (rest : Bytes) :
    (string :: strings).flatMap (· ++ [0]) ++ rest = string ++ 0 :: (strings.flatMap (· ++ [0]) ++ rest) := by
  rw [flatMap_cons, append_assoc, append_assoc]
  rfl

theorem skipStrings_eq (plain : ∀ string ∈ strings, string ≠ [] ∧ 0 ∉ string) (inside : n ≤ strings.length)
    (rest : Bytes) : skipStrings n (strings.flatMap (· ++ [0]) ++ rest) = some
    ((strings.drop n).flatMap (· ++ [0]) ++ rest) := by
  induction n generalizing strings with
  | zero => rfl
  | succ n ih =>
    cases strings with
    | nil => exact absurd inside (Nat.not_succ_le_zero n)
    | cons string strings =>
      have behind : (string ++ 0 :: (strings.flatMap (· ++ [0]) ++ rest)).drop (string.length + 1) =
          strings.flatMap (· ++ [0]) ++ rest := by
        rw [← drop_drop, drop_left]
        rfl
      rw [skipStrings, flatMap_strings, strlen_plain (plain string mem_cons_self).2, bind_some, behind, drop_succ_cons]
      exact ih (fun other member => plain other (mem_cons_of_mem _ member)) (Nat.le_of_succ_le_succ inside)

theorem terminator_skip {c : UInt8} (more : c ≠ 0) (rest : Bytes) : terminator (c :: rest) = terminator rest := by
  cases rest with
  | nil => rfl
  | cons _ rest => rw [terminator, if_neg fun both => more both.1]

theorem terminator_string (plain : 0 ∉ string) (rest : Bytes) : terminator (string ++ rest) = terminator rest := by
  induction string with
  | nil => rfl
  | cons _ string ih =>
    rw [mem_cons, not_or] at plain
    rw [cons_append, terminator_skip (Ne.symm plain.1), ih plain.2]

theorem terminator_strings (plain : ∀ string ∈ strings, string ≠ [] ∧ 0 ∉ string) (some_ : strings ≠ [])
    (rest : Bytes) :
    terminator (strings.flatMap (· ++ [0]) ++ 0 :: rest) = some rest := by
  induction strings with
  | nil => exact absurd rfl some_
  | cons string strings ih =>
    rw [flatMap_strings, terminator_string (plain string mem_cons_self).2]
    cases strings with
    | nil => exact if_pos ⟨rfl, rfl⟩
    | cons next strings =>
      obtain ⟨filled, free⟩ := plain next (mem_cons_of_mem _ mem_cons_self)
      obtain ⟨c, next, rfl⟩ := exists_cons_of_ne_nil filled
      have more : c ≠ 0 := fun zero => free (zero ▸ mem_cons_self)
      have again := ih (fun other member => plain other (mem_cons_of_mem _ member)) (cons_ne_nil _ _)
      rw [flatMap_strings, cons_append] at again ⊢
      rw [terminator, if_neg fun both => more both.2, again]

theorem terminator_stringSet (plain : ∀ string ∈ strings, string ≠ [] ∧ 0 ∉ string) (rest : Bytes) :
    terminator (stringSet strings ++ rest) = some rest := by
  rw [stringSet]
  split
  next => exact if_pos ⟨rfl, rfl⟩
  next some_ => rw [append_assoc, singleton_append, terminator_strings plain some_]

theorem get8_append {front : Bytes} (inside : off < front.length) (back : Bytes) : get8 (front ++ back) off =
    get8 front off := by
  rw [get8, get8, getElem?_append_left inside]

theorem get8_bytes (inside : off < x.formatted.length) (tail : Bytes) : get8 (x.bytes ++ tail) off = some
    (x.field off) := by
  rw [Structure.bytes, append_assoc, get8_append inside, Structure.field, get8, getElem?_eq_getElem inside]
  rfl

theorem getStr_bytes (x : Structure) (tail : Bytes) :
    getStr (x.bytes ++ tail) = some (stringSet x.strings ++ tail) := by
  have inside : 1 < x.formatted.length := by
    by_contra short
    have none : x.formatted[1]? = none := getElem?_eq_none (Nat.le_of_not_lt short)
    have stated := x.stated
    rw [get8, none] at stated
    exact absurd stated (by simp)
  have length : x.field 1 = x.formatted.length := by rw [Structure.field, x.stated, getD_some]
  rw [getStr, get8_bytes inside, length, map_some, Structure.bytes, append_assoc, drop_left]

theorem field_lt (x : Structure) (off : Nat) : x.field off < 256 := by
  rw [Structure.field, get8]
  cases x.formatted[off]? with
  | none => exact Nat.zero_lt_succ _
  | some byte => exact byte.toNat_lt

theorem smbiosSetenv_bytes (name : Name) (inside : off < x.formatted.length) (valid : x.field off ≤ x.strings.length)
    (s : State) :
    smbiosSetenv name (x.bytes ++ tail) off s = some ((x.denoted off).elim s fun value => setenv name value s) := by
  rw [smbiosSetenv, get8_bytes inside, bind_some, Structure.denoted]
  by_cases zero : x.field off = 0
  · rw [if_neg (not_not_intro zero), if_pos zero]
    rfl
  · have index : x.field off - 1 < x.strings.length := by omega
    have some_ : x.strings ≠ [] := ne_nil_of_length_pos (Nat.zero_lt_of_lt index)
    have found := drop_eq_getElem_cons index
    have free := (x.plain _ (getElem_mem index)).2
    rw [if_pos zero, if_neg zero, getStr_bytes, bind_some, stringSet, if_neg some_, append_assoc,
      skipStrings_eq x.plain index.le,
      bind_some, found, flatMap_strings, strlen_plain free, getElem?_eq_getElem index, map_some, take_left]
    rfl

/-- The type of the structures from which a variable comes, and the offset of its index there. -/
def place : Name → Option (Nat × Nat)
  | .biosVendor => some (0, 0x04)
  | .biosVersion => some (0, 0x05)
  | .biosReldate => some (0, 0x08)
  | .systemMaker => some (1, 0x04)
  | .systemProduct => some (1, 0x05)
  | .systemVersion => some (1, 0x06)
  | .systemSerial => some (1, 0x07)
  | .planarMaker => some (2, 0x04)
  | .planarProduct => some (2, 0x05)
  | .planarVersion => some (2, 0x06)
  | .planarSerial => some (2, 0x07)
  | .chassisMaker => some (3, 0x04)
  | .chassisVersion => some (3, 0x06)
  | .chassisSerial => some (3, 0x07)
  | .chassisTag => some (3, 0x08)
  | _ => none

theorem stringFields_other {type : Nat} (other : 3 < type) : stringFields build type = [] := by
  rw [stringFields, if_neg (by omega), if_neg (by omega), if_neg (by omega), if_neg (by omega)]

theorem stringFields_spec (build : Build) (type : Nat) : ((stringFields build type).map Prod.fst).Nodup ∧
    ∀ field ∈ stringFields build type, place field.1 = some (type, field.2) ∧ field.2 < needed build type := by
  by_cases other : 3 < type
  · rw [stringFields_other other]
    exact ⟨nodup_nil, fun field member => absurd member not_mem_nil⟩
  · obtain ⟨serialNumbers, littleEndianUuid⟩ := build
    have cases_ : type = 0 ∨ type = 1 ∨ type = 2 ∨ type = 3 := by omega
    rcases cases_ with rfl | rfl | rfl | rfl <;> cases serialNumbers <;> cases littleEndianUuid <;> decide

structure Exported (build : Build) (ver : Nat) (x : Structure) (before after : Env) : Prop where
  strings : ∀ type, ∀ field ∈ stringFields build type,
    after field.1 = (if x.type = type then x.denoted field.2 else none).or (before field.1)
  uuid : build.serialNumbers = true → after .systemUuid = (x.uuid build ver).or (before .systemUuid)

structure Bounded (s : State) : Prop where
  enabledMemory : s.enabledMemory < 2 ^ 32
  oldEnabledMemory : s.oldEnabledMemory < 2 ^ 32
  enabledSockets : s.enabledSockets < 2 ^ 8
  populatedSockets : s.populatedSockets < 2 ^ 8

theorem setenvs_bytes {fields : List (Name × Nat)} (distinct : (fields.map Prod.fst).Nodup)
    (inside : ∀ field ∈ fields, field.2 < x.formatted.length ∧ x.field field.2 ≤ x.strings.length) (tail : Bytes) (s : State) :
    ∃ env, setenvs fields (x.bytes ++ tail) s = some { s with env := env } ∧
      (∀ field ∈ fields, env field.1 = (x.denoted field.2).or (s.env field.1)) ∧ ∀ name, name ∉ fields.map Prod.fst → env name =
      s.env name := by
  induction fields generalizing s with
  | nil => exact ⟨s.env, rfl, fun field member => absurd member not_mem_nil, fun name _ => rfl⟩
  | cons field fields ih =>
    rw [map_cons, nodup_cons] at distinct
    obtain ⟨here, indexed⟩ := inside field mem_cons_self
    have first : ((x.denoted field.2).elim s fun value => setenv field.1 value s) =
        { s with env := update s.env field.1 ((x.denoted field.2).or (s.env field.1)) } := by
      cases x.denoted field.2 with
      | none => rw [elim_none, none_or, update_eq_self]
      | some value => rfl
    obtain ⟨env, run, known, kept⟩ := ih distinct.2 (fun other member => inside other (mem_cons_of_mem _ member))
      { s with env := update s.env field.1 ((x.denoted field.2).or (s.env field.1)) }
    refine ⟨env, ?_, ?_, ?_⟩
    · rw [setenvs, foldlM_cons, smbiosSetenv_bytes field.1 here indexed, first]
      exact run
    · intro other member
      rcases mem_cons.mp member with rfl | later
      · rw [kept _ distinct.1]
        exact update_self ..
      · have apart : other.1 ≠ field.1 := fun same => distinct.1 (same ▸ mem_map_of_mem later)
        rw [known other later]
        exact congrArg _ (update_of_ne apart ..)
    · intro name absent
      rw [map_cons, mem_cons, not_or] at absent
      rw [kept name absent.2]
      exact update_of_ne absent.1 ..

theorem exported_nothing (other : 3 < x.type) (env : Env) : Exported build ver x env env := by
  constructor
  · intro type field member
    have apart : x.type ≠ type := by
      rintro rfl
      rw [stringFields_other other] at member
      exact not_mem_nil member
    rw [if_neg apart, none_or]
  · intro _
    rw [Structure.uuid, if_neg (by omega), none_or]

def counted (x : Structure) (s : State) : State :=
  { s with
    enabledMemory := (s.enabledMemory + x.deviceSize) % 2 ^ 32
    oldEnabledMemory := (s.oldEnabledMemory + x.moduleSize) % 2 ^ 32
    enabledSockets := (s.enabledSockets + x.enabledSocket) % 2 ^ 8
    populatedSockets := (s.populatedSockets + x.populatedSocket) % 2 ^ 8 }

theorem deviceSize_other (other : x.type ≠ 17) : x.deviceSize = 0 := if_neg fun all => other all.1

theorem moduleSize_other (other : x.type ≠ 6) : x.moduleSize = 0 := if_neg fun all => other all.1

theorem enabledSocket_other (other : x.type ≠ 4) : x.enabledSocket = 0 := if_neg fun all => other all.1

theorem populatedSocket_other (other : x.type ≠ 4) : x.populatedSocket = 0 := if_neg fun all => other all.1

theorem nothing_added (small : n < width) (zero : value = 0) : (n + value) % width = n := by
  rw [zero, Nat.add_zero, Nat.mod_eq_of_lt small]

theorem added_if {P : Prop} [Decidable P] (small : n < width) :
    (if P then (n + value) % width else n) = (n + if P then value else 0) % width := by
  split
  next => rfl
  next => exact (nothing_added small rfl).symm

theorem processorInformation_bytes (four : x.type = 4) (long : 0x18 < x.formatted.length) (bounded : Bounded s) :
    processorInformation (x.bytes ++ tail) s = some (counted x s) := by
  have status : x.field 0x18 &&& 0x07 = x.field 0x18 % 8 := Nat.and_two_pow_sub_one_eq_mod _ 3
  have bit : x.field 0x18 &&& 0x40 ≠ 0 ↔ (x.field 0x18).testBit 6 = true := by
    have single : x.field 0x18 &&& 0x40 = ((x.field 0x18).testBit 6).toNat * 0x40 := Nat.and_two_pow _ 6
    rw [single]
    cases (x.field 0x18).testBit 6 <;> decide
  rw [processorInformation, get8_bytes long, map_some, counted,
    nothing_added bounded.enabledMemory (deviceSize_other (by omega)),
    nothing_added bounded.oldEnabledMemory (moduleSize_other (by omega)), added_if bounded.enabledSockets,
      added_if bounded.populatedSockets]
  simp only [status, bit, Structure.enabledSocket, Structure.populatedSocket, four, true_and]

theorem memoryModule_bytes (six : x.type = 6) (long : 0x0a < x.formatted.length) (bounded : Bounded s) :
    memoryModule (x.bytes ++ tail) s = some (counted x s) := by
  have low : x.field 0x0a &&& 0x7f = x.field 0x0a % 0x80 := Nat.and_two_pow_sub_one_eq_mod _ 7
  have size : 1 <<< (x.field 0x0a % 0x80 + 10) = 2 ^ (x.field 0x0a % 0x80) * 1024 := by
    rw [Nat.one_shiftLeft, Nat.pow_add]
  have added : (if x.field 0x0a % 0x80 > 0 ∧ x.field 0x0a % 0x80 < 22 then
      { s with oldEnabledMemory := (s.oldEnabledMemory + 2 ^ (x.field 0x0a % 0x80) * 1024) % 2 ^ 32 } else s) =
      { s with oldEnabledMemory := (s.oldEnabledMemory + x.moduleSize) % 2 ^ 32 } := by
    rw [Structure.moduleSize, ← added_if bounded.oldEnabledMemory]
    simp only [six, true_and]
    split <;> rfl
  rw [memoryModule, get8_bytes long, map_some, counted,
    nothing_added bounded.enabledMemory (deviceSize_other (by omega)),
    nothing_added bounded.enabledSockets (enabledSocket_other (by omega)), nothing_added bounded.populatedSockets
      (populatedSocket_other (by omega)),
    ← added]
  simp only [low, size]

theorem device_kilobytes {size : Nat} (small : size < 2 ^ 16) :
    (if size &&& 0x8000 ≠ 0 then size &&& 0x7fff else size <<< 10) = if 0x8000 ≤ size then size % 0x8000 else size * 1024 := by
  have single : size &&& 0x8000 = (size.testBit 15).toNat * 0x8000 := Nat.and_two_pow _ 15
  have low : size &&& 0x7fff = size % 0x8000 := Nat.and_two_pow_sub_one_eq_mod _ 15
  rw [single, low, Nat.shiftLeft_eq, Nat.testBit_eq_decide_div_mod_eq]
  by_cases set : 0x8000 ≤ size
  · have bit : size / 2 ^ 15 % 2 = 1 := by omega
    rw [if_pos set, decide_eq_true bit, if_pos (by decide)]
  · have bit : ¬ size / 2 ^ 15 % 2 = 1 := by omega
    rw [if_neg set, decide_eq_false bit, if_neg (by decide)]

theorem memoryDevice_bytes (seventeen : x.type = 17) (long : 0x0d < x.formatted.length) (bounded : Bounded s) :
    memoryDevice (x.bytes ++ tail) s = some (counted x s) := by
  have read : get16 (x.bytes ++ tail) 0x0c = some (x.field 0x0c + 256 * x.field 0x0d) := by
    rw [get16, get8_bytes (by omega), bind_some, get8_bytes long, map_some]
  have small : x.field 0x0c + 256 * x.field 0x0d < 2 ^ 16 := by
    have low := field_lt x 0x0c
    have high := field_lt x 0x0d
    omega
  have added : (if x.field 0x0c + 256 * x.field 0x0d ≠ 0 ∧ x.field 0x0c + 256 * x.field 0x0d ≠ 0xffff then
      { s with enabledMemory := (s.enabledMemory + if 0x8000 ≤ x.field 0x0c + 256 * x.field 0x0d then
          (x.field 0x0c + 256 * x.field 0x0d) % 0x8000 else (x.field 0x0c + 256 * x.field 0x0d) * 1024) % 2 ^ 32 } else s) =
      { s with enabledMemory := (s.enabledMemory + x.deviceSize) % 2 ^ 32 } := by
    rw [Structure.deviceSize, ← added_if bounded.enabledMemory]
    simp only [seventeen, true_and]
    split <;> rfl
  rw [memoryDevice, read, map_some, device_kilobytes small, counted,
    nothing_added bounded.oldEnabledMemory (moduleSize_other (by omega)), nothing_added bounded.enabledSockets
      (enabledSocket_other (by omega)),
    nothing_added bounded.populatedSockets (populatedSocket_other (by omega)), ← added]

theorem counted_few (four : x.type ≠ 4) (six : x.type ≠ 6) (seventeen : x.type ≠ 17) (bounded : Bounded s) :
    counted x s = s := by
  rw [counted, nothing_added bounded.enabledMemory (deviceSize_other seventeen),
    nothing_added bounded.oldEnabledMemory (moduleSize_other six),
    nothing_added bounded.enabledSockets (enabledSocket_other four),
    nothing_added bounded.populatedSockets (populatedSocket_other four)]

theorem smbiosSetuuid_bytes (one : x.type = 1) (long : 0x18 ≤ x.formatted.length) (s : State) :
    smbiosSetuuid build .systemUuid ((x.bytes ++ tail).drop 8) ver s =
      some { s with env := update s.env .systemUuid ((x.uuid build ver).or (s.env .systemUuid)) } := by
  have room : 16 ≤ ((x.bytes ++ tail).drop 8).length := by
    rw [length_drop, Structure.bytes, length_append, length_append]
    omega
  have taken : ((x.bytes ++ tail).drop 8).take 16 = slice 8 16 x.formatted := by
    rw [Structure.bytes, append_assoc, drop_append_of_le_length (by omega), take_append_of_le_length, slice]
    rw [length_drop]
    omega
  rw [smbiosSetuuid, if_pos room, taken, Structure.uuid, if_pos one]
  cases uuidText build ver (slice 8 16 x.formatted) with
  | none => rw [elim_none, none_or, update_eq_self]
  | some _ => rfl

theorem exported_strings {env : Env}
    (known : ∀ field ∈ stringFields build x.type, env field.1 = (x.denoted field.2).or (s.env field.1))
    (kept : ∀ name, name ∉ (stringFields build x.type).map Prod.fst → env name = s.env name) (type : Nat)
    (field : Name × Nat) (member : field ∈ stringFields build type) :
    env field.1 = (if x.type = type then x.denoted field.2 else none).or (s.env field.1) := by
  by_cases same : x.type = type
  · subst same
    rw [known field member, if_pos rfl]
  · rw [if_neg same, none_or]
    apply kept
    intro elsewhere
    obtain ⟨other, inside, equal⟩ := List.mem_map.mp elsewhere
    have first := ((stringFields_spec build type).2 field member).1
    have second := ((stringFields_spec build x.type).2 other inside).1
    rw [equal, first, Option.some.injEq, Prod.mk.injEq] at second
    exact same second.1.symm

theorem uuid_no_string (type : Nat) : Name.systemUuid ∉ (stringFields build type).map Prod.fst := by
  intro inside
  obtain ⟨field, member, equal⟩ := List.mem_map.mp inside
  have there := ((stringFields_spec build type).2 field member).1
  rw [equal] at there
  cases there

theorem exportStrings_bytes (valid : x.Valid build) (s : State) :
    ∃ env, ((setenvs (stringFields build x.type) (x.bytes ++ tail) s).bind fun s =>
      if x.type = 1 ∧ build.serialNumbers then smbiosSetuuid build .systemUuid ((x.bytes ++ tail).drop 0x08) ver s
        else some s) = some { s with env := env } ∧ Exported build ver x s.env env := by
  obtain ⟨distinct, spec⟩ := stringFields_spec build x.type
  have inside : ∀ field ∈ stringFields build x.type, field.2 < x.formatted.length ∧
    x.field field.2 ≤ x.strings.length :=
    fun field member =>
    ⟨(spec field member).2.trans_le valid.long, valid.indices field member⟩
  obtain ⟨env, run, known, kept⟩ := setenvs_bytes distinct inside tail s
  rw [run, bind_some]
  by_cases uuid : x.type = 1 ∧ build.serialNumbers = true
  · have long : 0x18 ≤ x.formatted.length := by
      have long := valid.long
      rwa [needed, uuid.1, if_neg (by decide), if_pos rfl, if_pos uuid.2] at long
    rw [if_pos uuid, smbiosSetuuid_bytes uuid.1 long]
    refine ⟨_, rfl, fun type field member => ?_, fun _ => ?_⟩
    · have apart : field.1 ≠ Name.systemUuid := by
        intro same
        apply @uuid_no_string build type
        rw [← same]
        exact mem_map_of_mem member
      rw [update_of_ne apart]
      exact exported_strings known kept type field member
    · rw [update_self]
      exact congrArg _ (kept _ (uuid_no_string _))
  · rw [if_neg uuid]
    refine ⟨env, rfl, exported_strings known kept, fun serial => ?_⟩
    rw [kept _ (uuid_no_string _), Structure.uuid, if_neg fun one => uuid ⟨one, serial⟩, none_or]

theorem smbiosParseTable_bytes (ver : Nat) (valid : x.Valid build) (bounded : Bounded s) (tail : Bytes) :
    ∃ env, smbiosParseTable build ver (x.bytes ++ tail) s = some
      ({ counted x s with env := env }, tail) ∧ Exported build ver x s.env env := by
  have header : 0 < x.formatted.length := by
    apply length_pos_iff.mpr
    intro empty
    have stated := x.stated
    rw [empty] at stated
    cases stated
  have next : (getStr (x.bytes ++ tail)).bind terminator = some tail := by
    rw [getStr_bytes, bind_some, terminator_stringSet x.plain]
  have typed : ∃ env, parseType build ver x.type (x.bytes ++ tail) s = some
    { counted x s with env := env } ∧ Exported build ver x s.env env := by
    have long := valid.long
    rw [parseType]
    split
    next four =>
      rw [four] at long
      exact ⟨s.env, processorInformation_bytes four long bounded, exported_nothing (by omega) _⟩
    next four =>
      split
      next six =>
        rw [six] at long
        exact ⟨s.env, memoryModule_bytes six long bounded, exported_nothing (by omega) _⟩
      next six =>
        split
        next seventeen =>
          rw [seventeen] at long
          exact ⟨s.env, memoryDevice_bytes seventeen long bounded, exported_nothing (by omega) _⟩
        next seventeen =>
          rw [counted_few four six seventeen bounded]
          exact exportStrings_bytes valid s
  obtain ⟨env, run, exported⟩ := typed
  refine ⟨env, ?_, exported⟩
  obtain ⟨_, strings, found⟩ := bind_eq_some_iff.mp next
  rw [smbiosParseTable, get8_bytes header, bind_some]
  change (parseType build ver x.type _ s).bind _ = _
  rw [run, bind_some, strings, bind_some, found, map_some]

theorem lastOf_snoc {α β : Type} (l : List α) (a : α) (f : α → Option β) :
    lastOf (l ++ [a]) f = (f a).or (lastOf l f) := by
  rw [lastOf, lastOf, filterMap_append, getLast?_append, filterMap_cons, filterMap_nil]
  cases f a <;> rfl

theorem sum_snoc (f : Structure → Nat) (done : List Structure) (x : Structure) (width : Nat) :
    ((done.map f).sum % width + f x) % width = ((done ++ [x]).map f).sum % width := by
  rw [map_append, sum_append, map_singleton, sum_singleton, Nat.mod_add_mod]

namespace Decoded

variable {done : List Structure} {before : Env}

theorem initial (env : Env) : Decoded build ver [] env (State.initial env) :=
  ⟨fun _ _ _ => rfl, fun _ => rfl, rfl, rfl, rfl, rfl⟩

theorem bounded (decoded : Decoded build ver done before s) : Bounded s := by
  obtain ⟨-, -, enabledMemory, oldEnabledMemory, enabledSockets, populatedSockets⟩ := decoded
  constructor
  · rw [enabledMemory]
    exact Nat.mod_lt _ (by decide)
  · rw [oldEnabledMemory]
    exact Nat.mod_lt _ (by decide)
  · rw [enabledSockets]
    exact Nat.mod_lt _ (by decide)
  · rw [populatedSockets]
    exact Nat.mod_lt _ (by decide)

theorem snoc (decoded : Decoded build ver done before s) {env : Env} (exported : Exported build ver x s.env env) :
    Decoded build ver (done ++ [x]) before { counted x s with env := env } := by
  constructor
  · intro type field member
    have here := exported.strings type field member
    rw [decoded.strings type field member, ← Option.or_assoc] at here
    rw [lastOf_snoc]
    exact here
  · intro serial
    have here := exported.uuid serial
    rw [decoded.uuid serial, ← Option.or_assoc] at here
    rw [lastOf_snoc]
    exact here
  · change (s.enabledMemory + _) % _ = _
    rw [decoded.enabledMemory, sum_snoc]
  · change (s.oldEnabledMemory + _) % _ = _
    rw [decoded.oldEnabledMemory, sum_snoc]
  · change (s.enabledSockets + _) % _ = _
    rw [decoded.enabledSockets, sum_snoc]
  · change (s.populatedSockets + _) % _ = _
    rw [decoded.populatedSockets, sum_snoc]

end Decoded

def starts (tail : Bytes) : List Structure → List Bytes
  | [] => []
  | x :: rest => ((x :: rest).flatMap Structure.bytes ++ tail) :: starts tail rest

theorem bytes_pos (x : Structure) : 0 < x.bytes.length := by
  have set : 0 < (stringSet x.strings).length := by
    rw [stringSet]
    split
    next => exact Nat.zero_lt_succ _
    next =>
      rw [length_append]
      exact Nat.succ_pos _
  rw [Structure.bytes, length_append]
  omega

/-- The loop visits the structures one by one, until the table or the number of structures in the entry point is at
its end. -/
theorem detectLoop_bytes {addr : Bytes} {length : Nat} (whole : addr.length = length + tail.length)
    {rest done : List Structure} {before : Env} (valid : ∀ x ∈ rest, x.Valid build)
    (decoded : Decoded build ver done before s) (count : Nat) :
    ∃ s', detectLoop build ver addr length count (rest.flatMap Structure.bytes ++ tail) s =
      some ((starts tail rest).take count, s') ∧ Decoded build ver (done ++ rest.take count) before s' := by
  induction rest generalizing done s count with
  | nil =>
    refine ⟨s, ?_, by rwa [take_nil, append_nil]⟩
    cases count with
    | zero => rfl
    | succ count => rw [detectLoop, flatMap_nil, nil_append, if_neg (by omega), starts, take_nil]
  | cons x rest ih =>
    cases count with
    | zero =>
      refine ⟨s, rfl, ?_⟩
      rwa [take_zero, append_nil]
    | succ count =>
      have more : addr.length < ((x :: rest).flatMap Structure.bytes ++ tail).length + length := by
        have some_ := bytes_pos x
        rw [length_append, flatMap_cons, length_append]
        omega
      obtain ⟨_, parsed, exported⟩ := smbiosParseTable_bytes ver (valid x mem_cons_self) decoded.bounded
        (rest.flatMap Structure.bytes ++ tail)
      obtain ⟨s', run, final⟩ :=
        ih (fun other member => valid other (mem_cons_of_mem _ member)) (decoded.snoc exported) count
      rw [append_assoc, singleton_append, ← take_succ_cons] at final
      refine ⟨s', ?_, final⟩
      rw [detectLoop, if_pos more, starts, take_succ_cons]
      rw [← append_assoc, ← flatMap_cons] at parsed
      rw [parsed, bind_some]
      dsimp only
      rw [run, map_some]

structure EntryPoint (mem ep : Bytes) (length paddr count major minor : Nat) : Prop where
  found : smbiosSigsearch (mem.drop smbiosStart) smbiosLength = some ep
  length : get16 ep 0x16 = some length
  paddr : get32 ep 0x18 = some paddr
  count : get16 ep 0x1c = some count
  version : tableVersion ep = some (major, minor)

structure Stored (mem : Bytes) (paddr length : Nat) (table : List Structure) (tail : Bytes) : Prop where
  there : mem.drop paddr = table.flatMap Structure.bytes ++ tail
  whole : (table.flatMap Structure.bytes).length = length

structure Kept (names : List Name) (s s' : State) : Prop where
  env : ∀ name, name ∉ names → s'.env name = s.env name
  enabledMemory : s'.enabledMemory = s.enabledMemory
  oldEnabledMemory : s'.oldEnabledMemory = s.oldEnabledMemory
  enabledSockets : s'.enabledSockets = s.enabledSockets
  populatedSockets : s'.populatedSockets = s.populatedSockets

namespace Kept

variable {names : List Name} {s' s'' : State}

theorem refl (names : List Name) (s : State) : Kept names s s := ⟨fun _ _ => rfl, rfl, rfl, rfl, rfl⟩

theorem trans (first : Kept names s s') (second : Kept names s' s'') : Kept names s s'' :=
  ⟨fun name other => (second.env name other).trans (first.env name other),
    second.enabledMemory.trans first.enabledMemory,
    second.oldEnabledMemory.trans first.oldEnabledMemory, second.enabledSockets.trans first.enabledSockets,
    second.populatedSockets.trans first.populatedSockets⟩

theorem setenv {name : Name} (member : name ∈ names) (value : Bytes) (s : State) :
    Kept names s (setenv name value s) := by
  refine ⟨fun other outside => ?_, rfl, rfl, rfl, rfl⟩
  apply update_of_ne
  rintro rfl
  exact outside member

theorem setenv_if {name : Name} (member : name ∈ names) (value : Bytes) (s : State) (P : Prop) [Decidable P] :
    Kept names s (if P then Smbios.setenv name value s else s) := by
  split
  · exact setenv member value s
  · exact refl names s

end Kept

def countedNames : List Name := [.version, .memoryEnabled, .socketEnabled, .socketPopulated]

theorem exportCounters_kept (major minor : Nat) (s : State) : Kept countedNames s (exportCounters major minor s) := by
  have version : Name.version ∈ countedNames := by decide
  have memory : Name.memoryEnabled ∈ countedNames := by decide
  have enabled : Name.socketEnabled ∈ countedNames := by decide
  have populated : Name.socketPopulated ∈ countedNames := by decide
  exact ((((Kept.setenv version _ s).trans (Kept.setenv_if memory _ _ _)).trans (Kept.setenv_if enabled _ _ _)).trans
    (Kept.setenv_if populated _ _ _))

theorem Decoded.kept {done : List Structure} {before : Env} {s' : State} (decoded : Decoded build ver done before s)
    (kept : Kept countedNames s s') : Decoded build ver done before s' := by
  have placed : ∀ name, (place name).isSome → name ∉ countedNames := by
    intro name
    cases name <;> decide
  constructor
  · intro type field member
    have there := ((stringFields_spec build type).2 field member).1
    rw [kept.env _ (placed _ (by rw [there]; rfl))]
    exact decoded.strings type field member
  · intro serial
    rw [kept.env _ (by decide)]
    exact decoded.uuid serial
  · rw [kept.enabledMemory, decoded.enabledMemory]
  · rw [kept.oldEnabledMemory, decoded.oldEnabledMemory]
  · rw [kept.enabledSockets, decoded.enabledSockets]
  · rw [kept.populatedSockets, decoded.populatedSockets]

variable {mem ep : Bytes} {length paddr count major minor : Nat} {table : List Structure}

theorem smbiosDetect_run (entry : EntryPoint mem ep length paddr count major minor)
    (stored : Stored mem paddr length table tail) (valid : ∀ x ∈ table, x.Valid build) (env : Env) :
    ∃ s, smbiosDetect build mem (State.initial env) =
      some ((starts tail table).take count, exportCounters major minor s) ∧ Decoded build (major <<< 8 ||| minor)
        (table.take count) env s := by
  have size : (mem.drop paddr).length = length + tail.length := by rw [stored.there, length_append, stored.whole]
  have initial : Decoded build (major <<< 8 ||| minor) [] env (State.initial env) := Decoded.initial env
  obtain ⟨s, run, decoded⟩ := detectLoop_bytes size valid initial count
  refine ⟨s, ?_, decoded⟩
  rw [← stored.there] at run
  rw [smbiosDetect, entry.found, elim_some, entry.length, bind_some, entry.paddr, bind_some, entry.count,
    bind_some,
    entry.version, bind_some]
  dsimp only
  rw [run, map_some]

/-- The table is visited structure by structure. Behind it each variable has the string of the last structure of its
type in which the index is not zero, and the counters are the sums over all the structures visited. -/
theorem table_decoded (build : Build) (entry : EntryPoint mem ep length paddr count major minor)
    (stored : Stored mem paddr length table tail)
    (valid : ∀ x ∈ table, x.Valid build) (env : Env) : ∃ s, smbiosDetect build mem (State.initial env) =
      some ((starts tail table).take count, s) ∧ Decoded build (major <<< 8 ||| minor) (table.take count) env s := by
  obtain ⟨s, run, decoded⟩ := smbiosDetect_run entry stored valid env
  exact ⟨exportCounters major minor s, run, decoded.kept (exportCounters_kept major minor s)⟩

def serialBuild : Build := ⟨true, false⟩

theorem board_stated : get8 [2, 8, 0, 0, 1, 0, 0, 0] 1 = some [2, 8, 0, 0, 1, 0, 0, 0].length := by decide

theorem riser_stated : get8 [2, 8, 1, 0, 0, 0, 0, 0] 1 = some [2, 8, 1, 0, 0, 0, 0, 0].length := by decide

theorem maker_plain : ∀ string ∈ [([0x41] : Bytes)], string ≠ [] ∧ 0 ∉ string := by decide

theorem no_string_plain : ∀ string ∈ ([] : List Bytes), string ≠ [] ∧ 0 ∉ string :=
  fun _ member => absurd member not_mem_nil

def board : Structure := ⟨[2, 8, 0, 0, 1, 0, 0, 0], [[0x41]], board_stated, maker_plain⟩

def riser : Structure := ⟨[2, 8, 1, 0, 0, 0, 0, 0], [], riser_stated, no_string_plain⟩

def boardsEntry : Bytes := [0x5f, 0x53, 0x4d, 0x5f, 0x7b, 0x1f, 2, 6, 0, 0, 0, 0, 0, 0, 0, 0,
  0x5f, 0x44, 0x4d, 0x49, 0x5f, 0xfd, 0x15, 0, 0x1f, 0, 0x0f, 0, 2, 0, 0x26]

def boardsMemory : Bytes := replicate smbiosStart 0 ++ (boardsEntry ++ [board, riser].flatMap Structure.bytes)

theorem boards_entry :
    EntryPoint boardsMemory (boardsEntry ++ [board, riser].flatMap Structure.bytes) 0x15 0xf001f 2 2 6 := by
  have here : boardsMemory.drop smbiosStart = boardsEntry ++ [board, riser].flatMap Structure.bytes :=
    drop_left' length_replicate
  constructor
  · rw [here, smbiosSigsearch]
    exact if_pos (by decide)
  all_goals decide

theorem boards_stored : Stored boardsMemory 0xf001f 0x15 [board, riser] [] := by
  constructor
  · rw [append_nil, boardsMemory, ← append_assoc]
    apply drop_left'
    rw [length_append, length_replicate]
    rfl
  · decide

theorem boards_valid : ∀ x ∈ [board, riser], x.Valid serialBuild := by
  have first : board.Valid serialBuild := ⟨by decide, by decide⟩
  have second : riser.Valid serialBuild := ⟨by decide, by decide⟩
  intro x member
  rcases mem_cons.mp member with rfl | member
  · exact first
  · exact mem_singleton.mp member ▸ second

theorem boards_decoded : ∃ s, smbiosDetect serialBuild boardsMemory (State.initial fun _ => none) =
    some ((starts [] [board, riser]).take 2, s) ∧ Decoded serialBuild 0x0206 [board, riser] (fun _ => none) s :=
  table_decoded serialBuild boards_entry boards_stored boards_valid fun _ => none

/-- The last board does not name its maker, and the name of the first one's stays. -/
theorem earlier_string_stays :
    ¬ ∀ (build : Build) (mem ep : Bytes) (length paddr count major minor : Nat) (table : List Structure)
    (tail : Bytes), EntryPoint mem ep length paddr count major minor → Stored mem paddr length table tail →
    (∀ x ∈ table, x.Valid build) →
    ∃ s, smbiosDetect build mem (State.initial fun _ => none) = some ((starts tail table).take count, s) ∧
      ∀ type, ∀ field ∈ stringFields build type,
        s.env field.1 = ((table.take count).filter (·.type = type)).getLast?.bind fun x => x.denoted field.2 := by
  intro claim
  have member : (Name.planarMaker, 0x04) ∈ stringFields serialBuild 2 := by decide
  obtain ⟨s, run, decoded⟩ := smbiosDetect_run boards_entry boards_stored boards_valid fun _ => none
  obtain ⟨s', run', strings⟩ := claim serialBuild _ _ _ _ _ _ _ _ _ boards_entry boards_stored boards_valid
  have same : exportCounters 2 6 s = s' := (Prod.mk.inj (some.inj (run.symm.trans run'))).2
  have first := (decoded.kept (exportCounters_kept 2 6 s)).strings 2 _ member
  have second := strings 2 _ member
  rw [← same, first] at second
  exact absurd second (by decide)

end Pcbsd.Proofs.StructureTable
