import Mathlib.Data.List.Induction
import Pcbsd.Forth.ModuleOptions
import Pcbsd.Lib.Distinct
import Pcbsd.Proofs.ConfEnvironment

/-! What the settings of modules come to: the list of module_options after any sequence of assignments. -/

namespace Pcbsd.Forth.ModuleOptions
open Lib List Option Function

variable {ι : Type} [DecidableEq ι] {commands : Commands ι} {allocator : Allocator ι}

def lastValue (name : Bytes) (assignments : List (Bytes × Bytes)) : Option Bytes :=
  (assignments.reverse.find? (·.1 == name)).map (·.2)

def members : List Member := [.flag, .loadname, .type, .args, .beforeload, .afterload, .loaderror]

def settingOf (name : Bytes) : Option (Member × Bytes) :=
  (members.find? fun member => suffixType member.suffix name).map fun member =>
    (member, name.take (name.length - member.suffix.length))

def mentioned (assignments : List (Bytes × Bytes)) : List Bytes :=
  (assignments.filterMap fun assignment => (settingOf assignment.1).map (·.2)).eraseDups

/-- The text that was last assigned to a member of a module, without its quotes; empty if there was none. -/
def lastText (module : Bytes) (member : Member) (assignments : List (Bytes × Bytes)) : Bytes :=
  ((lastValue (module ++ member.suffix) assignments).map unquote).getD []

def expected (assignments : List (Bytes × Bytes)) (module : Bytes) : ModuleOption where
  flag := ((lastValue (module ++ loadModuleSuffix) assignments).map yesValue).getD false
  name := module
  loadname := lastText module .loadname assignments
  type := lastText module .type assignments
  args := lastText module .args assignments
  beforeload := lastText module .beforeload assignments
  afterload := lastText module .afterload assignments
  loaderror := lastText module .loaderror assignments

/-- module_options leads through these addresses, the last of which is last_module_option, and these are the modules
there. -/
structure Lists (o : Options ι) (addrs : List ι) (entries : List ModuleOption) : Prop where
  holds : Stailq.Holds o.next o.list addrs
  entries : addrs.map o.entry = entries

structure Represents (o : Options ι) (addrs : List ι) (entries : List ModuleOption) :
    Prop extends Lists o addrs entries where
  given : ∀ addr ∈ addrs, addr ∈ o.given
  few : addrs.length ≤ o.given.length

def Commands.Leaves (commands : Commands ι) (command : Bytes) : Prop :=
  ∀ s, (commands.evaluate command s).2.options = s.options

section

variable {o : Options ι} {addrs : List ι} {entries : List ModuleOption} {name : Bytes}

omit [DecidableEq ι] in
theorem findModuleOption_chain {start : Option ι} (chain : Stailq.Chain o.next start addrs) {fuel : Nat}
    (enough : addrs.length ≤ fuel) :
    findModuleOption o name fuel start = some (addrs.find? fun addr => (o.entry addr).name = name) := by
  induction addrs generalizing start fuel with
  | nil =>
    cases chain
    cases fuel <;> rfl
  | cons addr _ ih =>
    obtain ⟨rfl, later⟩ := chain
    obtain ⟨fuel, rfl⟩ := Nat.exists_eq_succ_of_ne_zero (Nat.ne_of_gt (Nat.lt_of_lt_of_le (Nat.succ_pos _) enough))
    rw [findModuleOption, find?_cons]
    by_cases same : (o.entry addr).name = name
    · rw [if_pos same, decide_eq_true same]
    · rw [if_neg same, decide_eq_false same, ih later (Nat.le_of_succ_le_succ enough)]

theorem append_eq {addr : ι} (holds : Stailq.Holds o.next o.list addrs) (erased : o.next addr = none) :
    appendToModuleOptionsList addr o =
      some { o with next := (Stailq.insertTail o.next o.list addr).1, list := (Stailq.insertTail o.next o.list addr).2 } := by
  have first := holds.chain.start_eq
  have last := holds.last
  have same : update o.next addr none = o.next := by rw [← erased, update_eq_self]
  rcases eq_nil_or_concat addrs with rfl | ⟨_, _, rfl⟩
  · simp [appendToModuleOptionsList, Stailq.insertTail, first, last, same]
  · obtain ⟨q, head⟩ : ∃ q, o.list.first = some q := by
      rw [first]
      exact isSome_iff_exists.mp (by simp)
    simp [appendToModuleOptionsList, Stailq.insertTail, head, last, same]

theorem newModuleOption_represents (represents : Represents o addrs entries) :
    ∃ addr o', newModuleOption allocator name o = some (addr, o') ∧ addr ∉ addrs ∧ o'.entry addr = { name := name } ∧
      Represents o' (addrs ++ [addr]) (entries ++ [{ name := name }]) ∧ ∀ p ∈ addrs, o'.entry p = o.entry p := by
  obtain ⟨⟨holds, rfl⟩, given, few⟩ := represents
  generalize new : allocator.allocate o.given = addr
  have fresh : addr ∉ addrs := fun there => allocator.fresh o.given (new ▸ given _ there)
  have kept : ∀ p ∈ addrs, p ≠ addr := fun p there same => fresh (same ▸ there)
  have erased : Stailq.Holds (update o.next addr none) o.list addrs :=
    holds.congr fun p there => update_of_ne (kept p there) _ _
  have appended := @append_eq _ _ { o with
    entry := update o.entry addr { name := [] }, next := update o.next addr none, given := addr :: o.given } _ addr
    erased (update_self _ _ _)
  refine ⟨addr, _, by rw [newModuleOption, new]; dsimp only; rw [appended]; rfl, fresh, ?_, ⟨⟨?_, ?_⟩, ?_,
    ?_⟩, fun p there => ?_⟩
  · simp
  · exact erased.insertTail fresh
  · rw [map_append, map_singleton]
    congr 1
    · refine map_congr_left fun p there => ?_
      simp [kept p there]
    · simp
  · intro p there
    rcases mem_append.mp there with old | new
    · exact mem_cons_of_mem _ (given p old)
    · exact mem_singleton.mp new ▸ mem_cons_self
  · simpa using few
  · simp [kept p there]

variable {f : ModuleOption → ModuleOption}

theorem modifyModule_found {before after : List ModuleOption} {entry : ModuleOption}
    (none_ : ∀ e ∈ before, e.name ≠ name) (here : entry.name = name) :
    modifyModule (before ++ entry :: after) name f = before ++ f entry :: after := by
  have found : (before ++ entry :: after).findIdx? (·.name == name) = some before.length := by
    rw [findIdx?_append, findIdx?_eq_none_iff.mpr (by simpa using none_), findIdx?_cons]
    simp [here]
  rw [modifyModule, found]
  dsimp only
  rw [modify_eq_take_cons_drop (by simp)]
  simp

theorem modifyModule_new (none_ : ∀ e ∈ entries, e.name ≠ name) :
    modifyModule entries name f = entries ++ [f { name }] := by
  rw [modifyModule, findIdx?_eq_none_iff.mpr (by simpa using none_)]

theorem setMember_represents {s : Settings ι} (represents : Represents s.options addrs entries) (member : Member)
    (trimmed : s.name.take (s.name.length - member.suffix.length) = name) :
    ∃ s' addrs', setMember allocator member s = some s' ∧
      Represents s'.options addrs' (modifyModule entries name (member.set s.value)) ∧
      ∀ p ∈ addrs, (s.options.entry p).name ≠ name → p ∈ addrs' ∧ s'.options.entry p = s.options.entry p := by
  have enough := Nat.le_succ_of_le represents.few
  have found : findModuleOption s.options name _ _ = _ := findModuleOption_chain represents.holds.chain enough
  have distinct := represents.holds.chain.nodup
  rw [setMember, trimmed, getModuleOption, found, bind_some]
  rcases there : addrs.find? fun addr => (s.options.entry addr).name = name with _ | addr
  · have none_ : ∀ p ∈ addrs, (s.options.entry p).name ≠ name := by simpa using there
    obtain ⟨addr, o, new, fresh, entry, grown, same⟩ := @newModuleOption_represents _ _ allocator _ _ _ name represents
    have kept : ∀ p ∈ addrs, p ≠ addr := fun p there same => fresh (same ▸ there)
    refine ⟨_, addrs ++ [addr], by dsimp only; rw [new, map_some], ⟨⟨grown.holds, ?_⟩, grown.given, grown.few⟩,
      fun p there _ => ⟨mem_append_left _ there, ?_⟩⟩
    · rw [modifyModule_new (by rw [← represents.entries]; simpa using none_), ← represents.entries, map_append, map_singleton]
      dsimp only
      rw [update_self, entry]
      congr 1
      refine map_congr_left fun p there => ?_
      rw [update_of_ne (kept p there), same p there]
    · show update o.entry addr _ p = _
      rw [update_of_ne (kept p there), same p there]
  · obtain ⟨here, before, after, rfl, none_⟩ := find?_eq_some_iff_append.mp there
    have apart : ∀ p ∈ before ++ after, p ≠ addr := by
      have member := (nodup_middle.mp distinct)
      exact fun p there same => (nodup_cons.mp member).1 (same ▸ there)
    refine ⟨_, before ++ addr :: after, rfl, ⟨⟨represents.holds, ?_⟩, represents.given, represents.few⟩,
      fun p there other => ⟨there, update_of_ne ?_ _ _⟩⟩
    · have split : entries = before.map s.options.entry ++ s.options.entry addr :: after.map s.options.entry := by
        rw [← represents.entries, map_append, map_cons]
      rw [split, modifyModule_found (by simpa using none_) (by simpa using here), map_append, map_cons]
      dsimp only
      rw [update_self]
      congr 1
      · refine map_congr_left fun p there => update_of_ne (apart p (mem_append_left _ there)) _ _
      · congr 1
        refine map_congr_left fun p there => update_of_ne (apart p (mem_append_right _ there)) _ _
    · rintro rfl
      exact other (by simpa using here)

variable {l : List (Bytes × Bytes)} {last : Bytes × Bytes} {other : Member}

theorem suffixType_iff {suffix : Bytes} : suffixType suffix name ↔ ∃ module, module ≠ [] ∧ name = module ++ suffix := by
  rw [suffixType, Bool.and_eq_true, decide_eq_true_iff, isSuffixOf_iff_suffix]
  constructor
  · rintro ⟨longer, module, rfl⟩
    refine ⟨module, fun empty => ?_, rfl⟩
    rw [empty] at longer
    exact Nat.lt_irrefl _ longer
  · rintro ⟨module, some_, rfl⟩
    refine ⟨?_, suffix_append _ _⟩
    rw [length_append]
    exact Nat.lt_add_of_pos_left (length_pos_iff.mpr some_)

variable {module : Bytes} {member : Member}

theorem suffix_apart (ends : member.suffix <:+ other.suffix) : member = other := by
  have apart : members.all fun member => members.all fun other => !member.suffix.isSuffixOf other.suffix || member ==
    other := by decide
  have all : ∀ member, member ∈ members := by
    intro member
    cases member
    all_goals decide
  have each := List.all_eq_true.mp (List.all_eq_true.mp apart member (all member)) other (all other)
  rw [Bool.or_eq_true, Bool.not_eq_true', beq_iff_eq] at each
  refine each.resolve_left fun none_ => ?_
  rw [isSuffixOf_iff_suffix.mpr ends] at none_
  cases none_

theorem setting_unique {module' : Bytes} (same : module ++ member.suffix = module' ++ other.suffix) :
    member = other ∧ module = module' := by
  have here : member.suffix <:+ module ++ member.suffix := suffix_append _ _
  have there : other.suffix <:+ module ++ member.suffix := same ▸ suffix_append _ _
  have equal : member = other := by
    rcases suffix_or_suffix_of_suffix here there with ends | ends
    · exact suffix_apart ends
    · exact (suffix_apart ends).symm
  subst equal
  exact ⟨rfl, append_cancel_right same⟩

theorem settingOf_iff :
    settingOf name = some (member, module) ↔ module ≠ [] ∧ name = module ++ member.suffix := by
  constructor
  · intro setting
    obtain ⟨found, there, same⟩ := map_eq_some_iff.mp setting
    obtain ⟨rfl, rfl⟩ := Prod.mk.inj same
    have ends : suffixType found.suffix name :=
      find?_some (p := fun member => suffixType (Member.suffix member) name) there
    obtain ⟨module, some_, rfl⟩ := suffixType_iff.mp ends
    rw [length_append, Nat.add_sub_cancel, take_left]
    exact ⟨some_, rfl⟩
  · rintro ⟨some_, rfl⟩
    have matches_ : suffixType member.suffix (module ++ member.suffix) := suffixType_iff.mpr ⟨module, some_, rfl⟩
    have all : member ∈ members := by cases member <;> decide
    obtain ⟨found, there⟩ : ∃ found, (members.find? fun other => suffixType other.suffix (module ++ member.suffix)) =
      some found :=
      isSome_iff_exists.mp (find?_isSome.mpr ⟨member, all, matches_⟩)
    have ends := find?_some (p := fun other => suffixType (Member.suffix other) (module ++ member.suffix)) there
    obtain ⟨_, -, same⟩ := suffixType_iff.mp ends
    obtain ⟨rfl, -⟩ := setting_unique same
    rw [settingOf, there, map_some, length_append, Nat.add_sub_cancel, take_left]

theorem suffixType_settingOf (setting : settingOf name = some (member, module))
    (other : Member) : suffixType other.suffix name = decide (other = member) := by
  obtain ⟨some_, rfl⟩ := settingOf_iff.mp setting
  rw [Bool.eq_iff_iff, suffixType_iff, decide_eq_true_iff]
  constructor
  · rintro ⟨_, -, same⟩
    exact (setting_unique same).1.symm
  · rintro rfl
    exact ⟨module, some_, rfl⟩

theorem suffixType_none (setting : settingOf name = none)
    (member : Member) : suffixType member.suffix name = false := by
  rw [settingOf, map_eq_none_iff, find?_eq_none] at setting
  have all : member ∈ members := by cases member <;> decide
  simpa using setting member all

theorem lastValue_append (name : Bytes) (l : List (Bytes × Bytes)) (last : Bytes × Bytes) :
    lastValue name (l ++ [last]) = if last.1 = name then some last.2 else lastValue name l := by
  rw [lastValue, reverse_append, reverse_singleton, singleton_append, find?_cons]
  by_cases same : last.1 = name
  · rw [if_pos same, beq_iff_eq.mpr same, map_some]
  · rw [if_neg same, beq_eq_false_iff_ne.mpr same, lastValue]

theorem lastValue_mem {value : Bytes} (last : lastValue name l = some value) : (name, value) ∈ l := by
  obtain ⟨found, there, rfl⟩ := map_eq_some_iff.mp last
  obtain rfl : found.1 = name :=
    beq_iff_eq.mp (find?_some (p := fun assignment : Bytes × Bytes => assignment.1 == name) there)
  exact mem_reverse.mp (mem_of_find?_eq_some there)

theorem mem_mentioned :
    module ∈ mentioned l ↔ module ≠ [] ∧ ∃ member value, (module ++ Member.suffix member, value) ∈ l := by
  rw [mentioned, mem_eraseDups, mem_filterMap]
  constructor
  · rintro ⟨⟨_, value⟩, there, same⟩
    obtain ⟨⟨member, _⟩, setting, rfl⟩ := map_eq_some_iff.mp same
    obtain ⟨some_, rfl⟩ := settingOf_iff.mp setting
    exact ⟨some_, member, value, there⟩
  · rintro ⟨some_, member, value, there⟩
    refine ⟨_, there, ?_⟩
    rw [settingOf_iff.mpr ⟨some_, rfl⟩, map_some]

theorem mentioned_other (setting : settingOf last.1 = none) :
    mentioned (l ++ [last]) = mentioned l := by
  have nothing : ([last].filterMap fun assignment => (settingOf assignment.1).map (·.2)) = [] := by
    rw [filterMap_cons_none (by rw [setting, map_none]), filterMap_nil]
  rw [mentioned, filterMap_append, nothing, append_nil, mentioned]

theorem mentioned_setting (setting : settingOf last.1 = some (member, module)) :
    mentioned (l ++ [last]) = if module ∈ mentioned l then mentioned l else mentioned l ++ [module] := by
  have one : ([last].filterMap fun assignment => (settingOf assignment.1).map (·.2)) = [module] := by
    rw [filterMap_cons_some (by rw [setting, map_some]), filterMap_nil]
  rw [mentioned, filterMap_append, one, eraseDups_append, ← mentioned]
  split
  next there =>
    rw [removeAll, filter_cons_of_neg (by simpa [mentioned, mem_eraseDups] using there)]
    exact append_nil _
  next new =>
    rw [removeAll, filter_cons_of_pos (by simpa [mentioned, mem_eraseDups] using new)]
    rfl

theorem expected_setting (setting : settingOf last.1 = some (member, module)) (other : Bytes) :
    expected (l ++ [last]) other = if other = module then member.set last.2 (expected l module) else expected l other := by
  obtain ⟨-, name⟩ := settingOf_iff.mp setting
  have each (m : Member) : last.1 = other ++ m.suffix ↔ other = module ∧ m = member := by
    rw [name]
    constructor
    · intro same
      obtain ⟨rfl, rfl⟩ := setting_unique same
      exact ⟨rfl, rfl⟩
    · rintro ⟨rfl, rfl⟩
      rfl
  have flag : last.1 = other ++ loadModuleSuffix ↔ other = module ∧ Member.flag = member := each .flag
  by_cases same : other = module
  · subst same
    simp only [expected, lastText, lastValue_append, flag, each, true_and]
    cases member
    all_goals simp [Member.set]
  · simp only [expected, lastText, lastValue_append, flag, each, same, false_and, if_false]

theorem expected_other (setting : settingOf last.1 = none) (some_ : module ≠ []) : expected
    (l ++ [last]) module = expected l module := by
  have each (m : Member) : last.1 ≠ module ++ m.suffix := fun same => by
    rw [settingOf_iff.mpr ⟨some_, same⟩] at setting
    cases setting
  have flag : last.1 ≠ module ++ loadModuleSuffix := each .flag
  simp only [expected, lastText, lastValue_append, flag, each, if_false]

theorem expected_new (some_ : module ≠ []) (new : module ∉ mentioned l) :
    expected l module = { name := module } := by
  have each (m : Member) : lastValue (module ++ m.suffix) l = none := by
    rcases last : lastValue (module ++ m.suffix) l with _ | value
    · rfl
    · exact absurd (mem_mentioned.mpr ⟨some_, m, value, lastValue_mem last⟩) new
  have flag : lastValue (module ++ loadModuleSuffix) l = none := each .flag
  simp only [expected, lastText, flag, each, map_none, getD_none]

theorem modifyModule_expected (setting : settingOf last.1 = some (member, module)) :
    modifyModule ((mentioned l).map (expected l)) module (member.set last.2) =
      (mentioned (l ++ [last])).map (expected (l ++ [last])) := by
  have some_ := (settingOf_iff.mp setting).1
  have distinct : (mentioned l).Nodup := nodup_eraseDups _
  have others {names : List Bytes} (apart : module ∉ names) :
    names.map (expected (l ++ [last])) = names.map (expected l) := by
    refine map_congr_left fun name there => ?_
    rw [expected_setting setting, if_neg fun same : name = module => apart (same ▸ there)]
  rw [mentioned_setting setting]
  split
  next there =>
    obtain ⟨_, _, split⟩ := append_of_mem there
    rw [split] at distinct ⊢
    have apart := (nodup_cons.mp (nodup_middle.mp distinct)).1
    rw [mem_append, not_or] at apart
    rw [map_append, map_cons, map_append, map_cons, others apart.1, others apart.2, expected_setting setting,
      if_pos rfl]
    refine modifyModule_found (fun e there => ?_) rfl
    obtain ⟨name, listed, rfl⟩ := List.mem_map.mp there
    exact fun same => apart.1 (same ▸ listed)
  next new =>
    rw [map_append, map_singleton, others new, expected_setting setting, if_pos rfl, expected_new some_ new]
    refine modifyModule_new fun e there => ?_
    obtain ⟨name, listed, rfl⟩ := List.mem_map.mp there
    exact fun same => new (same ▸ listed)

variable {s : Settings ι}

theorem special_none {name : Bytes}
    (special : name = [] ∨ name = loaderConfFiles ∨ name = nextbootEnable ∨ name = nextbootConf ∨
      name = verboseLoading ∨ name = exec) :
    settingOf name = none := by
  rcases special with rfl | rfl | rfl | rfl | rfl | rfl
  all_goals decide

theorem processAssignment_setting {member : Member} {module : Bytes}
    (setting : settingOf s.name = some (member, module)) :
    processAssignment commands allocator s = (setMember allocator member s).map (none, ·) := by
  have plain := mt (@special_none s.name) (by rw [setting]; exact some_ne_none _)
  rw [not_or, not_or, not_or, not_or, not_or] at plain
  obtain ⟨some_, confFiles, enable, conf, loading, command⟩ := plain
  have flag : suffixType loadModuleSuffix s.name = _ := suffixType_settingOf setting .flag
  have loadname : suffixType moduleLoadnameSuffix s.name = _ := suffixType_settingOf setting .loadname
  have type : suffixType moduleTypeSuffix s.name = _ := suffixType_settingOf setting .type
  have args : suffixType moduleArgsSuffix s.name = _ := suffixType_settingOf setting .args
  have beforeload : suffixType moduleBeforeloadSuffix s.name = _ := suffixType_settingOf setting .beforeload
  have afterload : suffixType moduleAfterloadSuffix s.name = _ := suffixType_settingOf setting .afterload
  have loaderror : suffixType moduleLoaderrorSuffix s.name = _ := suffixType_settingOf setting .loaderror
  rw [processAssignment, if_neg some_, if_neg confFiles, if_neg enable, if_neg conf, if_neg loading, if_neg command,
    flag, loadname, type, args, beforeload, afterload, loaderror]
  cases member
  all_goals rfl

omit [DecidableEq ι] in
theorem setEnvironmentVariable_options : (setEnvironmentVariable commands s).2.options = s.options := by
  have leaves := commands.set_leaves (s.name ++ [charAssign] ++ s.value) s
  rw [setEnvironmentVariable]
  split
  next same => rwa [same] at leaves
  next same => rwa [same] at leaves

omit [DecidableEq ι] in
theorem setConfFiles_options : (setConfFiles commands s).2.options = s.options := by
  have leaves : (setEnvironmentVariable commands s).2.options = s.options := setEnvironmentVariable_options
  rw [setConfFiles]
  split
  next same => rwa [same] at leaves
  · exact leaves

omit [DecidableEq ι] in
theorem executeCommand_options (leaves : commands.Leaves (unquote s.value)) :
    (executeCommand commands s).2.options = s.options := by
  have same := leaves s
  rw [executeCommand]
  split
  next run => rwa [run] at same
  next run => rwa [run] at same

theorem processAssignment_other (setting : settingOf s.name = none)
    (leaves : s.name = exec → commands.Leaves (unquote s.value)) :
    ∃ done, processAssignment commands allocator s = some done ∧ done.2.options = s.options := by
  have flag : suffixType loadModuleSuffix s.name = _ := suffixType_none setting .flag
  have loadname : suffixType moduleLoadnameSuffix s.name = _ := suffixType_none setting .loadname
  have type : suffixType moduleTypeSuffix s.name = _ := suffixType_none setting .type
  have args : suffixType moduleArgsSuffix s.name = _ := suffixType_none setting .args
  have beforeload : suffixType moduleBeforeloadSuffix s.name = _ := suffixType_none setting .beforeload
  have afterload : suffixType moduleAfterloadSuffix s.name = _ := suffixType_none setting .afterload
  have loaderror : suffixType moduleLoaderrorSuffix s.name = _ := suffixType_none setting .loaderror
  rw [processAssignment, flag, loadname, type, args, beforeload, afterload, loaderror]
  by_cases none_ : s.name = []
  · rw [if_pos none_]
    exact ⟨_, rfl, rfl⟩
  rw [if_neg none_]
  by_cases confFiles : s.name = loaderConfFiles
  · rw [if_pos confFiles]
    exact ⟨_, rfl, setConfFiles_options⟩
  rw [if_neg confFiles]
  by_cases enable : s.name = nextbootEnable
  · rw [if_pos enable]
    exact ⟨_, rfl, rfl⟩
  rw [if_neg enable]
  by_cases conf : s.name = nextbootConf
  · rw [if_pos conf]
    exact ⟨_, rfl, rfl⟩
  rw [if_neg conf]
  by_cases loading : s.name = verboseLoading
  · rw [if_pos loading]
    exact ⟨_, rfl, rfl⟩
  rw [if_neg loading]
  by_cases command : s.name = exec
  · rw [if_pos command]
    exact ⟨_, rfl, executeCommand_options (leaves command)⟩
  · rw [if_neg command]
    exact ⟨_, rfl, setEnvironmentVariable_options⟩

theorem assign_represents (represents : Represents s.options addrs ((mentioned l).map (expected l)))
    (leaves : last.1 = exec → commands.Leaves (unquote last.2)) :
    ∃ s' addrs', assign commands allocator s last = some s' ∧
      Represents s'.options addrs' ((mentioned (l ++ [last])).map (expected (l ++ [last]))) ∧
      ∀ p ∈ addrs, (settingOf last.1).map (·.2) ≠ some (s.options.entry p).name → p ∈ addrs' ∧
      s'.options.entry p = s.options.entry p := by
  have same : { s with name := last.1, value := last.2 }.options = s.options := rfl
  rcases setting : settingOf last.1 with _ | ⟨member, module⟩
  · obtain ⟨done, processed, kept⟩ := @processAssignment_other _ _ commands allocator
      { s with name := last.1, value := last.2 } setting leaves
    refine ⟨{ done.2 with name := [], value := [] },
      addrs, by rw [assign, processed, map_some], ?_, fun p there _ => ⟨there, ?_⟩⟩
    · have later : (mentioned l).map (expected (l ++ [last])) = (mentioned l).map (expected l) :=
        map_congr_left fun module there => expected_other setting (mem_mentioned.mp there).1
      rw [mentioned_other setting, later]
      rwa [kept]
    · rw [kept]
  · have trimmed : last.1.take (last.1.length - member.suffix.length) = module := by
      obtain ⟨-, name⟩ := settingOf_iff.mp setting
      rw [name, length_append, Nat.add_sub_cancel, take_left]
    obtain ⟨s', addrs', set, grown, frame⟩ :=
      @setMember_represents _ _ allocator _ _ module { s with name := last.1, value := last.2 }
      represents member trimmed
    refine ⟨{ s' with name := [], value := [] }, addrs', ?_, ?_,
      fun p there other => frame p there fun same => other ?_⟩
    · rw [assign, processAssignment_setting setting, set, map_some, map_some]
    · rw [← modifyModule_expected setting]
      exact grown
    · exact congrArg some same.symm

theorem assignAll_append (l : List (Bytes × Bytes)) (last : Bytes × Bytes) (s : Settings ι) :
    assignAll commands allocator (l ++ [last]) s = (assignAll commands allocator l s).bind fun s =>
      assign commands allocator s last := by
  induction l generalizing s with
  | nil => cases one : assign commands allocator s last <;> simp [assignAll, one]
  | cons _ _ ih =>
    rw [cons_append, assignAll, assignAll, bind_assoc]
    exact congrArg _ (funext ih)

omit [DecidableEq ι] in
theorem represents_empty (empty : s.options.list = Stailq.empty) :
    Represents s.options [] ((mentioned []).map (expected [])) :=
  ⟨⟨empty ▸ Stailq.holds_empty, rfl⟩, fun _ there => absurd there not_mem_nil, Nat.zero_le _⟩

theorem assignAll_represents (empty : s.options.list = Stailq.empty)
    (leaves : ∀ assignment ∈ l, assignment.1 = exec → commands.Leaves (unquote assignment.2)) :
    ∃ after addrs, assignAll commands allocator l s = some after ∧
    Represents after.options addrs ((mentioned l).map (expected l)) := by
  induction l using reverseRecOn with
  | nil => exact ⟨s, [], rfl, represents_empty empty⟩
  | append_singleton front last ih =>
    obtain ⟨before, addrs', ran, represents⟩ := ih fun assignment there => leaves assignment (mem_append_left _ there)
    obtain ⟨after, addrs, done, grown, -⟩ :=
      @assign_represents _ _ commands allocator addrs' front last before represents
      (leaves last (mem_append_right _ mem_cons_self))
    exact ⟨after, addrs, by rw [assignAll_append, ran, bind_some, done], grown⟩

end

/-- Module settings accumulate, one module for each prefix, as long as the commands of exec leave the modules alone. -/
theorem assignAll_accumulates (commands : Commands ι) (allocator : Allocator ι) (assignments : List (Bytes × Bytes))
    (s : Settings ι) (empty : s.options.list = Stailq.empty)
    (leaves : ∀ assignment ∈ assignments, assignment.1 = exec → commands.Leaves (unquote assignment.2)) :
    ∃ after addrs, assignAll commands allocator assignments s = some after ∧
      Lists after.options addrs ((mentioned assignments).map (expected assignments)) ∧
      ∀ front last, assignments = front ++ [last] → ∃ before addrs', assignAll commands allocator front s =
        some before ∧ Lists before.options addrs' ((mentioned front).map (expected front)) ∧
        ∀ p ∈ addrs', (settingOf last.1).map (·.2) ≠ some (before.options.entry p).name →
          p ∈ addrs ∧ after.options.entry p = before.options.entry p := by
  rcases eq_nil_or_concat assignments with rfl | ⟨front, last, rfl⟩
  · refine ⟨s, [], rfl, (represents_empty empty).toLists, fun front last same => ?_⟩
    exact absurd same.symm (append_ne_nil_of_right_ne_nil _ (cons_ne_nil _ _))
  · rw [concat_eq_append] at leaves ⊢
    obtain ⟨before, addrs', ran, represents⟩ := assignAll_represents empty fun assignment there => leaves assignment
      (mem_append_left _ there)
    obtain ⟨after, addrs, done, grown, frame⟩ :=
      @assign_represents _ _ commands allocator addrs' front last before represents
      (leaves last (mem_append_right _ mem_cons_self))
    refine ⟨after, addrs, by rw [assignAll_append, ran, bind_some, done], grown.toLists, fun front' last' same => ?_⟩
    obtain ⟨rfl, lasts⟩ := append_inj' same rfl
    obtain rfl := singleton_inj.mp lasts
    exact ⟨before, addrs', ran, represents.toLists, frame⟩

def loaderEvaluate (text : Bytes) (s : Settings ι) : Bool × Settings ι :=
  if setCommand ++ [bl] <+: text then
    let assignment := text.drop 4
    let name := assignment.takeWhile (· ≠ charAssign)
    (true, { s with env := update s.env name (some (assignment.drop (name.length + 1))) })
  else if enableModuleCommand ++ [bl] <+: text then (true, enableModule ((text.drop 14).takeWhile (· ≠ bl)) s)
  else (false, s)

theorem loaderEvaluate_set (text : Bytes) (s : Settings ι) :
    (loaderEvaluate (setCommand ++ [bl] ++ text) s).2.options = s.options := by
  rw [loaderEvaluate, if_pos (prefix_append _ _)]

def loaderCommands : Commands ι := ⟨loaderEvaluate, loaderEvaluate_set⟩

def upward (given : List Nat) : Nat := given.foldr max 0 + 1

theorem upward_fresh (given : List Nat) : upward given ∉ given := by
  have bound : ∀ p ∈ given, p ≤ given.foldr max 0 := by
    induction given with
    | nil => exact fun _ there => absurd there not_mem_nil
    | cons _ _ ih =>
      intro p there
      rcases mem_cons.mp there with rfl | later
      · exact Nat.le_max_left _ _
      · exact Nat.le_trans (ih p later) (Nat.le_max_right _ _)
  exact fun there => absurd (bound _ there) (Nat.not_le.mpr (Nat.lt_succ_self _))

def heap : Allocator Nat := ⟨upward, upward_fresh⟩

def fresh : Settings Nat :=
  { env := fun _ => none, options := ⟨fun _ => { name := [] }, fun _ => none, Stailq.empty, []⟩ }

def fooLoad : Bytes := ascii ("foo_load".toList)

def enabling : List (Bytes × Bytes) :=
  [(fooLoad, quoted (ascii ['N', 'O'])), (exec, quoted (ascii ("enable-module foo".toList)))]

/-- enable-module in exec sets the flag that foo_load="NO" has cleared. The first part says that these are two lines
of a file. -/
theorem assignAll_enables :
    [settingLine fooLoad (ascii ['N', 'O']), settingLine exec (ascii ("enable-module foo".toList))].map
        (getAssignment lf) = enabling.map some ∧
      ∃ after addr, assignAll loaderCommands heap enabling fresh = some after ∧
        after.options.list = ⟨some addr, some addr⟩ ∧
        (after.options.entry addr).flag = true ∧ (expected enabling (ascii ("foo".toList))).flag = false := by
  have named : IsName fooLoad ∧ IsName exec := by
    have letters : fooLoad.all isNameChar = true ∧ exec.all isNameChar = true := by decide
    exact ⟨⟨⟨0x66, by decide, by decide⟩, List.all_eq_true.mp letters.1⟩, ⟨0x65, by decide, by decide⟩,
      List.all_eq_true.mp letters.2⟩
  refine ⟨?_, _, 1, rfl, by decide, by decide, by decide⟩
  rw [map_cons, map_singleton, getAssignment_settingLine lf named.1, getAssignment_settingLine lf named.2]
  rfl

/-- Prefixes that end in a suffix, a setting that is repeated, and a command that sets a variable. -/
def mixed : List (Bytes × Bytes) :=
  [(fooLoad, yesUpper), (exec, quoted (ascii ("set x=1".toList))),
    (ascii ("foo_load_name".toList), quoted (ascii ['a', ' ', 'b'])), (fooLoad, ascii ['N', 'O'])]

theorem assignAll_mixed : ∃ after addrs, assignAll loaderCommands heap mixed fresh = some after ∧
    Lists after.options addrs
      [{ name := ascii ("foo".toList) }, { name := ascii ("foo_load".toList), loadname := ascii ['a', ' ', 'b'] }] := by
  have leaves : ∀ assignment ∈ mixed, assignment.1 = exec →
    (loaderCommands (ι := Nat)).Leaves (unquote assignment.2) := by
    intro assignment there command
    have only : assignment.2 = quoted (ascii ("set x=1".toList)) := by
      have all : (mixed.all fun assignment => assignment.1 != exec || assignment.2 ==
        quoted (ascii ("set x=1".toList))) = true := by
        decide
      have this := List.all_eq_true.mp all assignment there
      rw [command] at this
      simpa using this
    rw [only]
    exact loaderEvaluate_set (ascii ("x=1".toList))
  obtain ⟨after, addrs, ran, lists, -⟩ := assignAll_accumulates loaderCommands heap mixed fresh rfl leaves
  exact ⟨after, addrs, ran, lists⟩

end Pcbsd.Forth.ModuleOptions
