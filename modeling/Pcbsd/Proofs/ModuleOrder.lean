import Mathlib.Data.List.DropRight
import Pcbsd.Modpath
import Pcbsd.Lib.Distinct
import Pcbsd.Lib.Paths

/-! The order of the module path: the list of directories after moduledir_rebuild, against the value
that module_path has. -/

namespace Pcbsd.Preload
open Lib List Function

def trimmed : Bytes → Bytes
  | [] => []
  | c :: rest => c :: rest.rdropWhile (· = charSlash)

/-- What stands between the ';' of a value; a ';' may end the last directory. -/
def pathParts (path : Bytes) : List Bytes :=
  let parts := path.splitOn charSemicolon
  if parts.getLast? = some [] then parts.dropLast else parts

def pathDirs (path : Bytes) : List Bytes := (pathParts path).map trimmed

/-- The distinct directories of a value in the order of their first occurrence. -/
def distinctDirs (path : Bytes) : List Bytes := (pathDirs path).eraseDups

theorem take_trimSlashes (cp : Bytes) : cp.take (trimSlashes cp cp.length) = trimmed cp := by
  cases cp with
  | nil => rfl
  | cons c rest =>
    induction rest using reverseRecOn with
    | nil => rfl
    | append_singleton rest last ih =>
      rw [trimmed, rdropWhile_concat, length_cons, length_append, length_singleton, trimSlashes]
      have final : (c :: (rest ++ [last]))[rest.length + 1]? = some last := by simp
      rw [final]
      by_cases slash : last = charSlash
      · rw [if_pos ⟨by omega, by rw [slash]⟩, if_pos (by simpa using slash)]
        have front (n : Nat) (within : n ≤ rest.length + 1) :
            (c :: (rest ++ [last])).take (trimSlashes (c :: (rest ++ [last])) n) = (c :: rest).take (trimSlashes (c :: rest) n) := by
          induction n with
          | zero => rfl
          | succ n down =>
            have same : (c :: (rest ++ [last]))[n]? = (c :: rest)[n]? := by
              rw [← cons_append, getElem?_append_left (by rw [length_cons]; omega)]
            rw [trimSlashes, trimSlashes, same]
            split
            · exact down (by omega)
            · rw [← cons_append, take_append_of_le_length (by rw [length_cons]; omega)]
        rw [front _ le_rfl]
        exact ih
      · rw [if_neg fun both => slash (Option.some.inj both.2), if_neg (by simpa using slash)]
        exact take_of_length_le (by simp)

theorem pathParts_nil : pathParts [] = [] := by simp [pathParts]

theorem pathParts_last {cp : Bytes} (plain : charSemicolon ∉ cp) (nonempty : cp ≠ []) : pathParts cp = [cp] := by
  rw [pathParts, splitOn_eq_singleton plain]
  simp [nonempty]

theorem pathParts_cons {cp : Bytes} (plain : charSemicolon ∉ cp) (rest : Bytes) :
    pathParts (cp ++ charSemicolon :: rest) = cp :: pathParts rest := by
  have some : rest.splitOn charSemicolon ≠ [] := splitOn_ne_nil _ _
  rw [pathParts, splitOn_append_cons_self, splitOn_eq_singleton plain, pathParts, singleton_append,
    getLast?_cons_of_ne_nil some, dropLast_cons_of_ne_nil some]
  split <;> rfl

section

variable {w : Nat} {σ : Type} (env : Libstand w σ)

def noteDirs : List Bytes → Modpath w σ → Bool × Modpath w σ
  | [], s => (true, s)
  | dir :: dirs, s => if (noteDir env dir s).1 then noteDirs dirs (noteDir env dir s).2 else (false, (noteDir env dir s).2)

theorem takeWhile_plain (ep : Bytes) : charSemicolon ∉ ep.takeWhile (· ≠ charSemicolon) := fun member => by
  simpa using mem_takeWhile_imp member

theorem rebuildLoop_eq (ep : Bytes) (s : Modpath w σ) : rebuildLoop env ep s = noteDirs env (pathDirs ep) s := by
  induction size : ep.length using Nat.strongRecOn generalizing ep s with
  | ind count ih =>
    rw [rebuildLoop]
    by_cases empty : ep = []
    · rw [dif_pos empty, empty, pathDirs, pathParts_nil]
      rfl
    rw [dif_neg empty]
    dsimp only
    rw [take_trimSlashes]
    have plain := takeWhile_plain ep
    have whole : ep.takeWhile (· ≠ charSemicolon) ++ ep.dropWhile (· ≠ charSemicolon) = ep := takeWhile_append_dropWhile
    rcases @dropWhile_sep _ _ charSemicolon ep with last | ⟨rest, more⟩
    · rw [last, append_nil] at whole
      have parts : pathParts ep = [ep.takeWhile (· ≠ charSemicolon)] := by
        rw [whole] at plain ⊢
        exact pathParts_last plain empty
      rw [pathDirs, parts, map_singleton, noteDirs, last]
      cases noted : noteDir env (trimmed (ep.takeWhile (· ≠ charSemicolon))) s with
      | mk found s' => cases found <;> rfl
    · have parts : pathParts ep = ep.takeWhile (· ≠ charSemicolon) :: pathParts rest := by
        rw [more] at whole
        conv_lhs => rw [← whole]
        exact pathParts_cons plain rest
      have shorter : rest.length < count := by
        rw [← size, ← whole, more, length_append, length_cons]
        omega
      rw [pathDirs, parts, map_cons, noteDirs, more]
      cases noted : noteDir env (trimmed (ep.takeWhile (· ≠ charSemicolon))) s with
      | mk found s' =>
        cases found with
        | false => rfl
        | true => exact ih _ shorter rest s' rfl

def Moduledir.clear (dirs : List Bytes) (mdp : Moduledir w) : Moduledir w :=
  if mdp.path ∈ dirs then { mdp with removed := false } else mdp

def Moduledir.fresh (dir : Bytes) : Moduledir w := ⟨dir, none, false, false⟩

@[simp] theorem Moduledir.clear_path (dirs : List Bytes) (mdp : Moduledir w) : (mdp.clear dirs).path = mdp.path := by
  rw [clear]
  split <;> rfl

theorem Moduledir.clear_nil (mdp : Moduledir w) : mdp.clear [] = mdp := if_neg not_mem_nil

theorem Moduledir.clear_cons (dir : Bytes) (dirs : List Bytes) (mdp : Moduledir w) :
    (mdp.clear [dir]).clear dirs = mdp.clear (dir :: dirs) := by
  simp only [clear, mem_cons]
  by_cases first : mdp.path = dir <;> by_cases later : mdp.path ∈ dirs <;> simp [first, later]

theorem Moduledir.fresh_clear (dir : Bytes) (dirs : List Bytes) : (fresh dir : Moduledir w).clear dirs = fresh dir := by
  rw [clear, fresh]
  split <;> rfl

theorem unmark_eq (dir : Bytes) (mdps : List (Moduledir w)) (nodup : (mdps.map Moduledir.path).Nodup) :
    unmark dir mdps = if dir ∈ mdps.map Moduledir.path then some (mdps.map (Moduledir.clear [dir])) else none := by
  induction mdps with
  | nil => rfl
  | cons mdp mdps ih =>
    rw [map_cons, nodup_cons] at nodup
    rw [unmark]
    by_cases here : mdp.path = dir
    · have others : mdps.map (Moduledir.clear [dir]) = mdps := by
        rw [map_congr_left (g := id), map_id]
        intro other member
        have apart : other.path ≠ dir := fun same => nodup.1 (here ▸ same ▸ mem_map_of_mem member)
        simp [Moduledir.clear, apart]
      rw [if_pos here, if_pos (by simp [here]), map_cons, others, Moduledir.clear, if_pos (by simp [here])]
    · have same : mdp.clear [dir] = mdp := by simp [Moduledir.clear, here]
      rw [if_neg here, ih nodup.2, map_cons, map_cons, same]
      by_cases later : dir ∈ mdps.map Moduledir.path
      · rw [if_pos later, if_pos (mem_cons_of_mem _ later), Option.map_some]
      · rw [if_neg later, if_neg fun member => (mem_cons.mp member).elim (fun same => here same.symm) later]
        rfl

/-- Whether malloc gives the memory for these directories, one after the other. -/
def roomFor : List Bytes → σ → Bool × σ
  | [], outside => (true, outside)
  | dir :: dirs, outside =>
    match env.malloc outside (env.sizeofModuledir + dir.length + 1) with
    | (none, outside) => (false, outside)
    | (some _, outside) => roomFor dirs outside

def Modpath.paths (s : Modpath w σ) : List Bytes := s.moduledirList.map Moduledir.path

/-- What the loop does with some directories: the new ones are behind the old ones, and those found have
lost their marks; or one of them is missing. -/
theorem noteDirs_notes (dirs : List Bytes) (s : Modpath w σ) (nodup : s.paths.Nodup) :
    ((roomFor env (unseen s.paths dirs) s.outside).1 = true →
      noteDirs env dirs s = (true,
        ⟨s.moduledirList.map (Moduledir.clear dirs) ++ (unseen s.paths dirs).map Moduledir.fresh,
        (roomFor env (unseen s.paths dirs) s.outside).2⟩)) ∧
    ((roomFor env (unseen s.paths dirs) s.outside).1 = false →
      (noteDirs env dirs s).1 = false ∧ (∃ dir ∈ dirs, dir ∉ (noteDirs env dirs s).2.paths) ∧
      (noteDirs env dirs s).2.paths.Nodup) := by
  induction dirs generalizing s with
  | nil =>
    refine ⟨fun _ => ?_, fun fails => ?_⟩
    · rw [noteDirs, unseen, roomFor, map_nil, append_nil, map_congr_left fun mdp _ => mdp.clear_nil, map_id']
    · cases fails
  | cons dir dirs ih =>
    have found : unmark dir s.moduledirList =
      if dir ∈ s.paths then some (s.moduledirList.map (Moduledir.clear [dir])) else none :=
      unmark_eq dir s.moduledirList nodup
    by_cases old : dir ∈ s.paths
    · rw [if_pos old] at found
      have noted : noteDir env dir s = (true, ⟨s.moduledirList.map (Moduledir.clear [dir]), s.outside⟩) := by
        rw [noteDir, found]
      have paths : (⟨s.moduledirList.map (Moduledir.clear [dir]), s.outside⟩ : Modpath w σ).paths = s.paths := by
        simp [Modpath.paths, comp_def]
      have rest := ih ⟨s.moduledirList.map (Moduledir.clear [dir]), s.outside⟩ (paths ▸ nodup)
      rw [paths] at rest
      rw [unseen, if_pos old, noteDirs, noted, if_pos rfl]
      refine ⟨fun room => ?_, fun fails => ?_⟩
      · rw [rest.1 room, map_map]
        congr 3
        exact map_congr_left fun mdp _ => mdp.clear_cons dir dirs
      · obtain ⟨failed, ⟨missing, listed, absent⟩, kept⟩ := rest.2 fails
        exact ⟨failed, ⟨missing, mem_cons_of_mem _ listed, absent⟩, kept⟩
    · rw [if_neg old] at found
      rw [unseen, if_neg old, noteDirs, noteDir, found, roomFor]
      cases given : env.malloc s.outside (env.sizeofModuledir + dir.length + 1) with
      | mk addr outside =>
        cases addr with
        | none =>
          exact ⟨fun room => Bool.noConfusion room, fun _ => ⟨rfl, ⟨dir, mem_cons_self, old⟩, nodup⟩⟩
        | some addr =>
          have paths : (⟨s.moduledirList ++ [Moduledir.fresh dir], outside⟩ : Modpath w σ).paths =
            s.paths ++ [dir] := by
            simp [Modpath.paths, Moduledir.fresh]
          have apart : (s.paths ++ [dir]).Nodup := by
            rw [nodup_append]
            exact ⟨nodup, nodup_singleton _, fun a member b single => by
              rintro rfl
              rw [mem_singleton] at single
              exact old (single ▸ member)⟩
          have rest := ih ⟨s.moduledirList ++ [Moduledir.fresh dir], outside⟩ (paths ▸ apart)
          rw [paths] at rest
          rw [if_pos rfl]
          refine ⟨fun room => ?_, fun fails => ?_⟩
          · have found := rest.1 room
            rw [Moduledir.fresh] at found
            rw [found, map_append, append_assoc, map_singleton, map_cons, singleton_append]
            congr 3
            · exact map_congr_left fun mdp member => by
                have other : mdp.path ≠ dir := fun same => old (same ▸ mem_map_of_mem member)
                simp [Moduledir.clear, other]
            · exact congrArg (· :: _) (Moduledir.fresh_clear dir dirs)
          · obtain ⟨failed, ⟨missing, listed, absent⟩, kept⟩ := rest.2 fails
            exact ⟨failed, ⟨missing, mem_cons_of_mem _ listed, absent⟩, kept⟩

def currentDirs (s : Modpath w σ) : List Bytes := pathDirs (searchpath env s.outside)

def Room (s : Modpath w σ) : Prop := (roomFor env (unseen s.paths (currentDirs env s)) s.outside).1 = true

theorem sweep_marked (dirs : List Bytes) (mdps : List (Moduledir w)) :
    (((mdps.map ({ · with removed := true })).map (Moduledir.clear dirs)).filter (!·.removed)).map Moduledir.path =
      (mdps.map Moduledir.path).filter (· ∈ dirs) := by
  induction mdps with
  | nil => rfl
  | cons mdp mdps ih =>
    rw [map_cons, map_cons, map_cons]
    by_cases current : mdp.path ∈ dirs
    · rw [filter_cons_of_pos (by simp [Moduledir.clear, current]),
        filter_cons_of_pos (by simpa using current), map_cons, ih, Moduledir.clear_path]
    · rw [filter_cons_of_neg (by simp [Moduledir.clear, current]), filter_cons_of_neg (by simpa using current), ih]

theorem sweep_fresh (dirs : List Bytes) :
    ((dirs.map (Moduledir.fresh (w := w))).filter (!·.removed)).map Moduledir.path = dirs := by
  rw [filter_eq_self.mpr fun mdp member => ?_, map_map]
  · exact map_id _
  · obtain ⟨_, -, rfl⟩ := List.mem_map.mp member
    rfl

variable {s : Modpath w σ} {n : Nat}

theorem rebuild_room (nodup : s.paths.Nodup) (room : Room env s) :
    (moduledirRebuild env s).paths = s.paths.filter (· ∈ currentDirs env s) ++ unseen s.paths (currentDirs env s) := by
  have marked : (⟨s.moduledirList.map ({ · with removed := true }), s.outside⟩ : Modpath w σ).paths = s.paths := by
    simp [Modpath.paths, comp_def]
  have noted := (noteDirs_notes env (currentDirs env s) ⟨s.moduledirList.map ({ · with removed := true }), s.outside⟩
    (marked ▸ nodup)).1
  rw [marked] at noted
  rw [moduledirRebuild, rebuildLoop_eq, ← currentDirs, noted room]
  dsimp only [Modpath.paths]
  rw [filter_append, map_append, sweep_marked, sweep_fresh]

theorem rebuild_failed (nodup : s.paths.Nodup) (fails : ¬Room env s) :
    (∃ dir ∈ currentDirs env s, dir ∉ (moduledirRebuild env s).paths) ∧ (moduledirRebuild env s).paths.Nodup := by
  have marked : (⟨s.moduledirList.map ({ · with removed := true }), s.outside⟩ : Modpath w σ).paths = s.paths := by
    simp [Modpath.paths, comp_def]
  have noted := (noteDirs_notes env (currentDirs env s) ⟨s.moduledirList.map ({ · with removed := true }), s.outside⟩
    (marked ▸ nodup)).2
  rw [marked] at noted
  obtain ⟨failed, missing, kept⟩ := noted (Bool.eq_false_of_not_eq_true fails)
  have ended : moduledirRebuild env s =
      (noteDirs env (currentDirs env s) ⟨s.moduledirList.map ({ · with removed := true }), s.outside⟩).2 := by
    rw [moduledirRebuild, rebuildLoop_eq, ← currentDirs]
    generalize noteDirs env (currentDirs env s) ⟨s.moduledirList.map ({ · with removed := true }), s.outside⟩ =
      reply at failed
    obtain ⟨found, _⟩ := reply
    rw [show found = false from failed]
  rw [ended]
  exact ⟨missing, kept⟩

theorem rebuild_nodup (nodup : s.paths.Nodup) : (moduledirRebuild env s).paths.Nodup := by
  by_cases room : Room env s
  · rw [rebuild_room env nodup room, nodup_append]
    refine ⟨nodup.filter _, nodup_unseen _ _, fun a old b new same => ?_⟩
    exact (mem_unseen.mp new).2 (same ▸ (mem_filter.mp old).1)
  · exact (rebuild_failed env nodup room).2

theorem readhintsOf_paths (path : Bytes) (mdps : List (Moduledir w)) (outside : σ) :
    (readhintsOf env path mdps outside).1.map Moduledir.path = mdps.map Moduledir.path := by
  induction mdps generalizing outside with
  | nil => rfl
  | cons _ mdps ih =>
    rw [readhintsOf]
    split
    · rw [map_cons, moduledirReadhints_path, map_cons]
    · rw [map_cons, ih, map_cons]

theorem pathEvent_nodup (nodup : s.paths.Nodup) (event : PathEvent σ) : (pathEvent env s event).paths.Nodup := by
  cases event with
  | rebuild => exact rebuild_nodup env nodup
  | readhints _ =>
    rw [pathEvent, Modpath.paths, readhintsOf_paths]
    exact nodup
  | outside _ => exact nodup

theorem pathRun_nodup (outside : σ) (events : List (PathEvent σ)) : (pathRun env outside events).paths.Nodup := by
  have all (s : Modpath w σ) (nodup : s.paths.Nodup) : (events.foldl (pathEvent env) s).paths.Nodup := by
    induction events generalizing s with
    | nil => exact nodup
    | cons event events ih => exact ih _ (pathEvent_nodup env nodup event)
  exact all _ nodup_nil

/-- After a call of moduledir_rebuild the list is what module_path says, and the searches go through the
directories in that order. -/
structure InOrder (s : Modpath w σ) : Prop where
  listed : (moduledirRebuild env s).paths = distinctDirs (searchpath env s.outside)
  searched : ∀ {n : Nat} (machine : Machine w n (Modpath w σ)) (name : Bytes) (extlist : List Bytes), name ≠ [] →
    fileHavepath machine s name = false → fileSearch (machine.withModpath env) name extlist s =
      searchDirs (fun dir => fileLookup machine dir name extlist) (distinctDirs (searchpath env s.outside))
        (moduledirRebuild env s)
  hinted : ∀ {n : Nat} (machine : Machine w n (Modpath w σ)) (name : Bytes) (verinfo : Option ModDepend),
    modSearchmodule (machine.withModpath env) name verinfo s =
      searchDirs (modSearchHints machine name verinfo) (distinctDirs (searchpath env s.outside))
        (moduledirRebuild env s)

variable (machine : Machine w n (Modpath w σ))

theorem lookupExt_withModpath (base : Bytes) (extlist : List Bytes) (s : Modpath w σ) : lookupExt
    (machine.withModpath env) base extlist s = lookupExt machine base extlist s := by
  induction extlist generalizing s with
  | nil => rfl
  | cons _ extlist ih =>
    rw [lookupExt, lookupExt]
    dsimp only [Machine.withModpath] at ih ⊢
    split
    · rfl
    · exact ih _

theorem fileLookup_withModpath (dir name : Bytes) (extlist : List Bytes) :
    fileLookup (machine.withModpath env) dir name extlist = fileLookup machine dir name extlist :=
  funext fun s => lookupExt_withModpath env machine _ extlist s

theorem modSearchHints_withModpath (name : Bytes) (verinfo : Option ModDepend) :
    modSearchHints (machine.withModpath env) name verinfo = modSearchHints machine name verinfo := by
  funext dir s
  rw [modSearchHints, modSearchHints]
  rfl

theorem inOrder_iff_listed (s : Modpath w σ) :
    InOrder env s ↔ (moduledirRebuild env s).paths = distinctDirs (searchpath env s.outside) := by
  refine ⟨InOrder.listed, fun listed =>
    ⟨listed, fun machine name extlist some plain => ?_, fun machine name verinfo => ?_⟩⟩
  · rw [fileSearch, if_neg some]
    have unqualified : ¬fileHavepath (machine.withModpath env) s name = true := by
      rw [show fileHavepath (machine.withModpath env) s name = fileHavepath machine s name from rfl, plain]
      exact Bool.false_ne_true
    rw [if_neg unqualified, ← listed]
    simp only [fileLookup_withModpath]
    rfl
  · rw [modSearchmodule, ← listed, modSearchHints_withModpath]
    rfl

/-- What a call needs: the memory for the new directories, and that the directories which stay are the
first ones of the value, in the order that the list has. -/
structure Steady (s : Modpath w σ) : Prop where
  room : Room env s
  front : s.paths.filter (· ∈ currentDirs env s) <+: distinctDirs (searchpath env s.outside)

/-- The list has the order of module_path exactly if there is memory for every new directory and the ones kept from
before are the first of the path, in its order. -/
theorem moduledirRebuild_inOrder_iff (outside : σ) (events : List (PathEvent σ)) :
    InOrder env (pathRun env outside events) ↔ Steady env (pathRun env outside events) := by
  generalize reached : pathRun env outside events = s
  have nodup : s.paths.Nodup := reached ▸ pathRun_nodup env outside events
  rw [inOrder_iff_listed]
  by_cases room : Room env s
  · rw [rebuild_room env nodup room, distinctDirs, ← currentDirs, kept_unseen_iff]
    exact ⟨fun front => ⟨room, front⟩, Steady.front⟩
  · obtain ⟨⟨_, listed, absent⟩, -⟩ := rebuild_failed env nodup room
    refine ⟨fun same => absurd ?_ absent, fun steady => absurd steady.room room⟩
    rw [same, distinctDirs, mem_eraseDups]
    exact listed

end

def valueOnly : Libstand 64 Bytes where
  order := .little
  sizeofModuledir := 40
  getenv value _ := some value
  malloc value size := (if less : size < 2 ^ 64 then some ⟨2 ^ 64 - size - 1, by omega⟩ else none, value)
  stat value _ := (none, value)
  openFile value _ := (none, value)
  read value _ _ := (none, value)
  close value _ := value

def swapped : List (PathEvent Bytes) := [.rebuild, .outside fun _ => ascii ("b;a".toList)]

theorem swapped_start : (pathRun valueOnly (ascii ("a;b".toList)) swapped).paths = [ascii ['a'], ascii ['b']] := by
  have started := rebuild_room valueOnly (s := ⟨[], ascii ("a;b".toList)⟩) nodup_nil (by rw [Room]; decide)
  rw [pathRun, swapped, foldl_cons, foldl_cons, foldl_nil, pathEvent, pathEvent]
  exact started.trans (by decide)

theorem swapped_dirs :
    currentDirs valueOnly (pathRun valueOnly (ascii ("a;b".toList)) swapped) = [ascii ['b'], ascii ['a']] := by
  have value : (pathRun valueOnly (ascii ("a;b".toList)) swapped).outside = ascii ("b;a".toList) := rfl
  rw [currentDirs, value]
  decide

/-- The value was "a;b" and is "b;a": the list stays as it was. -/
theorem swapped_unordered : (moduledirRebuild valueOnly (pathRun valueOnly (ascii ("a;b".toList)) swapped)).paths =
    [ascii ['a'], ascii ['b']] ∧
    ¬InOrder valueOnly (pathRun valueOnly (ascii ("a;b".toList)) swapped) := by
  have nodup := pathRun_nodup valueOnly (ascii ("a;b".toList)) swapped
  have room : Room valueOnly (pathRun valueOnly (ascii ("a;b".toList)) swapped) := by
    rw [Room, swapped_start, swapped_dirs]
    rfl
  have kept : (moduledirRebuild valueOnly (pathRun valueOnly (ascii ("a;b".toList)) swapped)).paths =
    [ascii ['a'], ascii ['b']] := by
    rw [rebuild_room valueOnly nodup room, swapped_start, swapped_dirs]
    decide
  refine ⟨kept, fun inOrder => ?_⟩
  have listed := inOrder.listed
  rw [kept, distinctDirs, ← currentDirs, swapped_dirs] at listed
  exact absurd listed (by decide)

end Pcbsd.Preload
