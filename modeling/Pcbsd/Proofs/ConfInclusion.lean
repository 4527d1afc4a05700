import Mathlib.Data.Set.Card
import Pcbsd.Proofs.ConfReading

/-! What a load_conf that ends without an exception did: it processed the lines of the file one after the
other, and conf_files is what the last setting of loader_conf_files left. -/

namespace Pcbsd.Forth
open Lib

variable {ficl : Ficl} {line text : Bytes} {all : List Bytes} {c c' : Conf} {last last' : Bytes}

def Sets (ficl : Ficl) (line : Bytes) (c : Conf) : Prop :=
  (getAssignment (ficl.past c.count) line).map Prod.fst = some loaderConfFiles

instance : Decidable (Sets ficl line c) := inferInstanceAs (Decidable (_ = _))

/-- The lines are processed in order and none raises an exception. `last` is the value that the last
setting of loader_conf_files left. Between the lines empty ones may be handed over. -/
inductive FileRuns (ficl : Ficl) : List Bytes → Conf → Bytes → Conf → Bytes → Prop
  | nil (c : Conf) (last : Bytes) : FileRuns ficl [] c last c last
  | empty {all : List Bytes} {c c' : Conf} {last last' : Bytes}
      (runs : FileRuns ficl all (processLine ficl [] c).2 last c' last') :
    FileRuns ficl all c last c' last'
  | line {line : Bytes} {all : List Bytes} {c c₁ c' : Conf} {last last' : Bytes}
      (processed : processLine ficl line c = (none, c₁))
    (runs : FileRuns ficl all c₁ (if Sets ficl line c then (c₁.env loaderConfFiles).getD [] else last) c' last') :
    FileRuns ficl (line :: all) c last c' last'

theorem setEnvironmentVariable_confFiles (ficl : Ficl) (c : Conf) :
    (setEnvironmentVariable ficl c).2.confFiles = c.confFiles := by
  rw [setEnvironmentVariable]
  generalize ficl.evaluate _ _ = reply
  obtain ⟨ok, _⟩ := reply
  cases ok <;> rfl

theorem executeCommand_confFiles (ficl : Ficl) (c : Conf) : (executeCommand ficl c).2.confFiles = c.confFiles := by
  rw [executeCommand]
  generalize ficl.evaluate _ _ = reply
  obtain ⟨ok, _⟩ := reply
  cases ok <;> rfl

theorem setConfFiles_confFiles {ficl : Ficl} {c c' : Conf} (processed : setConfFiles ficl c = (none, c')) :
    c'.confFiles = (c'.env loaderConfFiles).getD [] := by
  rw [setConfFiles] at processed
  generalize setEnvironmentVariable ficl c = reply at processed
  obtain ⟨e, _⟩ := reply
  cases e <;> cases processed
  rfl

theorem processAssignment_confFiles (ficl : Ficl) {c : Conf} (other : c.name ≠ loaderConfFiles) :
    (processAssignment ficl c).2.confFiles = c.confFiles := by
  rw [processAssignment]
  by_cases nothing : c.name = []
  · rw [if_pos nothing]
  rw [if_neg nothing, if_neg other]
  by_cases flag : c.name = nextbootEnable
  · rw [if_pos flag]
  rw [if_neg flag]
  by_cases file : c.name = nextbootConf
  · rw [if_pos file]
  rw [if_neg file]
  by_cases verbose : c.name = verboseLoading
  · rw [if_pos verbose]
  rw [if_neg verbose]
  by_cases command : c.name = exec
  · rw [if_pos command, executeCommand_confFiles]
  rw [if_neg command]
  repeat' split
  all_goals first | rfl | exact setEnvironmentVariable_confFiles ficl c

theorem processLine_confFiles (processed : processLine ficl line c = (none, c')) :
    c'.confFiles = if Sets ficl line c then (c'.env loaderConfFiles).getD [] else c.confFiles := by
  rw [processLine] at processed
  cases assigned : getAssignment (ficl.past c.count) line with
  | none => rw [assigned] at processed; cases processed
  | some pair =>
    obtain ⟨name, value⟩ := pair
    rw [assigned] at processed
    dsimp only at processed
    have leaves := @processAssignment_confFiles ficl { c with name, value, count := c.count + 1 }
    have setting : name = loaderConfFiles → processAssignment ficl { c with name, value, count := c.count + 1 } =
        setConfFiles ficl { c with name, value, count := c.count + 1 } := by
      rintro rfl
      rfl
    generalize processAssignment ficl { c with name, value, count := c.count + 1 } = reply at processed leaves setting
    obtain ⟨_, _⟩ := reply
    cases processed
    have sets : Sets ficl line c ↔ name = loaderConfFiles := by
      unfold Sets
      rw [assigned, Option.map_some, Option.some.injEq]
    by_cases named : name = loaderConfFiles
    · rw [if_pos (sets.mpr named)]
      have value := setConfFiles_confFiles (setting named).symm
      exact value
    · rw [if_neg fun set => named (sets.mp set)]
      exact leaves named

theorem FileRuns.confFiles (runs : FileRuns ficl all c last c' last') (before : c.confFiles = last) :
    c'.confFiles = last' := by
  induction runs with
  | nil => exact before
  | @empty all c c' last last' runs ih =>
    apply ih
    exact before
  | @line line all c _ c' last last' processed runs ih =>
    apply ih
    rw [processLine_confFiles processed, before]

def Ended (r : Reader) : Prop := r.eof = true → r.buffer = []

theorem readLoop_ended {input input' : List Fread} {r r' : Reader} {ok : Bool} (before : Ended r)
    (ran : readLoop input r = (ok, input', r')) (read : ok = true) : Ended r' := by
  have refilled (r : Reader) (piece : Bytes) (more : r.eof = false) : Ended (refill r piece) := by
    intro ended
    have last : piece.isEmpty = true := by simpa [refill, more] using ended
    exact List.isEmpty_iff.mp last
  have required {r : Reader} (needs : refillRequired (readFromBuffer r) = true) : (readFromBuffer r).eof = false := by
    rw [refillRequired, Bool.and_eq_true, Bool.not_eq_true'] at needs
    exact needs.2
  induction input generalizing r with
  | nil =>
    rw [readLoop] at ran
    by_cases needs : refillRequired (readFromBuffer r) = true
    · rw [if_pos needs] at ran
      cases ran
      exact refilled _ [] (required needs)
    · rw [if_neg needs] at ran
      cases ran
      exact before
  | cons reply input ih =>
    cases reply with
    | got piece =>
      rw [readLoop] at ran
      by_cases needs : refillRequired (readFromBuffer r) = true
      · rw [if_pos needs] at ran
        exact ih (refilled _ piece (required needs)) ran
      · rw [if_neg needs] at ran
        cases ran
        exact before
    | failed _ =>
      rw [readLoop] at ran
      by_cases needs : refillRequired (readFromBuffer r) = true
      · rw [if_pos needs] at ran
        cases ran
        cases read
      · rw [if_neg needs] at ran
        cases ran
        exact before

theorem readLine_ended {input input' : List Fread} {r r' : Reader} (before : Ended r)
    (ran : readLine input r = (true, input', r')) : Ended r' :=
  @readLoop_ended input input' (skipNewlines { r with line := [] }) r' true before ran rfl

theorem processConf_runs {fuel : Nat} {input : List Fread} {s : Session} {result : Result}
    (bounded : s.reader.ptr ≤ s.reader.buffer.length) (delivered : Delivered input)
    (ended : s.reader.eof = true → s.reader.stream input = []) (before : Ended s.reader)
    (ran : processConf ficl fuel input s = some result) (quiet : result.exception = none) (last : Bytes) :
    (∃ last', FileRuns ficl (lines (s.reader.stream input)) s.conf last result.session.conf last') ∧
      result.session.reader.buffer = [] := by
  induction fuel generalizing input s result last with
  | zero => cases ran
  | succ fuel ih =>
    rw [processConf] at ran
    cases eof : s.reader.eof with
    | true =>
      rw [eof, if_pos rfl] at ran
      cases ran
      rw [ended eof, lines_nil]
      exact ⟨⟨last, .nil _ _⟩, before eof⟩
    | false =>
      rw [eof, if_neg Bool.false_ne_true] at ran
      obtain ⟨input', reader, read, delivered', took, ended'⟩ := readLine_took eof bounded delivered
      obtain ⟨inside, -⟩ := readLine_progress eof bounded read
      have before' := readLine_ended before read
      rw [read] at ran
      dsimp only at ran
      cases handled : processLine ficl reader.line s.conf with
      | mk e conf =>
        rw [handled] at ran
        cases e with
        | some e =>
          cases ran
          cases quiet
        | none =>
          obtain ⟨result', rest, rfl⟩ := Option.map_eq_some_iff.mp ran
          have later := fun last => @ih input' ⟨reader, conf⟩ result' inside delivered' ended' before' rest quiet last
          refine ⟨?_, (later last).2⟩
          rw [took]
          by_cases nothing : reader.line = []
          · rw [nothing] at handled
            have same : conf = (processLine ficl [] s.conf).2 := by rw [handled]
            obtain ⟨last', runs⟩ := (later last).1
            refine ⟨last', .empty ?_⟩
            rw [nothing, ← same]
            exact runs
          · obtain ⟨last', runs⟩ := (later (if Sets ficl reader.line s.conf then (conf.env loaderConfFiles).getD [] else last)).1
            have kept : [reader.line].filter (· ≠ []) = [reader.line] := by simpa using nothing
            rw [kept]
            exact ⟨last', .line handled runs⟩

/-- A load_conf that ends without an exception has processed the lines of the file, if nothing of an
earlier one was left in the read buffer, and leaves nothing there. -/
theorem loadConf_runs {input : List Fread} {s : Session} {result : Result} (delivered : Delivered input)
    (clean : Clean s) (ran : loadConf ficl (some input) s = some result) (quiet : result.exception = none) :
    (∃ last, FileRuns ficl (lines (pending input)) s.conf s.conf.confFiles result.session.conf last ∧
      result.session.conf.confFiles = last) ∧ Clean result.session := by
  have start : Ended (resetLineReading s.reader) := fun ended => by cases ended
  obtain ⟨⟨last, runs⟩, empty⟩ := @processConf_runs ficl _ input { s with reader := resetLineReading s.reader } result
    (Nat.zero_le _) delivered (fun ended => by cases ended) start ran quiet s.conf.confFiles
  have stream : (resetLineReading s.reader).stream input = s.reader.buffer ++ pending input := rfl
  rw [stream, lines_clean clean] at runs
  refine ⟨⟨last, runs, runs.confFiles rfl⟩, ?_⟩
  rw [Clean, empty]
  exact fun b member => absurd member List.not_mem_nil

theorem processConf_raises {fuel : Nat} {input : List Fread} {s : Session} {result : Result} {e : Exception}
    (bounded : s.reader.ptr ≤ s.reader.buffer.length) (delivered : Delivered input)
    (ran : processConf ficl fuel input s = some result) (raised : result.exception = some e) :
    ∃ line ∈ lines (s.reader.stream input), ∃ c, (processLine ficl line c).1 = some e := by
  induction fuel generalizing input s result with
  | zero => cases ran
  | succ fuel ih =>
    rw [processConf] at ran
    cases eof : s.reader.eof with
    | true =>
      rw [eof, if_pos rfl] at ran
      cases ran
      cases raised
    | false =>
      rw [eof, if_neg Bool.false_ne_true] at ran
      obtain ⟨input', reader, read, delivered', took, _⟩ := readLine_took eof bounded delivered
      obtain ⟨inside, -⟩ := readLine_progress eof bounded read
      rw [took]
      rw [read] at ran
      dsimp only at ran
      cases handled : processLine ficl reader.line s.conf with
      | mk e' conf =>
        rw [handled] at ran
        cases e' with
        | some e' =>
          cases ran
          cases raised
          have nonempty : reader.line ≠ [] := by
            intro nothing
            have never := processLine_nil ficl s.conf
            rw [← nothing, handled] at never
            cases never
          refine ⟨reader.line, List.mem_append_left _ ?_, s.conf, by rw [handled]⟩
          simpa using nonempty
        | none =>
          obtain ⟨result', rest, rfl⟩ := Option.map_eq_some_iff.mp ran
          obtain ⟨line, member, raises⟩ := @ih input' ⟨reader, conf⟩ result' inside delivered' rest raised
          exact ⟨line, List.mem_append_right _ member, raises⟩

theorem loadConf_quiet {input : List Fread} {s : Session} {result : Result} (delivered : Delivered input)
    (clean : Clean s) (never : ∀ line ∈ lines (pending input), ∀ c, (processLine ficl line c).1 = none)
    (ran : loadConf ficl (some input) s = some result) : result.exception = none := by
  cases raised : result.exception with
  | none => rfl
  | some e =>
    obtain ⟨line, member, c, raises⟩ :=
      @processConf_raises ficl _ input { s with reader := resetLineReading s.reader } result e
      (Nat.zero_le _) delivered ran raised
    have stream : (resetLineReading s.reader).stream input = s.reader.buffer ++ pending input := rfl
    rw [stream, lines_clean clean] at member
    rw [never line member c] at raises
    cases raises

end Pcbsd.Forth

/-! The files that include one another: the run of include_conf_files without a bound, and when it ends. -/

namespace Pcbsd.Forth
open Lib List Option

variable {ficl : Ficl} {disk : ConfDisk} {rest rest' rest'' : Bytes} {st st' st₁ st₂ : Loading} {v v' : Included}
    {name name' : Bytes}

section

variable (ficl : Ficl) (disk : ConfDisk)

inductive Walk : Bytes → Loading → Included → Prop
  | ended {rest : Bytes} {st : Loading} (last : getNextFile rest = none) : Walk rest st ⟨none, [], st⟩
  | thrown {rest rest' name : Bytes} {st st₁ : Loading} {e : Exception} (next : getNextFile rest = some (name, rest'))
    (load : loadFile ficl disk name st = some (some e, st₁)) : Walk rest st ⟨some e, [name], st₁⟩
  | inner {rest rest' name : Bytes} {st st₁ : Loading} {v : Included} {e : Exception}
      (next : getNextFile rest = some (name, rest'))
    (load : loadFile ficl disk name st = some (none, st₁)) (nested : Walk st₁.confFiles st₁.cleared v)
      (thrown : v.thrown = some e) :
    Walk rest st ⟨some e, name :: v.trace, v.loading⟩
  | file {rest rest' name : Bytes} {st st₁ : Loading} {v v' : Included} (next : getNextFile rest = some (name, rest'))
    (load : loadFile ficl disk name st = some (none, st₁)) (nested : Walk st₁.confFiles st₁.cleared v)
      (quiet : v.thrown = none)
    (later : Walk rest' v.loading v') : Walk rest st ⟨v'.thrown, name :: (v.trace ++ v'.trace), v'.loading⟩

/-- load_conf is called with this name in this state by the loop over `rest` itself. -/
inductive Loads : Bytes → Loading → Bytes → Loading → Prop
  | here {rest rest' name : Bytes} {st : Loading} (next : getNextFile rest = some (name, rest')) : Loads rest st name st
  | later {rest rest' name name' : Bytes} {st st₁ st₂ : Loading} {v : Included} (next : getNextFile rest = some (name, rest'))
    (load : loadFile ficl disk name st = some (none, st₁)) (nested : Walk ficl disk st₁.confFiles st₁.cleared v)
    (quiet : v.thrown = none) (behind : Loads rest' v.loading name' st₂) : Loads rest st name' st₂

/-- A chain of files, each named by the setting of the one before, and the loop that it leads to. -/
inductive Path : Bytes → Loading → List Bytes → Bytes → Loading → Prop
  | here (rest : Bytes) (st : Loading) : Path rest st [] rest st
  | into {rest rest' name : Bytes} {st st₁ st₂ st' : Loading} {names : List Bytes} (loads : Loads ficl disk rest st name st₁)
    (load : loadFile ficl disk name st₁ = some (none, st₂)) (set : st₂.confFiles ≠ [])
    (deeper : Path st₂.confFiles st₂.cleared names rest' st') : Path rest st (name :: names) rest' st'

end

theorem loadFile_ends (name : Bytes) (st : Loading) : ∃ e st₁, loadFile ficl disk name st = some (e, st₁) := by
  obtain ⟨_, ran⟩ := loadConf_ends ficl (disk.deliver st.opens name) st.session
  rw [loadFile, ran]
  exact ⟨_, _, rfl⟩

theorem getNextFile_shorter (next : getNextFile rest = some (name, rest')) : rest'.length < rest.length := by
  rw [getNextFile, getFileName, skipLeadingSpaces] at next
  by_cases empty : rest.dropWhile (· == bl) = []
  · rw [if_pos empty] at next
    cases next
  · rw [if_neg empty] at next
    cases next
    have front := (dropWhile_sublist (· == bl) (l := rest)).length_le
    obtain ⟨c, more, head⟩ := exists_cons_of_ne_nil empty
    have notBlank := head_dropWhile_not (· == bl) empty
    rw [head] at front ⊢
    have stays : (c != bl) = true := by
      have first : (rest.dropWhile (· == bl)).head empty = c := by simp [head]
      rw [first] at notBlank
      simpa using notBlank
    have back := (dropWhile_sublist (· != bl) (l := more)).length_le
    have name : (c :: more).dropWhile (· != bl) = more.dropWhile (· != bl) := dropWhile_cons_of_pos stays
    rw [name]
    rw [length_cons] at front
    omega

theorem cleared_of_empty (empty : st.confFiles = []) : st.cleared = st := by
  obtain ⟨⟨_, conf⟩, _, _, _⟩ := st
  obtain ⟨_, _, _, _, _, confFiles, _, _, _⟩ := conf
  obtain rfl : confFiles = [] := empty
  rfl

theorem walk_nothing (empty : st.confFiles = []) : Walk ficl disk st.confFiles st.cleared ⟨none, [], st⟩ := by
  rw [cleared_of_empty empty, empty]
  exact .ended rfl

theorem includeLoop_walk {recurse : Loading → Option Included}
    (sound : ∀ st v, recurse st = some v → Walk ficl disk st.confFiles st.cleared v) {rounds : Nat}
    (ran : includeLoop ficl disk recurse rounds rest st = some v) : Walk ficl disk rest st v := by
  induction rounds generalizing rest st v with
  | zero => cases ran
  | succ rounds ih =>
    rw [includeLoop] at ran
    cases next : getNextFile rest with
    | none =>
      rw [next] at ran
      cases ran
      exact .ended next
    | some pair =>
      obtain ⟨name, _⟩ := pair
      rw [next] at ran
      dsimp only at ran
      cases load : loadFile ficl disk name st with
      | none => rw [load] at ran; cases ran
      | some reply =>
        obtain ⟨e, st₁⟩ := reply
        rw [load] at ran
        cases e with
        | some e =>
          cases ran
          exact .thrown next load
        | none =>
          dsimp only at ran
          by_cases set : st₁.confFiles ≠ []
          · rw [if_pos set] at ran
            obtain ⟨inner, recursed, after⟩ := bind_eq_some_iff.mp ran
            have nested := sound _ _ recursed
            cases thrown : inner.thrown with
            | some e =>
              rw [thrown] at after
              cases after
              exact .inner next load nested thrown
            | none =>
              rw [thrown] at after
              obtain ⟨later, looped, rfl⟩ := map_eq_some_iff.mp after
              exact .file next load nested thrown (ih looped)
          · rw [if_neg set] at ran
            obtain ⟨later, looped, rfl⟩ := map_eq_some_iff.mp ran
            exact .file next load (walk_nothing (not_not.mp set)) rfl (ih looped)

theorem includeConfFiles_walk {fuel : Nat} (ran : includeConfFiles ficl disk fuel st = some v) :
    Walk ficl disk st.confFiles st.cleared v := by
  induction fuel generalizing st v with
  | zero => cases ran
  | succ fuel ih => exact includeLoop_walk (fun _ _ => ih) ran

theorem Walk.includeLoop (walk : Walk ficl disk rest st v) :
    ∃ depth, ∀ fuel, depth ≤ fuel → ∀ rounds, rest.length < rounds →
    Forth.includeLoop ficl disk (includeConfFiles ficl disk fuel) rounds rest st = some v := by
  induction walk with
  | @ended rest st last =>
    refine ⟨0, fun fuel _ rounds enough => ?_⟩
    obtain ⟨rounds, rfl⟩ := Nat.exists_eq_add_of_lt enough
    rw [Forth.includeLoop, last]
  | @thrown rest rest' name st st₁ e next load =>
    refine ⟨0, fun fuel _ rounds enough => ?_⟩
    obtain ⟨rounds, rfl⟩ := Nat.exists_eq_add_of_lt enough
    rw [Forth.includeLoop, next]
    dsimp only
    rw [load]
  | @inner rest rest' name st st₁ v e next load nested thrown ih =>
    obtain ⟨depth, run⟩ := ih
    refine ⟨depth + 1, fun fuel deep rounds enough => ?_⟩
    obtain ⟨rounds, rfl⟩ := Nat.exists_eq_add_of_lt enough
    obtain ⟨fuel, rfl⟩ : ∃ more, fuel = more + 1 := ⟨fuel - 1, by omega⟩
    have recursed : includeConfFiles ficl disk (fuel + 1) st₁ = some v := run fuel (by omega) _ (Nat.lt_succ_self _)
    have set : st₁.confFiles ≠ [] := fun empty => by
      rw [empty] at nested
      cases nested with
      | ended => cases thrown
      | thrown next => cases next
      | inner next => cases next
      | file next => cases next
    rw [Forth.includeLoop, next]
    dsimp only
    rw [load]
    dsimp only
    rw [if_pos set, recursed, bind_some, thrown]
  | @file rest rest' name st st₁ v _ next load nested quiet _ ih ihLater =>
    obtain ⟨depth, run⟩ := ih
    obtain ⟨depth', runLater⟩ := ihLater
    refine ⟨max (depth + 1) depth', fun fuel deep rounds enough => ?_⟩
    obtain ⟨rounds, rfl⟩ := Nat.exists_eq_add_of_lt enough
    have shorter := getNextFile_shorter next
    have behind := runLater fuel (le_trans (le_max_right _ _) deep) (rest.length + rounds) (by omega)
    rw [Forth.includeLoop, next]
    dsimp only
    rw [load]
    dsimp only
    by_cases set : st₁.confFiles ≠ []
    · obtain ⟨fuel, rfl⟩ : ∃ more, fuel = more + 1 := ⟨fuel - 1, by omega⟩
      have recursed : includeConfFiles ficl disk (fuel + 1) st₁ = some v := run fuel (by omega) _ (Nat.lt_succ_self _)
      rw [if_pos set, recursed, bind_some, quiet, behind]
      rfl
    · have empty := not_not.mp set
      rw [empty, cleared_of_empty empty] at nested
      rw [if_neg set]
      cases nested with
      | ended => rw [behind]; rfl
      | thrown next => cases next
      | inner next => cases next
      | file next => cases next

theorem Walk.unique (walk : Walk ficl disk rest st v) (other : Walk ficl disk rest st v') : v = v' := by
  obtain ⟨depth, run⟩ := walk.includeLoop
  obtain ⟨depth', run'⟩ := other.includeLoop
  have same := (run (max depth depth') (le_max_left _ _) _ (Nat.lt_succ_self _)).symm.trans
    (run' (max depth depth') (le_max_right _ _) _ (Nat.lt_succ_self _))
  exact some.inj same

theorem includeConfFiles_ends_iff : (∃ fuel v, includeConfFiles ficl disk fuel st = some v) ↔ ∃ v,
    Walk ficl disk st.confFiles st.cleared v := by
  constructor
  · rintro ⟨fuel, v, ran⟩
    exact ⟨v, includeConfFiles_walk ran⟩
  · rintro ⟨v, walk⟩
    obtain ⟨depth, run⟩ := walk.includeLoop
    exact ⟨depth + 1, v, run depth le_rfl _ (Nat.lt_succ_self _)⟩

theorem walk_of_nested (ends : ∀ name st₁ st₂, Loads ficl disk rest st name st₁ → loadFile ficl disk name st₁ = some (none, st₂) →
    st₂.confFiles ≠ [] → ∃ v, Walk ficl disk st₂.confFiles st₂.cleared v) : ∃ v, Walk ficl disk rest st v := by
  induction size : rest.length using Nat.strongRecOn generalizing rest st with
  | ind size ih =>
    cases next : getNextFile rest with
    | none => exact ⟨_, .ended next⟩
    | some pair =>
      obtain ⟨name, rest'⟩ := pair
      obtain ⟨e, st₁, load⟩ := @loadFile_ends ficl disk name st
      cases e with
      | some e => exact ⟨_, .thrown next load⟩
      | none =>
        have nested : ∃ v, Walk ficl disk st₁.confFiles st₁.cleared v := by
          by_cases set : st₁.confFiles = []
          · exact ⟨_, walk_nothing set⟩
          · exact ends name st st₁ (.here next) load set
        obtain ⟨v, nested⟩ := nested
        cases thrown : v.thrown with
        | some e => exact ⟨_, .inner next load nested thrown⟩
        | none =>
          obtain ⟨_, later⟩ := ih rest'.length (size ▸ getNextFile_shorter next)
            (fun name' st₂ st₃ loads => ends name' st₂ st₃ (.later next load nested thrown loads)) rfl
          exact ⟨_, .file next load nested thrown later⟩

theorem walk_of_bounded {bound : Nat}
    (bounded : ∀ names rest' st', Path ficl disk rest st names rest' st' → names.length ≤ bound) :
    ∃ v, Walk ficl disk rest st v := by
  induction bound generalizing rest st with
  | zero =>
    refine walk_of_nested fun name st₁ st₂ loads load set => ?_
    have none := bounded _ _ _ (.into loads load set (.here _ _))
    cases none
  | succ bound ih =>
    refine walk_of_nested fun name st₁ st₂ loads load set => ih fun names rest' st' path => ?_
    exact Nat.succ_le_succ_iff.mp (bounded _ _ _ (.into loads load set path))

theorem bounded_of_walk (walk : Walk ficl disk rest st v) :
    ∃ bound, ∀ names rest' st', Path ficl disk rest st names rest' st' → names.length ≤ bound := by
  induction walk with
  | @ended rest st last =>
    refine ⟨0, fun names rest' st' path => ?_⟩
    cases path with
    | here => exact le_rfl
    | into loads =>
      cases loads with
      | here next => rw [last] at next; cases next
      | later next => rw [last] at next; cases next
  | @thrown rest rest' name st st₁ e next load =>
    refine ⟨0, fun names rest'' st' path => ?_⟩
    cases path with
    | here => exact Nat.zero_le _
    | into loads loaded =>
      cases loads with
      | here again =>
        cases next.symm.trans again
        rw [load] at loaded
        cases loaded
      | later again loaded' =>
        cases next.symm.trans again
        rw [load] at loaded'
        cases loaded'
  | @inner rest rest' name st st₁ v e next load nested thrown ih =>
    obtain ⟨bound, bounded⟩ := ih
    refine ⟨bound + 1, fun names rest'' st' path => ?_⟩
    cases path with
    | here => exact Nat.zero_le _
    | into loads loaded set deeper =>
      cases loads with
      | here again =>
        cases next.symm.trans again
        cases load.symm.trans loaded
        exact Nat.succ_le_succ (bounded _ _ _ deeper)
      | later again loaded' nested' quiet =>
        cases next.symm.trans again
        cases load.symm.trans loaded'
        cases nested.unique nested'
        rw [thrown] at quiet
        cases quiet
  | @file rest rest' name st st₁ v _ next load nested quiet later ih ihLater =>
    obtain ⟨bound, bounded⟩ := ih
    obtain ⟨bound', boundedLater⟩ := ihLater
    refine ⟨max (bound + 1) bound', fun names rest'' st' path => ?_⟩
    cases path with
    | here => exact Nat.zero_le _
    | into loads loaded set deeper =>
      cases loads with
      | here again =>
        cases next.symm.trans again
        cases load.symm.trans loaded
        exact (Nat.succ_le_succ (bounded _ _ _ deeper)).trans (le_max_left _ _)
      | later again loaded' nested' _ behind =>
        cases next.symm.trans again
        cases load.symm.trans loaded'
        cases nested.unique nested'
        exact (boundedLater _ _ _ (.into behind loaded set deeper)).trans (le_max_right _ _)

theorem Walk.empty (walk : Walk ficl disk rest st v) (empty : st.confFiles = []) (quiet : v.thrown = none) :
    v.loading.confFiles = [] := by
  induction walk with
  | ended => exact empty
  | thrown => cases quiet
  | inner => cases quiet
  | file _ _ _ quiet' _ ih ihLater => exact ihLater (ih rfl quiet') quiet

theorem Loads.empty (loads : Loads ficl disk rest st name st₁) (empty : st.confFiles = []) : st₁.confFiles = [] := by
  induction loads with
  | here => exact empty
  | later _ _ nested quiet _ ih => exact ih (nested.empty rfl quiet)

theorem loadFile_opened (empty : st.confFiles = []) (load : loadFile ficl disk name st = some (none, st₁))
    (set : st₁.confFiles ≠ []) :
    (disk.deliver st.opens name).isSome := by
  cases opened : disk.deliver st.opens name with
  | some _ => rfl
  | none =>
    rw [loadFile, opened] at load
    cases load
    exact absurd empty set

theorem Path.opened {names : List Bytes} (path : Path ficl disk rest st names rest' st') (empty : st.confFiles = []) :
    ∀ name ∈ names, ∃ n, (disk.deliver n name).isSome := by
  induction path with
  | here => exact fun name member => absurd member not_mem_nil
  | into loads load set _ ih =>
    intro name member
    rcases mem_cons.mp member with rfl | deeper
    · exact ⟨_, loadFile_opened (loads.empty empty) load set⟩
    · exact ih rfl name deeper

def ConfDisk.names (disk : ConfDisk) : Set Bytes := {name | ∃ n, (disk.deliver n name).isSome}

theorem Path.length_le {names : List Bytes} (path : Path ficl disk rest st names rest' st') (empty : st.confFiles = [])
    (finite : disk.names.Finite) (nodup : names.Nodup) : names.length ≤ disk.names.ncard := by
  classical
  have inside : (names.toFinset : Set Bytes) ⊆ disk.names := by
    intro name member
    rw [Finset.mem_coe, List.mem_toFinset] at member
    exact path.opened empty name member
  have few := Set.ncard_le_ncard inside finite
  rwa [Set.ncard_coe_finset, toFinset_card_of_nodup nodup] at few

/-- include_conf_files ends exactly if the chains of files, each named by the setting of the one before,
are bounded in the run; and among finitely many files they are if no file comes twice in a chain. -/
theorem includeConfFiles_ends_bounded (ficl : Ficl) (disk : ConfDisk) (st : Loading) :
    ((∃ fuel v, includeConfFiles ficl disk fuel st = some v) ↔
      ∃ bound, ∀ names rest st', Path ficl disk st.confFiles st.cleared names rest st' → names.length ≤ bound) ∧
    (disk.names.Finite → (∀ names rest st', Path ficl disk st.confFiles st.cleared names rest st' → names.Nodup) →
      ∃ fuel v, includeConfFiles ficl disk fuel st = some v) := by
  have ends : (∃ fuel v, includeConfFiles ficl disk fuel st = some v) ↔
      ∃ bound, ∀ names rest st', Path ficl disk st.confFiles st.cleared names rest st' → names.length ≤ bound := by
    rw [includeConfFiles_ends_iff]
    constructor
    · rintro ⟨v, walk⟩
      exact bounded_of_walk walk
    · rintro ⟨bound, bounded⟩
      exact walk_of_bounded bounded
  exact ⟨ends, fun finite once =>
    ends.mpr ⟨_, fun names rest st' path => path.length_le rfl finite (once names rest st' path)⟩⟩

/-- loader_conf_files="a" -/
private def selfLine : Bytes := loaderConfFiles ++ [charAssign, charQuote, 0x61, charQuote]

private def selfDisk : ConfDisk where
  deliver := fun _ name => if name = [0x61] then some [.got (selfLine ++ [lf])] else none

private def selfFicl : Ficl := ⟨fun _ _ => (true, fun _ => some [0x61]), fun _ => 0⟩

private def selfLoading : Loading :=
  ⟨⟨⟨[], 0, false, []⟩, { nextbootConfFile := [], env := fun _ => none, confFiles := [0x61] }⟩, false, [], 0⟩

private theorem selfLine_assigns (past : UInt8) :
    getAssignment past selfLine = some (loaderConfFiles, [charQuote, 0x61, charQuote]) :=
  rfl

private theorem selfLine_processed (c : Conf) : (processLine selfFicl selfLine c).1 = none := by
  rw [processLine, selfLine_assigns]
  rfl

private theorem selfLine_env {c c' : Conf} (processed : processLine selfFicl selfLine c = (none, c')) :
    (c'.env loaderConfFiles).getD [] = [0x61] := by
  cases processed
  rfl

private theorem selfRuns {all : List Bytes} {c c' : Conf} {last last' : Bytes}
    (runs : FileRuns selfFicl all c last c' last') (only : all = [selfLine] ∨ all = [] ∧ last = [0x61]) :
    last' = [0x61] := by
  induction runs with
  | nil =>
    rcases only with some | ⟨-, last⟩
    · cases some
    · exact last
  | empty _ ih => exact ih only
  | line processed _ ih =>
    rcases only with one | ⟨none, -⟩
    · cases one
      apply ih
      exact .inr ⟨rfl, selfLine_env processed⟩
    · cases none

private theorem selfFile_loads (clean : Clean st.session) :
    ∃ st₁, loadFile selfFicl selfDisk [0x61] st = some (none, st₁) ∧ st₁.confFiles = [0x61] ∧ Clean st₁.session := by
  obtain ⟨result, ran⟩ := loadConf_ends selfFicl (selfDisk.deliver st.opens [0x61]) st.session
  have delivered : Delivered [.got (selfLine ++ [lf])] := by
    intro read member
    rw [mem_singleton.mp member]
    exact ⟨_, rfl, by decide⟩
  have content : lines (pending [.got (selfLine ++ [lf])]) = [selfLine] := by decide
  have quiet : result.exception = none := by
    refine loadConf_quiet delivered clean ?_ ran
    intro line member c
    rw [mem_singleton.mp member]
    exact selfLine_processed c
  obtain ⟨⟨_, runs, left⟩, clean'⟩ := loadConf_runs delivered clean ran quiet
  refine ⟨_, by rw [loadFile, ran, map_some, quiet]; rfl, ?_, clean'⟩
  exact left.trans (selfRuns runs (.inl rfl))

private theorem selfPath (length : Nat) : ∀ st : Loading, Clean st.session → ∃ names rest' st',
    Path selfFicl selfDisk [0x61] st names rest' st' ∧ names.length = length := by
  induction length with
  | zero => exact fun st _ => ⟨[], _, _, .here _ _, rfl⟩
  | succ length ih =>
    intro st clean
    obtain ⟨st₁, load, named, clean'⟩ := selfFile_loads clean
    obtain ⟨names, rest', st', path, count⟩ := ih st₁.cleared clean'
    rw [← named] at path
    have next : getNextFile [0x61] = some ([0x61], []) := by decide
    exact ⟨[0x61] :: names, rest', st', .into (.here next) load (by rw [named]; decide) path, by rw [length_cons, count]⟩

private theorem names_finite {disk : ConfDisk} (known : List Bytes)
    (only : ∀ n name, name ∉ known → disk.deliver n name = none) :
    disk.names.Finite := by
  refine known.finite_toSet.subset ?_
  rintro name ⟨n, opened⟩
  by_contra other
  rw [only n name other] at opened
  cases opened

/-- A file that names itself is loaded without an end. -/
theorem includeConfFiles_self_endless :
    selfLoading.session.reader.buffer = [] ∧ selfDisk.names.Finite ∧
      ∀ fuel, includeConfFiles selfFicl selfDisk fuel selfLoading = none := by
  have clean : Clean selfLoading.cleared.session := fun b member => absurd member not_mem_nil
  refine ⟨rfl, names_finite [[0x61]] fun n name other => if_neg (by simpa using other), fun fuel => ?_⟩
  cases ran : includeConfFiles selfFicl selfDisk fuel selfLoading with
  | none => rfl
  | some _ =>
    obtain ⟨bound, bounded⟩ := bounded_of_walk (includeConfFiles_walk ran)
    obtain ⟨names, _, _, path, _⟩ := selfPath (bound + 1) selfLoading.cleared clean
    have short := bounded _ _ _ path
    omega

/-- File a names file b, which is empty. -/
private def chainDisk : ConfDisk where
  deliver := fun _ name => if name = [0x61] then some [.got (selfLine ++ [lf])]
    else if name = [0x62] then some [] else none

private def chainFicl : Ficl := ⟨fun _ _ => (true, fun _ => some [0x62]), fun _ => 0⟩

private theorem Loads.single {c : UInt8} (visible : (c == bl) = false) (loads : Loads ficl disk [c] st name st₁) :
    name = [c] ∧ st₁ = st := by
  have first : getNextFile [c] = some ([c], []) := by
    rw [getNextFile, skipLeadingSpaces, dropWhile_cons_of_neg (by simp [visible])]
    simp [getFileName, bne, visible]
  cases loads with
  | here next =>
    rw [first] at next
    cases next
    exact ⟨rfl, rfl⟩
  | later next _ _ _ behind =>
    rw [first] at next
    cases next
    cases behind with
    | here none => cases none
    | later none => cases none

theorem includeConfFiles_chain_ends : ∃ fuel v, includeConfFiles chainFicl chainDisk fuel selfLoading = some v := by
  apply (includeConfFiles_ends_bounded chainFicl chainDisk selfLoading).2
  · refine names_finite [[0x61], [0x62]] fun n name other => ?_
    rw [mem_cons, mem_singleton, not_or] at other
    exact (if_neg other.1).trans (if_neg other.2)
  · have settings : ((loadFile chainFicl chainDisk [0x61] selfLoading.cleared).map fun a => (a.2.confFiles,
        (loadFile chainFicl chainDisk [0x62] a.2.cleared).map fun b => b.2.confFiles)) = some ([0x62], some []) := by
        decide +kernel
    intro names rest st' path
    cases path with
    | here => exact nodup_nil
    | into loads load _ deeper =>
      obtain ⟨rfl, rfl⟩ := loads.single (by decide)
      rw [load, map_some, some_inj, Prod.mk.injEq] at settings
      obtain ⟨named, last⟩ := settings
      dsimp only at named last
      rw [named] at deeper
      cases deeper with
      | here => exact nodup_singleton _
      | into loads' load' set' =>
        obtain ⟨rfl, rfl⟩ := loads'.single (by decide)
        rw [load', map_some, some_inj] at last
        exact absurd last set'

end Pcbsd.Forth
