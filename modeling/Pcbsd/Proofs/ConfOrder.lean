import Pcbsd.Proofs.ConfInclusion

/-! The order in which include_conf_files loads the files: depth first, as long as no file raises an
exception. One that does leaves the rest of the read buffer behind, and EEXEC is passed ahead. -/

namespace Pcbsd.Forth
open Lib List Option

variable {ficl : Ficl} {disk : ConfDisk} {content : Bytes → Option Bytes} {rest rest' rest'' : Bytes}
    {st st' st₁ st₂ : Loading}
  {v v' : Included} {name name' : Bytes}

def confWords (names : Bytes) : List Bytes := (names.splitOn bl).filter (· ≠ [])

/-- What the files hold, none if one cannot be opened. Fread delivers it in pieces. -/
structure Holds (disk : ConfDisk) (content : Bytes → Option Bytes) : Prop where
  missing : ∀ name, content name = none → ∀ n, disk.deliver n name = none
  opened : ∀ name text, content name = some text →
    ∀ n, ∃ input, disk.deliver n name = some input ∧ Delivered input ∧ pending input = text

/-- The files loaded for a list of names: behind each one those that its last setting of loader_conf_files
names, before the next of the list. -/
inductive DepthFirst (ficl : Ficl) (content : Bytes → Option Bytes) : Conf → List Bytes → List Bytes → Conf → Prop
  | nil (c : Conf) : DepthFirst ficl content c [] [] c
  | missing {c c' : Conf} {name : Bytes} {names trace : List Bytes} (absent : content name = none)
    (later : DepthFirst ficl content c names trace c') : DepthFirst ficl content c (name :: names) (name :: trace) c'
  | file {c c₁ c₂ c' : Conf} {name text last : Bytes} {names trace trace' : List Bytes} (present : content name = some text)
    (runs : FileRuns ficl (lines text) c [] c₁ last)
    (inner : DepthFirst ficl content { c₁ with confFiles := [] } (confWords last) trace c₂)
    (later : DepthFirst ficl content c₂ names trace' c') :
    DepthFirst ficl content c (name :: names) (name :: (trace ++ trace')) c'

/-- In the loop over `rest` or below it load_conf is called with this name, in the state `st₁`. -/
def Called (ficl : Ficl) (disk : ConfDisk) (rest : Bytes) (st : Loading) (name : Bytes) (st₁ : Loading) : Prop :=
  ∃ names rest' st', Path ficl disk rest st names rest' st' ∧ Loads ficl disk rest' st' name st₁

/-- The file `f` is loaded, and its last setting of loader_conf_files names `g`. -/
def Includes (ficl : Ficl) (disk : ConfDisk) (rest : Bytes) (st : Loading) (f g : Bytes) : Prop :=
  ∃ st₁ st₂, Called ficl disk rest st f st₁ ∧ loadFile ficl disk f st₁ = some (none, st₂) ∧ g ∈ confWords st₂.confFiles

/-- No load_conf raises an exception, but those of files that cannot be opened. -/
def Unraised (ficl : Ficl) (disk : ConfDisk) (content : Bytes → Option Bytes) (rest : Bytes) (st : Loading) : Prop :=
  ∀ name st₁ result, Called ficl disk rest st name st₁ → content name ≠ none →
    loadConf ficl (disk.deliver st₁.opens name) st₁.session = some result → result.exception = none

theorem confWords_blank (rest : Bytes) : confWords (bl :: rest) = confWords rest := by
  simp [confWords, splitOn, splitOnP_cons_eq_if_modifyHead]

theorem confWords_skip (rest : Bytes) : confWords (skipLeadingSpaces rest) = confWords rest := by
  induction rest with
  | nil => rfl
  | cons c rest ih =>
    by_cases blank : c = bl
    · rw [blank, confWords_blank, ← ih, skipLeadingSpaces, dropWhile_cons_of_pos (by simp), skipLeadingSpaces]
    · rw [skipLeadingSpaces, dropWhile_cons_of_neg (by simpa using blank)]

theorem confWords_word {word : Bytes} (nonempty : word ≠ []) (plain : bl ∉ word) : confWords word = [word] := by
  rw [confWords, splitOn_eq_singleton plain]
  simpa using nonempty

theorem confWords_word_append {word : Bytes} (nonempty : word ≠ []) (plain : bl ∉ word) (rest : Bytes) :
    confWords (word ++ bl :: rest) = word :: confWords rest := by
  rw [confWords, splitOn_append_cons_self_of_not_mem plain, filter_cons_of_pos (by simpa using nonempty), confWords]

theorem getNextFile_words (next : getNextFile rest = some (name, rest')) :
    confWords rest = name :: confWords rest' := by
  rw [getNextFile, getFileName] at next
  rw [← confWords_skip]
  by_cases nothing : skipLeadingSpaces rest = []
  · rw [if_pos nothing] at next
    cases next
  rw [if_neg nothing] at next
  cases next
  have split := takeWhile_append_dropWhile (p := (· != bl)) (l := skipLeadingSpaces rest)
  have plain : bl ∉ (skipLeadingSpaces rest).takeWhile (· != bl) := by
    intro member
    have other := mem_takeWhile_imp member
    simp at other
  have nonempty : (skipLeadingSpaces rest).takeWhile (· != bl) ≠ [] := by
    obtain ⟨c, more, shape⟩ := exists_cons_of_ne_nil nothing
    have first := head?_dropWhile_not (· == bl) rest
    have front : rest.dropWhile (· == bl) = c :: more := shape
    rw [front] at first
    rw [shape, takeWhile_cons_of_pos (by simpa using first)]
    exact cons_ne_nil _ _
  cases behind : (skipLeadingSpaces rest).dropWhile (· != bl) with
  | nil =>
    rw [behind, append_nil] at split
    rw [split] at plain nonempty ⊢
    exact confWords_word nonempty plain
  | cons c more =>
    have stop := head?_dropWhile_not (· != bl) (skipLeadingSpaces rest)
    rw [behind] at stop
    obtain rfl : c = bl := by simpa using stop
    rw [behind] at split
    rw [confWords_blank, ← confWords_word_append nonempty plain, split]

theorem getNextFile_none (last : getNextFile rest = none) : confWords rest = [] := by
  rw [getNextFile, getFileName] at last
  by_cases nothing : skipLeadingSpaces rest = []
  · rw [← confWords_skip, nothing]
    rfl
  · rw [if_neg nothing] at last
    cases last

theorem Loads.word (loads : Loads ficl disk rest st name st₁) : name ∈ confWords rest := by
  induction loads with
  | here next =>
    rw [getNextFile_words next]
    exact mem_cons_self
  | later next _ _ _ _ ih =>
    rw [getNextFile_words next]
    exact mem_cons_of_mem _ ih

theorem Path.append {names names' : List Bytes} (path : Path ficl disk rest st names rest' st')
    (more : Path ficl disk rest' st' names' rest'' st₂) : Path ficl disk rest st (names ++ names') rest'' st₂ := by
  induction path with
  | here => exact more
  | into loads load set _ ih => exact .into loads load set (ih more)

theorem Called.later (called : Called ficl disk rest' v.loading name' st₂)
    (next : getNextFile rest = some (name, rest')) (load : loadFile ficl disk name st = some (none, st₁))
    (nested : Walk ficl disk st₁.confFiles st₁.cleared v) (quiet : v.thrown = none) :
    Called ficl disk rest st name' st₂ := by
  obtain ⟨_, rest'', st', path, loads⟩ := called
  cases path with
  | here => exact ⟨[], rest, st, .here _ _, .later next load nested quiet loads⟩
  | into first loaded set deeper =>
    exact ⟨_, rest'', st', .into (.later next load nested quiet first) loaded set deeper, loads⟩

theorem not_called_nil : ¬Called ficl disk [] st name st₁ := by
  rintro ⟨_, _, _, path, loads⟩
  have stops : ∀ {name st₁}, ¬Loads ficl disk [] st name st₁ := fun {_ _} loads => absurd loads.word not_mem_nil
  cases path with
  | here => exact stops loads
  | into first => exact stops first

theorem Called.nested (called : Called ficl disk st₁.confFiles st₁.cleared name' st₂)
    (next : getNextFile rest = some (name, rest')) (load : loadFile ficl disk name st = some (none, st₁)) :
    Called ficl disk rest st name' st₂ := by
  by_cases set : st₁.confFiles = []
  · rw [set] at called
    exact absurd called not_called_nil
  · obtain ⟨names, rest'', st', path, loads⟩ := called
    exact ⟨name :: names, rest'', st', .into (.here next) load set path, loads⟩

theorem Path.includes {names pre : List Bytes} {rest₀ : Bytes} {st₀ : Loading}
    (path : Path ficl disk rest st names rest' st') (front : Path ficl disk rest₀ st₀ pre rest st) :
    names.Pairwise (Relation.TransGen (Includes ficl disk rest₀ st₀)) ∧
      ∀ f, (∀ g ∈ confWords rest, Includes ficl disk rest₀ st₀ f g) →
      ∀ g ∈ names, Relation.TransGen (Includes ficl disk rest₀ st₀) f g :=
        by
  induction path generalizing pre with
  | here => exact ⟨.nil, fun f _ g member => absurd member not_mem_nil⟩
  | @into rest rest' name st st₁ st₂ st' names loads load set _ ih =>
    have called : Called ficl disk rest₀ st₀ name st₁ := ⟨pre, rest, st, front, loads⟩
    obtain ⟨pairwise, leads⟩ := ih (front.append (.into loads load set (.here _ _)))
    have behind := leads name fun g member => ⟨st₁, st₂, called, load, member⟩
    refine ⟨pairwise_cons.mpr ⟨behind, pairwise⟩, fun f words g member => ?_⟩
    have first := Relation.TransGen.single (words name loads.word)
    rcases mem_cons.mp member with rfl | deep
    · exact first
    · exact first.trans (behind g deep)

theorem Path.nodup {names : List Bytes} (path : Path ficl disk rest st names rest' st')
    (acyclic : ∀ f, ¬Relation.TransGen (Includes ficl disk rest st) f f) : names.Nodup := by
  refine (path.includes (.here _ _)).1.imp fun {f g} leads same => ?_
  rw [same] at leads
  exact acyclic g leads

theorem loadFile_effect {e : Option Exception} (holds : Holds disk content) (empty : st.confFiles = [])
    (clean : Clean st.session)
    (quiet : content name ≠ none → ∀ result, loadConf ficl (disk.deliver st.opens name) st.session = some result →
      result.exception = none) (load : loadFile ficl disk name st = some (e, st₁)) :
    e = none ∧ Clean st₁.session ∧
      ((content name = none ∧ st₁.confFiles = [] ∧ st₁.session.conf = st.session.conf) ∨
        ∃ text, content name = some text ∧
        FileRuns ficl (lines text) st.session.conf [] st₁.session.conf st₁.confFiles) := by
  cases present : content name with
  | none =>
    rw [loadFile, holds.missing name present] at load
    cases load
    exact ⟨rfl, clean, .inl ⟨rfl, empty, rfl⟩⟩
  | some text =>
    obtain ⟨input, opened, delivered, rfl⟩ := holds.opened name text present st.opens
    obtain ⟨result, ran⟩ := loadConf_ends ficl (some input) st.session
    have ends := quiet (by rw [present]; exact some_ne_none _) result (by rw [opened]; exact ran)
    obtain ⟨⟨_, runs, left⟩, clean'⟩ := loadConf_runs delivered clean ran ends
    rw [loadFile, opened, ran, map_some, ends] at load
    cases load
    have start : st.session.conf.confFiles = [] := empty
    rw [start, ← left] at runs
    exact ⟨rfl, clean', .inr ⟨_, rfl, runs⟩⟩

theorem Walk.depthFirst (holds : Holds disk content) (walk : Walk ficl disk rest st v) (empty : st.confFiles = [])
    (clean : Clean st.session) (quiet : Unraised ficl disk content rest st) :
    v.thrown = none ∧ Clean v.loading.session ∧
      DepthFirst ficl content st.session.conf (confWords rest) v.trace v.loading.session.conf := by
  induction walk with
  | @ended rest st last =>
    rw [getNextFile_none last]
    exact ⟨rfl, clean, .nil _⟩
  | @thrown rest rest' name st st₁ e next load =>
    obtain ⟨none, -⟩ := loadFile_effect holds empty clean (fun present result =>
      quiet name st result ⟨[], rest, st, .here _ _, .here next⟩ present) load
    cases none
  | @inner rest rest' name st st₁ v e next load nested thrown ih =>
    obtain ⟨-, clean₁, -⟩ := loadFile_effect holds empty clean (fun present result =>
      quiet name st result ⟨[], rest, st, .here _ _, .here next⟩ present) load
    obtain ⟨none, -⟩ := ih rfl clean₁ fun name' st₂ result called => quiet name' st₂ result (called.nested next load)
    rw [none] at thrown
    cases thrown
  | @file rest rest' name st st₁ v _ next load nested silent later ih ihLater =>
    obtain ⟨-, clean₁, effect⟩ := loadFile_effect holds empty clean (fun present result =>
      quiet name st result ⟨[], rest, st, .here _ _, .here next⟩ present) load
    obtain ⟨-, clean₂, inner⟩ := ih rfl clean₁ fun name' st₂ result called => quiet name' st₂ result (called.nested next load)
    obtain ⟨none, clean', outer⟩ := ihLater (nested.empty rfl silent) clean₂ fun name' st₂ result called =>
      quiet name' st₂ result (called.later next load nested silent)
    refine ⟨none, clean', ?_⟩
    rw [getNextFile_words next]
    rcases effect with ⟨absent, nothing, same⟩ | ⟨_, present, runs⟩
    · obtain rfl := nested.unique (walk_nothing nothing)
      rw [← same]
      exact .missing absent outer
    · exact .file present runs inner outer

/-- Without an exception and without a cycle include_conf_files ends and has loaded the files depth first. -/
theorem includeConfFiles_depthFirst (ficl : Ficl) (disk : ConfDisk) (content : Bytes → Option Bytes) (st : Loading)
    (holds : Holds disk content) (finite : {name | content name ≠ none}.Finite)
    (acyclic : ∀ f, ¬Relation.TransGen (Includes ficl disk st.confFiles st.cleared) f f) (clean : Clean st.session)
    (quiet : Unraised ficl disk content st.confFiles st.cleared) :
    ∃ fuel v, includeConfFiles ficl disk fuel st = some v ∧ v.thrown = none ∧
      DepthFirst ficl content st.cleared.session.conf (confWords st.confFiles) v.trace v.loading.session.conf := by
  have few : disk.names.Finite := by
    refine finite.subset ?_
    rintro name ⟨n, opened⟩ absent
    rw [holds.missing name absent n] at opened
    cases opened
  obtain ⟨v, walk⟩ := walk_of_bounded fun names rest' st' path => path.length_le rfl few (path.nodup acyclic)
  obtain ⟨fuel, v', ran⟩ := includeConfFiles_ends_iff.mpr ⟨v, walk⟩
  obtain ⟨none, -, order⟩ := (includeConfFiles_walk ran).depthFirst holds rfl clean quiet
  exact ⟨fuel, v', ran, none, order⟩

/-- exec="x" -/
private def execLine : Bytes := exec ++ [charAssign, charQuote, 0x78, charQuote]

/-- p=1 -/
private def plainLine : Bytes := [0x70, charAssign, 0x31]

/-- loader_conf_files="b" -/
private def namingLine : Bytes := loaderConfFiles ++ [charAssign, charQuote, 0x62, charQuote]

private def orderContent (name : Bytes) : Option Bytes :=
  if name = [0x61] then some (execLine ++ [lf])
  else if name = [0x62] then some (plainLine ++ [lf])
  else if name = [0x63] then some (namingLine ++ [lf])
  else none

private def orderDisk : ConfDisk := ⟨fun _ name => (orderContent name).map fun text => [.got text]⟩

private def orderFicl : Ficl :=
  ⟨fun s env => if s = [0x78] then (false, env) else (true, fun _ => some [0x62]), fun _ => 0⟩

private def orderLoading (names : Bytes) : Loading :=
  ⟨⟨⟨[], 0, false, []⟩, { nextbootConfFile := [], env := fun _ => none, confFiles := names }⟩, false, [], 0⟩

private theorem orderContent_cases {text : Bytes} (present : orderContent name = some text) :
    (name = [0x61] ∧ text = execLine ++ [lf]) ∨ (name = [0x62] ∧ text = plainLine ++ [lf]) ∨
      (name = [0x63] ∧ text = namingLine ++ [lf]) := by
  rw [orderContent] at present
  by_cases a : name = [0x61]
  · rw [if_pos a] at present
    exact .inl ⟨a, (some.inj present).symm⟩
  rw [if_neg a] at present
  by_cases b : name = [0x62]
  · rw [if_pos b] at present
    exact .inr (.inl ⟨b, (some.inj present).symm⟩)
  rw [if_neg b] at present
  by_cases c : name = [0x63]
  · rw [if_pos c] at present
    exact .inr (.inr ⟨c, (some.inj present).symm⟩)
  · rw [if_neg c] at present
    cases present

private theorem orderContent_finite : {name | orderContent name ≠ none}.Finite := by
  refine (Set.toFinite {[0x61], [0x62], [0x63]}).subset fun name some => ?_
  obtain ⟨_, present⟩ := ne_none_iff_exists'.mp some
  rcases orderContent_cases present with ⟨rfl, -⟩ | ⟨rfl, -⟩ | ⟨rfl, -⟩ <;> simp

private theorem orderDisk_holds : Holds orderDisk orderContent := by
  constructor
  · exact fun name absent n => congrArg (Option.map fun text => [Fread.got text]) absent
  · intro name text present n
    refine ⟨[.got text], congrArg (Option.map fun text => [Fread.got text]) present, ?_, append_nil text⟩
    intro read member
    rw [mem_singleton.mp member]
    refine ⟨text, rfl, ?_⟩
    rcases orderContent_cases present with ⟨-, rfl⟩ | ⟨-, rfl⟩ | ⟨-, rfl⟩ <;> decide

private theorem orderLoading_clean (names : Bytes) : Clean (orderLoading names).session :=
  fun _ member => absurd member not_mem_nil

theorem Loads.only (loads : Loads ficl disk rest st name st₁) (next : getNextFile rest = some (name', [])) :
    name = name' ∧ st₁ = st := by
  cases loads with
  | here next' =>
    cases next.symm.trans next'
    exact ⟨rfl, rfl⟩
  | later next' _ _ _ behind =>
    cases next.symm.trans next'
    exact absurd behind.word not_mem_nil

private structure OrderRun (st₁ st₂ : Loading) : Prop where
  first : loadFile orderFicl orderDisk [0x63] (orderLoading [0x63]).cleared = some (none, st₁)
  named : st₁.confFiles = [0x62]
  second : loadFile orderFicl orderDisk [0x62] st₁.cleared = some (none, st₂)
  nothing : st₂.confFiles = []
  quiet : (loadConf orderFicl (orderDisk.deliver 0 [0x63]) (orderLoading [0x63]).cleared.session).map (·.exception) =
    some none
  quiet' : (loadConf orderFicl (orderDisk.deliver st₁.opens [0x62]) st₁.cleared.session).map (·.exception) = some none

private theorem orderRun_exists : ∃ st₁ st₂, OrderRun st₁ st₂ := ⟨_, _, rfl, rfl, rfl, rfl, rfl, rfl⟩

private theorem orderRun_called (run : OrderRun st₁ st₂)
    (called : Called orderFicl orderDisk [0x63] (orderLoading [0x63]).cleared name st') :
    name = [0x63] ∧ st' = (orderLoading [0x63]).cleared ∨ name = [0x62] ∧ st' = st₁.cleared := by
  have nextC : getNextFile [0x63] = some ([0x63], []) := by decide
  have nextB : getNextFile [0x62] = some ([0x62], []) := by decide
  obtain ⟨_, _, _, path, loads⟩ := called
  cases path with
  | here =>
    obtain ⟨rfl, rfl⟩ := loads.only nextC
    exact .inl ⟨rfl, rfl⟩
  | into loads₁ load _ deeper =>
    obtain ⟨rfl, rfl⟩ := loads₁.only nextC
    cases run.first.symm.trans load
    rw [run.named] at deeper
    cases deeper with
    | here =>
      obtain ⟨rfl, rfl⟩ := loads.only nextB
      exact .inr ⟨rfl, rfl⟩
    | into loads₂ load' set' _ =>
      obtain ⟨rfl, rfl⟩ := loads₂.only nextB
      cases run.second.symm.trans load'
      exact absurd run.nothing set'

private theorem orderRun_acyclic (f : Bytes) : ¬Relation.TransGen
    (Includes orderFicl orderDisk [0x63] (orderLoading [0x63]).cleared) f f := by
  have only {f g : Bytes} (includes : Includes orderFicl orderDisk [0x63] (orderLoading [0x63]).cleared f g) :
    f = [0x63] ∧ g = [0x62] := by
    obtain ⟨_, _, run⟩ := orderRun_exists
    obtain ⟨_, _, called, load, member⟩ := includes
    rcases orderRun_called run called with ⟨rfl, rfl⟩ | ⟨rfl, rfl⟩
    · cases run.first.symm.trans load
      rw [run.named] at member
      exact ⟨rfl, mem_singleton.mp member⟩
    · cases run.second.symm.trans load
      rw [run.nothing] at member
      exact absurd member not_mem_nil
  intro cycle
  obtain ⟨g, first, -⟩ := Relation.TransGen.head'_iff.mp cycle
  obtain ⟨_, -, last⟩ := Relation.TransGen.tail'_iff.mp cycle
  have here := (only first).1.symm.trans (only last).2
  exact absurd here (by decide)

private theorem orderRun_unraised : Unraised orderFicl orderDisk orderContent [0x63] (orderLoading [0x63]).cleared := by
  intro name st' result called present ran
  obtain ⟨_, _, run⟩ := orderRun_exists
  have shown {ends : Option Result} (silent : ends.map (·.exception) = some none) (same : ends = some result) :
      result.exception = none := by
    rw [same] at silent
    exact some.inj silent
  rcases orderRun_called run called with ⟨rfl, rfl⟩ | ⟨rfl, rfl⟩
  · exact shown run.quiet ran
  · exact shown run.quiet' ran

theorem includeConfFiles_names_b :
    ∃ fuel v, includeConfFiles orderFicl orderDisk fuel (orderLoading [0x63]) = some v ∧ v.thrown = none ∧
      DepthFirst orderFicl orderContent (orderLoading [0x63]).cleared.session.conf [[0x63]] v.trace v.loading.session.conf :=
  includeConfFiles_depthFirst orderFicl orderDisk orderContent (orderLoading [0x63]) orderDisk_holds orderContent_finite
    orderRun_acyclic (orderLoading_clean _) orderRun_unraised

theorem DepthFirst.mem {c c' : Conf} {names trace : List Bytes} (order : DepthFirst ficl content c names trace c') :
    ∀ name ∈ names, name ∈ trace := by
  induction order with
  | nil => exact fun name member => absurd member not_mem_nil
  | missing _ _ ih =>
    intro name member
    rcases mem_cons.mp member with rfl | behind
    · exact mem_cons_self
    · exact mem_cons_of_mem _ (ih name behind)
  | file _ _ _ _ _ ih =>
    intro name member
    rcases mem_cons.mp member with rfl | behind
    · exact mem_cons_self
    · exact mem_cons_of_mem _ (mem_append_right _ (ih name behind))

/-- After a, whose exec throws, b is not loaded. -/
theorem includeConfFiles_stops_at_exec :
    Holds orderDisk orderContent ∧ {name | orderContent name ≠ none}.Finite ∧
      (∀ name text, orderContent name = some text → ∀ line ∈ lines text, ∀ past, (getAssignment past line).isSome) ∧
      (∀ f, ¬Relation.TransGen (Includes orderFicl orderDisk [0x61, bl, 0x62] (orderLoading [0x61, bl, 0x62]).cleared) f
        f) ∧
      Clean (orderLoading [0x61, bl, 0x62]).session ∧
      ¬∃ fuel v, includeConfFiles orderFicl orderDisk fuel (orderLoading [0x61, bl, 0x62]) = some v ∧
        ∃ c, DepthFirst orderFicl orderContent (orderLoading [0x61, bl, 0x62]).cleared.session.conf
          (confWords [0x61, bl, 0x62]) v.trace c := by
  obtain ⟨st₁, load⟩ : ∃ st₁, loadFile orderFicl orderDisk [0x61] (orderLoading [0x61, bl, 0x62]).cleared =
    some (some .eexec, st₁) :=
    ⟨_, rfl⟩
  have next : getNextFile [0x61, bl, 0x62] = some ([0x61], [bl, 0x62]) := by decide
  refine ⟨orderDisk_holds, orderContent_finite, ?_, ?_, orderLoading_clean _, ?_⟩
  · intro name text present line member past
    have only {text line' : Bytes} (one : lines text = [line']) (member : line ∈ lines text) : line = line' := by
      rw [one] at member
      exact mem_singleton.mp member
    rcases orderContent_cases present with ⟨-, rfl⟩ | ⟨-, rfl⟩ | ⟨-, rfl⟩
    · rw [@only _ execLine (by decide) member]
      rfl
    · rw [@only _ plainLine (by decide) member]
      rfl
    · rw [@only _ namingLine (by decide) member]
      rfl
  · have never {f g : Bytes} :
      ¬Includes orderFicl orderDisk [0x61, bl, 0x62] (orderLoading [0x61, bl, 0x62]).cleared f g := by
      rintro ⟨st', st₃, ⟨_, _, _, path, loads⟩, load', -⟩
      have only {name : Bytes} {st' st₃ : Loading} (loads : Loads orderFicl orderDisk [0x61, bl,
        0x62] (orderLoading [0x61, bl, 0x62]).cleared name st')
          (load' : loadFile orderFicl orderDisk name st' = some (none, st₃)) : False := by
        cases loads with
        | here next' =>
          cases next.symm.trans next'
          cases load.symm.trans load'
        | later next' load'' =>
          cases next.symm.trans next'
          cases load.symm.trans load''
      cases path with
      | here => exact only loads load'
      | into loads₁ load₁ => exact only loads₁ load₁
    intro f cycle
    obtain ⟨g, first, -⟩ := Relation.TransGen.head'_iff.mp cycle
    exact never first
  · rintro ⟨fuel, v, ran, c, order⟩
    obtain rfl := (includeConfFiles_walk ran).unique (.thrown next load)
    have loaded := order.mem [0x62] (by decide)
    dsimp only at loaded
    exact absurd loaded (by decide)

end Pcbsd.Forth
