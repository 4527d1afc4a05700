import Pcbsd.Forth.Support
import Pcbsd.Proofs.CommandLine

/-! What becomes of the value of an ordinary variable on its way from a configuration file to the
environment. remove_backslashes takes out every backslash, also an escaped one, and parse takes
out every quote. -/

namespace Pcbsd.Forth
open Lib List Option

def IsName (name : Bytes) : Prop := (∃ c, name.head? = some c ∧ isLetter c) ∧ ∀ c ∈ name, isNameChar c

def Ordinary (name : Bytes) : Prop :=
  name ∉ [loaderConfFiles, nextbootEnable, nextbootConf, verboseLoading, exec] ∧
    ∀ suffix ∈ [loadModuleSuffix, moduleLoadnameSuffix, moduleTypeSuffix, moduleArgsSuffix, moduleBeforeloadSuffix,
      moduleAfterloadSuffix, moduleLoaderrorSuffix], suffixType suffix name = false

def escapeValue (v : Bytes) : Bytes :=
  v.flatMap fun c => if c = charQuote ∨ c = charBackslash then [charBackslash, c] else [c]

def settingLine (name v : Bytes) : Bytes := name ++ charAssign :: charQuote :: (escapeValue v ++ [charQuote])

private theorem scanQuote_escapeValue (v rest : Bytes) :
    scanQuote (escapeValue v ++ charQuote :: rest) = some (escapeValue v ++ [charQuote], rest) := by
  induction v with
  | nil => rw [escapeValue, flatMap_nil, nil_append, scanQuote.eq_def]; rfl
  | cons c v ih =>
    unfold escapeValue at ih ⊢
    rw [flatMap_cons, append_assoc]
    by_cases special : c = charQuote ∨ c = charBackslash
    · rw [if_pos special, cons_append, singleton_append, scanQuote.eq_def]
      dsimp only
      rw [if_neg (by decide), if_pos rfl, ih]
      rfl
    · have plain := not_or.mp special
      rw [if_neg special, singleton_append, scanQuote.eq_def]
      dsimp only
      rw [if_neg plain.1, if_neg plain.2, ih]
      rfl

private theorem removeBackslashes_escapeValue (v : Bytes) :
    removeBackslashes (charQuote :: (escapeValue v ++ [charQuote])) = quoted (removeBackslashes v) := by
  have inner : removeBackslashes (escapeValue v) = removeBackslashes v := by
    induction v with
    | nil => rfl
    | cons c v ih =>
      unfold escapeValue removeBackslashes at ih ⊢
      rw [flatMap_cons, filter_append, ih]
      by_cases special : c = charQuote ∨ c = charBackslash
      · rcases special with rfl | rfl <;> rfl
      · rw [if_neg special, ← filter_append, singleton_append]
  have split : removeBackslashes (charQuote :: (escapeValue v ++ [charQuote])) =
      charQuote :: (removeBackslashes (escapeValue v) ++ [charQuote]) := by
    unfold removeBackslashes
    rw [filter_cons_of_pos (by decide), filter_append]
    rfl
  rw [split, inner, quoted]

theorem eatSpace_cons {c : UInt8} (other : isSpace c = false) (rest : Bytes) : eatSpace (c :: rest) = c :: rest := by
  simp [eatSpace, other]

theorem letter_not_space {c : UInt8} (letter : isLetter c = true) : isSpace c = false := by
  cases blank : isSpace c with
  | false => rfl
  | true =>
    have either : c = bl ∨ c = tab := by simpa [isSpace] using blank
    rcases either with rfl | rfl <;> exact absurd letter (by decide)

private theorem parseName_append {name : Bytes} (all : ∀ c ∈ name, isNameChar c) (rest : Bytes) :
    parseName (name ++ charAssign :: rest) = (name, charAssign :: rest) := by
  have stop : isNameChar charAssign = false := by decide
  unfold parseName
  rw [takeWhile_append_of_pos all, dropWhile_append_of_pos all]
  simp [stop]

private theorem run_cons {past : UInt8} {n : Nat} {p next : Parser} (more : p.rest ≠ [])
    (step : p.step past = some next) :
    Parser.run past (n + 1) p = Parser.run past n next := by
  rw [Parser.run, if_neg more, step, bind_some]

theorem getAssignment_settingLine (past : UInt8) {name : Bytes} (named : IsName name) (v : Bytes) :
    getAssignment past (settingLine name v) = some (name, quoted (removeBackslashes v)) := by
  obtain ⟨⟨c, first, letter⟩, all⟩ := named
  have start : eatSpace (settingLine name v) = settingLine name v ∧ (settingLine name v).headD past = c := by
    cases name with
    | nil => cases first
    | cons _ _ =>
      cases first
      exact ⟨eatSpace_cons (letter_not_space letter) _, rfl⟩
  have some_ : settingLine name v ≠ [] := by simp [settingLine]
  let value := charQuote :: (escapeValue v ++ [charQuote])
  have step₁ : Parser.step past ⟨.whiteSpace1, settingLine name v, [], []⟩ =
      some ⟨.variableName, settingLine name v, [], []⟩ := by
    simp only [Parser.step, start, letter, if_true]
  have step₂ : Parser.step past ⟨.variableName, settingLine name v, [], []⟩ =
      some ⟨.whiteSpace2, charAssign :: value, name, []⟩ := by
    simp only [Parser.step, settingLine, parseName_append all]
    rfl
  have step₃ : Parser.step past ⟨.whiteSpace2, charAssign :: value, name, []⟩ =
      some ⟨.assignmentSign, charAssign :: value, name, []⟩ := rfl
  have step₄ : Parser.step past ⟨.assignmentSign, charAssign :: value, name, []⟩ =
    some ⟨.whiteSpace3, value, name, []⟩ := rfl
  have step₅ : Parser.step past ⟨.whiteSpace3, value, name, []⟩ = some ⟨.variableValue, value, name, []⟩ := rfl
  have step₆ : Parser.step past ⟨.variableValue, value, name, []⟩ =
      some ⟨.whiteSpace4, [], name, quoted (removeBackslashes v)⟩ := by
    have scanned := scanQuote_escapeValue v []
    have text := removeBackslashes_escapeValue v
    simp only [Parser.step, readValue, value, head?_cons, if_true, parseQuote, tail_cons, scanned, map_some, text]
  unfold getAssignment
  rw [run_cons some_ step₁, run_cons some_ step₂, run_cons (by simp) step₃, run_cons (by simp) step₄,
    run_cons (by simp [value]) step₅, run_cons (by simp [value]) step₆, Parser.run, if_pos rfl, bind_some,
    if_pos ⟨rfl, .inr (.inr rfl)⟩]

def RunsSet (ficl : Ficl) (heap : Interp.Heap) : Prop :=
  ∀ tail env, ficl.evaluate (setCommand ++ [bl] ++ tail) env =
    match Interp.bfCommandSet heap tail env with
    | some env => (true, env)
    | none => (false, env)

def setTail (name u : Bytes) : Bytes := name ++ charAssign :: quoted u

theorem processLine_settingLine {ficl : Ficl} {heap : Interp.Heap} (runs : RunsSet ficl heap) {name : Bytes}
    (named : IsName name) (ordinary : Ordinary name) (v w : Bytes) (c : Conf) :
    ((processLine ficl (settingLine name v) c).1 = none ∧
      (processLine ficl (settingLine name v) c).2.env name = some w) ↔
      ∃ env, Interp.bfCommandSet heap (setTail name (removeBackslashes v)) c.env = some env ∧ env name = some w := by
  obtain ⟨_, head, -⟩ := named.1
  have nonempty : name ≠ [] := by
    rintro rfl
    cases head
  obtain ⟨special, suffixes⟩ := ordinary
  simp only [mem_cons, not_mem_nil, or_false, not_or] at special
  simp only [mem_cons, not_mem_nil, or_false, forall_eq_or_imp, forall_eq] at suffixes
  have evaluated := runs (setTail name (removeBackslashes v)) c.env
  have command : setCommand ++ [bl] ++ name ++ [charAssign] ++ quoted (removeBackslashes v) =
      setCommand ++ [bl] ++ setTail name (removeBackslashes v) := by
    simp [setTail]
  simp only [processLine, getAssignment_settingLine _ named v, processAssignment, nonempty, special, suffixes, if_false,
    Bool.false_eq_true, setEnvironmentVariable, command, evaluated]
  cases Interp.bfCommandSet heap (setTail name (removeBackslashes v)) c.env with
  | none => simp
  | some env => simp

section

open Interp (Scan parseRun)

def Plain (c : UInt8) : Bool :=
  c != Interp.charBackslash && !Interp.isquote c && c != Interp.charDollar && !Interp.isspace c &&
    c != 0 && c != 0x0a && c != charAssign

variable {p : UInt8 → Bool} {s : Scan} {c : UInt8} {w : Bytes}

theorem forall_uint8 (all : ∀ n < 256, p (UInt8.ofNat n) = true) (c : UInt8) : p c = true := by
  have := all c.toNat c.toNat_lt
  rwa [UInt8.ofNat_toNat] at this

private theorem nameChar_plain (name : isNameChar c = true) : Plain c = true := by
  have := forall_uint8 (p := fun c => !isNameChar c || Plain c) (by decide +kernel) c
  simpa [name] using this

def Printable (c : UInt8) : Prop := 0x20 ≤ c ∧ c ≤ 0x7e ∧ c ≠ Interp.charDollar

variable (getenv : Bytes → Option Bytes)

private theorem parseRun_word {word : Bytes} (plain : ∀ c ∈ word, Plain c = true ∨ c = charAssign) {rest : Bytes}
    (state : s.state = .str) (unquoted : s.quote = 0) (here : s.p = word ++ rest)
    (room : s.i + word.length ≤ Interp.parseBufsize - 1) :
    ∃ buf, parseRun getenv s = parseRun getenv { s with p := rest, buf, i := s.i + word.length } ∧
      (range (s.i + word.length)).map buf = s.taken ++ word := by
  refine Interp.parseRun_coded getenv (fun c => [c]) 0 word ?_ state unquoted (by simpa using here) room
  intro c member s rest state unquoted here room
  rcases plain c member with plain | rfl
  · simp only [Plain, Bool.and_eq_true, bne_iff_ne, ne_eq, Bool.not_eq_true'] at plain
    obtain ⟨⟨⟨⟨⟨⟨noSlash, noQuote⟩, noDollar⟩, noBlank⟩, -⟩, -⟩, -⟩ := plain
    exact Interp.parseRun_plain state here noSlash noQuote noDollar (.inl noBlank) room
  · exact Interp.parseRun_plain state here (by decide) (by decide) (by decide) (.inl (by decide)) room

private theorem backslash_id {s : Bytes} (none_ : Interp.charBackslash ∉ s) : Interp.backslash s = s := by
  induction s with
  | nil => rw [Interp.backslash]
  | cons _ s ih =>
    rw [mem_cons, not_or] at none_
    rw [Interp.backslash_cons (Ne.symm none_.1), ih none_.2]

private theorem takeWhile_id {s : Bytes} (all : ∀ c ∈ s, p c = true) : s.takeWhile p = s :=
  takeWhile_eq_self_iff.mpr all

def Passable (u : Bytes) : Prop := ∀ c ∈ u, c ≠ 0 ∧ c ≠ 0x0a ∧ c ≠ Interp.charBackslash ∧ c ≠ Interp.charDollar

variable {name u : Bytes}

private theorem setTail_passable (named : IsName name) (passable : Passable u) : Passable (setTail name u) := by
  intro c member
  simp only [setTail, quoted, mem_append, mem_cons, not_mem_nil, or_false] at member
  rcases member with inName | rfl | rfl | inValue | rfl
  · have plain := nameChar_plain (named.2 c inName)
    simp only [Plain, Bool.and_eq_true, bne_iff_ne, ne_eq, Bool.not_eq_true'] at plain
    obtain ⟨⟨⟨⟨⟨⟨noSlash, -⟩, noDollar⟩, -⟩, noNul⟩, noLf⟩, -⟩ := plain
    exact ⟨noNul, noLf, noSlash, noDollar⟩
  · decide
  · decide
  · exact passable c inValue
  · decide

variable (heap : Interp.Heap)

/-- The loop of parse up to the value: set is the first argument, the name and the '=' the start of
the second. -/
private theorem parse_setTail (named : IsName name) (passable : Passable u)
    (fits : name.length + 1 ≤ Interp.parseBufsize - 1) :
    ∃ buf, Interp.parse getenv heap (Interp.setWord ++ Interp.charSpace :: setTail name u) =
        (parseRun getenv ⟨quoted u, .str, 0, 0, buf, name.length + 1, [Interp.setWord]⟩).bind (Interp.finish heap) ∧
      (range (name.length + 1)).map buf = name ++ [charAssign] := by
  have each := setTail_passable named passable
  have slash : Interp.charBackslash ∉ Interp.setWord ++ Interp.charSpace :: setTail name u := by
    simp only [mem_append, mem_cons, not_or]
    exact ⟨by decide, by decide, fun member => (each _ member).2.2.1 rfl⟩
  have copy : (Interp.setWord ++ Interp.charSpace :: setTail name u).takeWhile (· != 0) =
      Interp.setWord ++ Interp.charSpace :: setTail name u := by
    refine takeWhile_id fun c member => ?_
    simp only [mem_append, mem_cons] at member
    rcases member with member | rfl | member
    · revert member
      simp only [Interp.setWord, mem_cons, not_mem_nil, or_false]
      rintro (rfl | rfl | rfl) <;> decide
    · decide
    · simpa using (each c member).1
  obtain ⟨first, head, letter⟩ := named.1
  obtain ⟨tail, shape⟩ : ∃ tail, setTail name u = first :: tail := by
    cases name with
    | nil => cases head
    | cons c _ =>
      cases head
      exact ⟨_, rfl⟩
  have blank : Interp.isspace first = false := by
    have plain := nameChar_plain (c := first) (by simp [isNameChar, letter])
    simp only [Plain, Bool.and_eq_true, Bool.not_eq_true'] at plain
    exact plain.1.1.1.2
  rw [Interp.parse_eq, backslash_id slash, copy]
  have small : 0 + Interp.setWord.length ≤ Interp.parseBufsize - 1 := by decide
  have plainSet : ∀ c ∈ Interp.setWord, Plain c = true ∨ c = charAssign := by decide +kernel
  obtain ⟨buf₁, run₁, taken₁⟩ := parseRun_word getenv plainSet
    (s := Scan.start heap (Interp.setWord ++ Interp.charSpace :: setTail name u)) rfl rfl rfl small
  have text : Scan.text ⟨Interp.charSpace :: first :: tail, .str, 0, 0, buf₁, 0 + Interp.setWord.length, []⟩ =
    Interp.setWord := by
    exact (congrArg (takeWhile (· != 0)) taken₁).trans rfl
  have space := Interp.parseRun_space getenv
    (s := ⟨Interp.charSpace :: first :: tail, .str, 0, 0, buf₁, 0 + Interp.setWord.length, []⟩) rfl rfl rfl
    (by simp [Interp.setWord]) (by simp [Interp.maxargs]) blank
  rw [text] at space
  have here : first :: tail = (name ++ [charAssign]) ++ quoted u := by
    rw [← shape, setTail, append_assoc, singleton_append]
  have plainName : ∀ c ∈ name ++ [charAssign], Plain c = true ∨ c = charAssign := by
    intro c member
    rcases mem_append.mp member with member | member
    · exact .inl (nameChar_plain (named.2 c member))
    · exact .inr (mem_singleton.mp member)
  have length : (name ++ [charAssign]).length = name.length + 1 := by simp
  obtain ⟨buf₂, run₂, taken₂⟩ := parseRun_word getenv plainName
    (s := ⟨first :: tail, .str, 0, 0, Function.update buf₁ (0 + Interp.setWord.length) 0, 0, [Interp.setWord]⟩) rfl rfl
      here
    (by rw [length, Nat.zero_add]; exact fits)
  have count : 0 + (name.length + 1) = name.length + 1 := Nat.zero_add _
  rw [length, count] at run₂ taken₂
  refine ⟨buf₂, ?_, by simpa [Scan.taken] using taken₂⟩
  rw [shape] at run₁ ⊢
  exact congrArg (bind · (Interp.finish heap)) (run₁.trans (space.trans run₂))

private theorem parse_plain_value (named : IsName name) (passable : Passable u)
    (noQuote : ∀ c ∈ u, Interp.isquote c = false) (fits : name.length + 1 + u.length ≤ Interp.parseBufsize - 1) :
    Interp.parse getenv heap (Interp.setWord ++ Interp.charSpace :: setTail name u) =
      some { argc := 2, args := [Interp.setWord, name ++ charAssign :: u], last := 0 :: heap.behind } := by
  obtain ⟨buf, parsed, taken⟩ := parse_setTail getenv heap named passable (by omega)
  have quoting : charQuote ≠ 0 := by decide
  have opened := Interp.parseRun_quote getenv (c := charQuote)
    (s := ⟨quoted u, .str, 0, 0, buf, name.length + 1, [Interp.setWord]⟩) rfl rfl (by decide)
  obtain ⟨buf', run, taken'⟩ := Interp.parseRun_coded getenv (fun c => [c]) charQuote u
    (by
      intro c member s rest state quote here room
      obtain ⟨-, -, noSlash, noDollar⟩ := passable c member
      exact Interp.parseRun_plain state here noSlash (noQuote c member) noDollar (.inr (by rw [quote]; exact quoting)) room)
    (s := ⟨u ++ [charQuote], .str, charQuote, 0, buf, name.length + 1, [Interp.setWord]⟩) rfl rfl
    (show u ++ [charQuote] = u.flatMap (fun c => [c]) ++ [charQuote] by simp) fits
  have closed := Interp.parseRun_quote getenv (c := charQuote)
    (s := ⟨[charQuote], .str, charQuote, 0, buf', name.length + 1 + u.length, [Interp.setWord]⟩) rfl rfl (by decide)
  have noNul : 0 ∉ name ++ charAssign :: u := by
    have each := setTail_passable named passable
    intro member
    refine (each 0 ?_).1 rfl
    simp only [setTail, quoted, mem_append, mem_cons] at member ⊢
    rcases member with member | member | member
    · exact .inl member
    · exact .inr (.inl member)
    · exact .inr (.inr (.inr (.inl member)))
  have text : ((range (name.length + 1 + u.length)).map buf').takeWhile (· != 0) = name ++ charAssign :: u := by
    have all : (range (name.length + 1 + u.length)).map buf' = name ++ charAssign :: u := by
      refine taken'.trans ?_
      rw [Scan.taken, taken, append_assoc, singleton_append]
    rw [all]
    refine takeWhile_id fun c member => ?_
    rw [bne_iff_ne]
    rintro rfl
    exact noNul member
  rw [parsed]
  have whole := opened.trans (run.trans closed)
  rw [whole, Interp.parseRun_nil rfl, bind_some, Interp.finish, if_pos ⟨by simp, rfl⟩, Interp.insert,
    if_neg (by simp [Interp.maxargs]), map_some, Scan.text, text]
  rfl

def Stripped (w : Bytes) : Prop := ∀ c ∈ w, c ≠ 0 ∧ Interp.isquote c = false ∧ c ≠ Interp.charBackslash

def Holding (front : Bytes) (s : Scan) : Prop :=
  (∃ w, s.args = [Interp.setWord] ∧ s.taken = front ++ w ∧ Stripped w) ∨
    ∃ w more, s.args = Interp.setWord :: (front ++ w) :: more ∧ Stripped w

structure Within (front : Bytes) (s : Scan) : Prop where
  holding : Holding front s
  state : s.state = .str ∨ s.state = .white ∧ s.args ≠ [Interp.setWord]
  rest : ∀ c ∈ s.p, c ≠ 0 ∧ c ≠ Interp.charBackslash ∧ c ≠ Interp.charDollar

variable {front : Bytes}

private theorem text_front (noNul : 0 ∉ front) (taken : s.taken = front ++ w) (stripped : Stripped w) :
    s.text = front ++ w := by
  have same : s.text = s.taken.takeWhile (· != 0) := rfl
  rw [same, taken]
  refine takeWhile_id fun c member => ?_
  rw [bne_iff_ne]
  rintro rfl
  rcases mem_append.mp member with member | member
  · exact noNul member
  · exact (stripped 0 member).1 rfl

private theorem holding_insert (noNul : 0 ∉ front) {s' : Scan} (holding : Holding front s)
    (inserted : Interp.insert s = some s') :
    s'.state = s.state ∧ ∃ w more, s'.args = Interp.setWord :: (front ++ w) :: more ∧ Stripped w := by
  unfold Interp.insert at inserted
  split at inserted
  · cases inserted
  · cases inserted
    refine ⟨rfl, ?_⟩
    rcases holding with ⟨w, args, taken, stripped⟩ | ⟨w, more, args, stripped⟩
    · exact ⟨w, [], by rw [args, text_front noNul taken stripped]; rfl, stripped⟩
    · exact ⟨w, more ++ [s.text], by rw [args]; rfl, stripped⟩

private theorem holding_put (holding : Holding front s)
    (ok : c ≠ 0 ∧ Interp.isquote c = false ∧ c ≠ Interp.charBackslash) : Holding front (s.put c) := by
  rcases holding with ⟨w, args, taken, stripped⟩ | ⟨w, more, args, stripped⟩
  · refine .inl ⟨w ++ [c], args, by rw [s.taken_put, taken, append_assoc], ?_⟩
    intro d member
    rcases mem_append.mp member with member | member
    · exact stripped d member
    · rw [mem_singleton.mp member]
      exact ok
  · exact .inr ⟨w, more, args, stripped⟩

private theorem Within.inserted {s : Scan} (within_ : Within front s) (nonempty : front ≠ [])
    (idle : s.i = 0 ∨ s.state = .white) : ∃ w more, s.args = Interp.setWord :: (front ++ w) :: more ∧ Stripped w := by
  rcases within_.holding with ⟨w, args, taken, -⟩ | inserted
  · rcases idle with empty | white
    · rw [Scan.taken, empty, range_zero, map_nil] at taken
      exact absurd (append_eq_nil_iff.mp taken.symm).1 nonempty
    · rcases within_.state with str | ⟨-, other⟩
      · rw [white] at str
        cases str
      · exact absurd args other
  · exact inserted

private theorem args_ne {more : List Bytes} {args : List Bytes}
    (equal : args = Interp.setWord :: (front ++ w) :: more) :
    args ≠ [Interp.setWord] := by
  rw [equal]
  simp

private theorem within_step (noNul : 0 ∉ front) (nonempty : front ≠ []) (s : Scan) (c : UInt8) (rest : Bytes)
    (s' : Scan) (within_ : Within front s) (here : s.p = c :: rest)
    (step : Interp.parseStep getenv s c rest = some s') : Within front s' := by
  obtain ⟨notNul, noSlash, _⟩ := within_.rest c (by rw [here]; exact mem_cons_self)
  have later : ∀ d ∈ rest, d ≠ 0 ∧ d ≠ Interp.charBackslash ∧ d ≠ Interp.charDollar := by
    intro d member
    exact within_.rest d (by rw [here]; exact mem_cons_of_mem _ member)
  unfold Interp.parseStep at step
  cases state : s.state with
  | str =>
    simp only [state, Interp.stepStr] at step
    rw [if_neg (by simp [noSlash])] at step
    by_cases quote : Interp.isquote c
    · rw [if_pos quote] at step
      cases step
      exact ⟨within_.holding, .inl rfl, later⟩
    · rw [if_neg quote] at step
      split at step
      · split at step
        next _ =>
          obtain ⟨_, inserted, rfl⟩ := map_eq_some_iff.mp step
          obtain ⟨white, w, more, args, stripped⟩ := holding_insert noNul (by exact within_.holding) inserted
          exact ⟨.inr ⟨w, more, args, stripped⟩, .inr ⟨white, args_ne args⟩, later⟩
        next none_ =>
          cases step
          obtain ⟨w, more, args, stripped⟩ := within_.inserted nonempty (.inl (by simpa using none_))
          exact ⟨.inr ⟨w, more, args, stripped⟩, .inr ⟨rfl, args_ne args⟩, later⟩
      · split at step
        · cases step
        · cases step
          exact ⟨holding_put within_.holding ⟨notNul, by simpa using quote, noSlash⟩, .inl state, later⟩
  | white =>
    simp only [state, Interp.stepWhite, Option.some.injEq] at step
    subst step
    split
    · obtain ⟨w, more, args, -⟩ := within_.inserted nonempty (.inr state)
      exact ⟨within_.holding, .inr ⟨rfl, args_ne args⟩, later⟩
    · exact ⟨within_.holding, .inl rfl, within_.rest⟩
  | var =>
    rcases within_.state with other | ⟨other, -⟩
    all_goals
      rw [state] at other
      cases other

private theorem parse_stripped (named : IsName name) (passable : Passable u)
    (fits : name.length + 1 ≤ Interp.parseBufsize - 1) {argv : Interp.Argv}
    (parsed : Interp.parse getenv heap (Interp.setWord ++ Interp.charSpace :: setTail name u) = some argv) :
    ∃ w more, argv.args = Interp.setWord :: (name ++ [charAssign] ++ w) :: more ∧ Stripped w := by
  have each := setTail_passable named passable
  have noNul : 0 ∉ name ++ [charAssign] := by
    intro member
    refine (each 0 ?_).1 rfl
    rcases mem_append.mp member with member | member
    · exact mem_append_left _ member
    · rw [setTail, mem_singleton.mp member]
      exact mem_append_right _ mem_cons_self
  obtain ⟨buf, run, taken⟩ := parse_setTail getenv heap named passable fits
  rw [run] at parsed
  obtain ⟨_, ran, finished⟩ := bind_eq_some_iff.mp parsed
  have start : Within (name ++ [charAssign]) ⟨quoted u, .str, 0, 0, buf, name.length + 1, [Interp.setWord]⟩ := by
    refine ⟨.inl ⟨[], rfl, by rw [append_nil]; exact taken, by simp [Stripped]⟩, .inl rfl, ?_⟩
    intro c member
    obtain ⟨notNul, -, noSlash, noDollar⟩ := each c (by
      exact mem_append_right _ (mem_cons_of_mem _ member))
    exact ⟨notNul, noSlash, noDollar⟩
  have within_ := Interp.parseRun_invariant (within_step getenv noNul (by simp)) start ran
  obtain ⟨_, inserted, rfl⟩ := map_eq_some_iff.mp finished
  split at inserted
  · exact (holding_insert noNul within_.holding inserted).2
  next idle =>
    cases inserted
    refine within_.inserted (by simp) ?_
    rcases within_.state with str | ⟨white, -⟩
    · left
      by_contra some_
      exact idle ⟨some_, str⟩
    · exact .inr white

private theorem bfCommandSet_setTail (named : IsName name) (passable : Passable u) (env : Env) :
    Interp.bfCommandSet heap (setTail name u) env =
      (Interp.parse env heap (Interp.setWord ++ Interp.charSpace :: setTail name u)).bind fun argv =>
        Interp.commandSet argv env := by
  have each := setTail_passable named passable
  have rest : (setTail name u).takeWhile (fun c => c != 0 && c != 0x0a) = setTail name u := by
    refine takeWhile_id fun c member => ?_
    obtain ⟨notNul, notLf, -⟩ := each c member
    simp [notNul, notLf]
  have some_ : setTail name u ≠ [] := by simp [setTail]
  unfold Interp.bfCommandSet
  rw [rest]
  dsimp only
  rw [if_neg some_]

private theorem putenv_name (named : IsName name) (w : Bytes) (env : Env) :
    Interp.putenv (name ++ [charAssign] ++ w) env = some (Function.update env name (some w)) := by
  have other : ∀ c ∈ name, (c != Interp.charEquals) = true := by
    intro c member
    have plain := nameChar_plain (named.2 c member)
    simp only [Plain, Bool.and_eq_true] at plain
    exact plain.2
  have front : (name ++ [charAssign] ++ w).takeWhile (· != Interp.charEquals) = name := by
    rw [append_assoc, takeWhile_append_of_pos other]
    simp [charAssign, Interp.charEquals]
  have back : (name ++ [charAssign] ++ w).drop (name.length + 1) = w := by
    rw [show name.length + 1 = (name ++ [charAssign]).length by simp, drop_left]
  unfold Interp.putenv
  rw [if_pos (by simp [charAssign, Interp.charEquals])]
  dsimp only
  rw [front, back]

private theorem bfCommandSet_strips (named : IsName name) (passable : Passable u)
    (fits : name.length + 1 + u.length ≤ Interp.parseBufsize - 1) (env : Env) {v : Bytes} :
    (∃ env', Interp.bfCommandSet heap (setTail name u) env = some env' ∧ env' name = some v) →
      Stripped v := by
  rintro ⟨env', set, value⟩
  rw [bfCommandSet_setTail heap named passable] at set
  obtain ⟨_, parsed, set⟩ := bind_eq_some_iff.mp set
  obtain ⟨_, _, args, stripped⟩ := parse_stripped env heap named passable (by omega) parsed
  unfold Interp.commandSet at set
  split at set
  · cases set
  · rw [args, getD_cons_succ, getD_cons_zero, putenv_name named] at set
    cases set
    rw [Function.update_self] at value
    cases value
    exact stripped

end

private theorem removeBackslashes_passable {v : Bytes} (printable : ∀ c ∈ v, Printable c) :
    Passable (removeBackslashes v) := by
  intro c member
  obtain ⟨inside, noSlash⟩ := mem_filter.mp member
  obtain ⟨low, -, noDollar⟩ := printable c inside
  rw [bne_iff_ne] at noSlash
  refine ⟨?_, ?_, noSlash, noDollar⟩
  · rintro rfl
    exact absurd low (by decide)
  · rintro rfl
    exact absurd low (by decide)

/-- The line sets the variable to the value exactly if there is no quote, no apostrophe and no
backslash in it. -/
theorem processLine_sets_value_iff (ficl : Ficl) (heap : Interp.Heap) (runs : RunsSet ficl heap) (name v : Bytes)
    (named : IsName name) (ordinary : Ordinary name) (printable : ∀ c ∈ v, Printable c)
    (fits : name.length + 1 + v.length ≤ Interp.parseBufsize - 1) (c : Conf) :
    ((processLine ficl (settingLine name v) c).1 = none ∧ (processLine ficl (settingLine name v) c).2.env name = some v) ↔
      ∀ b ∈ v, b ≠ charQuote ∧ b ≠ Interp.charApostrophe ∧ b ≠ charBackslash := by
  have passable := removeBackslashes_passable printable
  rw [processLine_settingLine runs named ordinary]
  constructor
  · intro set b member
    have shorter : (removeBackslashes v).length ≤ v.length := length_filter_le ..
    obtain ⟨-, noQuote, noSlash⟩ := bfCommandSet_strips heap named passable (by omega) c.env set b member
    simp only [Interp.isquote, Bool.or_eq_false_iff, beq_eq_false_iff_ne, ne_eq] at noQuote
    exact ⟨noQuote.2, noQuote.1, noSlash⟩
  · intro clean
    have same : removeBackslashes v = v := by
      refine filter_eq_self.mpr fun b member => ?_
      simpa using (clean b member).2.2
    rw [same] at passable ⊢
    have noQuote : ∀ b ∈ v, Interp.isquote b = false := by
      intro b member
      obtain ⟨quote, apostrophe, -⟩ := clean b member
      simp only [Interp.isquote, Bool.or_eq_false_iff, beq_eq_false_iff_ne, ne_eq]
      exact ⟨apostrophe, quote⟩
    have set : Interp.commandSet ⟨2, [Interp.setWord, name ++ charAssign :: v], 0 :: heap.behind⟩ c.env =
        some (Function.update c.env name (some v)) := by
      have whole := putenv_name named v c.env
      rw [append_assoc, singleton_append] at whole
      exact whole
    refine ⟨Function.update c.env name (some v), ?_, Function.update_self ..⟩
    rw [bfCommandSet_setTail heap named passable, parse_plain_value c.env heap named passable noQuote fits, bind_some, set]

private def setHeap : Interp.Heap := ⟨fun _ => 0, []⟩

private def setFicl : Ficl where
  evaluate := fun s env =>
    match Interp.bfCommandSet setHeap (s.drop 4) env with
    | some env => (true, env)
    | none => (false, env)
  past := fun _ => 0

private theorem setFicl_runsSet : RunsSet setFicl setHeap := by
  intro tail env
  rfl

private def setConf : Conf := { nextbootConfFile := [], env := fun _ => none }

/-- console -/
private def sampleName : Bytes := ascii ['c', 'o', 'n', 's', 'o', 'l', 'e']

private theorem sampleName_named : IsName sampleName := ⟨⟨0x63, rfl, by decide⟩, by decide +kernel⟩

private theorem sampleName_ordinary : Ordinary sampleName := ⟨by decide, by decide⟩

instance (c : UInt8) : Decidable (Printable c) := inferInstanceAs (Decidable (_ ∧ _ ∧ _))

theorem processLine_sets_console :
    (RunsSet setFicl setHeap ∧ IsName sampleName ∧ Ordinary sampleName ∧ ∀ c ∈ [0x20, 0x78], Printable c) ∧
      (processLine setFicl (settingLine sampleName [0x20, 0x78]) setConf).1 = none ∧
      (processLine setFicl (settingLine sampleName [0x20, 0x78]) setConf).2.env sampleName = some [0x20, 0x78] := by
  refine ⟨⟨setFicl_runsSet, sampleName_named, sampleName_ordinary, by decide +kernel⟩, ?_⟩
  exact (processLine_sets_value_iff setFicl setHeap setFicl_runsSet sampleName
    [0x20, 0x78] sampleName_named sampleName_ordinary (by decide +kernel) (by decide) setConf).mpr (by decide +kernel)

/-- With the value x, a backslash and y. -/
theorem processLine_drops_backslash :
    (RunsSet setFicl setHeap ∧ IsName sampleName ∧ Ordinary sampleName ∧ ∀ c ∈ [0x78, 0x5c, 0x79], Printable c) ∧
      (processLine setFicl (settingLine sampleName [0x78, 0x5c, 0x79]) setConf).1 = none ∧
      (processLine setFicl (settingLine sampleName [0x78, 0x5c, 0x79]) setConf).2.env sampleName = some [0x78, 0x79] ∧
      (processLine setFicl (settingLine sampleName [0x78, 0x5c, 0x79]) setConf).2.env sampleName ≠ some [0x78, 0x5c, 0x79] := by
  have value : (processLine setFicl (settingLine sampleName [0x78, 0x5c, 0x79]) setConf).2.env sampleName =
      some [0x78, 0x79] := by decide +kernel
  refine ⟨⟨setFicl_runsSet, sampleName_named, sampleName_ordinary, by decide +kernel⟩, by decide +kernel, value, ?_⟩
  rw [value]
  decide

end Pcbsd.Forth
