import Mathlib.Data.List.TakeWhile
import Pcbsd.Interp

/-! Quoted arguments come back from the command-line parser. backslash() halves the backslashes
before the loop of parse takes them out, and the loop sees no quote or dollar sign that is not
its own. -/

namespace Pcbsd.Interp
open Lib List
open Option hiding or_assoc

variable {getenv : Bytes → Option Bytes}

def Scan.rounds (s : Scan) : Nat := 2 * s.p.length + if s.state = .str then 0 else 1

def parseRun (getenv : Bytes → Option Bytes) (s : Scan) : Option Scan := parseLoop getenv s.rounds s

variable {rest : Bytes} {s : Scan} {c : UInt8} {s' : Scan}

private theorem stepStr_rounds (step : stepStr s c rest = some s') :
    s'.p.length ≤ rest.length := by
  have shorter : rest.tail.length ≤ rest.length := by simp
  unfold stepStr at step
  split at step
  · split at step
    · cases step
    · cases step
      exact shorter
  · split at step
    · cases step
      exact le_rfl
    · split at step
      · split at step
        · obtain ⟨_, -, rfl⟩ := map_eq_some_iff.mp step
          exact le_rfl
        · cases step
          exact le_rfl
      · split at step
        · cases step
          split
          · exact shorter
          · exact le_rfl
        · split at step
          · cases step
          · cases step
            exact le_rfl

theorem parseStep_rounds (here : s.p = c :: rest)
    (step : parseStep getenv s c rest = some s') : s'.rounds < s.rounds := by
  have length : s.p.length = rest.length + 1 := by rw [here, length_cons]
  unfold Scan.rounds
  unfold parseStep at step
  cases state : s.state with
  | str =>
    simp only [state] at step
    have shorter := stepStr_rounds step
    split <;> omega
  | white =>
    simp only [state, stepWhite, Option.some.injEq] at step
    subst step
    split
    · simp only [reduceCtorEq, if_false]
      omega
    · simp
  | var =>
    simp only [state, stepVar] at step
    split at step
    · cases step
    · cases step
      split
      all_goals
        simp only [Scan.strncpy, length_drop, if_true, reduceCtorEq, if_false]
        omega

private theorem parseLoop_enough {fuel : Nat} (enough : s.rounds ≤ fuel) :
    parseLoop getenv fuel s = parseRun getenv s := by
  induction fuel using Nat.strong_induction_on generalizing s with
  | _ fuel ih =>
    unfold parseRun
    cases here : s.p with
    | nil =>
      have done : ∀ fuel, parseLoop getenv fuel s = some s := by
        intro fuel
        cases fuel with
        | zero => rfl
        | succ fuel => rw [parseLoop, here]
      rw [done, done]
    | cons c rest =>
      have positive : 0 < s.rounds := by
        unfold Scan.rounds
        rw [here, length_cons]
        omega
      obtain ⟨fuel, rfl⟩ : ∃ n, fuel = n + 1 := ⟨fuel - 1, by omega⟩
      obtain ⟨rounds, equal⟩ : ∃ n, s.rounds = n + 1 := ⟨s.rounds - 1, by omega⟩
      rw [equal, parseLoop, parseLoop, here]
      dsimp only
      cases step : parseStep getenv s c rest with
      | none => rfl
      | some _ =>
        have fewer := parseStep_rounds here step
        rw [bind_some, bind_some, ih fuel (by omega) (by omega)]
        by_cases short : rounds < fuel + 1
        · rw [ih rounds short (by omega)]
        · omega

theorem parseRun_nil (done : s.p = []) : parseRun getenv s = some s := by
  unfold parseRun
  cases s.rounds with
  | zero => rfl
  | succ _ => rw [parseLoop, done]

theorem parseRun_cons (here : s.p = c :: rest) :
    parseRun getenv s = (parseStep getenv s c rest).bind (parseRun getenv) := by
  have positive : s.rounds = (s.rounds - 1) + 1 := by
    unfold Scan.rounds
    rw [here, length_cons]
    omega
  conv_lhs => rw [parseRun, positive, parseLoop, here]
  dsimp only
  cases step : parseStep getenv s c rest with
  | none => rfl
  | some _ =>
    have fewer := parseStep_rounds here step
    rw [bind_some, bind_some, parseLoop_enough (by omega)]

theorem parseRun_invariant {invariant : Scan → Prop}
    (step : ∀ s c rest s', invariant s → s.p = c :: rest → parseStep getenv s c rest = some s' → invariant s')
    (start : invariant s) (ran : parseRun getenv s = some s') : invariant s' := by
  unfold parseRun at ran
  generalize s.rounds = fuel at ran
  induction fuel generalizing s with
  | zero =>
    cases ran
    exact start
  | succ fuel ih =>
    unfold parseLoop at ran
    split at ran
    · cases ran
      exact start
    next c rest here =>
      obtain ⟨next, stepped, ran⟩ := bind_eq_some_iff.mp ran
      exact ih (step s c rest next start here stepped) ran

def Scan.start (heap : Heap) (copy : Bytes) : Scan :=
  { p := copy, state := .str, quote := 0, token := 0, buf := heap.buf, i := 0, args := [] }

theorem parse_eq (heap : Heap) (str : Bytes) :
    parse getenv heap str =
      (parseRun getenv (Scan.start heap ((backslash str).takeWhile (· != 0)))).bind (finish heap) := by
  rfl

def Scan.taken (s : Scan) : Bytes := (range s.i).map s.buf

theorem Scan.taken_put (s : Scan) (c : UInt8) : (s.put c).taken = s.taken ++ [c] := by
  have before : (range s.i).map (Function.update s.buf s.i c) = (range s.i).map s.buf := by
    apply map_congr_left
    intro k member
    exact Function.update_of_ne (by have := mem_range.mp member; omega) ..
  unfold taken put
  rw [range_succ, map_append, before, map_singleton]
  dsimp only
  rw [Function.update_self]

def quoteChar (c : UInt8) : Bytes :=
  if c = charBackslash then replicate 4 charBackslash
  else if isquote c ∨ c = charDollar then [charBackslash, c]
  else [c]

def quoteArg (arg : Bytes) : Bytes := charQuote :: (arg.flatMap quoteChar ++ [charQuote])

def commandLine (args : List Bytes) : Bytes := [charSpace].intercalate (args.map quoteArg)

def cookedChar (c : UInt8) : Bytes :=
  if c = charBackslash ∨ isquote c ∨ c = charDollar then [charBackslash, c] else [c]

def cookedArg (arg : Bytes) : Bytes := charQuote :: (arg.flatMap cookedChar ++ [charQuote])

theorem backslash_cons (plain : c ≠ charBackslash) (rest : Bytes) :
    backslash (c :: rest) = c :: backslash rest := by
  rw [backslash.eq_def]
  dsimp only
  rw [if_pos plain]

private theorem backslash_backslash (rest : Bytes) :
    backslash (charBackslash :: charBackslash :: rest) = charBackslash :: backslash rest := by
  rw [backslash.eq_def]
  rfl

private theorem backslash_special (special : isquote c ∨ c = charDollar) (rest : Bytes) :
    backslash (charBackslash :: c :: rest) = charBackslash :: c :: backslash rest := by
  have listed : c = charApostrophe ∨ c = charQuote ∨ c = charDollar := by
    simpa [isquote, or_assoc] using special
  have other : c ≠ charBackslash := by
    rcases listed with rfl | rfl | rfl <;> decide
  rw [backslash.eq_def]
  dsimp only
  rw [if_neg (by simp), if_neg other, if_pos listed]

private theorem backslash_quoteChar (c : UInt8) (rest : Bytes) :
    backslash (quoteChar c ++ rest) = cookedChar c ++ backslash rest := by
  unfold quoteChar cookedChar
  by_cases slash : c = charBackslash
  · subst slash
    simp [replicate, backslash_backslash]
  · by_cases special : isquote c ∨ c = charDollar
    · simp [slash, special, backslash_special]
    · simp [slash, special, backslash_cons]

private theorem backslash_quoteArg (arg rest : Bytes) :
    backslash (quoteArg arg ++ rest) = cookedArg arg ++ backslash rest := by
  have inner : ∀ tail, backslash (arg.flatMap quoteChar ++ tail) = arg.flatMap cookedChar ++ backslash tail := by
    intro tail
    induction arg with
    | nil => rfl
    | cons _ arg ih => rw [flatMap_cons, append_assoc, backslash_quoteChar, ih, flatMap_cons, append_assoc]
  unfold quoteArg cookedArg
  rw [cons_append, backslash_cons (by decide), append_assoc, inner, singleton_append,
    backslash_cons (by decide), cons_append, append_assoc, singleton_append]

private theorem backslash_commandLine (args : List Bytes) :
    backslash (commandLine args) = [charSpace].intercalate (args.map cookedArg) := by
  induction args with
  | nil => rfl
  | cons arg args ih =>
    unfold commandLine at ih ⊢
    cases args with
    | nil =>
      have single := backslash_quoteArg arg []
      rw [append_nil, backslash, append_nil] at single
      simpa [intercalate] using single
    | cons next args =>
      simp only [map_cons, intercalate_cons_cons, append_assoc] at ih ⊢
      rw [backslash_quoteArg, singleton_append, backslash_cons (by decide), ih, singleton_append]

section

variable {s : Scan} {c : UInt8} {rest : Bytes}

theorem parseRun_plain (state : s.state = .str) (here : s.p = c :: rest) (plain : c ≠ charBackslash)
    (noQuote : isquote c = false) (noDollar : c ≠ charDollar) (kept : isspace c = false ∨ s.quote ≠ 0)
    (room : s.i < parseBufsize - 1) :
    parseRun getenv s = parseRun getenv { s.put c with p := rest } := by
  have noBlank : ¬(isspace c = true ∧ s.quote = 0) := by
    rintro ⟨blank, unquoted⟩
    rcases kept with kept | kept
    · rw [blank] at kept
      cases kept
    · exact kept unquoted
  rw [parseRun_cons here, parseStep, state]
  rw [stepStr, if_neg (by simp [plain]), if_neg (by simp [noQuote]), if_neg noBlank, if_neg noDollar, if_neg (by omega)]
  rfl

theorem parseRun_escaped (state : s.state = .str) (here : s.p = charBackslash :: c :: rest)
    (room : s.i < parseBufsize - 1) :
    parseRun getenv s = parseRun getenv { s.put c with p := rest } := by
  rw [parseRun_cons here, parseStep, state, stepStr, if_pos (by simp), if_neg (by omega)]
  rfl

theorem parseRun_quote (getenv : Bytes → Option Bytes) (state : s.state = .str) (here : s.p = c :: rest)
    (quote : isquote c) :
    parseRun getenv s = parseRun getenv { s with quote := if s.quote ≠ 0 then 0 else c, p := rest } := by
  have plain : c ≠ charBackslash := by
    rintro rfl
    revert quote
    decide
  rw [parseRun_cons here, parseStep, state, stepStr, if_neg (by simp [plain]), if_pos quote, bind_some, state]

theorem parseRun_space (getenv : Bytes → Option Bytes) (state : s.state = .str) (here : s.p = charSpace :: c :: rest)
    (unquoted : s.quote = 0) (some_ : s.i ≠ 0) (few : s.args.length < maxargs) (next : isspace c = false) :
    parseRun getenv s = parseRun getenv
      { s with p := c :: rest, i := 0, buf := Function.update s.buf s.i 0, args := s.args ++ [s.text] } := by
  rw [parseRun_cons here, parseStep, state]
  rw [stepStr, if_neg (by simp [charSpace, charBackslash]), if_neg (by decide), if_pos ⟨by decide, unquoted⟩,
    if_pos some_, insert, if_neg (by simpa using few), map_some, bind_some, parseRun_cons (c := c) rfl, parseStep]
  rw [stepWhite, if_neg (by simp [next]), bind_some]
  exact congrArg (parseRun getenv) (by rw [← state]; rfl)

end

variable {args : List Bytes} {rest arg : Bytes} {s : Scan}

theorem parseRun_coded (getenv : Bytes → Option Bytes) (code : UInt8 → Bytes) (quote : UInt8) (arg : Bytes)
    (step : ∀ c ∈ arg, ∀ (s : Scan) (rest : Bytes), s.state = .str → s.quote = quote → s.p = code c ++ rest →
      s.i < parseBufsize - 1 → parseRun getenv s = parseRun getenv { s.put c with p := rest })
    (state : s.state = .str) (quoted : s.quote = quote) (here : s.p = arg.flatMap code ++ rest)
    (room : s.i + arg.length ≤ parseBufsize - 1) :
    ∃ buf, parseRun getenv s = parseRun getenv { s with p := rest, buf, i := s.i + arg.length } ∧
      (range (s.i + arg.length)).map buf = s.taken ++ arg := by
  induction arg generalizing s with
  | nil =>
    refine ⟨s.buf, ?_, by simp [Scan.taken]⟩
    exact congrArg (parseRun getenv) (by rw [← show s.p = rest by simpa using here]; rfl)
  | cons c arg ih =>
    rw [length_cons] at room
    rw [flatMap_cons, append_assoc] at here
    have first := step c mem_cons_self s _ state quoted here (by omega)
    obtain ⟨buf, run, taken⟩ := ih (fun c member => step c (mem_cons_of_mem _ member))
      (s := { s.put c with p := arg.flatMap code ++ rest }) state quoted rfl (by change s.i + 1 + _ ≤ _; omega)
    have count : s.i + (c :: arg).length = s.i + 1 + arg.length := by
      rw [length_cons]
      omega
    have put : Scan.taken { s.put c with p := arg.flatMap code ++ rest } = s.taken ++ [c] := s.taken_put c
    rw [count]
    refine ⟨buf, first.trans run, taken.trans ?_⟩
    rw [put, append_assoc, singleton_append]

private theorem parseRun_cookedChar (getenv : Bytes → Option Bytes) (c : UInt8) (s : Scan) (rest : Bytes)
    (state : s.state = .str) (quoted : s.quote = charQuote) (here : s.p = cookedChar c ++ rest)
    (room : s.i < parseBufsize - 1) :
    parseRun getenv s = parseRun getenv { s.put c with p := rest } := by
  unfold cookedChar at here
  split at here
  next _ => exact parseRun_escaped state here room
  next plain =>
    simp only [not_or] at plain
    exact parseRun_plain state here plain.1 (by simpa using plain.2.1) plain.2.2 (.inr (by rw [quoted]; decide)) room

private theorem parseRun_cookedArg (getenv : Bytes → Option Bytes) (arg : Bytes) (state : s.state = .str)
    (unquoted : s.quote = 0) (empty : s.i = 0) (here : s.p = cookedArg arg ++ rest)
    (room : arg.length ≤ parseBufsize - 1) :
    ∃ buf, parseRun getenv s = parseRun getenv { s with p := rest, buf, i := arg.length } ∧
      (range arg.length).map buf = arg := by
  have inside : s.p = charQuote :: (arg.flatMap cookedChar ++ (charQuote :: rest)) := by
    rw [here, cookedArg, cons_append, append_assoc, singleton_append]
  have quoted : charQuote ≠ 0 := by decide
  have opened := parseRun_quote getenv state inside (by decide)
  rw [if_neg (by simp [unquoted])] at opened
  obtain ⟨buf, run, taken⟩ := parseRun_coded getenv cookedChar charQuote arg (fun c _ => parseRun_cookedChar getenv c)
    (s := { s with quote := charQuote, p := arg.flatMap cookedChar ++ (charQuote :: rest) }) state rfl rfl
    (by dsimp only; omega)
  have closed := parseRun_quote getenv
    (s := { s with quote := charQuote, p := charQuote :: rest, buf, i := s.i + arg.length })
    (c := charQuote) state rfl (by decide)
  rw [if_pos quoted] at closed
  rw [opened, run, closed]
  simp only [empty, Nat.zero_add, Scan.taken, range_zero, map_nil, nil_append] at taken ⊢
  exact ⟨buf, by rw [unquoted], taken⟩

def Quotable (arg : Bytes) : Prop := arg ≠ [] ∧ arg.length ≤ parseBufsize - 1 ∧ 0 ∉ arg

instance (arg : Bytes) : Decidable (Quotable arg) := inferInstanceAs (Decidable (_ ∧ _ ∧ _))

private theorem takeWhile_nonzero (noNul : 0 ∉ arg) : arg.takeWhile (· != 0) = arg := by
  rw [takeWhile_eq_self_iff]
  intro c member
  simp only [bne_iff_ne, ne_eq]
  rintro rfl
  exact noNul member

private theorem parseRun_line (getenv : Bytes → Option Bytes) (heap : Heap) (args : List Bytes)
    (state : s.state = .str) (unquoted : s.quote = 0) (empty : s.i = 0)
    (here : s.p = [charSpace].intercalate (args.map cookedArg)) (quotable : ∀ arg ∈ args, Quotable arg)
    (few : s.args.length + args.length ≤ maxargs) :
    (parseRun getenv s).bind (finish heap) =
      some { argc := (s.args ++ args).length, args := s.args ++ args, last := 0 :: heap.behind } := by
  induction args generalizing s with
  | nil =>
    rw [parseRun_nil (by simpa [intercalate] using here), bind_some, finish, if_neg (by simp [empty])]
    simp
  | cons arg args ih =>
    obtain ⟨nonempty, short, noNul⟩ := quotable arg mem_cons_self
    have length : arg.length ≠ 0 := by simpa using nonempty
    rw [length_cons] at few
    cases args with
    | nil =>
      have only : s.p = cookedArg arg ++ [] := by simpa [intercalate] using here
      obtain ⟨buf, run, taken⟩ := parseRun_cookedArg getenv arg state unquoted empty only short
      rw [run, parseRun_nil rfl, bind_some, finish, if_pos ⟨length, state⟩, insert, if_neg (by dsimp only; omega),
        map_some, Scan.text, taken, takeWhile_nonzero noNul]
    | cons next args =>
      rw [map_cons, map_cons, intercalate_cons_cons, append_assoc, singleton_append,
        ← map_cons] at here
      obtain ⟨buf, run, taken⟩ := parseRun_cookedArg getenv arg state unquoted empty here short
      obtain ⟨tail, line⟩ : ∃ tail, [charSpace].intercalate ((next :: args).map cookedArg) = charQuote :: tail := by
        cases args with
        | nil => exact ⟨_, by simp [intercalate, cookedArg]; rfl⟩
        | cons last args => exact ⟨_, by rw [map_cons, map_cons, intercalate_cons_cons]; rfl⟩
      have blank := parseRun_space getenv (s := { s with p := charSpace :: charQuote :: tail, buf, i := arg.length })
        (c := charQuote) state rfl unquoted length (by dsimp only; omega) (by decide)
      rw [Scan.text] at blank
      rw [taken, takeWhile_nonzero noNul] at blank
      have rest := ih (s := ⟨charQuote :: tail, s.state, s.quote, s.token, Function.update buf arg.length 0, 0,
        s.args ++ [arg]⟩) state unquoted rfl line.symm (fun arg member => quotable arg (mem_cons_of_mem _ member))
        (by simp only [length_append, length_cons, length_nil] at few ⊢; omega)
      rw [run, line, blank, rest]
      simp

private theorem cooked_nonzero (noNul : 0 ∉ arg) : 0 ∉ cookedArg arg := by
  have inner : 0 ∉ arg.flatMap cookedChar := by
    rw [mem_flatMap]
    rintro ⟨_, member, zero⟩
    unfold cookedChar at zero
    split at zero
    · simp only [mem_cons, not_mem_nil, or_false] at zero
      rcases zero with zero | rfl
      · exact absurd zero (by decide)
      · exact noNul member
    · rw [mem_singleton] at zero
      exact noNul (zero ▸ member)
  simp only [cookedArg, mem_cons, mem_append, not_mem_nil, or_false, not_or]
  exact ⟨by decide, inner, by decide⟩

private theorem line_nonzero (noNul : ∀ arg ∈ args, 0 ∉ arg) :
    0 ∉ [charSpace].intercalate (args.map cookedArg) := by
  induction args with
  | nil => simp [intercalate]
  | cons arg args ih =>
    have first := cooked_nonzero (noNul arg mem_cons_self)
    have rest := ih fun arg member => noNul arg (mem_cons_of_mem _ member)
    cases args with
    | nil => simpa [intercalate] using first
    | cons next args =>
      rw [map_cons, map_cons, intercalate_cons_cons, mem_append, mem_append, not_or, not_or]
      exact ⟨⟨first, by decide⟩, rest⟩

theorem parse_commandLine (getenv : Bytes → Option Bytes) (heap : Heap) (few : args.length ≤ 19)
    (quotable : ∀ arg ∈ args, Quotable arg) :
    parse getenv heap (commandLine args) = some { argc := args.length, args, last := 0 :: heap.behind } := by
  have copy := takeWhile_nonzero (line_nonzero fun arg member => (quotable arg member).2.2)
  rw [parse_eq, backslash_commandLine, copy]
  have line := parseRun_line getenv heap args (s := Scan.start heap ([charSpace].intercalate (args.map cookedArg)))
    rfl rfl rfl rfl quotable (by change 0 + args.length ≤ 20; omega)
  simpa [Scan.start] using line

/-- Quoted arguments come back and argv[argc] is NULL exactly if the memory that malloc returned for
argv happens to be zero behind the one byte of the NULL that is copied. -/
theorem parse_commandLine_iff (getenv : Bytes → Option Bytes) (heap : Heap) (args : List Bytes) (few : args.length ≤ 19)
    (quotable : ∀ arg ∈ args, Quotable arg) :
    (∃ argv, parse getenv heap (commandLine args) = some argv ∧ argv.argc = args.length ∧ argv.args = args ∧
      ∀ b ∈ argv.last, b = 0) ↔ ∀ b ∈ heap.behind, b = 0 := by
  rw [parse_commandLine getenv heap few quotable]
  constructor
  · rintro ⟨argv, parsed, -, -, null⟩ b member
    cases parsed
    exact null b (mem_cons_of_mem _ member)
  · intro clean
    refine ⟨_, rfl, rfl, rfl, ?_⟩
    intro b member
    rcases mem_cons.mp member with zero | member
    · exact zero
    · exact clean b member

private def sampleArgs : List Bytes := [[0x73, 0x65, 0x74], [0x61, 0x3d, 0x20, 0x5c, 0x22]]

theorem parse_commandLine_set :
    (sampleArgs.length ≤ 19 ∧ ∀ arg ∈ sampleArgs, Quotable arg) ∧
      ∃ argv, parse (fun _ => none) ⟨fun _ => 0xff, [0, 0, 0]⟩ (commandLine sampleArgs) = some argv ∧ argv.argc = 2 ∧
        argv.args = sampleArgs ∧ ∀ b ∈ argv.last, b = 0 := by
  refine ⟨by decide, ?_⟩
  exact (parse_commandLine_iff _ _ sampleArgs (by decide) (by decide)).mpr (by simp)

/-- With other memory behind it, argv[2] is not NULL. -/
theorem parse_leaves_last_pointer :
    sampleArgs.length ≤ 19 ∧ (∀ arg ∈ sampleArgs, Quotable arg) ∧
      ¬∃ argv, parse (fun _ => none) ⟨fun _ => 0xff, [0xa5, 0, 0]⟩ (commandLine sampleArgs) = some argv ∧
        argv.argc = sampleArgs.length ∧ argv.args = sampleArgs ∧ ∀ b ∈ argv.last, b = 0 := by
  have parsed := parse_commandLine (fun _ => none) ⟨fun _ => 0xff, [0xa5, 0, 0]⟩
    (by decide : sampleArgs.length ≤ 19) (by decide)
  refine ⟨by decide, by decide, ?_⟩
  rintro ⟨argv, same, -, -, null⟩
  cases same
  exact absurd (null 0xa5 (by decide)) (by decide)

end Pcbsd.Interp
