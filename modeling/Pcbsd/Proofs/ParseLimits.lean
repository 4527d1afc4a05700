import Pcbsd.Proofs.CommandLine

/-! The limits of the command-line parser: the buffer of one argument, the vector args and the memory of
argv, for every line and every environment. -/

namespace Pcbsd.Interp
open Lib List Option

/-- What a line consists of, as far as lengths matter: a character of an argument, a variable with the
length of its value, blanks between arguments, a dollar sign that ends the line, and a delimiter without
its counterpart. -/
inductive Piece where
  | char
  | value (length : Nat)
  | blank
  | dangling
  | unclosed
  deriving DecidableEq

section

variable (getenv : Bytes → Option Bytes)

def variableName (token : UInt8) (text : Bytes) : Bytes :=
  text.takeWhile fun c => if token ≠ 0 then c != token else !isspace c

def pieces (quote : UInt8) (text : Bytes) : List Piece :=
  match text with
  | [] => []
  | c :: rest =>
    if c = charBackslash ∧ rest ≠ [] then .char :: pieces quote rest.tail
    else if isquote c then pieces (if quote ≠ 0 then 0 else c) rest
    else if isspace c ∧ quote = 0 then .blank :: pieces quote (rest.dropWhile isspace)
    else if c = charDollar then
      let token := isdelim (rest.headD 0)
      let text := if token ≠ 0 then rest.tail else rest
      if text = [] then [.dangling]
      else if token ≠ 0 ∧ token ∉ text then [.unclosed]
      else
        let name := variableName token text
        .value ((getenv name).elim 0 length) :: pieces quote (text.drop (name.length + if token ≠ 0 then 1 else 0))
    else .char :: pieces quote rest
  termination_by text.length
  decreasing_by
    · exact Nat.lt_succ_of_le (by simp)
    · exact Nat.lt_succ_self _
    · exact Nat.lt_succ_of_le (dropWhile_sublist _).length_le
    · have shorter : text.length ≤ rest.length := by
        dsimp only [text]
        split
        · simp
        · exact le_rfl
      exact Nat.lt_succ_of_le ((drop_sublist _ _).length_le.trans shorter)
    · exact Nat.lt_succ_self _

/-- Whether parse gives up on these pieces, with `i` characters in the buffer and `ac` arguments
inserted: at a character behind 1023 others, at the end of a 21st argument or at a delimiter without its
counterpart, and before that no value is too long for what is left of the buffer. -/
def givesUp : List Piece → Nat → Nat → Bool
  | [], i, ac => i ≠ 0 ∧ maxargs ≤ ac
  | .char :: rest, i, ac => i = parseBufsize - 1 || givesUp rest (i + 1) ac
  | .value length :: rest, i, ac =>
    i + min length (parseBufsize - 1) ≤ parseBufsize - 1 && givesUp rest (i + min length (parseBufsize - 1)) ac
  | .blank :: rest, i, ac => if i = 0 then givesUp rest 0 ac else maxargs ≤ ac || givesUp rest 0 (ac + 1)
  | .dangling :: _, _, _ => false
  | .unclosed :: _, _, _ => true

def lengths : List Piece → Nat → List Nat
  | [], i => if i = 0 then [] else [i]
  | .char :: rest, i => lengths rest (i + 1)
  | .value length :: rest, i => lengths rest (i + length)
  | .blank :: rest, i => if i = 0 then lengths rest 0 else i :: lengths rest 0
  | .dangling :: _, i => [i]
  | .unclosed :: _, i => [i]

inductive Visits : Scan → Scan → Prop
  | here (s : Scan) : Visits s s
  | next {s s' v : Scan} {c : UInt8} {rest : Bytes} (more : s.p = c :: rest) (step : parseStep getenv s c rest = some s')
    (later : Visits s' v) : Visits s v

/-- What malloc is asked for as argv, and what the pointers and the NULL behind them take. -/
def argvSize (lp64 : Bool) (ac : Nat) : Nat := (if lp64 then 8 else 4) * ac + 1
def argvNeeds (lp64 : Bool) (ac : Nat) : Nat := (if lp64 then 8 else 4) * (ac + 1)

/-- parse keeps to its buffers: the index into the token buffer, the index into args (at most MAXARGS are
inserted, and args[ac] is set at the end), the vector that is handed out, and what does not fit is refused. -/
structure Respects (lp64 : Bool) (heap : Heap) (str : Bytes) : Prop where
  index : ∀ v, Visits getenv (Scan.start heap ((backslash str).takeWhile (· != 0))) v → v.i ≤ parseBufsize - 1
  inserted : ∀ v, Visits getenv (Scan.start heap ((backslash str).takeWhile (· != 0))) v → v.args.length ≤ maxargs
  terminated : ∀ argv, parse getenv heap str = some argv → argv.argc < maxargs
  room : ∀ argv, parse getenv heap str = some argv → argvNeeds lp64 argv.argc ≤ argvSize lp64 argv.argc
  null : ∀ argv, parse getenv heap str = some argv → ∀ b ∈ argv.last, b = 0
  refused : (∃ length ∈ lengths (pieces getenv 0 ((backslash str).takeWhile (· != 0))) 0, parseBufsize - 1 < length) ∨
    maxargs < (lengths (pieces getenv 0 ((backslash str).takeWhile (· != 0))) 0).length → parse getenv heap str = none

end

section

variable {getenv : Bytes → Option Bytes} {heap : Heap} {s s' : Scan} {c : UInt8} {rest : Bytes}

structure Refused (getenv : Bytes → Option Bytes) (heap : Heap) (s : Scan) : Prop where
  inside : ∀ v, Visits getenv s v → v.i ≤ parseBufsize - 1 ∧ v.args.length ≤ maxargs
  failed : (parseRun getenv s).bind (finish heap) = none

def Spoiled (getenv : Bytes → Option Bytes) (heap : Heap) (s : Scan) : Prop :=
  (∃ v, Visits getenv s v ∧ parseBufsize - 1 < v.i) ∨ ((parseRun getenv s).bind (finish heap)).isSome

def Settles (getenv : Bytes → Option Bytes) (heap : Heap) (gives : Bool) (s : Scan) : Prop :=
  if gives then Refused getenv heap s else Spoiled getenv heap s

def Scan.Inside (s : Scan) : Prop := s.i ≤ parseBufsize - 1 ∧ s.args.length ≤ maxargs

theorem settles_step {gives : Bool} (inside : s.Inside) (more : s.p = c :: rest)
    (step : parseStep getenv s c rest = some s') (settles : Settles getenv heap gives s') :
    Settles getenv heap gives s := by
  have run : parseRun getenv s = parseRun getenv s' := by rw [parseRun_cons more, step, bind_some]
  cases gives with
  | true =>
    obtain ⟨later, failed⟩ := settles
    refine ⟨fun v visits => ?_, by rw [run]; exact failed⟩
    cases visits with
    | here => exact inside
    | next again stepped visits =>
      obtain ⟨rfl, rfl⟩ := List.cons.inj (more.symm.trans again)
      obtain rfl := some.inj (step.symm.trans stepped)
      exact later v visits
  | false =>
    rcases settles with ⟨v, visits, outside⟩ | ended
    · exact .inl ⟨v, .next more step visits, outside⟩
    · exact .inr (by rw [run]; exact ended)

theorem settles_fail (inside : s.Inside) (more : s.p = c :: rest) (step : parseStep getenv s c rest = none) :
    Settles getenv heap true s := by
  refine ⟨fun v visits => ?_, by rw [parseRun_cons more, step]; rfl⟩
  cases visits with
  | here => exact inside
  | next again stepped visits =>
    obtain ⟨rfl, rfl⟩ := List.cons.inj (more.symm.trans again)
    cases step.symm.trans stepped

theorem settles_outside (outside : parseBufsize - 1 < s.i) : Settles getenv heap false s := .inl ⟨s, .here s, outside⟩

theorem settles_end (inside : s.Inside) (done : s.p = []) (idle : s.state = .str ∨ s.i = 0) :
    Settles getenv heap (givesUp [] s.i s.args.length) s := by
  have run : (parseRun getenv s).bind (finish heap) = finish heap s := by rw [parseRun_nil done, bind_some]
  by_cases full : s.i ≠ 0 ∧ maxargs ≤ s.args.length
  · have gives : givesUp [] s.i s.args.length = true := decide_eq_true full
    have state := idle.resolve_right full.1
    rw [gives]
    refine ⟨fun v visits => ?_, by rw [run, finish, if_pos ⟨full.1, state⟩, insert, if_pos full.2]; rfl⟩
    cases visits with
    | here => exact inside
    | next again => rw [done] at again; cases again
  · have gives : givesUp [] s.i s.args.length = false := decide_eq_false full
    rw [gives]
    refine .inr ?_
    rw [run, finish, isSome_map]
    split
    · rename_i last
      rw [insert, if_neg fun many => full ⟨last.1, many⟩]
      rfl
    · rfl

theorem stepVar_eq (s : Scan) (closed : ¬(s.token ≠ 0 ∧ s.token ∉ s.p)) :
    ∃ s', stepVar getenv s = some s' ∧ s'.state = .str ∧ s'.quote = s.quote ∧ s'.args = s.args ∧
      s'.p = s.p.drop ((variableName s.token s.p).length + if s.token ≠ 0 then 1 else 0) ∧
      s'.i = s.i + min ((getenv (variableName s.token s.p)).elim 0 length) (parseBufsize - 1) := by
  rw [stepVar, if_neg closed, variableName]
  dsimp only
  cases getenv (s.p.takeWhile fun c => if s.token ≠ 0 then c != s.token else !isspace c) with
  | none => exact ⟨_, rfl, rfl, rfl, rfl, rfl, rfl⟩
  | some _ => exact ⟨_, rfl, rfl, rfl, rfl, rfl, rfl⟩

theorem settles_char {ps : List Piece} (inside : s.Inside) (more : s.p = c :: rest)
    (full : s.i = parseBufsize - 1 → parseStep getenv s c rest = none)
    (put : s.i ≠ parseBufsize - 1 → ∃ s', parseStep getenv s c rest = some s' ∧ s'.i = s.i + 1 ∧ s'.args = s.args ∧
      (s'.Inside → Settles getenv heap (givesUp ps s'.i s'.args.length) s')) :
    Settles getenv heap (givesUp (.char :: ps) s.i s.args.length) s := by
  rw [givesUp]
  by_cases last : s.i = parseBufsize - 1
  · rw [decide_eq_true last, Bool.true_or]
    exact settles_fail inside more (full last)
  · obtain ⟨s', step, longer, same, settles⟩ := put last
    rw [decide_eq_false last, Bool.false_or, ← longer, ← same]
    refine settles_step inside more step (settles ⟨?_, same ▸ inside.2⟩)
    have bound := inside.1
    omega

theorem settles_run (s : Scan) (inside : s.Inside) :
    (s.state = .str → Settles getenv heap (givesUp (pieces getenv s.quote s.p) s.i s.args.length) s) ∧
      (s.state = .white → s.i = 0 → Settles getenv heap (givesUp (pieces getenv s.quote (s.p.dropWhile isspace)) s.i s.args.length) s) := by
  induction rounds : s.rounds using Nat.strongRecOn generalizing s with
  | ind rounds ih =>
    subst rounds
    cases more : s.p with
    | nil =>
      refine ⟨fun state => ?_, fun _ empty => ?_⟩
      · rw [pieces]
        exact settles_end inside more (.inl state)
      · rw [dropWhile_nil, pieces]
        exact settles_end inside more (.inr empty)
    | cons c rest =>
      constructor
      · intro state
        have step : parseStep getenv s c rest = stepStr s c rest := by rw [parseStep, state]
        have next {s' : Scan} (stepped : stepStr s c rest = some s') := ih s'.rounds (parseStep_rounds more (step.trans stepped)) s'
        rw [pieces]
        by_cases escaped : c = charBackslash ∧ rest ≠ []
        · rw [if_pos escaped]
          refine settles_char inside more (fun full => ?_) fun free => ?_
          · rw [step, stepStr, if_pos escaped, if_pos full]
          · have stepped : stepStr s c rest = some { s.put (rest.headD 0) with p := rest.tail } := by
              rw [stepStr, if_pos escaped, if_neg free]
            exact ⟨_, step.trans stepped, rfl, rfl, fun within => (next stepped within rfl).1 state⟩
        rw [if_neg escaped]
        by_cases quote : isquote c = true
        · rw [if_pos quote]
          have stepped : stepStr s c rest = some { s with quote := if s.quote ≠ 0 then 0 else c, p := rest } := by
            rw [stepStr, if_neg escaped, if_pos quote]
          exact settles_step inside more (step.trans stepped) ((next stepped inside rfl).1 state)
        rw [if_neg quote]
        by_cases blank : isspace c = true ∧ s.quote = 0
        · rw [if_pos blank, givesUp]
          by_cases empty : s.i = 0
          · have stepped : stepStr s c rest = some { s with state := .white, p := rest } := by
              rw [stepStr, if_neg escaped, if_neg quote, if_pos blank, if_neg (not_not.mpr empty)]
            have settles := (next stepped inside rfl).2 rfl empty
            have zero : givesUp (pieces getenv s.quote (rest.dropWhile isspace)) 0 s.args.length =
                givesUp (pieces getenv s.quote (rest.dropWhile isspace)) s.i s.args.length := by rw [empty]
            rw [if_pos empty, zero]
            exact settles_step inside more (step.trans stepped) settles
          · rw [if_neg empty]
            by_cases many : maxargs ≤ s.args.length
            · rw [decide_eq_true many, Bool.true_or]
              apply settles_fail inside more
              rw [step, stepStr, if_neg escaped, if_neg quote, if_pos blank, if_pos empty, insert, if_pos many]
              rfl
            · rw [decide_eq_false many, Bool.false_or]
              have stepped : ∃ s', stepStr s c rest = some s' ∧ s'.state = .white ∧ s'.p = rest ∧ s'.quote = s.quote ∧ s'.i = 0 ∧
                  s'.args.length = s.args.length + 1 := by
                rw [stepStr, if_neg escaped, if_neg quote, if_pos blank, if_pos empty, insert, if_neg many]
                exact ⟨_, rfl, rfl, rfl, rfl, rfl, by simp⟩
              obtain ⟨s', stepped, white, behind, same, zero, count⟩ := stepped
              have within : s'.Inside := ⟨by omega, by omega⟩
              have settles := (next stepped within rfl).2 white zero
              rw [behind, same, zero, count] at settles
              exact settles_step inside more (step.trans stepped) settles
        rw [if_neg blank]
        by_cases dollar : c = charDollar
        · rw [if_pos dollar]
          dsimp only
          have stepped : stepStr s c rest = some { s with
              token := isdelim (rest.headD 0)
              p := if isdelim (rest.headD 0) ≠ 0 then rest.tail else rest
              state := .var } := by
            rw [stepStr, if_neg escaped, if_neg quote, if_neg blank, if_pos dollar]
          apply settles_step inside more (step.trans stepped)
          have fewer := parseStep_rounds more (step.trans stepped)
          generalize isdelim (rest.headD 0) = token at stepped fewer ⊢
          generalize (if token ≠ 0 then rest.tail else rest) = text at stepped fewer ⊢
          cases behind : text with
          | nil =>
            rw [if_pos rfl, givesUp]
            refine .inr ?_
            rw [parseRun_nil rfl, bind_some, finish, if_neg fun both => State.noConfusion both.2]
            rfl
          | cons d later =>
            rw [if_neg (cons_ne_nil _ _)]
            rw [behind] at fewer
            by_cases unclosed : token ≠ 0 ∧ token ∉ d :: later
            · rw [if_pos unclosed, givesUp]
              exact @settles_fail getenv heap { s with token, p := d :: later, state := .var } d later inside rfl (if_pos unclosed)
            · rw [if_neg unclosed, givesUp]
              obtain ⟨s', took, str, same, args, onward, index⟩ :=
                @stepVar_eq getenv { s with token, p := d :: later, state := .var } unclosed
              have less := @parseStep_rounds getenv later { s with token, p := d :: later, state := .var } d s' rfl took
              apply @settles_step getenv heap { s with token, p := d :: later, state := .var } s' d later _ inside rfl took
              by_cases fits : s.i + min ((getenv (variableName token (d :: later))).elim 0 length)
                (parseBufsize - 1) ≤ parseBufsize - 1
              · rw [decide_eq_true fits, Bool.true_and, ← index, ← onward, ← args, ← same]
                exact (ih s'.rounds (less.trans fewer) s' ⟨index ▸ fits, args ▸ inside.2⟩ rfl).1 str
              · rw [decide_eq_false fits, Bool.false_and]
                exact settles_outside (index ▸ Nat.lt_of_not_le fits)
        · rw [if_neg dollar]
          refine settles_char inside more (fun full => ?_) fun free => ?_
          · rw [step, stepStr, if_neg escaped, if_neg quote, if_neg blank, if_neg dollar, if_pos full]
          · have stepped : stepStr s c rest = some { s.put c with p := rest } := by
              rw [stepStr, if_neg escaped, if_neg quote, if_neg blank, if_neg dollar, if_neg free]
            exact ⟨_, step.trans stepped, rfl, rfl, fun within => (next stepped within rfl).1 state⟩
      · intro state empty
        have step : parseStep getenv s c rest = stepWhite s c rest := by rw [parseStep, state]
        by_cases blank : isspace c = true
        · have stepped : stepWhite s c rest = some { s with p := rest } := by rw [stepWhite, if_pos blank]
          have settles := (ih _ (parseStep_rounds more (step.trans stepped)) { s with p := rest } inside rfl).2 state empty
          rw [dropWhile_cons_of_pos blank]
          exact settles_step inside more (step.trans stepped) settles
        · have stepped : stepWhite s c rest = some { s with state := .str } := by rw [stepWhite, if_neg blank]
          have settles := (ih _ (parseStep_rounds more (step.trans stepped)) { s with state := .str } inside rfl).1 rfl
          rw [dropWhile_cons_of_neg (by simpa using blank), ← more]
          exact settles_step inside more (step.trans stepped) settles

end

section

variable (getenv : Bytes → Option Bytes) (lp64 : Bool) (heap : Heap) (str : Bytes)

theorem argvNeeds_gt (ac : Nat) : argvSize lp64 ac < argvNeeds lp64 ac := by
  cases lp64 <;> simp [argvSize, argvNeeds] <;> omega

/-- The limits are kept exactly on the lines that parse gives up before a value has run over its buffer. -/
theorem parse_respects_iff :
    Respects getenv lp64 heap str ↔ givesUp (pieces getenv 0 ((backslash str).takeWhile (· != 0))) 0 0 = true := by
  have settles := (@settles_run getenv heap (Scan.start heap ((backslash str).takeWhile (· != 0))) ⟨Nat.zero_le _,
    Nat.zero_le _⟩).1 rfl
  have run := @parse_eq getenv heap str
  dsimp only [Scan.start] at settles
  rw [length_nil] at settles
  cases gives : givesUp (pieces getenv 0 ((backslash str).takeWhile (· != 0))) 0 0 with
  | true =>
    rw [gives] at settles
    obtain ⟨inside, failed⟩ := settles
    have none : parse getenv heap str = none := run.trans failed
    refine ⟨fun _ => rfl, fun _ =>
      ⟨fun v visits => (inside v visits).1, fun v visits => (inside v visits).2, ?_, ?_, ?_, fun _ => none⟩⟩ <;>
    · intro argv parsed
      rw [none] at parsed
      cases parsed
  | false =>
    rw [gives] at settles
    refine ⟨fun respects => ?_, fun never => Bool.noConfusion never⟩
    rcases settles with ⟨v, visits, outside⟩ | ended
    · exact absurd (respects.index v visits) (Nat.not_le.mpr outside)
    · obtain ⟨argv, parsed⟩ := isSome_iff_exists.mp ended
      exact absurd (respects.room argv (run.trans parsed)) (Nat.not_le.mpr (argvNeeds_gt lp64 _))

end

/-- The line "ls" on a 64-bit machine: there are 9 bytes for two pointers. -/
theorem parse_ls_short : ¬Respects (fun _ => none) true ⟨fun _ => 0xff, [0, 0, 0, 0, 0, 0, 0]⟩ [0x6c, 0x73] := by
  intro respects
  have parsed : parse (fun _ => none) ⟨fun _ => 0xff, [0, 0, 0, 0, 0, 0, 0]⟩ [0x6c, 0x73] =
      some ⟨1, [[0x6c, 0x73]], [0, 0, 0, 0, 0, 0, 0, 0]⟩ := by decide
  exact absurd (respects.room _ parsed) (by decide)

end Pcbsd.Interp
