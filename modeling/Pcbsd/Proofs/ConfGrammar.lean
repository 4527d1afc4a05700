import Pcbsd.Proofs.ConfEnvironment

/-! The language of the lines of a configuration file, and what get_assignment accepts. -/

namespace Pcbsd.Forth
open Lib List Option

def Blank (s : Bytes) : Prop := ∀ c ∈ s, isSpace c = true

inductive QuotedText : Bytes → Prop
  | nil : QuotedText []
  | plain {c : UInt8} {text : Bytes} (noQuote : c ≠ charQuote) (noBackslash : c ≠ charBackslash) (rest : QuotedText text) :
    QuotedText (c :: text)
  | escaped (c : UInt8) {text : Bytes} (rest : QuotedText text) : QuotedText (charBackslash :: c :: text)

def IsValue (value : Bytes) : Prop :=
  (∃ text, QuotedText text ∧ value = quoted text) ∨
    ∃ c rest, value = c :: rest ∧ (isLetter c = true ∨ isDigit c = true) ∧ ∀ d ∈ rest, isNameChar d = true

def IsComment (s : Bytes) : Prop := s = [] ∨ s.head? = some charComment

def IsAssignment (s : Bytes) : Prop :=
  ∃ name sp₁ sp₂ value sp₃, s = name ++ (sp₁ ++ (charAssign :: (sp₂ ++ (value ++ sp₃)))) ∧
    IsName name ∧ Blank sp₁ ∧ Blank sp₂ ∧ IsValue value ∧ Blank sp₃

def IsLine (line : Bytes) : Prop :=
  ∃ sp s comment, line = sp ++ (s ++ comment) ∧ Blank sp ∧ (s = [] ∨ IsAssignment s) ∧ IsComment comment

inductive Loop (past : UInt8) : Parser → Option Parser → Prop
  | done {p : Parser} (ended : p.rest = []) : Loop past p (some p)
  | failed {p : Parser} (more : p.rest ≠ []) (step : p.step past = none) : Loop past p none
  | next {p q : Parser} {result : Option Parser} (more : p.rest ≠ []) (step : p.step past = some q) (later : Loop past q result) :
    Loop past p result

def Parsing.Final (fn : Parsing) : Prop := fn = .comment ∨ fn = .whiteSpace1 ∨ fn = .whiteSpace4

section

variable {past : UInt8} {p q : Parser}

def Parsing.rank : Parsing → Nat
  | .whiteSpace1 => 7
  | .variableName => 6
  | .whiteSpace2 => 5
  | .assignmentSign => 4
  | .whiteSpace3 => 3
  | .variableValue => 2
  | .whiteSpace4 => 1
  | .comment => 0

theorem step_rank (step : p.step past = some q) : q.rest = [] ∨ q.fn.rank < p.fn.rank := by
  obtain ⟨fn, rest, _, _⟩ := p
  cases fn with
  | whiteSpace1 =>
    simp only [Parser.step] at step
    split at step
    · cases step; exact .inr (by simp [Parsing.rank])
    · split at step
      · cases step; exact .inr (by simp [Parsing.rank])
      · split at step
        · cases step
        · rename_i empty
          cases step
          exact .inl (not_not.mp empty)
  | variableName => cases step; exact .inr (by simp [Parsing.rank])
  | whiteSpace2 =>
    simp only [Parser.step] at step
    split at step
    · cases step; exact .inr (by simp [Parsing.rank])
    · cases step
  | assignmentSign => cases step; exact .inr (by simp [Parsing.rank])
  | whiteSpace3 =>
    simp only [Parser.step] at step
    split at step
    · cases step; exact .inr (by simp [Parsing.rank])
    · cases step
  | variableValue =>
    obtain ⟨_, -, rfl⟩ := map_eq_some_iff.mp step
    exact .inr (by simp [Parsing.rank])
  | whiteSpace4 =>
    simp only [Parser.step] at step
    split at step
    · cases step; exact .inr (by simp [Parsing.rank])
    · split at step
      · cases step
      · rename_i empty
        cases step
        exact .inl (not_not.mp empty)
  | comment => cases step; exact .inl rfl

theorem run_loop {fuel : Nat} (enough : p.rest = [] ∨ p.fn.rank < fuel) : Loop past p (Parser.run past fuel p) := by
  induction fuel generalizing p with
  | zero => exact .done (enough.resolve_right (Nat.not_lt_zero _))
  | succ fuel ih =>
    rw [Parser.run]
    by_cases ended : p.rest = []
    · rw [if_pos ended]
      exact .done ended
    · rw [if_neg ended]
      cases step : p.step past with
      | none => exact .failed ended step
      | some _ =>
        refine .next ended step (ih ((step_rank step).imp_right fun less => ?_))
        have bound := enough.resolve_left ended
        omega

theorem Loop.unique {result result' : Option Parser} (first : Loop past p result) (second : Loop past p result') :
    result = result' := by
  induction first with
  | done ended =>
    cases second with
    | done => rfl
    | failed more => exact absurd ended more
    | next more => exact absurd ended more
  | failed more step =>
    cases second with
    | done ended => exact absurd ended more
    | failed => rfl
    | next _ step' => rw [step] at step'; cases step'
  | next more step _ ih =>
    cases second with
    | done ended => exact absurd ended more
    | failed _ step' => rw [step] at step'; cases step'
    | next _ step' later =>
      cases step.symm.trans step'
      exact ih later

def Accepts (past : UInt8) (p : Parser) : Prop := ∃ q, Loop past p (some q) ∧ q.fn.Final

theorem accepts_done (ended : p.rest = []) : Accepts past p ↔ p.fn.Final := by
  constructor
  · rintro ⟨_, loop, final⟩
    cases loop.unique (.done ended)
    exact final
  · exact fun final => ⟨p, .done ended, final⟩

theorem accepts_step (more : p.rest ≠ []) : Accepts past p ↔ ∃ q, p.step past = some q ∧ Accepts past q := by
  constructor
  · rintro ⟨q, loop, final⟩
    cases loop with
    | done ended => exact absurd ended more
    | next _ step later => exact ⟨_, step, q, later, final⟩
  · rintro ⟨q, step, r, later, final⟩
    exact ⟨r, .next more step later, final⟩

variable {s t : Bytes} {c : UInt8}

def IsTail (s : Bytes) : Prop := ∃ sp comment, s = sp ++ comment ∧ Blank sp ∧ IsComment comment

def IsValued (s : Bytes) : Prop := ∃ sp value tail, s = sp ++ (value ++ tail) ∧ Blank sp ∧ IsValue value ∧ IsTail tail

def IsSigned (s : Bytes) : Prop := ∃ sp tail, s = sp ++ charAssign :: tail ∧ Blank sp ∧ IsValued tail

def IsNamed (s : Bytes) : Prop := ∃ name tail, s = name ++ tail ∧ IsName name ∧ IsSigned tail

theorem blank_takeWhile (s : Bytes) : Blank (s.takeWhile isSpace) := fun _ member => mem_takeWhile_imp member

theorem blank_eatSpace (s : Bytes) : s.takeWhile isSpace ++ eatSpace s = s := takeWhile_append_dropWhile

theorem eatSpace_append (blank : Blank s) (t : Bytes) : eatSpace (s ++ t) = eatSpace t := dropWhile_append_of_pos blank

theorem eatSpace_blank (blank : Blank s) : eatSpace s = [] := dropWhile_eq_nil_iff.mpr blank

theorem charComment_not_space : isSpace charComment = false := by decide

theorem IsComment.eatSpace (comment : IsComment s) : eatSpace s = s := by
  rcases comment with rfl | head
  · rfl
  · obtain ⟨rest, rfl⟩ := head?_eq_some_iff.mp head
    exact eatSpace_cons charComment_not_space rest

theorem isTail_iff : IsTail s ↔ IsComment (eatSpace s) := by
  constructor
  · rintro ⟨_, comment, rfl, blank, isComment⟩
    rw [eatSpace_append blank, isComment.eatSpace]
    exact isComment
  · exact fun comment => ⟨_, _, (blank_eatSpace s).symm, blank_takeWhile s, comment⟩

theorem accepts_comment (fn : p.fn = .comment) : Accepts past p := by
  by_cases ended : p.rest = []
  · exact (accepts_done ended).mpr (.inl fn)
  · rw [accepts_step ended, Parser.step, fn]
    exact ⟨_, rfl, (accepts_done rfl).mpr (.inl rfl)⟩

theorem accepts_whiteSpace4 (fn : p.fn = .whiteSpace4) : Accepts past p ↔ IsTail p.rest := by
  by_cases ended : p.rest = []
  · rw [accepts_done ended, isTail_iff, ended]
    exact ⟨fun _ => .inl rfl, fun _ => .inr (.inr fn)⟩
  · rw [accepts_step ended, Parser.step, fn, isTail_iff]
    by_cases comment : (eatSpace p.rest).headD past = charComment
    · rw [if_pos comment]
      refine ⟨fun _ => ?_, fun _ => ⟨_, rfl, accepts_comment rfl⟩⟩
      cases eaten : eatSpace p.rest with
      | nil => exact .inl rfl
      | cons _ rest =>
        rw [eaten] at comment
        exact .inr (congrArg some comment)
    · rw [if_neg comment]
      by_cases empty : eatSpace p.rest = []
      · rw [if_neg (not_not.mpr empty)]
        exact ⟨fun _ => .inl empty, fun _ => ⟨_, rfl, (accepts_done empty).mpr (.inr (.inr rfl))⟩⟩
      · rw [if_pos empty]
        refine ⟨?_, fun isComment => absurd ?_ comment⟩
        · rintro ⟨_, none, -⟩
          cases none
        · rcases isComment with none | head
          · exact absurd none empty
          · rw [headD_eq_head?_getD, head, getD_some]

theorem scanQuote_iff {text rest : Bytes} :
    scanQuote s = some (text, rest) ↔ ∃ body, QuotedText body ∧ s = body ++ charQuote :: rest ∧
    text = body ++ [charQuote] := by
  induction size : s.length using Nat.strongRecOn generalizing s text with
  | ind size ih =>
    subst size
    constructor
    · intro scanned
      cases s with
      | nil => rw [scanQuote] at scanned; cases scanned
      | cons c s =>
        rw [scanQuote.eq_def] at scanned
        dsimp only at scanned
        by_cases quote : c = charQuote
        · rw [if_pos quote] at scanned
          cases scanned
          exact ⟨[], .nil, by rw [quote]; rfl, by rw [quote]; rfl⟩
        rw [if_neg quote] at scanned
        by_cases backslash : c = charBackslash
        · rw [if_pos backslash] at scanned
          cases s with
          | nil => cases scanned
          | cons d s =>
            obtain ⟨⟨text', rest'⟩, later, same⟩ := map_eq_some_iff.mp scanned
            cases same
            obtain ⟨body, quoted, rfl, rfl⟩ := (ih s.length (by rw [length_cons, length_cons]; omega) rfl).mp later
            exact ⟨charBackslash :: d :: body, .escaped d quoted, by rw [backslash]; rfl, by rw [backslash]; rfl⟩
        · rw [if_neg backslash] at scanned
          obtain ⟨⟨text', rest'⟩, later, same⟩ := map_eq_some_iff.mp scanned
          cases same
          obtain ⟨body, quoted, rfl, rfl⟩ := (ih s.length (by simp) rfl).mp later
          exact ⟨c :: body, .plain quote backslash quoted, rfl, rfl⟩
    · rintro ⟨body, quoted, rfl, rfl⟩
      cases quoted with
      | nil => rw [scanQuote.eq_def]; exact if_pos rfl
      | @plain c body noQuote noBackslash quoted =>
        have later := (ih _ (by simp) rfl).mpr ⟨body, quoted, rfl, rfl⟩
        rw [cons_append, scanQuote.eq_def]
        dsimp only
        rw [if_neg noQuote, if_neg noBackslash, later]
        rfl
      | @escaped c body quoted =>
        have later := (ih _ (by simp only [cons_append, length_cons]; omega) rfl).mpr ⟨body, quoted, rfl, rfl⟩
        rw [cons_append, cons_append, scanQuote.eq_def]
        dsimp only
        rw [if_neg (by decide), if_pos rfl, later]
        rfl

theorem space_not_nameChar (space : isSpace c = true) : isNameChar c = false := by
  have either : c = bl ∨ c = tab := by simpa [isSpace] using space
  rcases either with rfl | rfl <;> decide

/-- A name is not longer than its characters: what follows blanks, or a character that is not one of a
name, stops it. -/
theorem dropWhile_blank {sp : Bytes} (blank : Blank sp) (stops : t.dropWhile isNameChar = t) :
    (sp ++ t).dropWhile isNameChar = sp ++ t :=
    by
  cases sp with
  | nil => exact stops
  | cons c sp => rw [cons_append, dropWhile_cons_of_neg (by simp [space_not_nameChar (blank c mem_cons_self)])]

theorem IsTail.stops (tail : IsTail s) : s.dropWhile isNameChar = s := by
  obtain ⟨_, _, rfl, blank, isComment⟩ := tail
  refine dropWhile_blank blank ?_
  rcases isComment with rfl | head
  · rfl
  · obtain ⟨_, rfl⟩ := head?_eq_some_iff.mp head
    exact dropWhile_cons_of_neg (by decide)

theorem IsSigned.stops (signed : IsSigned s) : s.dropWhile isNameChar = s := by
  obtain ⟨_, _, rfl, blank, -⟩ := signed
  exact dropWhile_blank blank (dropWhile_cons_of_neg (by decide))

theorem nameChar_of_first (first : isLetter c = true ∨ isDigit c = true) : isNameChar c = true := by
  rcases first with letter | digit
  · rw [isNameChar, letter]; rfl
  · rw [isNameChar, digit, Bool.or_true]; rfl

theorem first_not_quote (first : isLetter c = true ∨ isDigit c = true) : c ≠ charQuote := by
  rintro rfl
  exact absurd first (by decide)

theorem accepts_quoted (fn : p.fn = .variableValue) (head : p.rest = charQuote :: s) :
    Accepts past p ↔ ∃ value tail, p.rest = value ++ tail ∧ IsValue value ∧ IsTail tail := by
  have more : p.rest ≠ [] := by rw [head]; exact cons_ne_nil _ _
  have step : p.step past = (scanQuote s).map fun taken =>
      { p with rest := taken.2, value := removeBackslashes (charQuote :: taken.1), fn := .whiteSpace4 } := by
    rw [Parser.step, fn, head, readValue, head?_cons, if_pos rfl, parseQuote, tail_cons, Option.map_map]
    rfl
  rw [accepts_step more, step]
  constructor
  · rintro ⟨_, taken, accepted⟩
    obtain ⟨⟨text, rest⟩, scanned, rfl⟩ := map_eq_some_iff.mp taken
    obtain ⟨body, quotedText, rfl, -⟩ := scanQuote_iff.mp scanned
    refine ⟨quoted body, rest, ?_, .inl ⟨body, quotedText, rfl⟩, (accepts_whiteSpace4 rfl).mp accepted⟩
    rw [head, quoted, cons_append, append_assoc]
    rfl
  · rintro ⟨value, tail, whole, isValue, isTail⟩
    rw [head] at whole
    rcases isValue with ⟨text, quotedText, rfl⟩ | ⟨_, rest, rfl, first, -⟩
    · have scanned : scanQuote s = some (text ++ [charQuote], tail) := by
        refine scanQuote_iff.mpr ⟨text, quotedText, ?_, rfl⟩
        rw [quoted, cons_append, List.cons.injEq, append_assoc] at whole
        exact whole.2
      rw [scanned]
      exact ⟨_, rfl, (accepts_whiteSpace4 rfl).mpr isTail⟩
    · rw [cons_append, List.cons.injEq] at whole
      exact absurd whole.1.symm (first_not_quote first)

theorem accepts_plain (fn : p.fn = .variableValue) (head : p.rest = c :: s)
    (first : isLetter c = true ∨ isDigit c = true) :
    Accepts past p ↔ ∃ value tail, p.rest = value ++ tail ∧ IsValue value ∧ IsTail tail := by
  have more : p.rest ≠ [] := by rw [head]; exact cons_ne_nil _ _
  have step : p.step past = some { p with
      rest := p.rest.dropWhile isNameChar
      value := p.rest.takeWhile isNameChar
      fn := .whiteSpace4 } := by
    rw [Parser.step, fn, head, readValue, head?_cons, if_neg fun same => first_not_quote first (some.inj same)]
    rfl
  rw [accepts_step more, step]
  constructor
  · rintro ⟨_, same, accepted⟩
    cases same
    refine ⟨_, _, takeWhile_append_dropWhile.symm, .inr ⟨c, s.takeWhile isNameChar, ?_, first, fun d member =>
      mem_takeWhile_imp member⟩, (accepts_whiteSpace4 rfl).mp accepted⟩
    rw [head, takeWhile_cons_of_pos (nameChar_of_first first)]
  · rintro ⟨value, tail, whole, isValue, isTail⟩
    refine ⟨_, rfl, (accepts_whiteSpace4 rfl).mpr ?_⟩
    rcases isValue with ⟨_, -, rfl⟩ | ⟨d, rest, rfl, firstValue, all⟩
    · rw [head, quoted, cons_append, List.cons.injEq] at whole
      exact absurd whole.1 (first_not_quote first)
    · have named : ∀ e ∈ d :: rest, isNameChar e = true := by
        intro e member
        rcases mem_cons.mp member with rfl | later
        · exact nameChar_of_first firstValue
        · exact all e later
      rw [whole, dropWhile_append_of_pos named, isTail.stops]
      exact isTail

theorem first_not_space (first : isLetter c = true ∨ isDigit c = true) : isSpace c = false := by
  cases space : isSpace c with
  | false => rfl
  | true =>
    have never := nameChar_of_first first
    rw [space_not_nameChar space] at never
    cases never

theorem IsValue.eatSpace {value : Bytes} (isValue : IsValue value) (t : Bytes) :
    Forth.eatSpace (value ++ t) = value ++ t := by
  rcases isValue with ⟨_, -, rfl⟩ | ⟨_, _, rfl, first, -⟩
  · exact eatSpace_cons (by decide) _
  · exact eatSpace_cons (first_not_space first) _

theorem isValued_iff : IsValued s ↔ ∃ value tail, eatSpace s = value ++ tail ∧ IsValue value ∧ IsTail tail := by
  constructor
  · rintro ⟨_, value, tail, rfl, blank, isValue, isTail⟩
    exact ⟨value, tail, by rw [eatSpace_append blank, isValue.eatSpace], isValue, isTail⟩
  · rintro ⟨value, tail, eaten, isValue, isTail⟩
    exact ⟨_, value, tail, by rw [← eaten, blank_eatSpace], blank_takeWhile s, isValue, isTail⟩

theorem accepts_whiteSpace3 (fn : p.fn = .whiteSpace3) : Accepts past p ↔ IsValued p.rest := by
  rw [isValued_iff]
  have nothing (none : eatSpace p.rest = []) : ¬∃ value tail, eatSpace p.rest = value ++ tail ∧ IsValue value ∧
    IsTail tail := by
    rintro ⟨value, tail, whole, isValue, -⟩
    rw [none] at whole
    obtain ⟨rfl, rfl⟩ := append_eq_nil_iff.mp whole.symm
    rcases isValue with ⟨text, -, same⟩ | ⟨c, rest, same, -⟩
    · cases same
    · cases same
  by_cases ended : p.rest = []
  · rw [accepts_done ended, fn]
    refine ⟨fun final => ?_, fun valued => absurd valued (nothing (by rw [ended]; rfl))⟩
    rcases final with final | final | final <;> cases final
  · rw [accepts_step ended, Parser.step, fn]
    by_cases first : (isLetter ((eatSpace p.rest).headD past) || isDigit ((eatSpace p.rest).headD past) ||
        (eatSpace p.rest).headD past == charQuote) = true
    · rw [if_pos first]
      have next : (∃ q, some { p with rest := eatSpace p.rest, fn := .variableValue } = some q ∧ Accepts past q) ↔
          Accepts past { p with rest := eatSpace p.rest, fn := .variableValue } :=
        ⟨by rintro ⟨q, same, accepted⟩; cases same; exact accepted, fun accepted => ⟨_, rfl, accepted⟩⟩
      rw [next]
      cases eaten : eatSpace p.rest with
      | nil =>
        rw [accepts_done rfl]
        refine ⟨fun final => ?_, fun valued => absurd (eaten ▸ valued) (nothing eaten)⟩
        rcases final with final | final | final <;> cases final
      | cons c rest =>
        rw [eaten] at first
        by_cases quote : c = charQuote
        · exact accepts_quoted rfl (by rw [quote])
        · refine accepts_plain rfl rfl ?_
          simpa [quote] using first
    · rw [if_neg first]
      refine ⟨?_, ?_⟩
      · rintro ⟨q, none, -⟩
        cases none
      · rintro ⟨value, tail, whole, isValue, -⟩
        refine absurd ?_ first
        rw [whole]
        rcases isValue with ⟨text, -, rfl⟩ | ⟨c, rest, rfl, letter | digit, -⟩
        · simp [quoted]
        · simp [letter]
        · simp [digit]

theorem isSigned_iff : IsSigned s ↔ ∃ tail, eatSpace s = charAssign :: tail ∧ IsValued tail := by
  constructor
  · rintro ⟨_, tail, rfl, blank, valued⟩
    exact ⟨tail, by rw [eatSpace_append blank, eatSpace_cons (by decide)], valued⟩
  · rintro ⟨tail, eaten, valued⟩
    exact ⟨_, tail, by rw [← eaten, blank_eatSpace], blank_takeWhile s, valued⟩

theorem accepts_assignmentSign (fn : p.fn = .assignmentSign) (head : p.rest = charAssign :: s) :
    Accepts past p ↔ IsValued s := by
  have more : p.rest ≠ [] := by rw [head]; exact cons_ne_nil _ _
  have step : p.step past = some { p with rest := s, fn := .whiteSpace3 } := by
    rw [Parser.step, fn, head, tail_cons]
  rw [accepts_step more, step]
  constructor
  · rintro ⟨_, same, accepted⟩
    cases same
    exact (accepts_whiteSpace3 rfl).mp accepted
  · exact fun valued => ⟨_, rfl, (accepts_whiteSpace3 rfl).mpr valued⟩

theorem accepts_whiteSpace2 (fn : p.fn = .whiteSpace2) : Accepts past p ↔ IsSigned p.rest := by
  rw [isSigned_iff]
  by_cases ended : p.rest = []
  · rw [accepts_done ended, fn, ended]
    constructor
    · intro final
      rcases final with final | final | final <;> cases final
    · rintro ⟨tail, none, -⟩
      cases none
  · rw [accepts_step ended, Parser.step, fn]
    by_cases sign : (eatSpace p.rest).headD past = charAssign
    · rw [if_pos sign]
      cases eaten : eatSpace p.rest with
      | nil =>
        constructor
        · rintro ⟨q, same, accepted⟩
          cases same
          rcases (accepts_done rfl).mp accepted with final | final | final <;> cases final
        · rintro ⟨tail, none, -⟩
          cases none
      | cons c rest =>
        rw [eaten] at sign
        obtain rfl : c = charAssign := sign
        constructor
        · rintro ⟨q, same, accepted⟩
          cases same
          exact ⟨rest, rfl, (accepts_assignmentSign rfl rfl).mp accepted⟩
        · rintro ⟨tail, same, valued⟩
          cases same
          exact ⟨_, rfl, (accepts_assignmentSign rfl rfl).mpr valued⟩
    · rw [if_neg sign]
      constructor
      · rintro ⟨q, none, -⟩
        cases none
      · rintro ⟨tail, eaten, -⟩
        rw [eaten] at sign
        exact absurd rfl sign

theorem accepts_variableName (fn : p.fn = .variableName) (head : p.rest = c :: s) (letter : isLetter c = true) :
    Accepts past p ↔ IsNamed p.rest := by
  have more : p.rest ≠ [] := by rw [head]; exact cons_ne_nil _ _
  have step : p.step past = some { p with
      rest := p.rest.dropWhile isNameChar
      name := p.rest.takeWhile isNameChar
      fn := .whiteSpace2 } := by
    rw [Parser.step, fn]
    rfl
  rw [accepts_step more, step]
  constructor
  · rintro ⟨_, same, accepted⟩
    cases same
    refine ⟨_, _, takeWhile_append_dropWhile.symm, ⟨⟨c, ?_, letter⟩, fun d member => mem_takeWhile_imp member⟩,
      (accepts_whiteSpace2 rfl).mp accepted⟩
    rw [head, takeWhile_cons_of_pos (nameChar_of_first (.inl letter)), head?_cons]
  · rintro ⟨name, _, whole, named, signed⟩
    refine ⟨_, rfl, (accepts_whiteSpace2 rfl).mpr ?_⟩
    rw [whole, dropWhile_append_of_pos named.2, signed.stops]
    exact signed

theorem IsNamed.head (named : IsNamed s) : ∃ c rest, s = c :: rest ∧ isLetter c = true := by
  obtain ⟨_, tail, rfl, ⟨⟨c, first, letter⟩, -⟩, -⟩ := named
  obtain ⟨rest, rfl⟩ := head?_eq_some_iff.mp first
  exact ⟨c, rest ++ tail, rfl, letter⟩

/-- A line that is not only blanks is accepted if a comment or an assignment follows the blanks; one that
is only blanks is accepted unless a letter stands behind it in memory. -/
theorem accepts_whiteSpace1 (fn : p.fn = .whiteSpace1) :
    Accepts past p ↔ p.rest = [] ∨ eatSpace p.rest = [] ∧ ¬isLetter past = true ∨
      (eatSpace p.rest).head? = some charComment ∨ IsNamed (eatSpace p.rest) := by
  by_cases ended : p.rest = []
  · exact ⟨fun _ => .inl ended, fun _ => (accepts_done ended).mpr (.inr (.inl fn))⟩
  rw [accepts_step ended, Parser.step, fn]
  cases eaten : eatSpace p.rest with
  | nil =>
    have unnamed : ¬IsNamed [] := fun named => by
      obtain ⟨c, rest, none, -⟩ := named.head
      cases none
    rw [headD_nil]
    by_cases letter : isLetter past = true
    · rw [if_pos letter]
      constructor
      · rintro ⟨q, same, accepted⟩
        cases same
        rcases (accepts_done rfl).mp accepted with final | final | final <;> cases final
      · rintro (none | ⟨-, other⟩ | none | named)
        · exact absurd none ended
        · exact absurd letter other
        · cases none
        · exact absurd named unnamed
    · rw [if_neg letter]
      refine ⟨fun _ => .inr (.inl ⟨rfl, letter⟩), fun _ => ?_⟩
      by_cases comment : past = charComment
      · rw [if_pos comment]
        exact ⟨_, rfl, accepts_comment rfl⟩
      · rw [if_neg comment, if_neg (not_not.mpr rfl)]
        exact ⟨_, rfl, (accepts_done rfl).mpr (.inr (.inl rfl))⟩
  | cons c rest =>
    rw [headD_cons, head?_cons]
    by_cases letter : isLetter c = true
    · rw [if_pos letter]
      constructor
      · rintro ⟨q, same, accepted⟩
        cases same
        exact .inr (.inr (.inr ((accepts_variableName rfl rfl letter).mp accepted)))
      · rintro (none | ⟨none, -⟩ | comment | named)
        · exact absurd none ended
        · cases none
        · cases comment
          exact absurd letter (by decide)
        · exact ⟨_, rfl, (accepts_variableName rfl rfl letter).mpr named⟩
    · rw [if_neg letter]
      by_cases comment : c = charComment
      · rw [if_pos comment]
        exact ⟨fun _ => .inr (.inr (.inl (congrArg some comment))), fun _ => ⟨_, rfl, accepts_comment rfl⟩⟩
      · rw [if_neg comment, if_pos (cons_ne_nil _ _)]
        constructor
        · rintro ⟨q, none, -⟩
          cases none
        · rintro (none | ⟨none, -⟩ | same | named)
          · exact absurd none ended
          · cases none
          · exact absurd (some.inj same) comment
          · obtain ⟨_, _, same, first⟩ := named.head
            cases same
            exact absurd first letter

theorem isLine_iff : IsLine s ↔ eatSpace s = [] ∨ (eatSpace s).head? = some charComment ∨ IsNamed (eatSpace s) := by
  constructor
  · rintro ⟨_, _, comment, rfl, blank, none | assigned, isComment⟩
    · rw [none, nil_append, eatSpace_append blank, isComment.eatSpace]
      exact isComment.imp_right .inl
    · obtain ⟨name, sp₁, sp₂, value, sp₃, rfl, named, blank₁, blank₂, isValue, blank₃⟩ := assigned
      have isNamed : IsNamed (name ++ (sp₁ ++ charAssign :: (sp₂ ++ (value ++ (sp₃ ++ comment))))) :=
        ⟨name, _, rfl, named, sp₁, _, rfl, blank₁, sp₂, value, _, rfl, blank₂, isValue, sp₃, comment, rfl,
          blank₃, isComment⟩
      obtain ⟨_, _, head, letter⟩ := isNamed.head
      right
      right
      rw [eatSpace_append blank]
      simp only [append_assoc, cons_append]
      rw [head, eatSpace_cons (letter_not_space letter), ← head]
      exact isNamed
  · rintro (none | comment | named)
    · exact ⟨s, [], [], by simp, dropWhile_eq_nil_iff.mp none, .inl rfl, .inl rfl⟩
    · exact ⟨_, [], eatSpace s, (blank_eatSpace s).symm, blank_takeWhile s, .inl rfl, .inr comment⟩
    · obtain ⟨name, _, whole, isName, sp₁, _, rfl, blank₁, sp₂, value, _, rfl, blank₂, isValue, sp₃, comment, rfl,
        blank₃, isComment⟩ :=
        named
      refine ⟨s.takeWhile isSpace, name ++ (sp₁ ++ (charAssign :: (sp₂ ++ (value ++ sp₃)))), comment, ?_,
        blank_takeWhile s, .inr ⟨name, sp₁, sp₂, value, sp₃, rfl, isName, blank₁, blank₂, isValue, blank₃⟩, isComment⟩
      conv_lhs => rw [← blank_eatSpace s, whole]
      simp

end

def Parser.start (line : Bytes) : Parser := { fn := .whiteSpace1, rest := line, name := [], value := [] }

/-- get_assignment ends on this line with this byte behind it, and accepts it exactly if it is a line of
the grammar. -/
structure Parses (past : UInt8) (line : Bytes) : Prop where
  ends : ∃ result, Loop past (Parser.start line) result ∧ getAssignment past line = result.bind fun p =>
    if p.rest = [] ∧ (p.fn = .comment ∨ p.fn = .whiteSpace1 ∨ p.fn = .whiteSpace4) then some (p.name, p.value) else none
  accepts : (getAssignment past line).isSome ↔ IsLine line

theorem getAssignment_loop (past : UInt8) (line : Bytes) :
    Loop past (Parser.start line) (Parser.run past 8 (Parser.start line)) :=
  run_loop (.inr (by simp [Parser.start, Parsing.rank]))

theorem loop_rest {past : UInt8} {p q : Parser} {result : Option Parser} (loop : Loop past p result)
    (same : result = some q) : q.rest =
    [] := by
  induction loop with
  | done ended => cases same; exact ended
  | failed => cases same
  | next _ _ _ ih => exact ih same

theorem getAssignment_isSome_iff (past : UInt8) (line : Bytes) :
    (getAssignment past line).isSome ↔ Accepts past (Parser.start line) := by
  have loop := getAssignment_loop past line
  rw [getAssignment, ← Parser.start]
  cases ran : Parser.run past 8 (Parser.start line) with
  | none =>
    rw [ran] at loop
    refine ⟨fun never => (by cases never), ?_⟩
    rintro ⟨q, other, -⟩
    cases loop.unique other
  | some p =>
    rw [ran] at loop
    have ended := loop_rest loop rfl
    rw [bind_some]
    constructor
    · intro known
      by_cases final : p.rest = [] ∧ (p.fn = .comment ∨ p.fn = .whiteSpace1 ∨ p.fn = .whiteSpace4)
      · exact ⟨p, loop, final.2⟩
      · rw [if_neg final] at known
        cases known
    · rintro ⟨q, other, final⟩
      cases loop.unique other
      rw [if_pos ⟨ended, final⟩]
      rfl

/-- The parser follows the grammar, but takes a line of blanks by the byte that stands behind it in memory. -/
theorem getAssignment_parses_iff (past : UInt8) (line : Bytes) :
    Parses past line ↔ ¬(line ≠ [] ∧ Blank line ∧ isLetter past = true) := by
  have ends := getAssignment_loop past line
  have accepts := (getAssignment_isSome_iff past line).trans (accepts_whiteSpace1 rfl)
  change _ ↔ line = [] ∨ eatSpace line = [] ∧ ¬isLetter past = true ∨ (eatSpace line).head? = some charComment ∨ IsNamed
    (eatSpace line) at accepts
  constructor
  · rintro ⟨-, language⟩ ⟨some, blank, letter⟩
    have eaten := eatSpace_blank blank
    rcases accepts.mp (language.mpr (isLine_iff.mpr (.inl eaten))) with none | ⟨-, other⟩ | comment | named
    · exact some none
    · exact other letter
    · rw [eaten] at comment
      cases comment
    · obtain ⟨_, _, head, -⟩ := named.head
      rw [eaten] at head
      cases head
  · intro other
    refine ⟨⟨_, ends, rfl⟩, accepts.trans ?_⟩
    rw [isLine_iff]
    constructor
    · rintro (none | ⟨eaten, -⟩ | comment | named)
      · exact .inl (by rw [none]; rfl)
      · exact .inl eaten
      · exact .inr (.inl comment)
      · exact .inr (.inr named)
    · rintro (eaten | comment | named)
      · by_cases none : line = []
        · exact .inl none
        · exact .inr (.inl ⟨eaten, fun letter => other ⟨none, dropWhile_eq_nil_iff.mp eaten, letter⟩⟩)
      · exact .inr (.inr (.inl comment))
      · exact .inr (.inr (.inr named))

/-- A blank with an x behind it in memory. -/
theorem getAssignment_blank_x : getAssignment 0x78 [bl] = none ∧ IsLine [bl] ∧ ¬Parses 0x78 [bl] := by
  have line : IsLine [bl] := isLine_iff.mpr (.inl rfl)
  refine ⟨rfl, line, fun parses => ?_⟩
  have known := parses.accepts.mpr line
  cases known

end Pcbsd.Forth
