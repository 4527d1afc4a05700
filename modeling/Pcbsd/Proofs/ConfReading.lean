import Mathlib.Data.List.TakeWhile
import Pcbsd.Forth.Support

/-! Which lines load_conf hands to the parser. reset_line_reading resets the pointer of the read
buffer but not its length, so that what an earlier file left in the buffer is read again. -/

namespace Pcbsd.Forth
open Lib List

def lines (s : Bytes) : List Bytes := (s.splitOn lf).filter (· ≠ [])

@[simp] theorem lines_nil : lines [] = [] := rfl

theorem lines_lf (s : Bytes) : lines (lf :: s) = lines s := by
  simp [lines, splitOn, splitOnP_cons_eq_if_modifyHead]

private theorem splitOn_eq (s : Bytes) :
    s.splitOn lf = s.takeWhile (· != lf) :: (s.dropWhile (· != lf)).tail.splitOn lf ∨
      s.splitOn lf = [s] ∧ s.takeWhile (· != lf) = s ∧ s.dropWhile (· != lf) = [] := by
  induction s with
  | nil => exact .inr ⟨rfl, rfl, rfl⟩
  | cons c s ih =>
    by_cases here : c = lf
    · subst here
      exact .inl (by simp [splitOn, splitOnP_cons_eq_if_modifyHead])
    · have split : (c :: s).splitOn lf = (s.splitOn lf).modifyHead (c :: ·) := by
        simp [splitOn, splitOnP_cons_eq_if_modifyHead, here]
      have first : (c :: s).takeWhile (· != lf) = c :: s.takeWhile (· != lf) := by simp [here]
      have rest : (c :: s).dropWhile (· != lf) = s.dropWhile (· != lf) := by simp [here]
      rw [split, first, rest]
      rcases ih with ih | ⟨ih, whole, none_⟩
      · rw [ih]
        exact .inl rfl
      · rw [ih, whole, none_]
        exact .inr ⟨rfl, rfl, rfl⟩

theorem lines_takeWhile (s : Bytes) :
    lines s = [s.takeWhile (· != lf)].filter (· ≠ []) ++ lines (s.dropWhile (· != lf)) := by
  rcases splitOn_eq s with split | ⟨split, whole, none_⟩
  · have rest : lines (s.dropWhile (· != lf)) = lines (s.dropWhile (· != lf)).tail := by
      cases here : s.dropWhile (· != lf) with
      | nil => rfl
      | cons c _ =>
        have isLf : c = lf := by
          have := head?_dropWhile_not (· != lf) s
          rw [here] at this
          simpa using this
        rw [isLf, lines_lf, tail_cons]
    rw [rest, lines, split, ← singleton_append, filter_append]
    rfl
  · rw [none_, lines, split, whole, lines_nil, append_nil]

def Reader.stream (r : Reader) (input : List Fread) : Bytes := r.buffer.drop r.ptr ++ pending input

def Reader.work (r : Reader) (input : List Fread) : Nat :=
  (r.stream input).length + input.length + if r.eof then 0 else 1

def Delivered (input : List Fread) : Prop := ∀ read ∈ input, ∃ piece, read = .got piece ∧ piece ≠ []

private theorem drop_length_takeWhile (p : UInt8 → Bool) (s : Bytes) :
    s.drop (s.takeWhile p).length = s.dropWhile p := by
  induction s with
  | nil => rfl
  | cons c s ih =>
    cases here : p c with
    | true => simp [here, ih]
    | false => simp [here]

theorem skipNewlines_spec (r : Reader) (input : List Fread) :
    lines ((skipNewlines r).stream input) = lines (r.stream input) ∧
      (skipNewlines r).work input ≤ r.work input ∧ ((skipNewlines r).buffer.drop (skipNewlines r).ptr).head? ≠ some lf := by
  have dropped : (skipNewlines r).buffer.drop (skipNewlines r).ptr = (r.buffer.drop r.ptr).dropWhile (· == lf) := by
    unfold skipNewlines
    rw [← drop_drop, drop_length_takeWhile]
  have eof : (skipNewlines r).eof = r.eof := rfl
  unfold Reader.work Reader.stream
  rw [dropped, eof]
  generalize r.buffer.drop r.ptr = t
  refine ⟨?_, ?_, ?_⟩
  · induction t with
    | nil => rfl
    | cons c t ih =>
      by_cases here : c = lf
      · subst here
        rw [cons_append, lines_lf, ← ih]
        simp
      · simp [here]
  · have := length_dropWhile_le (· == lf) t
    simp only [length_append]
    omega
  · intro first
    have := head?_dropWhile_not (· == lf) t
    rw [first] at this
    simp at this

section

variable {r : Reader} {input : List Fread}

private theorem readFromBuffer_drop (r : Reader) :
    (readFromBuffer r).buffer.drop (readFromBuffer r).ptr = (r.buffer.drop r.ptr).dropWhile (· != lf) := by
  unfold readFromBuffer
  rw [← drop_drop, drop_length_takeWhile]

private theorem readFromBuffer_bounded (bounded : r.ptr ≤ r.buffer.length) :
    (readFromBuffer r).ptr ≤ (readFromBuffer r).buffer.length := by
  have := ( takeWhile_prefix (· != lf) (l := r.buffer.drop r.ptr)).length_le
  rw [length_drop] at this
  unfold readFromBuffer
  dsimp only
  omega

private theorem refillRequired_iff (bounded : r.ptr ≤ r.buffer.length) (more : r.eof = false) :
    refillRequired (readFromBuffer r) = true ↔ (r.buffer.drop r.ptr).dropWhile (· != lf) = [] := by
  have bounded' := readFromBuffer_bounded bounded
  have eof : (readFromBuffer r).eof = false := more
  rw [← readFromBuffer_drop, drop_eq_nil_iff, refillRequired, eof]
  simp only [Bool.not_false, Bool.and_true, beq_iff_eq]
  omega

structure Took (r r' : Reader) (input input' : List Fread) : Prop where
  line : r'.line = r.line ++ (r.stream input).takeWhile (· != lf)
  stream : r'.stream input' = (r.stream input).dropWhile (· != lf)
  ended : r'.eof = true ↔ (r.stream input).dropWhile (· != lf) = []
  delivered : Delivered input'

variable {input' : List Fread} {r' : Reader} {s t : Bytes}

private theorem takeWhile_append_all (all : s.dropWhile (· != lf) = []) :
    (s ++ t).takeWhile (· != lf) = s ++ t.takeWhile (· != lf) ∧
    (s ++ t).dropWhile (· != lf) = t.dropWhile (· != lf) := by
  have each := dropWhile_eq_nil_iff.mp all
  exact ⟨takeWhile_append_of_pos each, dropWhile_append_of_pos each⟩

private theorem takeWhile_append_some (some_ : s.dropWhile (· != lf) ≠ []) :
    (s ++ t).takeWhile (· != lf) = s.takeWhile (· != lf) ∧
    (s ++ t).dropWhile (· != lf) = s.dropWhile (· != lf) ++ t := by
  induction s with
  | nil => exact absurd rfl some_
  | cons c s ih =>
    by_cases here : c = lf
    · subst here
      simp
    · have other : (c != lf) = true := by simpa using here
      simp only [dropWhile_cons, other, if_true, ne_eq] at some_
      simpa [here] using ih some_

private theorem took_here (bounded : r.ptr ≤ r.buffer.length) (more : r.eof = false) (delivered : Delivered input)
    (done : ¬refillRequired (readFromBuffer r) = true) : Took r (readFromBuffer r) input input := by
  rw [refillRequired_iff bounded more] at done
  obtain ⟨taken, dropped⟩ := takeWhile_append_some (t := pending input) done
  refine ⟨?_, ?_, ?_, delivered⟩
  · exact congrArg (r.line ++ ·) taken.symm
  · rw [Reader.stream, readFromBuffer_drop]
    exact dropped.symm
  · have eof : (readFromBuffer r).eof = false := more
    rw [eof, Reader.stream, dropped]
    simp only [Bool.false_eq_true, false_iff, append_eq_nil_iff, not_and]
    exact fun none_ => absurd none_ done

private theorem took_refill {piece : Bytes} (bounded : r.ptr ≤ r.buffer.length) (more : r.eof = false)
    (required : refillRequired (readFromBuffer r) = true)
    (took : Took (refill (readFromBuffer r) piece) r' input input') : Took r r' (.got piece :: input) input' := by
  have all := (refillRequired_iff bounded more).mp required
  obtain ⟨taken, dropped⟩ := takeWhile_append_all (t := piece ++ pending input) all
  have whole : (readFromBuffer r).line = r.line ++ r.buffer.drop r.ptr := by
    have := takeWhile_append_dropWhile (p := (· != lf)) (l := r.buffer.drop r.ptr)
    rw [all, append_nil] at this
    exact congrArg (r.line ++ ·) this
  have stream : (refill (readFromBuffer r) piece).stream input = piece ++ pending input := rfl
  have line : (refill (readFromBuffer r) piece).line = (readFromBuffer r).line := rfl
  obtain ⟨first, second, third, fourth⟩ := took
  refine ⟨?_, ?_, ?_, fourth⟩
  · rw [first, line, whole, append_assoc]
    exact congrArg (r.line ++ ·) taken.symm
  · exact second.trans dropped.symm
  · rw [third]
    exact iff_of_eq (congrArg (· = []) dropped.symm)

theorem readLoop_took (more : r.eof = false) (bounded : r.ptr ≤ r.buffer.length) (delivered : Delivered input) :
    ∃ input' r', readLoop input r = (true, input', r') ∧ Took r r' input input' := by
  induction input generalizing r with
  | nil =>
    unfold readLoop
    dsimp only
    split
    next required =>
      refine ⟨_, _, rfl, ?_⟩
      have last : Took (refill (readFromBuffer r) []) (readFromBuffer (refill (readFromBuffer r) [])) [] [] := by
        refine ⟨?_, ?_, ?_, delivered⟩ <;> simp [readFromBuffer, refill, Reader.stream, pending]
      obtain ⟨first, second, third, fourth⟩ := took_refill bounded more required last
      exact ⟨first, second, third, fourth⟩
    next done => exact ⟨_, _, rfl, took_here bounded more delivered done⟩
  | cons read input ih =>
    obtain ⟨piece, rfl, nonempty⟩ := delivered read mem_cons_self
    unfold readLoop
    dsimp only
    split
    next required =>
      have eof : (refill (readFromBuffer r) piece).eof = false := by
        have : (readFromBuffer r).eof = false := more
        simp [refill, this, nonempty]
      obtain ⟨input', r', ran, took⟩ := ih (r := refill (readFromBuffer r) piece) eof (Nat.zero_le _)
        fun read member => delivered read (mem_cons_of_mem _ member)
      exact ⟨input', r', ran, took_refill bounded more required took⟩
    next done => exact ⟨_, _, rfl, took_here bounded more delivered done⟩

private theorem readFromBuffer_work (r : Reader) (input : List Fread) :
    (readFromBuffer r).work input ≤ r.work input ∧
      ((r.buffer.drop r.ptr).dropWhile (· != lf) ≠ [] → (r.buffer.drop r.ptr).head? ≠ some lf →
        (readFromBuffer r).work input < r.work input) := by
  have eof : (readFromBuffer r).eof = r.eof := rfl
  unfold Reader.work Reader.stream
  rw [readFromBuffer_drop, eof]
  generalize r.buffer.drop r.ptr = t
  have shorter := length_dropWhile_le (· != lf) t
  simp only [length_append]
  refine ⟨by omega, ?_⟩
  intro some_ other
  cases t with
  | nil => exact absurd rfl some_
  | cons c t =>
    have here : (c != lf) = true := by simpa using other
    have := length_dropWhile_le (· != lf) t
    simp only [dropWhile_cons, here, if_true, length_cons]
    omega

private theorem refill_work (more : r.eof = false) (piece : Bytes) :
    (refill (readFromBuffer r) piece).work input < r.work (.got piece :: input) := by
  have stream : (refill (readFromBuffer r) piece).stream input = pending (.got piece :: input) := rfl
  unfold Reader.work
  rw [stream, Reader.stream, more, length_append, length_cons]
  simp only [Bool.false_eq_true, if_false]
  split <;> omega

private theorem readLoop_eof (ended : r.eof = true) : readLoop input r = (true, input, readFromBuffer r) := by
  have still : refillRequired (readFromBuffer r) = false := by
    have : (readFromBuffer r).eof = true := ended
    simp [refillRequired, this]
  cases input with
  | nil => simp [readLoop, still]
  | cons read input => cases read <;> simp [readLoop, still]

theorem readLoop_progress (more : r.eof = false) (bounded : r.ptr ≤ r.buffer.length)
    (ran : readLoop input r = (true, input', r')) :
    r'.ptr ≤ r'.buffer.length ∧ r'.work input' ≤ r.work input ∧
      ((r.buffer.drop r.ptr).head? ≠ some lf → r'.work input' < r.work input) := by
  have here := readFromBuffer_work r input
  have bounded' := readFromBuffer_bounded bounded
  have iff_ := refillRequired_iff bounded more
  induction input generalizing r with
  | nil =>
    unfold readLoop at ran
    dsimp only at ran
    split at ran
    next _ =>
      cases ran
      have none_ : (readFromBuffer (refill (readFromBuffer r) [])).work [] = 0 := by
        simp [Reader.work, Reader.stream, readFromBuffer, refill, pending]
      have some_ : 0 < r.work [] := by simp [Reader.work, more]
      rw [none_]
      exact ⟨by simp [readFromBuffer, refill], Nat.zero_le _, fun _ => some_⟩
    next done =>
      cases ran
      rw [iff_] at done
      exact ⟨bounded', here.1, here.2 done⟩
  | cons read input ih =>
    unfold readLoop at ran
    cases read with
    | failed _ =>
      dsimp only at ran
      split at ran
      · cases ran
      next done =>
        cases ran
        rw [iff_] at done
        exact ⟨bounded', here.1, here.2 done⟩
    | got piece =>
      dsimp only at ran
      split at ran
      next =>
        have less : (refill (readFromBuffer r) piece).work input < r.work (.got piece :: input) := refill_work more piece
        by_cases last : (refill (readFromBuffer r) piece).eof = false
        · obtain ⟨inside, fewer, -⟩ := ih last (Nat.zero_le _) ran (readFromBuffer_work _ input)
            (readFromBuffer_bounded (Nat.zero_le _)) (refillRequired_iff (Nat.zero_le _) last)
          exact ⟨inside, by omega, fun _ => by omega⟩
        · rw [readLoop_eof (by simpa using last)] at ran
          have fewer := (readFromBuffer_work (refill (readFromBuffer r) piece) input).1
          cases ran
          exact ⟨readFromBuffer_bounded (Nat.zero_le _), by omega, fun _ => by omega⟩
      next done =>
        cases ran
        rw [iff_] at done
        exact ⟨bounded', here.1, here.2 done⟩

private theorem skipNewlines_inside (bounded : r.ptr ≤ r.buffer.length) :
    (skipNewlines { r with line := [] }).ptr ≤ (skipNewlines { r with line := [] }).buffer.length := by
  have := ( takeWhile_prefix (· == lf) (l := r.buffer.drop r.ptr)).length_le
  rw [length_drop] at this
  simp only [skipNewlines]
  omega

theorem readLine_progress (more : r.eof = false) (bounded : r.ptr ≤ r.buffer.length)
    (ran : readLine input r = (true, input', r')) : r'.ptr ≤ r'.buffer.length ∧ r'.work input' < r.work input := by
  obtain ⟨-, fewer, other⟩ := skipNewlines_spec { r with line := [] } input
  obtain ⟨inside', -, less⟩ := readLoop_progress (by exact more) (skipNewlines_inside bounded) ran
  exact ⟨inside', lt_of_lt_of_le (less other) fewer⟩

theorem readLine_took (more : r.eof = false) (bounded : r.ptr ≤ r.buffer.length) (delivered : Delivered input) :
    ∃ input' r', readLine input r = (true, input', r') ∧ Delivered input' ∧
      lines (r.stream input) = [r'.line].filter (· ≠ []) ++ lines (r'.stream input') ∧
      (r'.eof = true → r'.stream input' = []) := by
  obtain ⟨same, -, -⟩ := skipNewlines_spec { r with line := [] } input
  obtain ⟨input', r', ran, took⟩ := readLoop_took (by exact more) (skipNewlines_inside bounded) delivered
  refine ⟨input', r', ran, took.delivered, ?_, ?_⟩
  · have line : r'.line = ((skipNewlines { r with line := [] }).stream input).takeWhile (· != lf) := took.line
    have all : lines (r.stream input) = lines ((skipNewlines { r with line := [] }).stream input) := same.symm
    rw [all, lines_takeWhile, line, took.stream]
  · intro ended
    rw [took.stream]
    exact took.ended.mp ended

end

/-- The non-empty lines handed over are those of `all` up to and including the first one that raises
an exception. -/
def HandedOver (trace : List (Bytes × Option Exception)) (all : List Bytes) : Prop :=
  ∃ rest, all = (trace.map Prod.fst).filter (· ≠ []) ++ rest ∧ (∀ step ∈ trace.dropLast, step.2 = none) ∧
    (rest = [] ∨ ∃ step ∈ trace.getLast?, step.1 ≠ [] ∧ step.2 ≠ none)

variable (ficl : Ficl)

theorem processLine_nil (c : Conf) : (processLine ficl [] c).1 = none := rfl

variable {input : List Fread} {s : Session} {result : Result} {fuel : Nat}

theorem processConf_ends (bounded : s.reader.ptr ≤ s.reader.buffer.length) (enough : s.reader.work input < fuel) :
    ∃ result, processConf ficl fuel input s = some result := by
  induction fuel generalizing input s with
  | zero => omega
  | succ fuel ih =>
    unfold processConf
    split
    · exact ⟨_, rfl⟩
    next more =>
      cases ran : readLine input s.reader with
      | mk ok rest =>
        obtain ⟨input', reader⟩ := rest
        cases ok with
        | false => exact ⟨_, rfl⟩
        | true =>
          obtain ⟨inside, _⟩ := readLine_progress (by simpa using more) bounded ran
          dsimp only
          cases processLine ficl reader.line s.conf with
          | mk e conf =>
            cases e with
            | some e => exact ⟨_, rfl⟩
            | none =>
              obtain ⟨result, ended⟩ : ∃ result, processConf ficl fuel input' { reader, conf } = some result :=
                ih inside (by dsimp only; omega)
              dsimp only
              rw [ended]
              exact ⟨_, rfl⟩

private theorem HandedOver.cons {line : Bytes} {trace : List (Bytes × Option Exception)} {all : List Bytes}
    (handed : HandedOver trace all) : HandedOver ((line, none) :: trace) ([line].filter (· ≠ []) ++ all) := by
  obtain ⟨rest, equal, quiet, last⟩ := handed
  refine ⟨rest, ?_, ?_, ?_⟩
  · rw [equal, ← append_assoc, ← filter_append]
    rfl
  · intro step member
    cases trace with
    | nil => simp at member
    | cons _ trace =>
      rw [dropLast_cons_cons, mem_cons] at member
      rcases member with rfl | member
      · rfl
      · exact quiet step member
  · refine last.imp_right ?_
    rintro ⟨step, member, raised⟩
    refine ⟨step, ?_, raised⟩
    rw [getLast?_cons, member]
    rfl

theorem processConf_lines (bounded : s.reader.ptr ≤ s.reader.buffer.length) (delivered : Delivered input)
    (ended : s.reader.eof = true → s.reader.stream input = []) (ran : processConf ficl fuel input s = some result) :
    HandedOver result.trace (lines (s.reader.stream input)) := by
  induction fuel generalizing input s result with
  | zero => cases ran
  | succ fuel ih =>
    unfold processConf at ran
    split at ran
    next done =>
      cases ran
      rw [ended done, lines_nil]
      exact ⟨[], rfl, by simp, .inl rfl⟩
    next more =>
      obtain ⟨input', reader, read, delivered', took, ended'⟩ := readLine_took (by simpa using more) bounded delivered
      obtain ⟨inside, -⟩ := readLine_progress (by simpa using more) bounded read
      rw [read] at ran
      dsimp only at ran
      have quiet := processLine_nil ficl s.conf
      cases handled : processLine ficl reader.line s.conf with
      | mk e conf =>
        rw [handled] at ran
        rw [took]
        cases e with
        | some e =>
          cases ran
          have nonempty : reader.line ≠ [] := by
            intro empty
            rw [empty] at handled
            rw [handled] at quiet
            cases quiet
          exact ⟨lines (reader.stream input'), rfl, by simp, .inr ⟨_, rfl, nonempty, by simp⟩⟩
        | none =>
          obtain ⟨_, rest, rfl⟩ := Option.map_eq_some_iff.mp ran
          exact HandedOver.cons (ih inside delivered' ended' rest)

inductive Call where
  | load (input : Option (List Fread))
  | peek (input : Option (List Fread))

def Call.after (ficl : Ficl) (s : Session) : Call → Session
  | .load input => ((loadConf ficl input s).map (·.session)).getD s
  | .peek input => (peekFile ficl input s).session

def confRun (ficl : Ficl) (s : Session) (calls : List Call) : Session := calls.foldl (Call.after ficl) s

def Clean (s : Session) : Prop := ∀ b ∈ s.reader.buffer, b = lf

theorem loadConf_ends (input : Option (List Fread)) (s : Session) :
    ∃ result, loadConf ficl input s = some result := by
  cases input with
  | none => exact ⟨_, rfl⟩
  | some input =>
    refine processConf_ends ficl (Nat.zero_le _) ?_
    simp only [enoughRounds, Reader.work, Reader.stream, resetLineReading, drop_zero, length_append,
      Bool.false_eq_true, if_false]
    omega

theorem loadConf_lines (delivered : Delivered input) (ran : loadConf ficl (some input) s = some result) :
    HandedOver result.trace (lines (s.reader.buffer ++ pending input)) := by
  refine processConf_lines ficl (s := { s with reader := resetLineReading s.reader }) (Nat.zero_le _) delivered ?_ ran
  intro ended
  cases ended

theorem lines_clean {s t : Bytes} (clean : ∀ b ∈ s, b = lf) : lines (s ++ t) = lines t := by
  induction s with
  | nil => rfl
  | cons c s ih =>
    rw [clean c mem_cons_self, cons_append, lines_lf]
    exact ih fun b member => clean b (mem_cons_of_mem _ member)

def RunClean (ficl : Ficl) : Session → List Call → Prop
  | _, [] => True
  | s, call :: calls =>
    (match call with
      | .load _ => Clean s
      | .peek _ => True) ∧ RunClean ficl (call.after ficl s) calls

private theorem runClean_append {earlier later : List Call}
    (clean : RunClean ficl s (earlier ++ later)) : RunClean ficl (confRun ficl s earlier) later := by
  induction earlier generalizing s with
  | nil => exact clean
  | cons _ earlier ih => exact ih clean.2

/-- In every run in which load_conf finds a clean buffer each time, each of its calls ends and hands
over the lines of its own file. -/
theorem confRun_hands_over_lines (ficl : Ficl) (s : Session) (calls : List Call) (clean : RunClean ficl s calls) :
    ∀ earlier input later, calls = earlier ++ .load (some input) :: later → Delivered input →
      ∃ result, loadConf ficl (some input) (confRun ficl s earlier) = some result ∧
        HandedOver result.trace (lines (pending input)) := by
  rintro earlier input later rfl delivered
  obtain ⟨result, ran⟩ := loadConf_ends ficl (some input) (confRun ficl s earlier)
  refine ⟨result, ran, ?_⟩
  have handed := loadConf_lines ficl delivered ran
  rwa [lines_clean (runClean_append ficl clean).1] at handed

private def sampleFicl : Ficl := ⟨fun _ env => (true, env), fun _ => 0⟩

private def sampleSession : Session := ⟨⟨[], 0, false, []⟩, { nextbootConfFile := [], env := fun _ => none }⟩

private def sampleFile : List Fread := [.got [0x61, 0x3d, 0x31, 0x0a, 0x0a, 0x62, 0x3d, 0x32, 0x0a]]

/-- c=3 -/
private def otherFile : List Fread := [.got [0x63, 0x3d, 0x33, 0x0a]]

private theorem delivered_singleton {piece : Bytes} (nonempty : piece ≠ []) : Delivered [.got piece] := by
  intro read member
  rw [mem_singleton.mp member]
  exact ⟨piece, rfl, nonempty⟩

theorem confRun_hands_over_second_file :
    RunClean sampleFicl sampleSession [.load (some sampleFile), .load (some otherFile)] ∧
      ∃ result, loadConf sampleFicl (some otherFile) (confRun sampleFicl sampleSession [.load (some sampleFile)]) =
        some result ∧ HandedOver result.trace [[0x63, 0x3d, 0x33]] := by
  have clean : RunClean sampleFicl sampleSession [.load (some sampleFile), .load (some otherFile)] := by
    refine ⟨?_, ?_, trivial⟩
    · unfold Clean
      decide +kernel
    · unfold Clean
      decide +kernel
  exact ⟨clean, confRun_hands_over_lines sampleFicl sampleSession _ clean [.load (some sampleFile)] otherFile [] rfl
    (delivered_singleton (by decide))⟩

/-- After a look at the first line of one file, load_conf of another starts with the lines of the
first. -/
theorem loadConf_repeats_peeked_file :
    Delivered sampleFile ∧ Delivered otherFile ∧
      ¬∃ result, loadConf sampleFicl (some otherFile) (confRun sampleFicl sampleSession [.peek (some sampleFile)]) =
        some result ∧ HandedOver result.trace (lines (pending otherFile)) := by
  refine ⟨delivered_singleton (by decide), delivered_singleton (by decide), ?_⟩
  rintro ⟨result, ran, _, equal, -⟩
  have trace : (loadConf sampleFicl (some otherFile) (confRun sampleFicl sampleSession [.peek (some sampleFile)])).map
      (fun result => (result.trace.map Prod.fst).filter (· ≠ [])) =
        some [[0x61, 0x3d, 0x31], [0x62, 0x3d, 0x32], [0x63, 0x3d, 0x33]] := by decide
  rw [ran, Option.map_some, Option.some.injEq] at trace
  rw [trace] at equal
  have first : (lines (pending otherFile)).head? = some [0x63, 0x3d, 0x33] := by decide
  rw [equal] at first
  exact absurd first (by simp)

end Pcbsd.Forth
