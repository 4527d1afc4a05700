import Mathlib.Algebra.Order.Ring.Int
import Pcbsd.Lib.Orbit
import Pcbsd.Proofs.FiclCompile

/-! Code in the dictionary does what the program means that it was compiled from. -/

namespace Pcbsd.Ficl
open Lib List Outcome

variable {w : Nat} {π ν σ : Type} {m : Machine w π ν σ} {fuel n a b start last mid : Nat} {st : Stacks w π ν σ}
  {vm vm' : Nat × Stacks w π ν σ} {outcome : Option (Outcome w π ν σ)} {code more : List (Cell w π ν)} {c : Cell w π ν}
    {f : Word π ν}

def Machine.next (m : Machine w π ν σ) (vm : Nat × Stacks w π ν σ) : Option (Nat × Stacks w π ν σ) :=
  (m.step vm).toOption

/-- The machine comes from `vm` to where the outcome says, `last` being the end of the code; without an outcome it is
still running after `fuel` steps. -/
def Meets (m : Machine w π ν σ) (fuel : Nat) (vm : Nat × Stacks w π ν σ) (last : Nat) : Option (Outcome w π ν σ) → Prop
  | some (done st) => ∃ n, after m.next n vm = some (last, st)
  | some (jumped a st) => ∃ n, after m.next n vm = some (a, st)
  | some (stopped e) => ∃ n vm', after m.next n vm = some vm' ∧ m.step vm' = .error e
  | none => ∃ n vm', fuel ≤ n ∧ after m.next n vm = some vm'

namespace Meets

theorem onward (reached : after m.next n vm = some vm') (rest : Meets m fuel vm' last outcome) :
    Meets m (n + fuel) vm last outcome := by
  match outcome, rest with
  | some (done st), ⟨k, there⟩ => exact ⟨n + k, after_trans reached there⟩
  | some (jumped a st), ⟨k, there⟩ => exact ⟨n + k, after_trans reached there⟩
  | some (stopped e), ⟨k, stuck, there, error⟩ => exact ⟨n + k, stuck, after_trans reached there, error⟩
  | none, ⟨k, far, long, there⟩ => exact ⟨n + k, far, by omega, after_trans reached there⟩

theorem fewer {less : Nat} (le : less ≤ fuel) (meets : Meets m fuel vm last outcome) :
    Meets m less vm last outcome := by
  match outcome, meets with
  | some (done st), there => exact there
  | some (jumped a st), there => exact there
  | some (stopped e), there => exact there
  | none, ⟨k, far, long, there⟩ => exact ⟨k, far, by omega, there⟩

theorem step (stepped : m.step vm = .ok vm') (rest : Meets m fuel vm' last outcome) :
    Meets m (fuel + 1) vm last outcome := by
  have one : after m.next 1 vm = some vm' := by rw [after_one, Machine.next, stepped]; rfl
  exact Nat.add_comm 1 fuel ▸ onward one rest

theorem here (st : Stacks w π ν σ) : Meets m fuel (last, st) last (some (done st)) := ⟨0, rfl⟩

theorem followed {next : Stacks w π ν σ → Option (Outcome w π ν σ)} (first : Meets m fuel vm mid outcome)
    (second : ∀ st, outcome = some (done st) → Meets m fuel (mid, st) last (next st)) :
    Meets m fuel vm last (outcome.bind (·.andThen next)) := by
  match outcome, first with
  | some (done st), ⟨k, there⟩ => exact fewer (by omega) (onward there (second st rfl))
  | some (jumped a st), there => exact there
  | some (stopped e), there => exact there
  | none, there => exact there

theorem through (meets : Meets m fuel vm mid outcome) (onward : ∀ st, m.step (mid, st) = .ok (last, st)) :
    Meets m fuel vm last outcome := by
  match outcome, meets with
  | some (done st), ⟨k, there⟩ =>
    have one : after m.next 1 (mid, st) = some (last, st) := by rw [after_one, Machine.next, onward]; rfl
    exact ⟨k + 1, after_trans there one⟩
  | some (jumped a st), there => exact there
  | some (stopped e), there => exact there
  | none, there => exact there

theorem attempt {α : Type} {result : Except Stop α} {next : α → Option (Outcome w π ν σ)}
    (fails : ∀ e, result = .error e → m.step vm = .error e)
    (goes : ∀ x, result = .ok x → Meets m fuel vm last (next x)) :
    Meets m fuel vm last (Ficl.tried result next) := by
  match result, fails, goes with
  | .ok x, _, goes => exact goes x rfl
  | .error e, fails, _ => exact ⟨0, vm, rfl, fails e rfl⟩

/-- A step that leaves the code for a cell that a return stack names. -/
theorem jumping {result : Except Stop (Nat × Stacks w π ν σ)} (stepped : m.step vm = result) :
    Meets m fuel vm last (Ficl.tried result fun popped => some (jumped popped.1 popped.2)) := by
  refine attempt (fun e failed => by rw [stepped, failed]) fun popped went => ⟨1, ?_⟩
  rw [after_one, Machine.next, stepped, went]
  rfl

theorem caught (meets : Meets m fuel vm last outcome) : Meets m fuel vm last (outcome.map (·.leaving last)) := by
  match outcome, meets with
  | some (jumped a st), ⟨k, there⟩ =>
    by_cases same : a = last
    · simp only [Option.map_some, Outcome.leaving, if_pos same]
      exact ⟨k, same ▸ there⟩
    · simp only [Option.map_some, Outcome.leaving, if_neg same]
      exact ⟨k, there⟩
  | some (done st), there => exact there
  | some (stopped e), there => exact there
  | none, there => exact there

/-- A loop whose head ends at the cell `mid`, where the test is, and whose tail begins at `a` and ends at `b`, a
branch back. -/
theorem turning {head tail : Stacks w π ν σ → Option (Outcome w π ν σ)}
    {test : Stacks w π ν σ → Except Stop (Bool × Stacks w π ν σ)} {k : Nat}
    (heads : ∀ st, Meets m fuel (start, st) mid (head st))
    (fails : ∀ st e, test st = .error e → m.step (mid, st) = .error e)
    (overs : ∀ st st', test st = .ok (true, st') → m.step (mid, st) = .ok (last, st'))
    (agains : ∀ st st', test st = .ok (false, st') → m.step (mid, st) = .ok (a, st'))
    (tails : ∀ st, Meets m fuel (a, st) b (tail st)) (back : ∀ st, after m.next k (b, st) = some (start, st)) :
    ∀ n ≤ fuel, ∀ st, Meets m n (start, st) last (Ficl.turns head test tail n st) := by
  intro n
  induction n with
  | zero => exact fun _ st => ⟨0, (start, st), le_refl 0, rfl⟩
  | succ n ih =>
    intro enough st
    refine followed (fewer enough (heads st)) fun st _ => attempt (fails st) ?_
    rintro ⟨past, st'⟩ tested
    cases past with
    | true => exact step (overs st st' tested) (here st')
    | false =>
      refine step (agains st st' tested) (followed (fewer (by omega) (tails st')) fun st _ => ?_)
      exact fewer (by omega) (onward (back st) (ih (by omega) st))

end Meets

def Held (m : Machine w π ν σ) (start : Nat) (code : List (Cell w π ν)) : Prop := code <+: m.dict.drop start

namespace Held

theorem head (held : Held m start (c :: code)) : m.dict[start]? = some c := by
  obtain ⟨_, same⟩ := held
  have first := congrArg (·[0]?) same
  simpa using first.symm

theorem left (held : Held m start (code ++ more)) : Held m start code := (prefix_append code more).trans held

theorem right (held : Held m start (code ++ more)) (place : start + code.length = a) : Held m a more := by
  subst place
  obtain ⟨rest, same⟩ := held
  exact ⟨rest, by rw [← drop_drop, ← same, append_assoc, drop_left]⟩

theorem tail (held : Held m start (c :: code)) : Held m (start + 1) code :=
  right (show Held m start ([c] ++ code) from held) rfl

theorem inside (held : Held m start code) (some : code ≠ []) : start + code.length ≤ m.dict.length := by
  have bound := held.length_le
  have positive := length_pos_iff.mpr some
  rw [length_drop] at bound
  omega

end Held

private theorem step_word (held : m.dict[a]? = some (.word f)) : m.step (a, st) = m.execute st (a + 1) f := by
  rw [Machine.step, Machine.cellAt, held]
  rfl

private theorem cellAt_ok (held : m.dict[a]? = some c) : m.cellAt a = .ok c := by rw [Machine.cellAt, held]; rfl

theorem branch_ok (wide : 32 ≤ w) (held : m.dict[a]? = some (offset a b)) (near : a < 2 ^ 31) (target : b < 2 ^ 31) :
    m.branch a = .ok b := by
  have large := pow_le_pow_right₀ (one_le_two : (1 : Int) ≤ 2) (by omega : 31 ≤ w - 1)
  have kept : (BitVec.ofInt w ((b : Int) - a)).toInt = b - a :=
    BitVec.toInt_ofInt_eq_self (by omega) (by omega) (by omega)
  have narrow : Int.bmod ((b : Int) - a) (2 ^ 32) = b - a := Int.bmod_eq_of_le (by omega) (by omega)
  rw [Machine.branch, cellAt_ok held]
  simp only [offset, bind, Except.bind, kept, narrow]
  rw [if_neg (by omega)]
  exact congrArg Except.ok (by omega)

section
variable (wide : 32 ≤ w) (small : m.dict.length < 2 ^ 31) (target : b ≤ m.dict.length)
include wide small target

private theorem branch_held (held : Held m a [.word f, offset (a + 1) b]) : m.branch (a + 1) = .ok b := by
  have room := held.inside (cons_ne_nil _ _)
  rw [length_cons, length_singleton] at room
  exact branch_ok wide held.tail.head (by omega) (by omega)

private theorem step_branch (st : Stacks w π ν σ) (held : Held m a [.word .branchParen, offset (a + 1) b]) :
    m.step (a, st) = .ok (b, st) := by
  rw [step_word held.head, Machine.execute, branch_held wide small target held]
  rfl

private theorem step_branch0 (st : Stacks w π ν σ) (held : Held m a [.word .branch0, offset (a + 1) b]) :
    m.step (a, st) = (m.popFlag st).map fun (flag, st) => (if flag then a + 2 else b, st) := by
  rw [step_word held.head, Machine.execute, branch_held wide small target held]
  cases m.popFlag st with
  | error _ => rfl
  | ok popped => obtain ⟨_ | _, st⟩ := popped <;> rfl

private theorem step_loop (st : Stacks w π ν σ) {plus : Bool}
    (held : Held m a [.word (if plus then .plusLoopParen else .loopParen), offset (a + 1) b]) :
    m.step (a, st) = ((if plus then m.plusLoopParen else Machine.loopParen) st).map fun (past, st) => (if past then a +
      2 else b, st) := by
  cases plus with
  | true =>
    rw [step_word held.head, if_pos rfl, if_pos rfl, Machine.execute, branch_held wide small target held]
    cases m.plusLoopParen st with
    | error e => rfl
    | ok tested => obtain ⟨_ | _, st⟩ := tested <;> rfl
  | false =>
    rw [step_word held.head, if_neg Bool.false_ne_true, if_neg Bool.false_ne_true, Machine.execute,
      branch_held wide small target held]
    cases Machine.loopParen st with
    | error e => rfl
    | ok tested => obtain ⟨_ | _, st⟩ := tested <;> rfl

end

private theorem doParen_false {counted : Bool × Stacks w π ν σ} (went : m.doParen st false c = .ok counted) :
    counted.1 = false := by
  simp only [Machine.doParen, bind, Except.bind] at went
  split at went
  · cases went
  · split at went
    · simp only [Bool.false_eq_true, false_and, if_false] at went
      split at went
      · cases went
      · cases went
        rfl
    · cases went

private theorem step_do (st : Stacks w π ν σ) {asks : Bool}
    (held : Held m a [.word (if asks then .qDoParen else .doParen), .addr b]) :
    m.step (a, st) = (m.doParen st asks (.addr b)).bind fun (equal, st) =>
      if equal then Machine.vmPopIP st else .ok (a + 2, st) := by
  cases asks with
  | true =>
    rw [step_word held.head, if_pos rfl, Machine.execute, cellAt_ok held.tail.head]
    rfl
  | false =>
    rw [step_word held.head, if_neg Bool.false_ne_true, Machine.execute, cellAt_ok held.tail.head]
    cases went : m.doParen st false (.addr b) with
    | error _ => simp only [bind, Except.bind, went]
    | ok _ => simp only [bind, Except.bind, went, doParen_false went, Bool.false_eq_true, if_false]

section
variable {callee : ν → Stacks w π ν σ → Option (Outcome w π ν σ)}
  (wide : 32 ≤ w) (small : m.dict.length < 2 ^ 31)
  (callees : ∀ name st last, Meets m (fuel - 1) (m.param name, st) last (callee name st))
include wide small callees

open Prog Meets in
/-- The code of a program does what the program means, wherever it stands. -/
theorem evalWith_meets (p : Prog w π ν) (st : Stacks w π ν σ) (held : Held m start (p.emit start)) :
    Meets m fuel (start, st) (start + p.size) (p.evalWith m fuel callee start st) := by
  induction p generalizing start st with
  | nil => exact here st
  | seq p q first second =>
    have next (st : Stacks w π ν σ) := second st (held.right (by rw [length_emit]))
    exact Nat.add_assoc start p.size q.size ▸ followed (first st held.left) fun st _ => next st
  | literal n =>
    have stepped : m.step (start, st) = (m.literalParen st (.int n)).map fun st => (start + 2, st) := by
      rw [step_word held.head, Machine.execute, cellAt_ok held.tail.head]
      rfl
    refine attempt (fun e failed => by rw [stepped, failed]; rfl) fun st' went => ?_
    exact fewer (Nat.le_succ _) (step (by rw [stepped, went]; rfl) (here st'))
  | prim p =>
    have stepped : m.step (start, st) = (m.code p st).map fun st => (start + 1, st) := by rw [step_word held.head]; rfl
    refine attempt (fun e failed => by rw [stepped, failed]; rfl) fun st' went => ?_
    exact fewer (Nat.le_succ _) (step (by rw [stepped, went]; rfl) (here st'))
  | call name =>
    have stepped : m.step (start, st) = (m.pushR st [.addr (start + 1)]).map fun st => (m.param name, st) := by
      rw [step_word held.head]; rfl
    refine attempt (fun e failed => by rw [stepped, failed]; rfl) fun st' went => ?_
    exact caught (fewer (by omega) (step (by rw [stepped, went]; rfl) (callees name st' (start + 1))))
  | exit =>
    have stepped : m.step (start, st) = Machine.vmPopIP st := by rw [step_word held.head]; rfl
    exact jumping stepped
  | leave =>
    have stepped : m.step (start, st) = Machine.leaveCo st := by rw [step_word held.head]; rfl
    exact jumping stepped
  | ifThen p body =>
    have room := held.inside (by simp [emit])
    rw [length_emit, size] at room
    have stepped := step_branch0 wide small (by omega) st held.left
    refine attempt (fun e failed => by rw [stepped, failed]; rfl) ?_
    rintro ⟨flag, st'⟩ went
    have first : m.step (start, st) = .ok (if flag then start + 2 else start + p.size + 2, st') := by
      rw [stepped, went]; rfl
    cases flag with
    | true => exact fewer (Nat.le_succ _) (step first (Nat.add_right_comm start p.size 2 ▸ body st' (held.right rfl)))
    | false => exact fewer (Nat.le_succ _) (step first (here st'))
  | ifElse p q first second =>
    have room := held.inside (by simp [emit])
    rw [length_emit, size] at room
    have stepped := step_branch0 wide small (by omega) st held.left.left.left
    have past (st : Stacks w π ν σ) :=
      step_branch wide small (by omega) st (held.left.right (a := start + p.size + 2) (by simp; omega))
    refine attempt (fun e failed => by rw [stepped, failed]; rfl) ?_
    rintro ⟨flag, st'⟩ went
    have chosen : m.step (start, st) = .ok (if flag then start + 2 else start + p.size + 4, st') := by
      rw [stepped, went]; rfl
    have middle : start + 2 + p.size = start + p.size + 2 := by omega
    have last : start + p.size + 4 + q.size = start + (p.size + q.size + 4) := by omega
    cases flag with
    | true =>
      have meets := middle ▸ first st' (held.left.left.right rfl)
      exact fewer (Nat.le_succ _)
        (step chosen (meets.through fun st => (past st).trans (by simp only [size, Nat.add_assoc])))
    | false => exact fewer (Nat.le_succ _) (step chosen (last ▸ second st' (held.right (by simp; omega))))
  | beginUntil p body =>
    have room := held.inside (by simp [emit])
    have stepped (st : Stacks w π ν σ) := step_branch0 wide small (by omega) st (held.right (by rw [length_emit]))
    refine turning (k := 0) (fun st => body st held.left) (fun st e failed => by rw [stepped, failed]; rfl)
      (fun st st' went => by rw [stepped, went]; rfl) (fun st st' went => by rw [stepped, went]; rfl) here
        (fun st => rfl) fuel (le_refl fuel) st
  | beginAgain p body =>
    have room := held.inside (by simp [emit])
    have stepped (st : Stacks w π ν σ) := step_branch wide small (by omega) st (held.right (by rw [length_emit]))
    refine turning (k := 0) (fun st => body st held.left) (fun st e failed => by cases failed)
      (fun st st' went => by cases went) (fun st st' went => by cases went; exact stepped st) here (fun st => rfl) fuel
        (le_refl fuel) st
  | beginWhile p q first second =>
    have room := held.inside (by simp [emit])
    rw [length_emit, size] at room
    have stepped (st : Stacks w π ν σ) :=
      step_branch0 wide small (by omega) st (held.left.left.right (a := start + p.size) (by simp))
    have back (st : Stacks w π ν σ) :=
      step_branch wide small (by omega) st (held.right (a := start + p.size + q.size + 2) (by simp; omega))
    have tail : start + p.size + 2 + q.size = start + p.size + q.size + 2 := by omega
    refine turning (k := 1) (fun st => first st held.left.left.left)
      (fun st e failed => ?_) (fun st st' went => ?_) (fun st st' went => ?_)
      (fun st => tail ▸ second st (held.left.right (by simp; omega))) (fun st => ?_) fuel (le_refl fuel) st
    · cases popped : m.popFlag st with
      | error e' =>
        simp only [popped, bind, Except.bind] at failed
        cases failed
        rw [stepped, popped]
        rfl
      | ok flagged => simp only [popped, bind, Except.bind] at failed; cases failed
    · cases popped : m.popFlag st with
      | error e' => simp only [popped, bind, Except.bind] at went; cases went
      | ok flagged =>
        obtain ⟨flag, st''⟩ := flagged
        simp only [popped, bind, Except.bind] at went
        cases flag <;> cases went
        rw [stepped, popped]
        simp only [Except.map, size, Nat.add_assoc, Bool.false_eq_true, if_false]
    · cases popped : m.popFlag st with
      | error e' => simp only [popped, bind, Except.bind] at went; cases went
      | ok flagged =>
        obtain ⟨flag, st''⟩ := flagged
        simp only [popped, bind, Except.bind] at went
        cases flag <;> cases went
        rw [stepped, popped]
        rfl
    · rw [after_one, Machine.next, back]
      rfl
  | doLoop _ _ p body =>
    have room := held.inside (by simp [emit])
    rw [length_emit, size] at room
    have entered := step_do st held.left.left
    have stepped (st : Stacks w π ν σ) :=
      step_loop wide small (by omega) st (held.right (a := start + p.size + 2) (by simp; omega))
    have middle : start + 2 + p.size = start + p.size + 2 := by omega
    have last := Nat.add_assoc start p.size 4
    refine attempt (fun e failed => by rw [entered, failed]; rfl) ?_
    rintro ⟨equal, st'⟩ went
    refine last ▸ caught ?_
    cases equal with
    | true =>
      exact jumping (by rw [entered, went]; rfl)
    | false =>
      refine fewer (Nat.le_succ _)
        (step (by rw [entered, went]; rfl) (turning (k := 0) (fun st => middle ▸ body st (held.left.right rfl))
        (fun st e failed => ?_) (fun st st' went => ?_) (fun st st' went => ?_) here (fun st => rfl) fuel
        (le_refl fuel) st'))
      all_goals rw [stepped]
      · rw [failed]; rfl
      · rw [went]; rfl
      · rw [went]; rfl

end

open Prog Meets in
theorem eval_meets {defs : ν → Prog w π ν} (wide : 32 ≤ w) (small : m.dict.length < 2 ^ 31)
    (bodies : ∀ name, Held m (m.param name) ((defs name).emit (m.param name) ++ [.word .semiParen])) (p : Prog w π ν)
    (held : Held m start (p.emit start)) : Meets m fuel (start, st) (start + p.size) (eval m defs fuel p start st) := by
  induction fuel generalizing p start st with
  | zero =>
    have callees (name : ν) (st : Stacks w π ν σ) (last : Nat) : Meets m (0 - 1) (m.param name, st) last none :=
      ⟨0, _, le_refl 0, rfl⟩
    exact evalWith_meets wide small callees p st held
  | succ fuel ih =>
    have callees (name : ν) (st : Stacks w π ν σ) (last : Nat) : Meets m (fuel + 1 - 1) (m.param name, st) last
        ((eval m defs fuel (defs name) (m.param name) st).bind
          (·.andThen fun st => tried (Machine.vmPopIP st) fun popped => some (.jumped popped.1 popped.2))) := by
      refine followed (ih (defs name) (bodies name).left) fun st' _ => ?_
      have stepped : m.step (m.param name + (defs name).size, st') = Machine.vmPopIP st' := by
        rw [step_word ((bodies name).right (by rw [length_emit])).head]
        rfl
      exact jumping stepped
    exact evalWith_meets wide small callees p st held

/-- Compiled from source, a text of definitions runs as its programs mean it: whatever machine has the dictionary that
comes of the text and finds each word in it, and whichever of the words it is in. -/
theorem compileText_runs [DecidableEq ν] (wide : 32 ≤ w) {nCells : Nat} (header : ν → List (Cell w π ν))
    (defs : ν → Prog w π ν) (names : List ν) (every : ∀ name, name ∈ names) (s : Compiler w π ν)
    (room : ∀ name, s.pStack.length + (defs name).marks < nCells) :
    ∃ s', compileText nCells header (names.map fun name => (name, (defs name).tokens ++ [.semicolonCoIm])) s = .ok s' ∧
      s'.pStack = s.pStack ∧ s.dict <+: s'.dict ∧
      ∀ (m : Machine w π ν σ), m.dict = s'.dict → m.dict.length < 2 ^ 31 →
        (∀ name, s'.words.lookup name = some (m.param name)) →
        ∀ fuel name st, Meets m fuel (m.param name, st) (m.param name + (defs name).size)
          (Prog.eval m defs fuel (defs name) (m.param name) st) := by
  obtain ⟨s', added, compiled, stack, front, words, all, held⟩ :=
    compileText_ok header defs names fun name _ => room name
  refine ⟨s', compiled, stack, front, fun m dict small found fuel name st => ?_⟩
  have bodies (name : ν) : Held m (m.param name) ((defs name).emit (m.param name) ++ [.word .semiParen]) := by
    obtain ⟨_, member⟩ := all name (every name)
    have newest := found name
    rw [words, lookup_append] at newest
    cases first : added.lookup name with
    | none => exact absurd (lookup_eq_none_iff.mp first _ member) (by simp)
    | some b =>
      rw [first, Option.some_or] at newest
      obtain ⟨before, _, split, _⟩ := lookup_eq_some_iff.mp first
      have here := held name b (split ▸ mem_append_right before mem_cons_self)
      rw [Held, dict, ← Option.some.inj newest]
      exact here
  exact eval_meets wide small bodies (defs name) (bodies name).left

/-- `: false begin 1 until ;` and `: true 3 0 do i if leave then false loop ;`. -/
def samples : Bool → Prog 64 Unit Bool
  | false => .beginUntil (.literal 1)
  | true => .seq (.seq (.literal 3) (.literal 0)) (.doLoop false false (.seq (.seq (.prim ()) (.ifThen .leave)) (.call false)))

def samplesCompiled : Option (Compiler 64 Unit Bool) :=
  (compileText 8 (fun _ => [.int 0]) ([false, true].map fun name => (name, (samples name).tokens ++ [.semicolonCoIm]))
    ⟨[], [], none, [], false⟩).toOption

/-- The word in C is `i`. -/
def sampler : Machine 64 Unit Bool Unit where
  dict := samplesCompiled.elim [] Compiler.dict
  param name := (samplesCompiled.bind fun s => s.words.lookup name).getD 0
  code _ st := match st.rStack with
    | index :: _ => .ok { st with pStack := index :: st.pStack }
    | [] => .error .undefined
  nPStack := 8
  nRStack := 8

/-- The second turn of the loop leaves it. -/
theorem samples_run : ∃ n, after sampler.next n (sampler.param true, ⟨[], [], ()⟩) =
    some (sampler.param true + (samples true).size, ⟨[], [], ()⟩) := by
  obtain ⟨s', compiled, -, -, runs⟩ := compileText_runs (by decide) (fun _ => [.int 0]) samples [false, true] (by decide)
    ⟨[], [], none, [], false⟩ (show ∀ name, 0 + (samples name).marks < 8 by decide)
  have same : samplesCompiled = some s' := congrArg Except.toOption compiled
  have dict : sampler.dict = s'.dict := by rw [sampler, same]; rfl
  have words (name : Bool) : s'.words.lookup name = some (sampler.param name) := by
    have found : samplesCompiled.bind (fun s => s.words.lookup name) = some (sampler.param name) := by cases name <;> rfl
    rwa [same] at found
  exact runs sampler dict (by decide) words 9 true ⟨[], [], ()⟩

section
variable {work : BitVec w → List (Cell w π ν) × σ → List (Cell w π ν) × σ} {index limit : BitVec w} {leave : Cell w π ν}
  {rStack : List (Cell w π ν)} {kept : List (Cell w π ν) × σ}

/-- The stacks inside a counted loop. -/
def counting (index limit : BitVec w) (leave : Cell w π ν) (rStack : List (Cell w π ν)) (kept : List (Cell w π ν) × σ) :
    Stacks w π ν σ :=
  ⟨kept.1, .int index :: .int limit :: leave :: rStack, kept.2⟩

theorem toInt_next (wide : 1 < w) (fits : index.toInt + 1 < 2 ^ (w - 1)) : (index + 1).toInt = index.toInt + 1 := by
  have low := BitVec.le_toInt index
  have split : (2 : Int) ^ w = 2 * 2 ^ (w - 1) := by rw [← pow_succ', Nat.sub_add_cancel (by omega)]
  have one : (1 : BitVec w).toInt = 1 := BitVec.toInt_one wide
  rw [BitVec.toInt_add, one]
  exact Int.bmod_eq_of_le_mul_two (by push_cast; omega) (by push_cast; omega)

private theorem loopParen_counting (wide : 1 < w) (fits : index.toInt + 1 < 2 ^ (w - 1)) :
    Machine.loopParen (counting index limit leave rStack kept) =
      if limit.toInt ≤ index.toInt + 1 then .ok (true, ⟨kept.1, rStack, kept.2⟩)
      else .ok (false, counting (index + 1) limit leave rStack kept) := by
  have decided : limit.sle (index + 1) = decide (limit.toInt ≤ index.toInt + 1) := by
    rw [BitVec.sle_eq_decide, toInt_next wide fits]
  simp only [Machine.loopParen, Machine.nextIndex, counting, decided, decide_eq_true_eq]

/-- The turns of a loop from `first` up to `limit`: one at least, but none of `?do` where they are equal. -/
def loopTurns (asks : Bool) (first limit : BitVec w) : Nat :=
  if asks ∧ limit = first then 0 else max 1 (limit.toInt - first.toInt).toNat

/-- One turn of the loop, from the body on: out of it, or back with the next index. -/
theorem turn_counted (wide : 32 ≤ w) (small : m.dict.length < 2 ^ 31) (inside : start ≤ m.dict.length)
    (held : Held m a [.word .loopParen, offset (a + 1) start]) (fits : index.toInt + 1 < 2 ^ (w - 1))
    (worked : after m.next n vm = some (a, counting index limit leave rStack kept)) :
    after m.next (n + 1) vm = some (if limit.toInt ≤ index.toInt + 1 then (a + 2, ⟨kept.1, rStack, kept.2⟩)
      else (start, counting (index + 1) limit leave rStack kept)) := by
  have stepped := step_loop wide small inside (counting index limit leave rStack kept)
    (show Held m a [.word (if false then .plusLoopParen else .loopParen), _] from held)
  rw [if_neg Bool.false_ne_true, loopParen_counting (by omega) fits] at stepped
  refine after_trans worked ?_
  rw [after_one, Machine.next, stepped]
  split <;> rfl

theorem turns_counted (wide : 32 ≤ w) (small : m.dict.length < 2 ^ 31) (inside : start ≤ m.dict.length)
    (held : Held m a [.word .loopParen, offset (a + 1) start]) (turn : Nat) (states : Nat → List (Cell w π ν) × σ)
    (index : BitVec w)
    (bodies : ∀ k ≤ turn, ∃ n,
      after m.next n (start, counting (index + BitVec.ofNat w k) limit leave rStack (states k)) =
      some (a, counting (index + BitVec.ofNat w k) limit leave rStack (states (k + 1))))
    (fits : index.toInt + 1 < 2 ^ (w - 1)) (left : max 1 (limit.toInt - index.toInt).toNat = turn + 1) :
    ∃ n, after m.next n (start, counting index limit leave rStack (states 0)) =
      some (a + 2, ⟨(states (turn + 1)).1, rStack, (states (turn + 1)).2⟩) := by
  induction turn generalizing index states with
  | zero =>
    obtain ⟨n, worked⟩ := bodies 0 (Nat.le_refl 0)
    have ended := turn_counted wide small inside held (by rwa [BitVec.add_zero]) worked
    rw [BitVec.add_zero, if_pos (by omega)] at ended
    exact ⟨n + 1, ended⟩
  | succ turn ih =>
    obtain ⟨n, worked⟩ := bodies 0 (Nat.zero_le _)
    have again := turn_counted wide small inside held (by rwa [BitVec.add_zero]) worked
    rw [BitVec.add_zero, if_neg (by omega)] at again
    have high := BitVec.toInt_lt (x := limit)
    have next := toInt_next (by omega) fits
    have later (k : Nat) (less : k ≤ turn) := bodies (k + 1) (by omega)
    have shifted (k : Nat) : index + BitVec.ofNat w (k + 1) = index + 1 + BitVec.ofNat w k := by
      rw [Nat.add_comm k 1, BitVec.ofNat_add, ← BitVec.add_assoc]
      rfl
    simp only [shifted] at later
    obtain ⟨k, rest⟩ := ih (fun k => states (k + 1)) (index + 1) later (by omega) (by omega)
    exact ⟨n + 1 + k, after_trans again rest⟩

/-- A loop does its turns with `first` and the numbers behind it as the index, where each of them takes the stack and
the rest from one of `states` to the next. -/
theorem doLoop_counts (wide : 32 ≤ w) (small : m.dict.length < 2 ^ 31) (start : Nat) (p : Prog w π ν) (asks : Bool)
    (held : Held m start ((Prog.doLoop asks false p).emit start)) (first limit : BitVec w) (rStack : List (Cell w π ν))
    (states : Nat → List (Cell w π ν) × σ)
    (bodies : ∀ k < loopTurns asks first limit,
      ∃ n, after m.next n (start + 2, counting (first + BitVec.ofNat w k) limit (.addr (start + p.size + 4)) rStack (states k)) =
        some (start + p.size + 2, counting (first + BitVec.ofNat w k) limit (.addr (start + p.size + 4)) rStack (states (k + 1))))
    (fits : first.toInt + 1 < 2 ^ (w - 1)) (room : rStack.length + 3 ≤ m.nRStack) (depth : (states 0).1.length ≤ m.nPStack) :
    ∃ n, after m.next n (start, ⟨.int first :: .int limit :: (states 0).1, rStack, (states 0).2⟩) =
      some (start + p.size + 4, ⟨(states (loopTurns asks first limit)).1, rStack, (states (loopTurns asks first limit)).2⟩) := by
  have inside := held.inside (by simp [Prog.emit])
  rw [Prog.length_emit, Prog.size] at inside
  have entered := step_do ⟨.int first :: .int limit :: (states 0).1, rStack, (states 0).2⟩ held.left.left
  rw [Machine.doParen, vmCheckStack_ok (by simp) (by simp only [length_cons]; omega)] at entered
  by_cases equal : asks = true ∧ limit = first
  · rw [loopTurns, if_pos equal]
    simp only [if_pos equal] at entered
    refine ⟨1, ?_⟩
    rw [after_one, Machine.next, entered, Machine.pushR, if_pos (by simp only [length_singleton]; omega)]
    rfl
  · rw [loopTurns, if_neg equal] at bodies ⊢
    simp only [if_neg equal] at entered
    rw [Machine.pushR, if_pos (by simp only [length_cons, length_nil]; omega)] at entered
    have one : after m.next 1 (start, ⟨.int first :: .int limit :: (states 0).1, rStack, (states 0).2⟩) =
        some (start + 2, counting first limit (.addr (start + p.size + 4)) rStack (states 0)) := by
      rw [after_one, Machine.next, entered]
      rfl
    obtain ⟨turn, count⟩ : ∃ turn, max 1 (limit.toInt - first.toInt).toNat = turn + 1 := ⟨_, (Nat.sub_add_cancel (by omega)).symm⟩
    rw [count] at bodies ⊢
    obtain ⟨n, rest⟩ := turns_counted wide small (by omega) (held.right (by simp; omega)) turn states first
      (fun k less => bodies k (Nat.lt_succ_of_le less)) fits count
    exact ⟨1 + n, after_trans one rest⟩

/-- `0 do i + loop`, with `true` for `i`. -/
def adder : Machine 64 Bool Empty Unit where
  dict := (Prog.doLoop false false (.seq (.prim true) (.prim false))).emit 0
  param := Empty.elim
  code word st := match word, st.pStack, st.rStack with
    | true, pStack, index :: _ => .ok { st with pStack := index :: pStack }
    | false, .int a :: .int b :: rest, _ => .ok { st with pStack := .int (a + b) :: rest }
    | _, _, _ => .error .underflow
  nPStack := 8
  nRStack := 8

theorem adder_counts : ∃ n, after adder.next n (0, ⟨[.int 0, .int 5, .int 7], [], ()⟩) = some (6, ⟨[.int 17], [], ()⟩) := by
  refine doLoop_counts (m := adder) (by decide) (by decide) 0 (.seq (.prim true) (.prim false)) false prefix_rfl 0 5 []
    (fun k => ([.int (BitVec.ofNat 64 (7 + k * (k - 1) / 2))], ())) (fun k less => ⟨2, ?_⟩) (by decide) (by decide) (by decide)
  have five : k < 5 := less
  obtain rfl | rfl | rfl | rfl | rfl : k = 0 ∨ k = 1 ∨ k = 2 ∨ k = 3 ∨ k = 4 := by omega
  all_goals rfl

end

end Pcbsd.Ficl
