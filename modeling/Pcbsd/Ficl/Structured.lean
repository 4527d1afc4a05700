import Pcbsd.Ficl.Control

/-! What the control structures of a definition are for: their words as a syntax tree, the cells of the dictionary
that stand for the tree, and its meaning, which knows no branches. -/

namespace Pcbsd.Ficl

variable {w : Nat} {π ν σ : Type}

inductive Prog (w : Nat) (π ν : Type) where
  | nil
  | seq (p q : Prog w π ν)
  | literal (n : BitVec w)
  | prim (p : π)
  | call (name : ν)
  | exit
  | leave
  | ifThen (p : Prog w π ν)
  | ifElse (p q : Prog w π ν)
  | beginUntil (p : Prog w π ν)
  | beginAgain (p : Prog w π ν)
  | beginWhile (p q : Prog w π ν)
  | doLoop (asks plus : Bool) (p : Prog w π ν)
  deriving DecidableEq

namespace Prog

def tokens : Prog w π ν → List (Token w π ν)
  | nil => []
  | seq p q => p.tokens ++ q.tokens
  | literal n => [.literal n]
  | prim p => [.word (.prim p)]
  | call name => [.word (.colonParen name)]
  | exit => [.word .exitParen]
  | leave => [.word .leaveCo]
  | ifThen p => .ifCoIm :: p.tokens ++ [.endifCoIm]
  | ifElse p q => .ifCoIm :: p.tokens ++ .elseCoIm :: q.tokens ++ [.endifCoIm]
  | beginUntil p => .beginCoIm :: p.tokens ++ [.untilCoIm]
  | beginAgain p => .beginCoIm :: p.tokens ++ [.againCoIm]
  | beginWhile p q => .beginCoIm :: p.tokens ++ .whileCoIm :: q.tokens ++ [.repeatCoIm]
  | doLoop asks plus p => (if asks then .qDoCoIm else .doCoIm) :: p.tokens ++ [if plus then .plusLoopCoIm else .loopCoIm]

def size : Prog w π ν → Nat
  | nil => 0
  | seq p q => p.size + q.size
  | literal _ => 2
  | prim _ | call _ | exit | leave => 1
  | ifThen p => p.size + 2
  | ifElse p q => p.size + q.size + 4
  | beginUntil p | beginAgain p => p.size + 2
  | beginWhile p q => p.size + q.size + 4
  | doLoop _ _ p => p.size + 4

/-- The cells of the parameter stack that the compiler needs. -/
def marks : Prog w π ν → Nat
  | nil | prim _ | call _ | exit | leave => 0
  | seq p q => max p.marks q.marks
  | literal _ => 1
  | ifThen p | beginUntil p | beginAgain p => p.marks + 2
  | ifElse p q => max p.marks q.marks + 2
  | beginWhile p q => max (p.marks + 2) (q.marks + 4)
  | doLoop _ _ p => p.marks + 4

/-- The code of a program that begins at the cell `start`. -/
def emit (start : Nat) : Prog w π ν → List (Cell w π ν)
  | nil => []
  | seq p q => p.emit start ++ q.emit (start + p.size)
  | literal n => [.word .litParen, .int n]
  | prim p => [.word (.prim p)]
  | call name => [.word (.colonParen name)]
  | exit => [.word .exitParen]
  | leave => [.word .leaveCo]
  | ifThen p => [.word .branch0, offset (start + 1) (start + p.size + 2)] ++ p.emit (start + 2)
  | ifElse p q =>
    [.word .branch0, offset (start + 1) (start + p.size + 4)] ++ p.emit (start + 2) ++
      [.word .branchParen, offset (start + p.size + 3) (start + p.size + q.size + 4)] ++ q.emit (start + p.size + 4)
  | beginUntil p => p.emit start ++ [.word .branch0, offset (start + p.size + 1) start]
  | beginAgain p => p.emit start ++ [.word .branchParen, offset (start + p.size + 1) start]
  | beginWhile p q =>
    p.emit start ++ [.word .branch0, offset (start + p.size + 1) (start + p.size + q.size + 4)] ++
      q.emit (start + p.size + 2) ++ [.word .branchParen, offset (start + p.size + q.size + 3) start]
  | doLoop asks plus p =>
    [.word (if asks then .qDoParen else .doParen), .addr (start + p.size + 4)] ++ p.emit (start + 2) ++
      [.word (if plus then .plusLoopParen else .loopParen), offset (start + p.size + 3) (start + 2)]

@[simp] theorem length_emit (p : Prog w π ν) (start : Nat) : (p.emit start).length = p.size := by
  induction p generalizing start with
  | seq p q first second => rw [emit, List.length_append, first, second, size]
  | ifThen p body => simp only [emit, size, List.length_append, List.length_cons, List.length_nil, body]; omega
  | ifElse p q first second =>
    simp only [emit, size, List.length_append, List.length_cons, List.length_nil, first, second]; omega
  | beginWhile p q first second =>
    simp only [emit, size, List.length_append, List.length_cons, List.length_nil, first, second]; omega
  | doLoop _ _ p body => simp only [emit, size, List.length_append, List.length_cons, List.length_nil, body]; omega
  | beginUntil p body => rw [emit, List.length_append, body, size]; rfl
  | beginAgain p body => rw [emit, List.length_append, body, size]; rfl
  | nil => rfl
  | literal _ => rfl
  | prim p => rfl
  | call _ => rfl
  | exit => rfl
  | leave => rfl

end Prog

/-- How a piece of code is left: at its end, for a cell that a return stack names, or with an error. -/
inductive Outcome (w : Nat) (π ν σ : Type) where
  | done (st : Stacks w π ν σ)
  | jumped (a : Nat) (st : Stacks w π ν σ)
  | stopped (e : Stop)

namespace Outcome

def andThen : Outcome w π ν σ → (Stacks w π ν σ → Option (Outcome w π ν σ)) → Option (Outcome w π ν σ)
  | done st, next => next st
  | jumped a st, _ => some (jumped a st)
  | stopped e, _ => some (stopped e)

/-- A jump to the end of the code is no jump. -/
def leaving (last : Nat) : Outcome w π ν σ → Outcome w π ν σ
  | jumped a st => if a = last then done st else jumped a st
  | outcome => outcome

end Outcome

def tried {α : Type} (result : Except Stop α) (next : α → Option (Outcome w π ν σ)) : Option (Outcome w π ν σ) :=
  match result with
  | .ok a => next a
  | .error e => some (.stopped e)

/-- The turns of a loop, up to a number of them: `test` says whether it is over, and `tail` is what a turn does behind
the test. -/
def turns (head : Stacks w π ν σ → Option (Outcome w π ν σ))
    (test : Stacks w π ν σ → Except Stop (Bool × Stacks w π ν σ))
    (tail : Stacks w π ν σ → Option (Outcome w π ν σ)) : Nat → Stacks w π ν σ → Option (Outcome w π ν σ)
  | 0, _ => none
  | n + 1, st => (head st).bind fun outcome => outcome.andThen fun st => tried (test st) fun (past, st) =>
    if past then some (.done st) else (tail st).bind fun outcome => outcome.andThen (turns head test tail n)

namespace Prog
variable (m : Machine w π ν σ)

/-- The meaning of a program at the place where its code begins, unless it takes more turns of a loop than the fuel;
`callee` is the meaning of a definition's body. -/
def evalWith (fuel : Nat) (callee : ν → Stacks w π ν σ → Option (Outcome w π ν σ)) :
    Prog w π ν → Nat → Stacks w π ν σ → Option (Outcome w π ν σ)
  | nil, _, st => some (.done st)
  | seq p q, start, st => (p.evalWith fuel callee start st).bind (·.andThen (q.evalWith fuel callee (start + p.size)))
  | literal n, _, st => tried (m.literalParen st (.int n)) (some ∘ .done)
  | prim p, _, st => tried (m.code p st) (some ∘ .done)
  | call name, start, st =>
    tried (m.pushR st [.addr (start + 1)]) fun st => (callee name st).map (·.leaving (start + 1))
  | exit, _, st => tried (Machine.vmPopIP st) fun (a, st) => some (.jumped a st)
  | leave, _, st => tried (Machine.leaveCo st) fun (a, st) => some (.jumped a st)
  | ifThen p, start, st =>
    tried (m.popFlag st) fun (flag, st) => if flag then p.evalWith fuel callee (start + 2) st else some (.done st)
  | ifElse p q, start, st =>
    tried (m.popFlag st) fun (flag, st) =>
      if flag then p.evalWith fuel callee (start + 2) st else q.evalWith fuel callee (start + p.size + 4) st
  | beginUntil p, start, st => turns (p.evalWith fuel callee start) m.popFlag (some ∘ .done) fuel st
  | beginAgain p, start, st => turns (p.evalWith fuel callee start) (fun st => .ok (false, st)) (some ∘ .done) fuel st
  | beginWhile p q, start, st =>
    turns (p.evalWith fuel callee start) (fun st => do let (flag, st) ← m.popFlag st; .ok (!flag, st))
      (q.evalWith fuel callee (start + p.size + 2)) fuel st
  | doLoop asks plus p, start, st =>
    tried (m.doParen st asks (.addr (start + p.size + 4))) fun (equal, st) =>
      (if equal then tried (Machine.vmPopIP st) fun (a, st) => some (.jumped a st)
        else turns (p.evalWith fuel callee (start + 2)) (if plus then m.plusLoopParen else Machine.loopParen)
        (some ∘ .done) fuel st).map
        (·.leaving (start + p.size + 4))

/-- The meaning of the code of a program in a text of definitions. -/
def eval (defs : ν → Prog w π ν) : Nat → Prog w π ν → Nat → Stacks w π ν σ → Option (Outcome w π ν σ)
  | 0 => Prog.evalWith m 0 fun _ _ => none
  | fuel + 1 => Prog.evalWith m (fuel + 1) fun name st =>
    (eval defs fuel (defs name) (m.param name) st).bind
      (·.andThen fun st => tried (Machine.vmPopIP st) fun (a, st) => some (.jumped a st))

end Prog

end Pcbsd.Ficl
