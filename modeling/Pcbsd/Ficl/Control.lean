import Mathlib.Algebra.Order.Ring.Nat

/-! The control structures of ficl, boot/ficl/words.c: the immediate words that compile branches into the dictionary,
and what the inner interpreter of vm.c does with them. An address is the number of a cell of the dictionary, and a
cell holds what was stored in it: what reads it as something else, like a push that finds no room, stops with
`undefined`. -/

namespace Pcbsd.Ficl

variable {w : Nat} {π ν σ : Type}

/-- The strings whose addresses mark the cells of a control structure. -/
inductive Tag where
  | doTag
  | colonTag
  | leaveTag
  | destTag
  | origTag
  deriving DecidableEq

/-- The code of a word: one in C that leaves ip alone, a colon definition, or a word that the compiler puts in
itself. -/
inductive Word (π ν : Type) where
  | prim (p : π)
  | colonParen (name : ν)
  | litParen
  | branchParen
  | branch0
  | doParen
  | qDoParen
  | loopParen
  | plusLoopParen
  | leaveCo
  | exitParen
  | semiParen
  deriving DecidableEq

inductive Cell (w : Nat) (π ν : Type) where
  | int (n : BitVec w)
  | addr (a : Nat)
  | tag (t : Tag)
  | word (f : Word π ν)
  deriving DecidableEq

inductive Stop where
  | underflow
  | overflow
  | unmatched (tag : Tag)
  | undefined
  deriving DecidableEq

/-- vmCheckStack of a stack of `nCells` cells that holds `depth`. -/
def vmCheckStack (nCells depth popCells pushCells : Nat) : Except Stop Unit :=
  if depth < popCells then .error .underflow
  else if nCells + popCells < depth + pushCells then .error .overflow
  else .ok ()

/-- stackRoll with n of 0 or more, the top of the stack in front. -/
def stackRoll {α : Type} (n : Nat) (stack : List α) : List α :=
  (stack.drop n).take 1 ++ stack.take n ++ stack.drop (n + 1)

/-- The distance of two cells, as a FICL_INT. -/
def offset (patchAddr target : Nat) : Cell w π ν := .int (BitVec.ofInt w (target - patchAddr))

/-- The cells of the dictionary up to `here`, the words in it with the places of their params, the word that is being
defined, and the parameter stack with its top in front. -/
structure Compiler (w : Nat) (π ν : Type) where
  dict : List (Cell w π ν)
  words : List (ν × Nat)
  smudge : Option (ν × Nat)
  pStack : List (Cell w π ν)
  compiling : Bool
  deriving DecidableEq

namespace Compiler
variable (nCells : Nat) (s : Compiler w π ν)

def here : Nat := s.dict.length

/-- dictAppendCell and dictAppendUNS; the dictionary is taken to have room. -/
def append (c : Cell w π ν) : Compiler w π ν := { s with dict := s.dict ++ [c] }

/-- A store at a place in front of here. -/
def store (a : Nat) (c : Cell w π ν) : Except Stop (Compiler w π ν) :=
  if a < s.here then .ok { s with dict := s.dict.set a c } else .error .undefined

def push (c : Cell w π ν) : Except Stop (Compiler w π ν) :=
  if s.pStack.length < nCells then .ok { s with pStack := c :: s.pStack } else .error .undefined

def popPtr : Except Stop (Nat × Compiler w π ν) :=
  match s.pStack with
  | .addr a :: rest => .ok (a, { s with pStack := rest })
  | _ => .error .undefined

def markBranch (tag : Tag) : Except Stop (Compiler w π ν) := do (← s.push nCells (.addr s.here)).push nCells (.tag tag)

def matchControlTag (tag : Tag) : Except Stop (Compiler w π ν) := do
  vmCheckStack nCells s.pStack.length 1 0
  match s.pStack with
  | .tag t :: rest => if t = tag then .ok { s with pStack := rest } else .error (.unmatched tag)
  | _ => .error .undefined

def resolveBackBranch (tag : Tag) : Except Stop (Compiler w π ν) := do
  let s ← s.matchControlTag nCells tag
  vmCheckStack nCells s.pStack.length 1 0
  let (patchAddr, s) ← s.popPtr
  .ok (s.append (offset s.here patchAddr))

def resolveForwardBranch (tag : Tag) : Except Stop (Compiler w π ν) := do
  let s ← s.matchControlTag nCells tag
  vmCheckStack nCells s.pStack.length 1 0
  let (patchAddr, s) ← s.popPtr
  s.store patchAddr (offset patchAddr s.here)

/-- A tag that does not match is only warned of here. -/
def resolveAbsBranch : Except Stop (Compiler w π ν) := do
  vmCheckStack nCells s.pStack.length 2 0
  match s.pStack with
  | .tag _ :: rest =>
    let (patchAddr, s) ← { s with pStack := rest }.popPtr
    s.store patchAddr (.addr s.here)
  | _ => .error .undefined

def literalIm : Except Stop (Compiler w π ν) :=
  match s.pStack with
  | c :: rest => .ok (({ s with pStack := rest }.append (.word .litParen)).append c)
  | [] => .error .undefined

def ifCoIm : Except Stop (Compiler w π ν) := do
  let s ← (s.append (.word .branch0)).markBranch nCells .origTag
  .ok (s.append (.int 1))

def elseCoIm : Except Stop (Compiler w π ν) := do
  let s ← (s.append (.word .branchParen)).matchControlTag nCells .origTag
  let (patchAddr, s) ← s.popPtr
  let s ← s.markBranch nCells .origTag
  let s := s.append (.int 1)
  s.store patchAddr (offset patchAddr s.here)

def endifCoIm : Except Stop (Compiler w π ν) := s.resolveForwardBranch nCells .origTag

def beginCoIm : Except Stop (Compiler w π ν) := s.markBranch nCells .destTag

def untilCoIm : Except Stop (Compiler w π ν) := (s.append (.word .branch0)).resolveBackBranch nCells .destTag

def againCoIm : Except Stop (Compiler w π ν) := (s.append (.word .branchParen)).resolveBackBranch nCells .destTag

def twoSwap : Except Stop (Compiler w π ν) := do
  vmCheckStack nCells s.pStack.length 4 4
  .ok { s with pStack := stackRoll 3 (stackRoll 3 s.pStack) }

def whileCoIm : Except Stop (Compiler w π ν) := do
  let s ← (s.append (.word .branch0)).markBranch nCells .origTag
  let s ← s.twoSwap nCells
  .ok (s.append (.int 1))

def repeatCoIm : Except Stop (Compiler w π ν) := do
  let s ← (s.append (.word .branchParen)).resolveBackBranch nCells .destTag
  s.resolveForwardBranch nCells .origTag

/-- doCoIm and qDoCoIm. -/
def doCoIm (run : Word π ν) : Except Stop (Compiler w π ν) := do
  let s ← (s.append (.word run)).markBranch nCells .leaveTag
  (s.append (.int 0)).markBranch nCells .doTag

/-- loopCoIm and plusLoopCoIm. -/
def loopCoIm (run : Word π ν) : Except Stop (Compiler w π ν) := do
  let s ← (s.append (.word run)).resolveBackBranch nCells .doTag
  s.resolveAbsBranch nCells

/-- The cells in front of a word's param are what dictAppendWord2 writes: its name and the rest of its FICL_WORD. -/
def colon (header : List (Cell w π ν)) (name : ν) : Except Stop (Compiler w π ν) := do
  let s ← { s with compiling := true }.push nCells (.tag .colonTag)
  .ok { s with dict := s.dict ++ header, smudge := some (name, s.here + header.length) }

/-- semicolonCoIm of a definition without locals, with dictUnsmudge. -/
def semicolonCoIm : Except Stop (Compiler w π ν) := do
  let s ← s.matchControlTag nCells .colonTag
  let s := s.append (.word .semiParen)
  .ok { s with compiling := false, words := s.smudge.toList ++ s.words }

end Compiler

/-- The words of a definition, each with the name of the code behind it. -/
inductive Token (w : Nat) (π ν : Type) where
  | literal (n : BitVec w)
  | word (f : Word π ν)
  | ifCoIm
  | elseCoIm
  | endifCoIm
  | beginCoIm
  | untilCoIm
  | againCoIm
  | whileCoIm
  | repeatCoIm
  | doCoIm
  | qDoCoIm
  | loopCoIm
  | plusLoopCoIm
  | semicolonCoIm
  deriving DecidableEq

/-- What the outer interpreter does with a word while it compiles: an immediate one is executed, any other appended. -/
def Token.compile (nCells : Nat) (s : Compiler w π ν) : Token w π ν → Except Stop (Compiler w π ν)
  | .literal n => do (← s.push nCells (.int n)).literalIm
  | .word f => .ok (s.append (.word f))
  | .ifCoIm => s.ifCoIm nCells
  | .elseCoIm => s.elseCoIm nCells
  | .endifCoIm => s.endifCoIm nCells
  | .beginCoIm => s.beginCoIm nCells
  | .untilCoIm => s.untilCoIm nCells
  | .againCoIm => s.againCoIm nCells
  | .whileCoIm => s.whileCoIm nCells
  | .repeatCoIm => s.repeatCoIm nCells
  | .doCoIm => s.doCoIm nCells .doParen
  | .qDoCoIm => s.doCoIm nCells .qDoParen
  | .loopCoIm => s.loopCoIm nCells .loopParen
  | .plusLoopCoIm => s.loopCoIm nCells .plusLoopParen
  | .semicolonCoIm => s.semicolonCoIm nCells

def compileAll (nCells : Nat) : List (Token w π ν) → Compiler w π ν → Except Stop (Compiler w π ν)
  | [], s => .ok s
  | token :: tokens, s => do compileAll nCells tokens (← token.compile nCells s)

/-- The definitions of a source text, one after another. -/
def compileText (nCells : Nat) (header : ν → List (Cell w π ν)) :
    List (ν × List (Token w π ν)) → Compiler w π ν → Except Stop (Compiler w π ν)
  | [], s => .ok s
  | (name, tokens) :: text, s => do
    let s ← s.colon nCells (header name) name
    compileText nCells header text (← compileAll nCells tokens s)

/-- Both stacks with their tops in front, and what else the words in C work on. -/
structure Stacks (w : Nat) (π ν σ : Type) where
  pStack : List (Cell w π ν)
  rStack : List (Cell w π ν)
  outside : σ

/-- The dictionary, which the words in C leave alone while code runs, where the code of each definition begins, what
the words in C do, and the sizes of the stacks. -/
structure Machine (w : Nat) (π ν σ : Type) where
  dict : List (Cell w π ν)
  param : ν → Nat
  code : π → Stacks w π ν σ → Except Stop (Stacks w π ν σ)
  nPStack : Nat
  nRStack : Nat

/-- What branch0 takes for true. -/
def Cell.truth : Cell w π ν → Bool
  | .int n => n ≠ 0
  | _ => true

namespace Machine
variable (m : Machine w π ν σ) (st : Stacks w π ν σ)

/-- Pushes on the return stack are not checked. -/
def pushR (cells : List (Cell w π ν)) : Except Stop (Stacks w π ν σ) :=
  if st.rStack.length + cells.length ≤ m.nRStack then .ok { st with rStack := cells ++ st.rStack }
    else .error .undefined

def vmPopIP : Except Stop (Nat × Stacks w π ν σ) :=
  match st.rStack with
  | .addr a :: rest => .ok (a, { st with rStack := rest })
  | _ => .error .undefined

def leaveCo : Except Stop (Nat × Stacks w π ν σ) :=
  match st.rStack with
  | _ :: _ :: rest => vmPopIP { st with rStack := rest }
  | _ => .error .undefined

/-- literalParen with the cell at ip. -/
def literalParen (c : Cell w π ν) : Except Stop (Stacks w π ν σ) := do
  vmCheckStack m.nPStack st.pStack.length 0 1
  .ok { st with pStack := c :: st.pStack }

/-- The flag that branch0 pops. -/
def popFlag : Except Stop (Bool × Stacks w π ν σ) := do
  vmCheckStack m.nPStack st.pStack.length 1 0
  match st.pStack with
  | flag :: rest => .ok (flag.truth, { st with pStack := rest })
  | [] => .error .undefined

/-- doParen, and qDoParen where `asks` holds, with the cell that `leave` is to jump to; the flag says that there is
nothing to count. -/
def doParen (asks : Bool) (leave : Cell w π ν) : Except Stop (Bool × Stacks w π ν σ) := do
  vmCheckStack m.nPStack st.pStack.length 2 0
  match st.pStack with
  | .int index :: .int limit :: rest =>
    if asks ∧ limit = index then .ok (true, ← m.pushR { st with pStack := rest } [leave])
    else .ok (false, ← m.pushR { st with pStack := rest } [.int index, .int limit, leave])
  | _ => .error .undefined

/-- The common part of loopParen and plusLoopParen; the flag says that the loop is over. -/
def nextIndex (past : BitVec w → BitVec w → Bool) (increment : BitVec w) : Except Stop (Bool × Stacks w π ν σ) :=
  match st.rStack with
  | .int index :: .int limit :: rest =>
    if past (index + increment) limit then
      match rest with
      | _ :: rest => .ok (true, { st with rStack := rest })
      | [] => .error .undefined
    else .ok (false, { st with rStack := .int (index + increment) :: .int limit :: rest })
  | _ => .error .undefined

def loopParen : Except Stop (Bool × Stacks w π ν σ) := nextIndex st (fun index limit => limit.sle index) 1

def plusLoopParen : Except Stop (Bool × Stacks w π ν σ) := do
  vmCheckStack m.nPStack st.pStack.length 1 0
  match st.pStack with
  | .int increment :: rest =>
    nextIndex { st with pStack := rest } (fun index limit => if increment.slt 0 then index.slt limit
      else limit.sle index) increment
  | _ => .error .undefined

def cellAt (ip : Nat) : Except Stop (Cell w π ν) := (m.dict[ip]?).elim (.error .undefined) .ok

/-- vmBranchRelative by the cell at ip, which goes through an int. -/
def branch (ip : Nat) : Except Stop Nat := do
  match ← m.cellAt ip with
  | .int n => if ip + Int.bmod n.toInt (2 ^ 32) < 0 then .error .undefined else .ok (ip + Int.bmod n.toInt (2 ^ 32)).toNat
  | _ => .error .undefined

/-- The code of a word, with ip behind it. -/
def execute (ip : Nat) : Word π ν → Except Stop (Nat × Stacks w π ν σ)
  | .prim p => do .ok (ip, ← m.code p st)
  | .colonParen name => do .ok (m.param name, ← m.pushR st [.addr ip])
  | .litParen => do .ok (ip + 1, ← m.literalParen st (← m.cellAt ip))
  | .branchParen => do .ok (← m.branch ip, st)
  | .branch0 => do
    let (flag, st) ← m.popFlag st
    if flag then .ok (ip + 1, st) else .ok (← m.branch ip, st)
  | .doParen => do .ok (ip + 1, (← m.doParen st false (← m.cellAt ip)).2)
  | .qDoParen => do
    let (equal, st) ← m.doParen st true (← m.cellAt ip)
    if equal then vmPopIP st else .ok (ip + 1, st)
  | .loopParen => do
    let (past, st) ← loopParen st
    if past then .ok (ip + 1, st) else .ok (← m.branch ip, st)
  | .plusLoopParen => do
    let (past, st) ← m.plusLoopParen st
    if past then .ok (ip + 1, st) else .ok (← m.branch ip, st)
  | .leaveCo => leaveCo st
  | .exitParen => vmPopIP st
  | .semiParen => vmPopIP st

/-- M_VM_STEP. -/
def step (vm : Nat × Stacks w π ν σ) : Except Stop (Nat × Stacks w π ν σ) := do
  match ← m.cellAt vm.1 with
  | .word f => m.execute vm.2 (vm.1 + 1) f
  | _ => .error .undefined

end Machine

end Pcbsd.Ficl
