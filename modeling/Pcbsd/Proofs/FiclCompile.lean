import Pcbsd.Ficl.Structured

/-! The compiler of ficl patches every branch: the words of a program append its code. -/

namespace Pcbsd.Ficl
open Compiler List

variable {w : Nat} {π ν : Type} {nCells a : Nat} {s s' : Compiler w π ν} {tag : Tag} {d k : List (Cell w π ν)}
    {c : Cell w π ν}

theorem vmCheckStack_ok {depth popCells pushCells : Nat} (enough : popCells ≤ depth)
    (room : depth + pushCells ≤ nCells + popCells) :
    vmCheckStack nCells depth popCells pushCells = .ok () := by
  rw [vmCheckStack, if_neg (by omega), if_neg (by omega)]

/-- A compiler with another dictionary and another stack. -/
def Compiler.laid (s : Compiler w π ν) (d k : List (Cell w π ν)) : Compiler w π ν := { s with dict := d, pStack := k }

@[simp] theorem laid_append : (s.laid d k).append c = s.laid (d ++ [c]) k := rfl

@[simp] theorem laid_here : (s.laid d k).here = d.length := rfl

theorem push_ok (room : k.length < nCells) : (s.laid d k).push nCells c = .ok (s.laid d (c :: k)) := if_pos room

theorem markBranch_ok (room : k.length + 2 ≤ nCells) :
    (s.laid d k).markBranch nCells tag = .ok (s.laid d (.tag tag :: .addr d.length :: k)) := by
  rw [markBranch, push_ok (by omega)]
  exact push_ok (by rw [length_cons]; omega)

theorem matchControlTag_ok (room : k.length < nCells) :
    (s.laid d (.tag tag :: k)).matchControlTag nCells tag = .ok (s.laid d k) := by
  rw [matchControlTag, vmCheckStack_ok (by simp [laid]) (by simp only [laid, length_cons]; omega)]
  exact if_pos rfl

theorem popPtr_ok : (s.laid d (.addr a :: k)).popPtr = .ok (a, s.laid d k) := rfl

theorem store_ok (inside : a < d.length) : (s.laid d k).store a c = .ok (s.laid (d.set a c) k) := if_pos inside

variable (room : k.length + 2 ≤ nCells)

include room

theorem resolveBackBranch_ok :
    (s.laid d (.tag tag :: .addr a :: k)).resolveBackBranch nCells tag = .ok (s.laid (d ++ [offset d.length a]) k) := by
  rw [resolveBackBranch, matchControlTag_ok (by rw [length_cons]; omega)]
  simp only [bind, Except.bind]
  rw [vmCheckStack_ok (by simp [laid]) (by simp only [laid, length_cons]; omega), popPtr_ok]
  rfl

theorem resolveForwardBranch_ok (inside : a < d.length) :
    (s.laid d (.tag tag :: .addr a :: k)).resolveForwardBranch nCells tag = .ok (s.laid (d.set a (offset a d.length)) k) := by
  rw [resolveForwardBranch, matchControlTag_ok (by rw [length_cons]; omega)]
  simp only [bind, Except.bind]
  rw [vmCheckStack_ok (by simp [laid]) (by simp only [laid, length_cons]; omega), popPtr_ok]
  exact store_ok inside

theorem resolveAbsBranch_ok (inside : a < d.length) :
    (s.laid d (.tag tag :: .addr a :: k)).resolveAbsBranch nCells = .ok (s.laid (d.set a (.addr d.length)) k) := by
  rw [resolveAbsBranch, vmCheckStack_ok (by simp [laid]) (by simp only [laid, length_cons]; omega)]
  exact store_ok inside

omit room

theorem literal_ok (n : BitVec w) (room : k.length < nCells) :
    Token.compile nCells (s.laid d k) (.literal n) = .ok (s.laid (d ++ [.word .litParen, .int n]) k) := by
  rw [Token.compile, push_ok room]
  simp [bind, Except.bind, literalIm, laid, append]

include room

theorem ifCoIm_ok :
    (s.laid d k).ifCoIm nCells = .ok (s.laid (d ++ [.word .branch0, .int 1]) (.tag .origTag :: .addr (d.length + 1) :: k)) := by
  rw [ifCoIm, laid_append, markBranch_ok room]
  simp [bind, Except.bind]

theorem elseCoIm_ok (inside : a < d.length) :
    (s.laid d (.tag .origTag :: .addr a :: k)).elseCoIm nCells =
      .ok (s.laid (d.set a (offset a (d.length + 2)) ++ [.word .branchParen, .int 1])
        (.tag .origTag :: .addr (d.length + 1) :: k)) := by
  rw [elseCoIm, laid_append, matchControlTag_ok (by rw [length_cons]; omega)]
  simp only [bind, Except.bind]
  rw [popPtr_ok]
  simp only
  rw [markBranch_ok room]
  simp only [laid_append]
  rw [store_ok (by simp only [length_append, length_singleton]; omega)]
  simp [set_append_left _ _ inside]

theorem untilCoIm_ok :
    (s.laid d (.tag .destTag :: .addr a :: k)).untilCoIm nCells =
      .ok (s.laid (d ++ [.word .branch0, offset (d.length + 1) a]) k) := by
  rw [untilCoIm, laid_append, resolveBackBranch_ok room]
  simp

theorem againCoIm_ok :
    (s.laid d (.tag .destTag :: .addr a :: k)).againCoIm nCells =
      .ok (s.laid (d ++ [.word .branchParen, offset (d.length + 1) a]) k) := by
  rw [againCoIm, laid_append, resolveBackBranch_ok room]
  simp

omit room

theorem whileCoIm_ok {t : Tag} (room : k.length + 4 ≤ nCells) :
    (s.laid d (.tag t :: .addr a :: k)).whileCoIm nCells =
      .ok (s.laid (d ++ [.word .branch0, .int 1]) (.tag t :: .addr a :: .tag .origTag :: .addr (d.length + 1) :: k)) := by
  rw [whileCoIm, laid_append, markBranch_ok (by simp only [length_cons]; omega)]
  simp only [bind, Except.bind, twoSwap]
  rw [vmCheckStack_ok (by simp [laid]) (by simp only [laid, length_cons]; omega)]
  simp [stackRoll, laid, append]

theorem repeatCoIm_ok {b : Nat} (room : k.length + 4 ≤ nCells) (inside : b < d.length) :
    (s.laid d (.tag .destTag :: .addr a :: .tag .origTag :: .addr b :: k)).repeatCoIm nCells =
      .ok (s.laid (d.set b (offset b (d.length + 2)) ++ [.word .branchParen, offset (d.length + 1) a]) k) := by
  rw [repeatCoIm, laid_append, resolveBackBranch_ok (by simp only [length_cons]; omega)]
  simp only [bind, Except.bind]
  rw [resolveForwardBranch_ok (by omega) (by simp only [length_append, length_singleton]; omega)]
  simp [set_append_left _ _ inside]

theorem doCoIm_ok {run : Word π ν} (room : k.length + 4 ≤ nCells) :
    (s.laid d k).doCoIm nCells run = .ok (s.laid (d ++ [.word run, .int 0])
      (.tag .doTag :: .addr (d.length + 2) :: .tag .leaveTag :: .addr (d.length + 1) :: k)) := by
  rw [doCoIm, laid_append, markBranch_ok (by omega)]
  simp only [bind, Except.bind, laid_append]
  rw [markBranch_ok (by simp only [length_cons]; omega)]
  simp

theorem loopCoIm_ok {run : Word π ν} {b : Nat} (room : k.length + 4 ≤ nCells) (inside : b < d.length) :
    (s.laid d (.tag .doTag :: .addr a :: .tag .leaveTag :: .addr b :: k)).loopCoIm nCells run =
      .ok (s.laid (d.set b (.addr (d.length + 2)) ++ [.word run, offset (d.length + 1) a]) k) := by
  rw [loopCoIm, laid_append, resolveBackBranch_ok (by simp only [length_cons]; omega)]
  simp only [bind, Except.bind]
  rw [resolveAbsBranch_ok (by omega) (by simp only [length_append, length_singleton]; omega)]
  simp [set_append_left _ _ inside]

theorem compileAll_cons (token : Token w π ν) {tokens : List (Token w π ν)} (one : token.compile nCells s = .ok s') :
    compileAll nCells (token :: tokens) s = compileAll nCells tokens s' := by
  rw [compileAll, one]
  rfl

theorem set_patched {α : Type} {front back : List α} {x y z : α} (place : a = front.length + 1) :
    (front ++ [x, y] ++ back).set a z = front ++ [x, z] ++ back := by
  subst place
  simp [set_append_right]

open Prog in
/-- The tokens of a program append its code and leave everything else as it was. -/
theorem compileAll_tokens (p : Prog w π ν) (more : List (Token w π ν)) (room : k.length + p.marks ≤ nCells) :
    compileAll nCells (p.tokens ++ more) (s.laid d k) = compileAll nCells more (s.laid (d ++ p.emit d.length) k) := by
  induction p generalizing d k more with
  | nil => simp [tokens, emit]
  | seq p q first second =>
    rw [marks] at room
    rw [tokens, append_assoc, first _ (by omega), second _ (by omega)]
    simp [emit]
  | literal n => exact compileAll_cons _ (literal_ok n room)
  | prim p => exact compileAll_cons _ rfl
  | call _ => exact compileAll_cons _ rfl
  | exit => exact compileAll_cons _ rfl
  | leave => exact compileAll_cons _ rfl
  | ifThen p body =>
    rw [marks] at room
    simp only [tokens, cons_append, append_assoc, nil_append]
    rw [compileAll_cons .ifCoIm (ifCoIm_ok (by omega)), body _ (by simp only [length_cons]; omega),
      compileAll_cons .endifCoIm (resolveForwardBranch_ok (by omega) (by simp)), set_patched rfl]
    simp [emit, Nat.add_assoc]
  | ifElse p q first second =>
    rw [marks] at room
    simp only [tokens, cons_append, append_assoc, nil_append]
    rw [compileAll_cons .ifCoIm (ifCoIm_ok (by omega)), first _ (by simp only [length_cons]; omega),
      compileAll_cons .elseCoIm (elseCoIm_ok (by omega) (by simp)), second _ (by simp only [length_cons]; omega),
      compileAll_cons .endifCoIm (resolveForwardBranch_ok (by omega) (by simp; omega)), set_patched (by simp),
      set_patched rfl]
    simp [emit, Nat.add_assoc]
  | beginUntil p body =>
    rw [marks] at room
    simp only [tokens, cons_append, append_assoc, nil_append]
    rw [compileAll_cons .beginCoIm (markBranch_ok (by omega)), body _ (by simp only [length_cons]; omega),
      compileAll_cons .untilCoIm (untilCoIm_ok (by omega))]
    simp [emit, Nat.add_assoc]
  | beginAgain p body =>
    rw [marks] at room
    simp only [tokens, cons_append, append_assoc, nil_append]
    rw [compileAll_cons .beginCoIm (markBranch_ok (by omega)), body _ (by simp only [length_cons]; omega),
      compileAll_cons .againCoIm (againCoIm_ok (by omega))]
    simp [emit, Nat.add_assoc]
  | beginWhile p q first second =>
    rw [marks] at room
    simp only [tokens, cons_append, append_assoc, nil_append]
    rw [compileAll_cons .beginCoIm (markBranch_ok (by omega)), first _ (by simp only [length_cons]; omega),
      compileAll_cons .whileCoIm (whileCoIm_ok (by omega)), second _ (by simp only [length_cons]; omega),
      compileAll_cons .repeatCoIm (repeatCoIm_ok (by omega) (by simp; omega)), set_patched (by simp)]
    simp [emit, Nat.add_assoc]
  | doLoop asks plus p body =>
    rw [marks] at room
    have opened : Token.compile nCells (s.laid d k) (if asks then .qDoCoIm else .doCoIm) =
        .ok (s.laid (d ++ [.word (if asks then .qDoParen else .doParen), .int 0])
          (.tag .doTag :: .addr (d.length + 2) :: .tag .leaveTag :: .addr (d.length + 1) :: k)) := by
      cases asks <;> exact doCoIm_ok (by omega)
    have closed (code : List (Cell w π ν)) (inside : d.length + 1 < code.length) :
        Token.compile nCells (s.laid code (.tag .doTag :: .addr (d.length + 2) :: .tag .leaveTag ::
          .addr (d.length + 1) :: k)) (if plus then .plusLoopCoIm else .loopCoIm) =
        .ok (s.laid (code.set (d.length + 1) (.addr (code.length + 2)) ++
          [.word (if plus then .plusLoopParen else .loopParen), offset (code.length + 1) (d.length + 2)]) k) := by
      cases plus <;> exact loopCoIm_ok (by omega) inside
    simp only [tokens, cons_append, append_assoc, nil_append]
    rw [compileAll_cons _ opened, body _ (by simp only [length_cons]; omega), compileAll_cons _ (closed _ (by simp)),
      set_patched rfl]
    simp [emit, Nat.add_assoc]

theorem define_ok (header : ν → List (Cell w π ν)) (name : ν) (p : Prog w π ν)
    (room : s.pStack.length + p.marks < nCells) :
    ∃ s', (∀ text, compileText nCells header ((name, p.tokens ++ [.semicolonCoIm]) :: text) s =
      compileText nCells header text s') ∧
      s'.pStack = s.pStack ∧ s'.words = (name, s.here + (header name).length) :: s.words ∧
      s'.dict = s.dict ++ header name ++ (p.emit (s.here + (header name).length) ++ [.word .semiParen]) := by
  have colon : s.colon nCells (header name) name =
      .ok (laid { s with compiling := true, smudge := some (name, s.here + (header name).length) }
        (s.dict ++ header name) (.tag .colonTag :: s.pStack)) := by
    rw [Compiler.colon, Compiler.push, if_pos (by simp only; omega)]
    rfl
  let done : Compiler w π ν := { s with
    dict := s.dict ++ header name ++ p.emit (s.here + (header name).length) ++ [.word .semiParen]
    words := (name, s.here + (header name).length) :: s.words
    smudge := some (name, s.here + (header name).length)
    compiling := false }
  refine ⟨done, fun text => ?_, rfl, rfl, append_assoc ..⟩
  rw [compileText, colon]
  simp only [bind, Except.bind]
  rw [compileAll_tokens _ _ (by rw [length_cons]; omega),
    compileAll_cons .semicolonCoIm
    (by rw [Token.compile, semicolonCoIm, matchControlTag_ok (by omega), length_append]; rfl)]
  rfl

/-- A text of definitions compiles: each word in it gets the code of its program. -/
theorem compileText_ok (header : ν → List (Cell w π ν)) (defs : ν → Prog w π ν) (names : List ν)
    (room : ∀ name ∈ names, s.pStack.length + (defs name).marks < nCells) :
    ∃ s' added, compileText nCells header (names.map fun name => (name, (defs name).tokens ++ [.semicolonCoIm])) s =
      .ok s' ∧
      s'.pStack = s.pStack ∧ s.dict <+: s'.dict ∧ s'.words = added ++ s.words ∧
      (∀ name ∈ names, ∃ a, (name, a) ∈ added) ∧
      ∀ name a, (name, a) ∈ added → (defs name).emit a ++ [.word .semiParen] <+: s'.dict.drop a := by
  induction names generalizing s with
  | nil => exact ⟨s, [], rfl, rfl, prefix_rfl, rfl, by simp, by simp⟩
  | cons name names ih =>
    obtain ⟨s₁, defined, stack, words, dict⟩ := define_ok header name (defs name) (room name mem_cons_self)
    obtain ⟨s', added, compiled, stack', kept, words', all, held⟩ :=
      ih fun other member => stack ▸ room other (mem_cons_of_mem _ member)
    have front : s.dict <+: s₁.dict := by rw [dict, append_assoc]; exact prefix_append ..
    refine ⟨s', added ++ [(name, s.here + (header name).length)], (defined _).trans compiled, stack'.trans stack,
      front.trans kept, ?_, ?_, ?_⟩
    · rw [words', words, append_assoc, singleton_append]
    · intro other member
      cases mem_cons.mp member with
      | inl same => exact ⟨_, mem_append_right _ (mem_singleton.mpr (by rw [same]))⟩
      | inr later => exact (all other later).imp fun a member => mem_append_left _ member
    · intro other a member
      cases mem_append.mp member with
      | inl later => exact held other a later
      | inr this =>
        cases mem_singleton.mp this
        obtain ⟨rest, same⟩ := kept
        exact ⟨rest, by rw [← same, dict, append_assoc (s.dict ++ header name),
          drop_left' (by rw [length_append]; rfl)]⟩

end Pcbsd.Ficl
