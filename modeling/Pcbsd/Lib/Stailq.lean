import Mathlib.Logic.Function.Basic
import Mathlib.Data.List.Basic

/-! Singly linked tail queues, the STAILQ macros of sys/queue.h. The link of an element is a field
of the element, so an element that is put on two queues through the same field damages both. -/

namespace Pcbsd.Lib.Stailq
open List Option Function

variable {ι : Type} [DecidableEq ι]

/-- stqh_first, and the element whose link stqh_last points at; none when stqh_last points at
stqh_first. -/
@[ext] structure Head (ι : Type) where
  first : Option ι
  last : Option ι
  deriving DecidableEq

def empty : Head ι := ⟨none, none⟩

def insertTail (next : ι → Option ι) (head : Head ι) (e : ι) : (ι → Option ι) × Head ι :=
  let next := update next e none
  match head.last with
  | none => (next, ⟨some e, some e⟩)
  | some p => (update next p (some e), ⟨head.first, some e⟩)

/-- The elements that STAILQ_FOREACH visits in its first `fuel` turns. -/
def walk (next : ι → Option ι) : Nat → Option ι → List ι
  | 0, _ => []
  | _, none => []
  | fuel + 1, some e => e :: walk next fuel (next e)

def Chain (next : ι → Option ι) : Option ι → List ι → Prop
  | start, [] => start = none
  | start, e :: l => start = some e ∧ Chain next (next e) l

structure Holds (next : ι → Option ι) (head : Head ι) (l : List ι) : Prop where
  chain : Chain next head.first l
  last : head.last = l.getLast?

variable {next : ι → Option ι} {head : Head ι} {l : List ι} {e : ι}

omit [DecidableEq ι] in
theorem holds_empty : Holds next empty [] := ⟨rfl, rfl⟩

variable {start : Option ι} {next' : ι → Option ι} {l₁ l₂ l' : List ι}

omit [DecidableEq ι] in
theorem Chain.walk_eq (chain : Chain next start l) {fuel : Nat} (enough : l.length ≤ fuel) :
    walk next fuel start = l := by
  induction l generalizing start fuel with
  | nil =>
    cases chain
    cases fuel <;> rfl
  | cons _ l ih =>
    obtain ⟨rfl, rest⟩ := chain
    cases fuel with
    | zero => simp at enough
    | succ fuel => rw [walk, ih rest (by simpa using enough)]

omit [DecidableEq ι] in
theorem Chain.congr (chain : Chain next start l) (same : ∀ e ∈ l, next' e = next e) : Chain next' start l := by
  induction l generalizing start with
  | nil => exact chain
  | cons e l ih =>
    obtain ⟨rfl, rest⟩ := chain
    refine ⟨rfl, ?_⟩
    rw [same e mem_cons_self]
    exact ih rest fun e member => same e (mem_cons_of_mem _ member)

omit [DecidableEq ι] in
theorem Holds.congr (holds : Holds next head l) (same : ∀ e ∈ l, next' e = next e) :
    Holds next' head l :=
  ⟨holds.chain.congr same, holds.last⟩

omit [DecidableEq ι] in
theorem Chain.after (chain : Chain next start (l₁ ++ e :: l₂)) :
    Chain next (next e) l₂ := by
  induction l₁ generalizing start with
  | nil => exact chain.2
  | cons _ l₁ ih => exact ih chain.2

omit [DecidableEq ι] in
private theorem Chain.unique (chain : Chain next start l) (other : Chain next start l') :
    l = l' := by
  induction l generalizing start l' with
  | nil =>
    cases l' with
    | nil => rfl
    | cons e l' => rw [Chain] at chain; rw [chain] at other; cases other.1
  | cons e l ih =>
    cases l' with
    | nil => rw [Chain] at other; rw [other] at chain; cases chain.1
    | cons e' l' =>
      have same : e = e' := some.inj (chain.1.symm.trans other.1)
      subst same
      rw [ih chain.2 other.2]

omit [DecidableEq ι] in
theorem Chain.nodup (chain : Chain next start l) : l.Nodup := by
  induction l generalizing start with
  | nil => exact nodup_nil
  | cons _ l ih =>
    refine nodup_cons.mpr ⟨?_, ih chain.2⟩
    intro member
    obtain ⟨_, _, rfl⟩ := append_of_mem member
    have again := congrArg length (chain.2.unique chain.2.after)
    simp at again
    omega

theorem Chain.extend {p : ι} (chain : Chain next start (l ++ [p])) (fresh : e ∉ l ++ [p]) :
    Chain (update (update next e none) p (some e)) start (l ++ [p] ++ [e]) := by
  have distinct := chain.nodup
  induction l generalizing start with
  | nil =>
    have other : e ≠ p := by simpa using fresh
    exact ⟨chain.1, by simp [Chain, other]⟩
  | cons a l ih =>
    simp only [cons_append, mem_cons, not_or, nodup_cons, mem_append] at fresh distinct
    have notLast : a ≠ p := by
      rintro rfl
      exact distinct.1.2.1 rfl
    refine ⟨chain.1, ?_⟩
    rw [update_of_ne notLast, update_of_ne (Ne.symm fresh.1)]
    exact ih chain.2 (by simpa using fresh.2) distinct.2

omit [DecidableEq ι] in
theorem Chain.cut (chain : Chain next start (l₁ ++ e :: l₂)) (same : ∀ a ∈ l₁, next' a = next a)
    (ends : next' e = none) : Chain next' start (l₁ ++ [e]) := by
  induction l₁ generalizing start with
  | nil => exact ⟨chain.1, ends⟩
  | cons a l₁ ih =>
    refine ⟨chain.1, ?_⟩
    rw [same a mem_cons_self]
    exact ih chain.2 fun b member => same b (mem_cons_of_mem _ member)

omit [DecidableEq ι] in
theorem Chain.links_eq {start' : Option ι} (chain : Chain next start l)
    (other : Chain next' start' l) : ∀ a ∈ l, next' a = next a := by
  induction l generalizing start start' with
  | nil => simp
  | cons _ l ih =>
    intro a member
    cases mem_cons.mp member with
    | inl same =>
      subst same
      cases l with
      | nil => exact Eq.trans other.2 (Eq.symm chain.2)
      | cons _ l => exact other.2.1.trans chain.2.1.symm
    | inr rest => exact ih chain.2 other.2 a rest

omit [DecidableEq ι] in
theorem Chain.start_eq (chain : Chain next start l) : start = l.head? := by
  cases l with
  | nil => exact chain
  | cons _ l => exact chain.1

theorem insertTail_eq_self_iff : insertTail next head e = (next, head) ↔ head.last = some e ∧ next e = some e := by
  rw [insertTail]
  cases last : head.last with
  | none =>
    refine ⟨fun same => ?_, fun both => absurd both.1 (by simp)⟩
    have same := congrArg Head.last (Prod.mk.inj same).2
    rw [last] at same
    cases same
  | some p =>
    constructor
    · intro same
      obtain ⟨links, heads⟩ := Prod.mk.inj same
      have here : some e = head.last := congrArg Head.last heads
      obtain rfl := some.inj (here.trans last)
      refine ⟨rfl, ?_⟩
      rw [← links, update_self]
    · rintro ⟨here, linked⟩
      obtain rfl := some.inj here
      refine Prod.ext ?_ (Head.ext rfl last.symm)
      show update (update next p none) p (some p) = next
      rw [update_idem, ← linked, update_eq_self]

theorem Holds.insertTail (holds : Holds next head l) (fresh : e ∉ l) :
    Holds (insertTail next head e).1 (insertTail next head e).2 (l ++ [e]) := by
  have last := holds.last
  rcases eq_nil_or_concat l with rfl | ⟨l, _, rfl⟩
  · rw [getLast?_nil] at last
    refine ⟨?_, ?_⟩
    · simp [Stailq.insertTail, last, Chain]
    · simp [Stailq.insertTail, last]
  · rw [concat_eq_append] at holds fresh last ⊢
    rw [getLast?_append, getLast?_singleton, some_or] at last
    refine ⟨?_, ?_⟩
    · simp only [Stailq.insertTail, last]
      exact holds.chain.extend fresh
    · simp [Stailq.insertTail, last]

theorem Holds.insertTail_other {head' : Head ι} (holds : Holds next head l) (other : Holds next head' l')
    (fresh : e ∉ l') (apart : ∀ p ∈ l, p ∉ l') : Holds (Stailq.insertTail next head e).1 head' l' := by
  refine other.congr ?_
  intro p member
  have notNew : p ≠ e := by
    rintro rfl
    exact fresh member
  rw [Stailq.insertTail]
  split
  next => exact update_of_ne notNew ..
  next q last =>
    have notLast : p ≠ q := by
      rintro rfl
      exact apart p (mem_of_getLast? (holds.last.symm.trans last)) member
    dsimp only
    rw [update_of_ne notLast, update_of_ne notNew]

end Pcbsd.Lib.Stailq
