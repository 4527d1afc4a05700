import Mathlib.Algebra.Order.Ring.Nat
import Mathlib.Algebra.BigOperators.Group.List.Basic

/-! Scratch memory that is taken and given back at one end. A program that takes a piece knows the pieces which its
callers hold; it may stop for good when there is no room, and when what it gives back is not the last piece. A piece
that the program takes for itself may happen to lie where the buffer of its caller is, and such pieces are counted
apart. -/

namespace Pcbsd.Lib.Scratch
open List

/-- A piece of the memory, and the buffer that it was taken for. -/
structure Piece where
  held : Option Nat
  start : Nat
  size : Nat
  deriving DecidableEq

/-- `ptr` is where the next piece begins, `log` has all pieces that were taken. -/
structure State (σ : Type) where
  ptr : Nat
  log : List Piece
  world : σ

/-- `exhausted` has the sizes that are held and the size that was asked for. -/
inductive Outcome (α : Type) where
  | returned (value : α)
  | exhausted (chain : List Nat) (size : Nat)
  | mismatch
  | stuck
  deriving DecidableEq

abbrev Program (σ α : Type) := State σ → Outcome α × State σ

variable {σ α β : Type}

namespace Program

def pure (value : α) : Program σ α := fun s => (.returned value, s)

def act (f : σ → α × σ) : Program σ α := fun s => (.returned (f s.world).1, { s with world := (f s.world).2 })

def stuck : Program σ α := fun s => (.stuck, s)

def bind (first : Program σ α) (next : α → Program σ β) : Program σ β := fun s =>
  match first s with
  | (.returned value, s) => next value s
  | (.exhausted chain size, s) => (.exhausted chain size, s)
  | (.mismatch, s) => (.mismatch, s)
  | (.stuck, s) => (.stuck, s)

def alloc (limit : Nat) (chain : List Nat) (held : Option Nat) (size : Nat) : Program σ Nat := fun s =>
  if limit < s.ptr + size then (.exhausted chain size, s)
  else (.returned s.ptr, { s with ptr := s.ptr + size, log := s.log ++ [⟨held, s.ptr, size⟩] })

def free (start size : Nat) : Program σ Unit := fun s =>
  let s := { s with ptr := s.ptr - size }
  if s.ptr ≠ start then (.mismatch, s) else (.returned (), s)

end Program

/-- The piece is not where the buffer is that it was taken for, or takes no room. -/
def Piece.Kept (piece : Piece) : Prop := piece.held ≠ some piece.start ∨ piece.size = 0

instance (piece : Piece) : Decidable piece.Kept := inferInstanceAs (Decidable (_ ∨ _))

/-- How much the pieces that lie on their buffers take. -/
def leak : List Piece → Nat
  | [] => 0
  | piece :: log => (if piece.held = some piece.start then piece.size else 0) + leak log

theorem leak_append (first second : List Piece) : leak (first ++ second) = leak first + leak second := by
  induction first with
  | nil => simp [leak]
  | cons _ first ih => simp only [cons_append, leak, ih, Nat.add_assoc]

theorem leak_eq_zero (log : List Piece) : leak log = 0 ↔ ∀ piece ∈ log, piece.Kept := by
  induction log with
  | nil => simp [leak]
  | cons piece log ih =>
    simp only [leak, Nat.add_eq_zero_iff, ih, forall_mem_cons, Piece.Kept]
    split <;> simp_all

/-- How a program ends that began at `before` and took the pieces `log`: it gives everything back but the leak. -/
def Ends (limit : Nat) (chain : List Nat) (before after : Nat) (log : List Piece) : Outcome α → Prop
  | .returned _ => after = before + leak log
  | .exhausted live size => ∃ extra, live = extra ++ chain ∧ limit < before + extra.sum + leak log + size
  | .mismatch => leak log ≠ 0
  | .stuck => True

/-- With the pieces `chain` held by its callers, the program gives back what it takes. -/
def GivesBack (limit : Nat) (chain : List Nat) (program : Program σ α) : Prop :=
  ∀ s, ∃ log, (program s).2.log = s.log ++ log ∧ Ends limit chain s.ptr (program s).2.ptr log (program s).1

variable {limit : Nat} {chain : List Nat}

theorem Ends.append {before middle after : Nat} {log more : List Piece} {outcome : Outcome α}
    (moved : middle = before + leak log) (ends : Ends limit chain middle after more outcome) :
    Ends limit chain before after (log ++ more) outcome := by
  cases outcome with
  | returned _ =>
    simp only [Ends, leak_append] at ends ⊢
    omega
  | exhausted _ _ =>
    obtain ⟨extra, split, _⟩ := ends
    refine ⟨extra, split, ?_⟩
    rw [leak_append]
    omega
  | mismatch =>
    simp only [Ends, leak_append] at ends ⊢
    omega
  | stuck => trivial

section
variable {first : Program σ α} {next : α → Program σ β} {s t : State σ}

theorem bind_returned {value : α} (ran : first s = (.returned value, t)) : first.bind next s = next value t := by
  simp only [Program.bind, ran]

theorem bind_exhausted {live : List Nat} {size : Nat} (ran : first s = (.exhausted live size, t)) :
    first.bind next s = (.exhausted live size, t) := by simp only [Program.bind, ran]

theorem bind_mismatch (ran : first s = (.mismatch, t)) : first.bind next s = (.mismatch, t) := by
  simp only [Program.bind, ran]

theorem bind_stuck (ran : first s = (.stuck, t)) : first.bind next s = (.stuck, t) := by simp only [Program.bind, ran]

theorem pure_bind (value : α) (next : α → Program σ β) : (Program.pure value).bind next = next value := rfl

theorem bind_assoc {γ : Type} (first : Program σ α) (next : α → Program σ β) (last : β → Program σ γ) :
    (first.bind next).bind last = first.bind fun value => (next value).bind last := by
  funext s
  rcases ran : first s with ⟨outcome, _⟩
  cases outcome <;> simp only [Program.bind, ran]

end

namespace GivesBack

theorem pure (value : α) : GivesBack limit chain (Program.pure value : Program σ α) :=
  fun _ => ⟨[], (append_nil _).symm, rfl⟩

theorem act (f : σ → α × σ) : GivesBack limit chain (Program.act f) := fun _ => ⟨[], (append_nil _).symm, rfl⟩

theorem stuck : GivesBack limit chain (Program.stuck : Program σ α) := fun _ => ⟨[], (append_nil _).symm, trivial⟩

theorem bind {first : Program σ α} {next : α → Program σ β} (one : GivesBack limit chain first)
    (other : ∀ value, GivesBack limit chain (next value)) : GivesBack limit chain (first.bind next) := by
  intro s
  obtain ⟨log, logged, ends⟩ := one s
  rcases ran : first s with ⟨outcome, t⟩
  rw [ran] at logged ends
  cases outcome with
  | returned value =>
    obtain ⟨more, logged', ends'⟩ := other value t
    rw [bind_returned ran]
    exact ⟨log ++ more, by rw [logged', logged, append_assoc], ends'.append ends⟩
  | exhausted _ _ =>
    rw [bind_exhausted ran]
    exact ⟨log, logged, ends⟩
  | mismatch =>
    rw [bind_mismatch ran]
    exact ⟨log, logged, ends⟩
  | stuck =>
    rw [bind_stuck ran]
    exact ⟨log, logged, trivial⟩

theorem bracket {held : Option Nat} {size : Nat} {body : Nat → Program σ α}
    (inside : ∀ start, GivesBack limit (size :: chain) (body start)) :
    GivesBack limit chain ((Program.alloc limit chain held size).bind fun start => (body start).bind fun value =>
      (if held ≠ some start then Program.free start size else Program.pure ()).bind fun _ => Program.pure value) := by
  intro s
  by_cases full : limit < s.ptr + size
  · rw [bind_exhausted (show Program.alloc limit chain held size s = (.exhausted chain size, s) from if_pos full)]
    exact ⟨[], (append_nil _).symm, [], rfl, by simpa [leak] using full⟩
  · rw [bind_returned (show Program.alloc limit chain held size s =
      (.returned s.ptr, ⟨s.ptr + size, s.log ++ [⟨held, s.ptr, size⟩], s.world⟩) from if_neg full)]
    obtain ⟨log, logged, ends⟩ := inside s.ptr ⟨s.ptr + size, s.log ++ [⟨held, s.ptr, size⟩], s.world⟩
    rcases ran : body s.ptr ⟨s.ptr + size, s.log ++ [⟨held, s.ptr, size⟩], s.world⟩ with ⟨outcome, t⟩
    rw [ran] at logged ends
    rw [append_assoc] at logged
    cases outcome with
    | returned value =>
      have moved : t.ptr = s.ptr + size + leak log := ends
      rw [bind_returned ran]
      by_cases own : held = some s.ptr
      · rw [if_neg (not_not.mpr own), bind_returned (show Program.pure () t = (.returned (), t) from rfl)]
        refine ⟨[⟨held, s.ptr, size⟩] ++ log, ?_, ?_⟩
        · exact logged
        · simp only [Program.pure, Ends, leak_append, leak, own, if_true]
          omega
      · rw [if_pos own]
        have back : t.ptr - size = s.ptr + leak log := by omega
        by_cases even : leak log = 0
        · have freed : Program.free s.ptr size t = (.returned (), { t with ptr := t.ptr - size }) := by
            simp [Program.free, back, even]
          rw [bind_returned freed]
          refine ⟨[⟨held, s.ptr, size⟩] ++ log, ?_, ?_⟩
          · exact logged
          · simp only [Program.pure, Ends, leak_append, leak, own, if_false]
            omega
        · have freed : Program.free s.ptr size t = (.mismatch, { t with ptr := t.ptr - size }) := by
            simp [Program.free, back, even]
          rw [bind_mismatch freed]
          refine ⟨[⟨held, s.ptr, size⟩] ++ log, logged, ?_⟩
          simp only [Ends, leak_append]
          omega
    | exhausted _ _ =>
      rw [bind_exhausted ran]
      obtain ⟨extra, split, full⟩ := ends
      refine ⟨[⟨held, s.ptr, size⟩] ++ log, logged, extra ++ [size], by rw [split, append_assoc]; rfl, ?_⟩
      dsimp only at full
      rw [sum_append, sum_singleton, leak_append]
      omega
    | mismatch =>
      rw [bind_mismatch ran]
      refine ⟨[⟨held, s.ptr, size⟩] ++ log, logged, ?_⟩
      have uneven : leak log ≠ 0 := ends
      simp only [Ends, leak_append]
      omega
    | stuck =>
      rw [bind_stuck ran]
      exact ⟨[⟨held, s.ptr, size⟩] ++ log, logged, trivial⟩

end GivesBack

end Pcbsd.Lib.Scratch
