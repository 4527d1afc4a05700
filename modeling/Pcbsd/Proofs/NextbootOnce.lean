import Mathlib.Tactic.IntervalCases
import Pcbsd.Proofs.ConfReading

/-! A nextboot configuration is used once: the text written over its start switches it off whatever
stood there. -/

namespace Pcbsd.Forth
open Lib List

variable {content : Bytes} {past : UInt8} {value name file : Bytes} {disk : Disk} {w w' : World}

private theorem run_after_value {fuel : Nat} {p p' : Parser} (fn : p.fn = .whiteSpace4 ∨ p.fn = .comment)
    (ran : Parser.run past fuel p = some p') : p'.name = p.name ∧ p'.value = p.value := by
  induction fuel generalizing p with
  | zero =>
    cases ran
    exact ⟨rfl, rfl⟩
  | succ fuel ih =>
    unfold Parser.run at ran
    split at ran
    · cases ran
      exact ⟨rfl, rfl⟩
    · obtain ⟨next, step, rest⟩ := Option.bind_eq_some_iff.mp ran
      have kept : next.name = p.name ∧ next.value = p.value ∧ (next.fn = .whiteSpace4 ∨ next.fn = .comment) := by
        unfold Parser.step at step
        rcases fn with fn | fn
        · simp only [fn] at step
          split at step
          · cases step
            exact ⟨rfl, rfl, .inr rfl⟩
          · split at step
            · cases step
            · cases step
              exact ⟨rfl, rfl, .inl rfl⟩
        · simp only [fn] at step
          cases step
          exact ⟨rfl, rfl, .inr rfl⟩
      obtain ⟨name, value⟩ := ih kept.2.2 rest
      exact ⟨name.trans kept.1, value.trans kept.2.1⟩

def quotedNo : Bytes := quoted (ascii ['N', 'O'])

private theorem run_nextbootNo (past : UInt8) (tail : Bytes) :
    Parser.run past 8 { fn := .whiteSpace1, rest := nextbootNo ++ tail, name := [], value := [] } =
      Parser.run past 2 { fn := .whiteSpace4, rest := bl :: tail, name := nextbootEnable, value := quotedNo } := by
  rfl

private theorem getAssignment_nextbootNo {tail : Bytes}
    (parsed : getAssignment past (nextbootNo ++ tail) = some (name, value)) :
    name = nextbootEnable ∧ value = quotedNo := by
  unfold getAssignment at parsed
  rw [run_nextbootNo] at parsed
  obtain ⟨_, ran, result⟩ := Option.bind_eq_some_iff.mp parsed
  obtain ⟨same, same'⟩ := run_after_value (.inl rfl) ran
  split at result
  · cases result
    exact ⟨same, same'⟩
  · cases result

private theorem getAssignment_nextbootNo_take (past : UInt8) {n : Nat} (short : n < 21) :
    getAssignment past (nextbootNo.take n) =
      if n = 0 then some ([], []) else if n = 20 then some (nextbootEnable, quotedNo) else none := by
  interval_cases n <;> rfl

def firstLine (content : Bytes) : Bytes := content.takeWhile (· != lf)

private theorem getAssignment_overwrite
    (parsed : getAssignment past (firstLine (overwrite nextbootNo content)) = some (name, value)) :
    name = [] ∨ name = nextbootEnable ∧ value = quotedNo := by
  have length : nextbootNo.length = 21 := rfl
  have noLf : ∀ n, ∀ c ∈ nextbootNo.take n, (c != lf) = true := by
    have all : ∀ c ∈ nextbootNo, (c != lf) = true := by decide +kernel
    exact fun n c member => all c (mem_of_mem_take member)
  unfold firstLine overwrite at parsed
  rw [takeWhile_append_of_pos (noLf content.length)] at parsed
  by_cases short : content.length < 21
  · rw [drop_of_length_le (by omega), takeWhile_nil, append_nil,
      getAssignment_nextbootNo_take past short] at parsed
    split at parsed
    · cases parsed
      exact .inl rfl
    · split at parsed
      · cases parsed
        exact .inr ⟨rfl, rfl⟩
      · cases parsed
  · rw [take_of_length_le (by omega)] at parsed
    exact .inr (getAssignment_nextbootNo parsed)

private theorem processLine_overwrite (ficl : Ficl) {c : Conf} (off : c.nextboot = false) (content : Bytes) :
    (processLine ficl (firstLine (overwrite nextbootNo content)) c).2.nextboot = false := by
  unfold processLine
  cases parsed : getAssignment (ficl.past c.count) (firstLine (overwrite nextbootNo content)) with
  | none => exact off
  | some assignment =>
    obtain ⟨_, _⟩ := assignment
    rcases getAssignment_overwrite parsed with rfl | ⟨rfl, rfl⟩
    · exact off
    · rfl

private theorem readLine_first {input : List Fread} {r : Reader} (empty : r.buffer = []) (start : r.ptr = 0)
    (more : r.eof = false) (delivered : Delivered input) :
    ∃ input' r', readLine input r = (true, input', r') ∧ r'.line = firstLine (pending input) := by
  have same : skipNewlines { r with line := [] } = { r with line := [] } := by simp [skipNewlines, empty]
  obtain ⟨input', r', ran, took⟩ := readLoop_took (r := { r with line := [] }) more (by simp [empty, start]) delivered
  refine ⟨input', r', ?_, ?_⟩
  · rw [readLine, same]
    exact ran
  · rw [took.line]
    simp [Reader.stream, empty, firstLine]

theorem split_delivered (disk : Disk) (n : Nat) (content : Bytes) :
    Delivered ((disk.split n content).map .got) ∧ pending ((disk.split n content).map .got) = content := by
  have join : ∀ pieces : List Bytes, pending (pieces.map .got) = pieces.flatten := by
    intro pieces
    induction pieces with
    | nil => rfl
    | cons piece pieces ih => rw [map_cons, pending, ih, flatten_cons]
  refine ⟨?_, by rw [join, disk.whole]⟩
  intro read member
  obtain ⟨piece, inside, rfl⟩ := List.mem_map.mp member
  have positive := (disk.pieces n content piece inside).1
  exact ⟨piece, rfl, ne_nil_of_length_pos positive⟩

structure Fresh (s : Session) : Prop where
  buffer : s.reader.buffer = []
  nextboot : s.conf.nextboot = false

private theorem includeNextbootFile_overwritten (ficl : Ficl) (disk : Disk) (fresh : Fresh w.session)
    (stored : w.files w.session.conf.nextbootConfFile = some (overwrite nextbootNo content)) :
    ∃ w', includeNextbootFile ficl disk w = (.skipped, w') ∧ w'.session.conf.nextboot = false := by
  obtain ⟨delivered, whole⟩ := split_delivered disk w.opens (overwrite nextbootNo content)
  obtain ⟨_, reader, read, line⟩ :=
    readLine_first (r := resetLineReading w.session.reader) fresh.buffer rfl rfl delivered
  rw [whole] at line
  have quiet : (peekFile ficl (some ((disk.split w.opens (overwrite nextbootNo content)).map .got))
    w.session).session.conf.nextboot = false := by
    have off := processLine_overwrite ficl fresh.nextboot content
    unfold peekFile
    dsimp only
    rw [read]
    dsimp only
    rw [line]
    generalize processLine ficl (firstLine (overwrite nextbootNo content)) w.session.conf = handled at off ⊢
    cases getAssignment (ficl.past w.session.conf.count) (firstLine (overwrite nextbootNo content)) with
    | none => exact off
    | some _ => exact off
  unfold includeNextbootFile openNextboot
  dsimp only
  rw [stored, Option.map_some, if_neg (by rw [quiet]; exact Bool.false_ne_true)]
  exact ⟨_, rfl, quiet⟩

private theorem rewriteNextbootFile_files (stored : w.files file = some content)
    (rewritten : rewriteNextbootFile disk w = (some file, w')) : w'.files file = some
    (overwrite nextbootNo content) := by
  unfold rewriteNextbootFile at rewritten
  dsimp only at rewritten
  split at rewritten
  next _ found =>
    split at rewritten
    · cases rewritten
      rw [stored] at found
      cases found
      exact Function.update_self ..
    · cases rewritten
  · cases rewritten

private theorem includeNextbootFile_files {ficl : Ficl} (stored : w.files file = some content)
    (applied : includeNextbootFile ficl disk w = (.applied (some file), w')) :
    w'.files file = some (overwrite nextbootNo content) := by
  unfold includeNextbootFile openNextboot at applied
  dsimp only at applied
  split at applied
  · split at applied
    · cases applied
    · split at applied
      · cases applied
      · generalize reply : rewriteNextbootFile disk _ = r at applied
        obtain ⟨_, _⟩ := r
        cases applied
        exact rewriteNextbootFile_files (by exact stored) reply
  · cases applied

/-- If include_nextboot_file applies the file and rewrites it, then a second include_nextboot_file
from the same state leaves nextboot? false and does not load the file. -/
theorem includeNextbootFile_once (ficl : Ficl) (disk : Disk) (w w' : World) (content : Bytes) (fresh : Fresh w.session)
    (stored : w.files w.session.conf.nextbootConfFile = some content)
    (applied : includeNextbootFile ficl disk w = (.applied (some w.session.conf.nextbootConfFile), w')) :
    ∃ w'', includeNextbootFile ficl disk { w' with session := w.session } = (.skipped, w'') ∧
      w''.session.conf.nextboot = false := by
  have written := includeNextbootFile_files stored applied
  exact includeNextbootFile_overwritten ficl disk fresh written

private def onceFicl : Ficl := ⟨fun _ env => (true, env), fun _ => 0⟩

private def onceDisk : Disk where
  split := fun _ content => content.map ([·])
  whole := by
    intro _ content
    induction content with
    | nil => rfl
    | cons c content ih => rw [map_cons, flatten_cons, ih, singleton_append]
  pieces := by
    intro _ content piece member
    obtain ⟨c, -, rfl⟩ := List.mem_map.mp member
    exact ⟨Nat.one_pos, by simp⟩
  writable := fun _ => true

private def onceWorld : World where
  session := ⟨⟨[], 0, false, []⟩, { nextbootConfFile := ascii ['f'], env := fun _ => none }⟩
  files := fun name => if name = ascii ['f'] then some (nextbootEnable ++ [charAssign] ++ yes) else none
  opens := 0

theorem includeNextbootFile_once_short :
    (includeNextbootFile onceFicl onceDisk onceWorld).1 = .applied (some (ascii ['f'])) ∧
      ∃ w'', includeNextbootFile onceFicl onceDisk
        { (includeNextbootFile onceFicl onceDisk onceWorld).2 with session := onceWorld.session } = (.skipped, w'') ∧
        w''.session.conf.nextboot = false := by
  have applied : (includeNextbootFile onceFicl onceDisk onceWorld).1 = .applied (some (ascii ['f'])) := by
    decide +kernel
  exact ⟨applied, includeNextbootFile_once onceFicl onceDisk onceWorld _ _ ⟨rfl, rfl⟩ rfl (Prod.ext applied rfl)⟩

end Pcbsd.Forth
