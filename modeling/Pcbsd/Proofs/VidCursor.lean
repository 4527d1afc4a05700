import Mathlib.Data.List.Induction
import Pcbsd.Vidconsole

/-! The cursor of the video console against the cursor of the adapter, after every character that the
emulator is sent. -/

namespace Pcbsd.Vidconsole
open Lib List Function

section
variable {σ : Type} {video : Video σ}

/-- The software cursor is on the screen, where the adapter has its cursor. -/
structure Placed (video : Video σ) (s : State σ) : Prop where
  column : 0 ≤ s.curx ∧ s.curx ≤ 79
  row : 0 ≤ s.cury ∧ s.cury ≤ 24
  hardwareColumn : ((video.cursor s.adapter).2.toNat : Int) = s.curx
  hardwareRow : ((video.cursor s.adapter).1.toNat : Int) = s.cury

def Bounded (s : State σ) : Prop := ∀ i ∈ s.touched, 0 ≤ i ∧ i < maxargs

structure Sound (video : Video σ) (s : State σ) : Prop extends Placed video s where
  argc : -1 ≤ s.argc ∧ s.argc < maxargs
  bounded : Bounded s

structure Still (s t : State σ) : Prop where
  args : t.args = s.args
  argc : t.argc = s.argc
  touched : t.touched = s.touched
  esc : t.esc = s.esc

theorem Still.refl (s : State σ) : Still s s := ⟨rfl, rfl, rfl, rfl⟩

theorem Still.trans {s t u : State σ} (first : Still s t) (second : Still t u) : Still s u :=
  ⟨second.args.trans first.args, second.argc.trans first.argc, second.touched.trans first.touched, second.esc.trans first.esc⟩

structure Emits (video : Video σ) (out : State σ → State σ) : Prop where
  placed : ∀ s, Placed video s → Placed video (out s)
  still : ∀ s, Still s (out s)

theorem Emits.comp {out more : State σ → State σ} (emits : Emits video out) (next : Emits video more) :
    Emits video (more ∘ out) :=
  ⟨fun s placed => next.placed _ (emits.placed s placed), fun s => (emits.still s).trans (next.still _)⟩

theorem Emits.iterate {out : State σ → State σ} (emits : Emits video out) (n : Nat) : Emits video out^[n] := by
  induction n with
  | zero => exact ⟨fun _ placed => placed, fun s => .refl s⟩
  | succ n ih => exact emits.comp ih

theorem Emits.foldl {out : State σ → UInt8 → State σ} (emits : ∀ c, Emits video fun s => out s c) (str : Bytes) :
    Emits video fun s => str.foldl out s := by
  induction str with
  | nil => exact ⟨fun _ placed => placed, fun s => .refl s⟩
  | cons c str ih => exact (emits c).comp ih

theorem lowByte_toNat {x : Int} (small : 0 ≤ x ∧ x < 256) : ((lowByte x).toNat : Int) = x := by
  rw [lowByte, UInt8.toNat_ofNat', Int.emod_eq_of_lt small.1 small.2]
  omega

section
variable (lawful : video.Lawful)
include lawful

theorem cursor_write (c : UInt8) (fg bg : Int) (s : State σ) :
    video.cursor (writeChar video c fg bg s).adapter = video.cursor s.adapter :=
  lawful.cursor_writeChar ..

theorem placed_write (c : UInt8) (fg bg : Int) {s : State σ} (placed : Placed video s) :
    Placed video (writeChar video c fg bg s) := by
  obtain ⟨column, row, _, _⟩ := placed
  exact ⟨column, row, by rwa [cursor_write lawful], by rwa [cursor_write lawful]⟩

theorem cursor_scrollUp (rows fg bg : Int) (s : State σ) :
    video.cursor (scrollUp video rows fg bg s).adapter = video.cursor s.adapter :=
  lawful.cursor_scroll ..

theorem placed_cursMove {x y : Int} (column : 0 ≤ x ∧ x ≤ 79) (row : 0 ≤ y ∧ y ≤ 24) (s : State σ) :
    Placed video (cursMove video x y s) := by
  have moved : Placed video { s with adapter := video.setCursor (lowByte y) (lowByte x) s.adapter, curx := x, cury := y } := by
    refine ⟨column, row, ?_, ?_⟩
    · rw [lawful.cursor_setCursor]
      exact lowByte_toNat (by omega)
    · rw [lawful.cursor_setCursor]
      exact lowByte_toNat (by omega)
  rw [cursMove]
  split
  · exact moved
  · exact placed_write lawful _ _ _ moved

end

theorem still_cursMove (x y : Int) (s : State σ) : Still s (cursMove video x y s) := by
  rw [cursMove]
  split
  · exact ⟨rfl, rfl, rfl, rfl⟩
  · exact ⟨rfl, rfl, rfl, rfl⟩

theorem cursMove_place (video : Video σ) (x y : Int) (s : State σ) :
    (cursMove video x y s).curx = x ∧ (cursMove video x y s).cury = y := by
  rw [cursMove]
  split
  · exact ⟨rfl, rfl⟩
  · exact ⟨rfl, rfl⟩

section
variable (lawful : video.Lawful)
include lawful

theorem emits_putPlain (c : UInt8) : Emits video (putPlain video c) where
  placed s placed := by
    obtain ⟨column, row, hardwareColumn, hardwareRow⟩ := placed
    rw [putPlain]
    split
    next bell =>
      subst bell
      refine ⟨column, row, ?_, ?_⟩
      · rwa [biosputchar, charBell, lawful.cursor_bell]
      · rwa [biosputchar, charBell, lawful.cursor_bell]
    split
    · exact placed_cursMove lawful (by decide) row s
    split
    · split
      · refine ⟨column, row, ?_, ?_⟩
        · rwa [cursor_scrollUp lawful]
        · rwa [cursor_scrollUp lawful]
      · exact placed_cursMove lawful column (by omega) s
    split
    · split
      · exact placed_cursMove lawful (by omega) row s
      · exact ⟨column, row, hardwareColumn, hardwareRow⟩
    -- a printed character: the end of the row and the end of the screen
    have kept : (writeChar video c s.fgC s.bgC s).curx = s.curx ∧ (writeChar video c s.fgC s.bgC s).cury = s.cury := ⟨rfl, rfl⟩
    dsimp only
    rw [kept.1, kept.2]
    by_cases last : s.curx + 1 > 79
    · simp only [last, if_true]
      split
      · exact placed_cursMove lawful (by decide) (by omega) _
      · exact placed_cursMove lawful (by decide) (by omega) _
    · simp only [last, if_false]
      rw [if_neg (by omega)]
      exact placed_cursMove lawful (by omega) row _
  still s := by
    have same (t : State σ) (x y : Int) (still : Still s t) : Still s (cursMove video x y t) := still.trans (still_cursMove x y t)
    rw [putPlain]
    split
    · exact ⟨rfl, rfl, rfl, rfl⟩
    split
    · exact still_cursMove ..
    split
    · split
      · exact ⟨rfl, rfl, rfl, rfl⟩
      · exact still_cursMove ..
    split
    · split
      · exact still_cursMove ..
      · exact .refl s
    dsimp only
    generalize (if (writeChar video c s.fgC s.bgC s).curx + 1 > 79 then (0, (writeChar video c s.fgC s.bgC s).cury + 1)
      else ((writeChar video c s.fgC s.bgC s).curx + 1, (writeChar video c s.fgC s.bgC s).cury)) = place
    split
    · exact same _ _ _ ⟨rfl, rfl, rfl, rfl⟩
    · exact same _ _ _ ⟨rfl, rfl, rfl, rfl⟩

theorem emits_rawputchar (c : UInt8) : Emits video (rawputchar video c) := by
  by_cases tab : c = charTab
  · have eight : rawputchar video c = (putPlain video charSpace)^[8] := funext fun s => if_pos tab
    rw [eight]
    exact (emits_putPlain lawful charSpace).iterate 8
  · have once : rawputchar video c = putPlain video c := funext fun s => if_neg tab
    rw [once]
    exact emits_putPlain lawful c

theorem emits_rawputs (str : Bytes) : Emits video (rawputs video str) :=
  Emits.foldl (emits_rawputchar lawful) str

end

theorem sound_endTerm {s : State σ} (placed : Placed video s) (bounded : Bounded s) : Sound video (endTerm s) :=
  ⟨⟨placed.column, placed.row, placed.hardwareColumn, placed.hardwareRow⟩, by simp [endTerm, maxargs], bounded⟩

theorem Bounded.touch {s : State σ} (bounded : Bounded s) {i : Int} (inside : 0 ≤ i ∧ i < maxargs) : Bounded (s.touch i) := by
  intro j member
  rcases mem_append.mp member with old | new
  · exact bounded j old
  · rw [mem_singleton.mp new]
    exact inside

theorem Bounded.still {s t : State σ} (bounded : Bounded s) (still : Still s t) : Bounded t := by
  rw [Bounded, still.touched]
  exact bounded

section
variable (lawful : video.Lawful)
include lawful

theorem bailArgs_spec {n : Nat} {i : Int} {s : State σ} (placed : Placed video s) (bounded : Bounded s)
    (inside : 0 ≤ i ∧ i + n ≤ maxargs) : Placed video (bailArgs video i n s) ∧ Bounded (bailArgs video i n s) := by
  induction n generalizing i s with
  | zero => exact ⟨placed, bounded⟩
  | succ n ih =>
    have emits := emits_rawputs lawful (decimal (s.args i))
    have touched : Placed video (s.touch i) := ⟨placed.column, placed.row, placed.hardwareColumn, placed.hardwareRow⟩
    apply ih (emits.placed _ touched)
    · exact (bounded.touch (by omega)).still (emits.still _)
    · omega

theorem sound_bailOut (c : UInt8) {s : State σ} (sound : Sound video s) : Sound video (bailOut video c s) := by
  have last := emits_rawputchar lawful c
  rw [bailOut]
  dsimp only
  split
  · have first := emits_rawputchar lawful charEscape
    have opened := first.placed s sound.toPlaced
    generalize shown : (if s.esc ≠ charEscape then rawputchar video s.esc (rawputchar video charEscape s) else
      rawputchar video charEscape s) = t
    have kept : Placed video t ∧ Bounded t := by
      subst shown
      split
      · have second := emits_rawputchar lawful s.esc
        exact ⟨second.placed _ opened, (sound.bounded.still (first.still s)).still (second.still _)⟩
      · exact ⟨opened, sound.bounded.still (first.still s)⟩
    have argc := sound.argc
    obtain ⟨placed, bounded⟩ := bailArgs_spec lawful (n := (s.argc + 1).toNat) kept.1 kept.2 (i := 0) (by omega)
    exact sound_endTerm (last.placed _ placed) (bounded.still (last.still _))
  · exact sound_endTerm (last.placed _ sound.toPlaced) (sound.bounded.still (last.still _))

end

/-- A character that the emulator takes without losing the cursor: ESC [ row ; column H names a place on the screen, and
ESC [ J comes in the first column. -/
def Tame (s : State σ) (c : UInt8) : Prop :=
  s.esc = charBracket →
    (c = 0x48 → s.argc = 1 → (0 ≤ s.args 0 ∧ s.args 0 ≤ 25) ∧ 0 ≤ s.args 1 ∧ s.args 1 ≤ 80) ∧
    (c = 0x4a → s.argc < 0 → s.curx = 0)

theorem setArg_args (s : State σ) (i value : Int) : (s.setArg i value).args = update s.args i value := rfl

theorem lowerArg_args (i : Int) (s : State σ) :
    (lowerArg i s).args = update s.args i (if s.args i > 0 then s.args i - 1 else s.args i) := by
  rw [lowerArg]
  by_cases positive : s.args i > 0
  · rw [if_pos (show (s.touch i).args i > 0 from positive), if_pos positive]
    rfl
  · rw [if_neg (show ¬(s.touch i).args i > 0 from positive), if_neg positive]
    exact (update_eq_self i s.args).symm

theorem lowerArg_frame (i : Int) (s : State σ) :
    (lowerArg i s).adapter = s.adapter ∧ (lowerArg i s).curx = s.curx ∧ (lowerArg i s).cury = s.cury ∧
      ∀ j ∈ (lowerArg i s).touched, j ∈ s.touched ∨ j = i := by
  rw [lowerArg]
  split
  · refine ⟨rfl, rfl, rfl, fun j member => ?_⟩
    simp only [State.setArg, State.touch, mem_append, mem_singleton] at member
    tauto
  · refine ⟨rfl, rfl, rfl, fun j member => ?_⟩
    simp only [State.touch, mem_append, mem_singleton] at member
    exact member

theorem Bounded.lowerArg {s : State σ} (bounded : Bounded s) {i : Int} (inside : 0 ≤ i ∧ i < maxargs) :
    Bounded (lowerArg i s) := by
  intro j member
  rcases (lowerArg_frame i s).2.2.2 j member with old | rfl
  · exact bounded j old
  · exact inside

def lowered (arg : Int) : Int := if arg > 0 then arg - 1 else arg

theorem cursorMotion_target (video : Video σ) (s : State σ) :
    ∃ t : State σ, cursorMotion video s = endTerm (cursMove video (lowered (s.args 1)) (lowered (s.args 0)) t) ∧
      (Bounded s → Bounded t) := by
  refine ⟨((lowerArg 1 (lowerArg 0 s)).touch 1).touch 0, ?_, fun bounded => ?_⟩
  · rw [cursorMotion]
    have column : (lowerArg 1 (lowerArg 0 s)).args 1 = lowered (s.args 1) := by
      rw [lowerArg_args, lowerArg_args, update_self, update_of_ne (by decide)]
      rfl
    have row : (lowerArg 1 (lowerArg 0 s)).args 0 = lowered (s.args 0) := by
      rw [lowerArg_args, update_of_ne (by decide), lowerArg_args, update_self]
      rfl
    rw [column, row]
  · have first : Bounded (lowerArg 0 s) := bounded.lowerArg (by decide)
    have second : Bounded (lowerArg 1 (lowerArg 0 s)) := first.lowerArg (by decide)
    exact (second.touch (by decide)).touch (by decide)

variable {s : State σ}

theorem cursorMotion_sound_iff (lawful : video.Lawful) (bounded : Bounded s) :
    Sound video (cursorMotion video s) ↔ (0 ≤ s.args 0 ∧ s.args 0 ≤ 25) ∧ 0 ≤ s.args 1 ∧ s.args 1 ≤ 80 := by
  obtain ⟨t, moved, kept⟩ := cursorMotion_target video s
  have place := cursMove_place video (lowered (s.args 1)) (lowered (s.args 0)) t
  have column : (0 ≤ lowered (s.args 1) ∧ lowered (s.args 1) ≤ 79) ↔ 0 ≤ s.args 1 ∧ s.args 1 ≤ 80 := by
    rw [lowered]
    split <;> omega
  have row : (0 ≤ lowered (s.args 0) ∧ lowered (s.args 0) ≤ 24) ↔ 0 ≤ s.args 0 ∧ s.args 0 ≤ 25 := by
    rw [lowered]
    split <;> omega
  rw [moved, ← column, ← row]
  constructor
  · intro sound
    have onScreen := sound.column
    have onScreen' := sound.row
    dsimp only [endTerm] at onScreen onScreen'
    rw [place.1] at onScreen
    rw [place.2] at onScreen'
    exact ⟨onScreen', onScreen⟩
  · rintro ⟨row, column⟩
    exact sound_endTerm (placed_cursMove lawful column row t) ((kept bounded).still (still_cursMove ..))

theorem sound_homeCursor (lawful : video.Lawful) (bounded : Bounded s) : Sound video (homeCursor video s) := by
  have one : (1 : Int) ≠ 0 := by decide
  apply (cursorMotion_sound_iff lawful ?_).mpr
  · rw [setArg_args, update_self, update_of_ne one, setArg_args, update_self]
    decide
  · have first := bounded
    have second : Bounded (({ s with argc := 1 } : State σ).touch 1) := first.touch (by decide)
    exact Bounded.touch (s := ({ s with argc := 1 } : State σ).setArg 1 1) second (by decide)

theorem clearDisplay_sound_iff (lawful : video.Lawful) (sound : Sound video s) :
    Sound video (clearDisplay video s) ↔ s.curx = 0 := by
  obtain ⟨⟨column, row, hardwareColumn, hardwareRow⟩, _, bounded⟩ := sound
  have same : getPos video s = s := by
    rw [getPos]
    dsimp only
    rw [hardwareColumn, hardwareRow]
  rw [clearDisplay, same]
  dsimp only
  constructor
  · intro after
    by_contra moved
    rw [if_pos (by omega)] at after
    have hardware := after.hardwareRow
    split at hardware
    · dsimp only [endTerm] at hardware
      rw [lawful.cursor_scroll] at hardware
      omega
    · dsimp only [endTerm] at hardware
      rw [lawful.cursor_scroll, lawful.cursor_scroll] at hardware
      omega
  · intro first
    rw [if_neg (by omega)]
    refine sound_endTerm ⟨column, row, ?_, ?_⟩ bounded
    · rwa [lawful.cursor_scroll]
    · rwa [lawful.cursor_scroll]

theorem renditions_spec {n : Nat} {i : Int} (placed : Placed video s) (bounded : Bounded s)
    (inside : 0 ≤ i ∧ i + n ≤ maxargs) : Placed video (renditions i n s) ∧ Bounded (renditions i n s) := by
  induction n generalizing i s with
  | zero => exact ⟨placed, bounded⟩
  | succ n ih =>
    refine ih (i := i + 1) ⟨placed.column, placed.row, placed.hardwareColumn, placed.hardwareRow⟩ ?_ (by omega)
    exact bounded.touch (i := i) (by omega)

theorem sound_graphicRendition (sound : Sound video s) : Sound video (graphicRendition s) := by
  have argc := sound.argc
  have kept (t : State σ) (placed : Placed video t) (bounded : Bounded t) (same : t.argc = s.argc) :
      Sound video (endTerm (renditions 0 (t.argc + 1).toNat t)) := by
    obtain ⟨placed, bounded⟩ := renditions_spec (n := (t.argc + 1).toNat) placed bounded (i := 0) (by omega)
    exact sound_endTerm placed bounded
  rw [graphicRendition]
  split
  · exact kept _ ⟨sound.column, sound.row, sound.hardwareColumn, sound.hardwareRow⟩ sound.bounded rfl
  · exact kept s sound.toPlaced sound.bounded rfl

theorem sound_getArg (c : UInt8) (sound : Sound video s) : Sound video (getArg c s) := by
  obtain ⟨⟨column, row, hardwareColumn, hardwareRow⟩, argc, bounded⟩ := sound
  rw [getArg]
  split
  · exact ⟨⟨column, row, hardwareColumn, hardwareRow⟩, by simp [State.setArg, State.touch, maxargs],
      Bounded.touch (s := { s with argc := 0 }) bounded (by simp [maxargs])⟩
  · exact ⟨⟨column, row, hardwareColumn, hardwareRow⟩, argc, bounded.touch (by omega)⟩

/-- One character keeps the invariant exactly when it is tame. -/
theorem sound_putchar_iff (lawful : video.Lawful) (c : UInt8) (sound : Sound video s) :
    Sound video (putchar video c s) ↔ Tame s c := by
  have emits := emits_rawputchar lawful c
  have bail := sound_bailOut lawful c sound
  obtain ⟨placed, argc, bounded⟩ := id sound
  obtain ⟨column, row, hardwareColumn, hardwareRow⟩ := id placed
  rw [putchar, termEmu]
  split
  next plain =>
    have tame : Tame s c := fun bracket => absurd (plain.symm.trans bracket) (by decide)
    apply iff_of_true _ tame
    split
    · exact ⟨⟨column, row, hardwareColumn, hardwareRow⟩, argc, bounded⟩
    · refine ⟨emits.placed s placed, ?_, bounded.still (emits.still s)⟩
      rw [(emits.still s).argc]
      exact argc
  split
  next _ opened =>
    have tame : Tame s c := fun bracket => absurd (opened.symm.trans bracket) (by decide)
    apply iff_of_true _ tame
    split
    · exact ⟨⟨column, row, hardwareColumn, hardwareRow⟩, by simp [maxargs], bounded.touch (by decide)⟩
    · exact bail
  split
  next _ _ bracket =>
    have opened : Tame s c ↔ (c = 0x48 → s.argc = 1 → (0 ≤ s.args 0 ∧ s.args 0 ≤ 25) ∧ 0 ≤ s.args 1 ∧ s.args 1 ≤ 80) ∧
        (c = 0x4a → s.argc < 0 → s.curx = 0) := ⟨fun tame => tame bracket, fun tame _ => tame⟩
    rw [opened, sequenceChar]
    by_cases semicolon : c = charSemicolon
    · apply iff_of_true
      · rw [if_pos semicolon]
        split
        · exact ⟨⟨column, row, hardwareColumn, hardwareRow⟩, by simp [maxargs], bounded⟩
        split
        · exact bail
        · exact ⟨⟨column, row, hardwareColumn, hardwareRow⟩, by simp only [State.setArg, State.touch]; omega,
            Bounded.touch (s := { s with argc := s.argc + 1 }) bounded (by omega)⟩
      · subst semicolon
        exact ⟨fun wrong => absurd wrong (by decide), fun wrong => absurd wrong (by decide)⟩
    rw [if_neg semicolon]
    by_cases motion : c = 0x48
    · rw [if_pos motion]
      have other : c ≠ 0x4a := fun same => absurd (motion.symm.trans same) (by decide)
      split
      · exact iff_of_true (sound_homeCursor lawful bounded) ⟨fun _ two => by omega, fun wrong => absurd wrong other⟩
      split
      next _ two =>
        rw [cursorMotion_sound_iff lawful bounded]
        exact ⟨fun inside => ⟨fun _ _ => inside, fun wrong => absurd wrong other⟩, fun tame => tame.1 motion two⟩
      next _ notTwo => exact iff_of_true bail ⟨fun _ two => absurd two notTwo, fun wrong => absurd wrong other⟩
    rw [if_neg motion]
    by_cases clear : c = 0x4a
    · rw [if_pos clear]
      split
      next negative =>
        rw [clearDisplay_sound_iff lawful sound]
        exact ⟨fun first => ⟨fun wrong => absurd wrong motion, fun _ _ => first⟩, fun tame => tame.2 clear negative⟩
      next shown => exact iff_of_true bail ⟨fun wrong => absurd wrong motion, fun _ negative => absurd negative shown⟩
    rw [if_neg clear]
    refine iff_of_true ?_ ⟨fun wrong => absurd wrong motion, fun wrong => absurd wrong clear⟩
    split
    · exact sound_graphicRendition sound
    split
    · exact sound_getArg c sound
    · exact bail
  next _ _ other => exact iff_of_true bail fun bracket => absurd bracket other

def AllTame (video : Video σ) (s : State σ) (bytes : Bytes) : Prop :=
  ∀ sent c rest, bytes = sent ++ c :: rest → Tame (run video sent s) c

theorem run_append_one (video : Video σ) (sent : Bytes) (c : UInt8) (s : State σ) :
    run video (sent ++ [c]) s = putchar video c (run video sent s) := by
  simp only [run, foldl_append, foldl_cons, foldl_nil]

theorem run_sound (lawful : video.Lawful) (sound : Sound video s) {bytes : Bytes} (tame : AllTame video s bytes) :
    Sound video (run video bytes s) := by
  induction bytes using reverseRecOn with
  | nil => exact sound
  | append_singleton sent c ih =>
    rw [run_append_one]
    apply (sound_putchar_iff lawful c (ih fun first d rest same => ?_)).mpr (tame sent c [] rfl)
    apply tame first d (rest ++ [c])
    rw [same, append_assoc, cons_append]

theorem sound_init (lawful : video.Lawful) (fresh : s.started = false) (arg : Int)
    (column : (video.cursor s.adapter).2 < 80) (row : (video.cursor s.adapter).1 < 25) (unused : s.touched = []) :
    Sound video (init video arg s) := by
  rw [init, if_neg (by simp [fresh])]
  have columnNat : (video.cursor s.adapter).2.toNat < 80 := column
  have rowNat : (video.cursor s.adapter).1.toNat < 25 := row
  generalize place : getPos video (endTerm { s with started := true }) = t
  have across : t.curx = ((video.cursor s.adapter).2.toNat : Int) := by rw [← place]; rfl
  have down : t.cury = ((video.cursor s.adapter).1.toNat : Int) := by rw [← place]; rfl
  have moved := placed_cursMove lawful (x := t.curx) (y := t.cury) (by omega) (by omega) t
  have still : Still t (cursMove video t.curx t.cury t) := still_cursMove ..
  refine ⟨⟨moved.column, moved.row, moved.hardwareColumn, moved.hardwareRow⟩, ?_, ?_⟩
  · rw [still.argc, ← place]
    simp [getPos, endTerm, maxargs]
  · intro i member
    rw [still.touched, ← place] at member
    simp [getPos, endTerm, unused] at member

/-- After vidc_init and after every character, the cursors agree and args has been used within its bounds, exactly
when every character is tame when it comes. -/
theorem cursor_invariant_iff (lawful : video.Lawful) (s : State σ) (arg : Int) (fresh : s.started = false)
    (unused : s.touched = []) (column : (video.cursor s.adapter).2 < 80) (row : (video.cursor s.adapter).1 < 25) (bytes : Bytes) :
    (∀ sent rest, bytes = sent ++ rest → Sound video (run video sent (init video arg s))) ↔
      AllTame video (init video arg s) bytes := by
  have start := sound_init lawful fresh arg column row unused
  constructor
  · intro always sent c rest same
    have before := always sent (c :: rest) same
    have after := always (sent ++ [c]) rest (by rw [same, append_assoc, singleton_append])
    rw [run_append_one] at after
    exact (sound_putchar_iff lawful c before).mp after
  · intro tame sent rest same
    apply run_sound lawful start
    intro first d more split
    apply tame first d (more ++ rest)
    rw [same, split, append_assoc, cons_append]

end

structure Screen where
  row : UInt8
  col : UInt8
  cells : UInt8 → UInt8 → UInt8 × Int

def inWindow (ecx edx : Int) (row col : UInt8) : Bool :=
  ecx / 256 ≤ row.toNat && row.toNat ≤ edx / 256 && ecx % 256 ≤ col.toNat && col.toNat ≤ edx % 256

def scrolled (cells : UInt8 → UInt8 → UInt8 × Int) (lines : UInt8) (ebx ecx edx : Int) (row col : UInt8) : UInt8 × Int :=
  if inWindow ecx edx row col then
    if lines ≠ 0 ∧ inWindow ecx edx (row + lines) col then cells (row + lines) col else (charSpace, ebx / 256)
  else cells row col

def textVideo : Video Screen where
  setCursor row col s := { s with row := row, col := col }
  cursor s := (s.row, s.col)
  scroll lines ebx ecx edx s := { s with cells := scrolled s.cells lines ebx ecx edx }
  charAt s := (s.cells s.row s.col).1
  writeChar c ebx s := { s with cells := fun row col => if row = s.row ∧ col = s.col then (c, ebx) else s.cells row col }
  teletype _ s := s

theorem textVideo_lawful : textVideo.Lawful where
  cursor_setCursor _ _ _ := rfl
  cursor_scroll _ _ _ _ _ := rfl
  cursor_writeChar _ _ _ := rfl
  cursor_bell _ := rfl

def blankState : State Screen := ⟨fun _ => 0, 0, [], 0, 0, 0, 0, 0, false, ⟨2, 0, fun _ _ => (charSpace, 7)⟩⟩

def farMotion : Bytes := [0x1b, 0x5b, 0x39, 0x39, 0x3b, 0x39, 0x39, 0x48]

def nearMotion : Bytes := [0x1b, 0x5b, 0x33, 0x3b, 0x35, 0x48]

theorem far_motion_leaves_screen : ¬Sound textVideo (run textVideo farMotion (init textVideo 0 blankState)) := by
  intro sound
  have far : (run textVideo farMotion (init textVideo 0 blankState)).curx = 98 := by decide +kernel
  have onScreen := sound.column.2
  omega

theorem cursor_invariant_iff_near_motion :
    (run textVideo nearMotion (init textVideo 0 blankState)).curx = 4 ∧
      Sound textVideo (run textVideo nearMotion (init textVideo 0 blankState)) := by
  refine ⟨by decide, ?_⟩
  apply (cursor_invariant_iff textVideo_lawful blankState 0 rfl rfl (by decide) (by decide) nearMotion).mpr ?_
    nearMotion [] (append_nil _).symm
  have six : ∀ n < 6, (nearMotion[n]?.getD 0 ≠ 0x48 ∧ nearMotion[n]?.getD 0 ≠ 0x4a) ∨
      (n = 5 ∧ (run textVideo (nearMotion.take 5) (init textVideo 0 blankState)).args 0 = 3 ∧
        (run textVideo (nearMotion.take 5) (init textVideo 0 blankState)).args 1 = 5) := by decide
  intro sent c rest same
  have length : sent.length < 6 := by
    have whole := congrArg length same
    rw [length_append, length_cons] at whole
    have count : nearMotion.length = 6 := rfl
    omega
  have this : nearMotion[sent.length]?.getD 0 = c := by simp [same]
  have prior : nearMotion.take sent.length = sent := by simp [same]
  intro _
  rcases six _ length with ⟨motion, clear⟩ | ⟨last, row, column⟩
  · rw [this] at motion clear
    exact ⟨fun wrong => absurd wrong motion, fun wrong => absurd wrong clear⟩
  · rw [last] at prior this
    rw [prior] at row column
    rw [row, column]
    exact ⟨fun _ _ => by decide, fun wrong => absurd (this.trans wrong) (by decide)⟩

end Pcbsd.Vidconsole
