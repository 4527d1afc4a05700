import Pcbsd.GptbootPrompt
import Pcbsd.Proofs.Boot2Selection
import Pcbsd.Proofs.GptbootLoop

/-! What gptboot reads for the file system, over whole sessions, and both boot blocks together. -/

namespace Pcbsd.Gptboot
open Lib Gpt Drv Ufsread Proofs.GptMemory List

/-- A copy of the GPT of a drive that gptread takes, at one of the places where it looks. -/
def TakenFrom (seen : Nat × Nat → Sector) (drive : Nat) (copy : Copy) : Prop :=
  ∃ bios dsk c lba, dsk.drive = drive ∧ (lba = 1 ∨ ∃ c', lba = altlba bios dsk (readCopy bios seen dsk c' 1)) ∧
    copy = readCopy bios seen dsk c lba ∧ copy.lba ≠ 0

def PartAt (seen : Nat × Nat → Sector) (drive : Nat) (part : Int) (start : Nat) : Prop :=
  ∃ copy, TakenFrom seen drive copy ∧ 0 < part ∧ part ≤ copy.hdr.entries ∧ (copy.ent (part - 1).toNat).lbaStart = start

def TableOf (seen : Nat × Nat → Sector) (drive : Nat) (gpt : State) : Prop :=
  ∃ copy, TakenFrom seen drive copy ∧ gpt.gpthdr.entries = copy.hdr.entries ∧
    ∀ i, (gpt.gpttable i).lbaStart = (copy.ent i).lbaStart

variable {seen : Nat × Nat → Sector} {updated : Bool} {m' : Main} {env : Env} {m : Main} {f : Ent → Ent}

theorem TableOf.part {drive : Nat} {gpt : State} (table : TableOf seen drive gpt) {i : Nat}
    (inside : i < gpt.gpthdr.entries) : PartAt seen drive (i + 1) (gpt.gpttable i).lbaStart := by
  obtain ⟨copy, taken, entries, starts⟩ := table
  refine ⟨copy, taken, by omega, by omega, ?_⟩
  rw [starts, show ((i : Int) + 1 - 1).toNat = i by omega]

def SameStarts (s s' : State) : Prop := ∀ w i, ((s'.copies w).ent i).lbaStart = ((s.copies w).ent i).lbaStart

theorem TableOf.kept {seen : Nat × Nat → Sector} {drive : Nat} {gpt gpt' : State} (table : TableOf seen drive gpt)
    (kept : Kept gpt gpt') (starts : SameStarts gpt gpt') : TableOf seen drive gpt' := by
  obtain ⟨copy, taken, entries, same⟩ := table
  refine ⟨copy, taken, kept.gpthdr.trans entries, fun i => ?_⟩
  rw [← same i, State.gpttable, State.gpttable, kept.active]
  exact starts ..

theorem updateCopy_starts (bios : Bios) (dsk : Dsk) (keeps : ∀ e, (f e).lbaStart = e.lbaStart) (which : Which)
    (s : State) : SameStarts s (updateCopy bios dsk f which s) := by
  intro w i
  rw [updateCopy]
  split
  next =>
    rw [(gptupdate_kept ..).2.ent]
    by_cases same : w = which
    · subst same
      simp only [State.setCopy, Function.update_self, Copy.ent, Copy.modifyEnt, getD_eq_getElem?_getD, getElem?_modify]
      cases (s.copies w).table[i]? with
      | none => rfl
      | some e =>
        split
        · exact keeps e
        · rfl
    · simp [State.setCopy, same]
  next => rfl

theorem updateBoth_starts (bios : Bios) (dsk : Dsk) (keeps : ∀ e, (f e).lbaStart = e.lbaStart) (s : State) :
    SameStarts s (updateBoth bios dsk f s) := fun w i =>
  (updateCopy_starts bios dsk keeps .backup _ w i).trans (updateCopy_starts bios dsk keeps .primary s w i)

theorem lbaStart_clear (e : Ent) (flag : BitVec 64) : (e.clear flag).lbaStart = e.lbaStart := lbaStart_setAttr ..

theorem gptread_table (bios : Bios) (s : State) (dsk : Dsk) (done : (gptread bios s dsk).1 = 0) :
    TableOf s.disk dsk.drive (gptread bios s dsk).2.1 := by
  obtain ⟨kept, kinds⟩ := gptread_kept bios s dsk
  have used := (gptread_loaded bios s dsk done).1.used
  rw [kept.active, kept.lba] at used
  have table : TableOf s.disk dsk.drive (readCopies bios s dsk) := by
    refine ⟨_, ?_, rfl, fun _ => rfl⟩
    generalize (readCopies bios s dsk).active = which at used
    cases which with
    | primary => exact ⟨bios, dsk, s.copies .primary, 1, rfl, Or.inl rfl, rfl, Nat.pos_iff_ne_zero.mp used⟩
    | backup =>
      by_cases missing : altlba bios dsk (readCopy bios s.disk dsk (s.copies .primary) 1) = 0
      · simp only [readCopies, if_pos missing] at used
        omega
      · exact ⟨bios, dsk, s.copies .backup, _, rfl, Or.inr ⟨s.copies .primary, rfl⟩, if_neg missing, Nat.pos_iff_ne_zero.mp used⟩
  exact table.kept kept fun w i => (kinds w i).start

theorem gptfind_selects {bios : Bios} {s s' : State} {uuid : Bytes} {dsk dsk' : Dsk} {part rc : Int}
    (table : TableOf seen dsk.drive s) (ran : gptfind bios s uuid dsk part = (rc, s', dsk')) :
    TableOf seen dsk'.drive s' ∧ (rc = 0 ∧ PartAt seen dsk'.drive dsk'.part dsk'.start ∨ rc = -1 ∧ dsk' = dsk) := by
  have position (curent : Int) (bootonce : Bool) : TableOf seen dsk.drive (moved s curent bootonce) := table
  rcases gptfind_cases bios s uuid dsk part with ⟨curent, bootonce, same⟩ | ⟨curent, bootonce, inside, same⟩
  · cases ran.symm.trans same
    exact ⟨position curent bootonce, Or.inr ⟨rfl, rfl⟩⟩
  · rw [same, found] at ran
    have selects := table.part inside
    split at ran
    · cases ran
      exact ⟨(position curent bootonce).kept (updateBoth_kept ..)
        (updateBoth_starts _ _ (fun e => lbaStart_clear e _) _), Or.inl ⟨rfl, selects⟩⟩
    · cases ran
      exact ⟨position curent bootonce, Or.inl ⟨rfl, selects⟩⟩

/-- The table in memory and the selection are those of the drives as they were seen. -/
structure Selected (seen : Nat × Nat → Sector) (gpt : State) (dsk : Dsk) : Prop where
  table : TableOf seen dsk.drive gpt
  part : PartAt seen dsk.drive dsk.part dsk.start

theorem gptinit_selects (ran : gptinit env m = (true, m')) : Selected m.gpt.disk m'.gpt m'.dsk := by
  rw [gptinit] at ran
  split at ran
  next gpt dsk read =>
    have table := gptread_table env.bios m.gpt m.dsk (by rw [read])
    rw [read] at table
    have drive : dsk.drive = m.dsk.drive := by
      have dsk' : (gptread env.bios m.gpt m.dsk).2.2 = { m.dsk with start := 0 } := rfl
      rw [read] at dsk'
      rw [show dsk = _ from dsk']
    rw [← drive] at table
    split at ran
    next _ dsk' find =>
      cases ran
      obtain ⟨table', found | missed⟩ := gptfind_selects table find
      · exact ⟨table', found.2⟩
      · exact absurd missed.1 (by decide)
    next => cases ran
  next => cases ran

theorem parseOpts_dsk (env : Env) (arg : Bytes) (m : Main) : (parseOpts env arg m).1.dsk = m.dsk := by
  induction arg generalizing m with
  | nil => rfl
  | cons _ arg ih =>
    rw [parseOpts]
    split
    · rw [ih]
      split <;> rfl
    · split
      · split
        · split <;> rfl
        · rfl
      · split
        · rfl
        · rw [ih]

theorem parseKname_dsk {name : Bytes} (ran : parseKname m name = some m') : m'.dsk = m.dsk := by
  rw [parseKname] at ran
  split at ran
  · cases ran
    rfl
  · split at ran
    · cases ran
    · cases ran
      rfl

theorem parseArg_plain {tok : Bytes}
    (ran : parseArg env m updated tok = (m', some false)) : updated = false ∧ m'.dsk = m.dsk := by
  rw [parseArg.eq_def] at ran
  split at ran
  · cases ran
    exact ⟨rfl, rfl⟩
  · split at ran
    · split at ran
      · cases ran
      next opts =>
        cases ran
        have same := congrArg (fun result => result.1.dsk) opts
        rw [parseOpts_dsk] at same
        exact ⟨rfl, same.symm⟩
    · split at ran
      · split at ran
        · cases ran
        next named =>
          cases ran
          exact ⟨rfl, parseKname_dsk named⟩
      · split at ran
        · cases ran
        · split at ran
          · cases ran
          · cases ran

theorem parseLoop_plain {fuel : Nat} {str : Bytes}
    (ran : parseLoop env fuel str m updated = (m', some false)) : updated = false ∧ m'.dsk = m.dsk := by
  induction fuel generalizing str m updated with
  | zero =>
    cases ran
    exact ⟨rfl, rfl⟩
  | succ fuel ih =>
    cases str with
    | nil =>
      cases ran
      exact ⟨rfl, rfl⟩
    | cons _ _ =>
      rw [parseLoop] at ran
      split at ran
      · exact ih ran
      · dsimp only at ran
        split at ran
        · cases ran
        next word =>
          obtain ⟨rfl, rest⟩ := ih ran
          obtain ⟨updated, first⟩ := parseArg_plain word
          exact ⟨updated, rest.trans first⟩

/-- The place that is read is that of the selected partition, and so was sbbuf if it is in use. -/
def Event.Consistent : Event → Prop
  | .command _ _ _ => True
  | .read dskMeta dsk sbFrom seen =>
    PartAt seen dsk.drive dsk.part dsk.start ∧ (dskMeta = true → sbFrom = (dsk.drive, dsk.start))

/-- A command that is rejected leaves the drive and the partition, and the GPT that an accepted one asks for can
be read and has the partition. -/
def Event.Steady : Event → Prop
  | .command env cmd m =>
    match parse env m cmd with
    | (m', none) => m'.dsk.drive = m.dsk.drive ∧ m'.dsk.part = m.dsk.part
    | (_, some false) => True
    | (m', some true) => (gptinit env m').1 = true
  | .read _ _ _ _ => True

structure Sound {σ : Type} (dskMeta : Bool) (a : Around σ) : Prop where
  selected : Selected a.seen a.main.gpt a.main.dsk
  sbFrom : dskMeta = true → a.sbFrom = (a.main.dsk.drive, a.main.dsk.start)
  log : ∀ event ∈ a.log, event.Consistent

def Inv {σ : Type} (dskMeta : Bool) (a : Around σ) : Prop := (∃ event ∈ a.log, ¬event.Steady) ∨ Sound dskMeta a

section

variable {σ : Type} {drives : Drives σ} {layout : Layout} {t : Session σ}

theorem dev_keeps (drives : Drives σ) : (dev drives).Keeps Inv where
  read {flag a lba nblk buf ok buf' a'} inv ran := by
    rw [dev] at ran
    dsimp only at ran
    rw [dskread] at ran
    generalize drvread drives a.main.gpt.disk a.outside a.main.dsk.drive ((lba + a.main.dsk.start) % 2 ^ 64) nblk buf =
      answer at ran
    cases ran
    cases inv with
    | inl broken =>
      obtain ⟨event, member, unsteady⟩ := broken
      have still := mem_append_left [Event.read flag a.main.dsk a.sbFrom a.seen] member
      exact ⟨Or.inl ⟨event, still, unsteady⟩, fun _ => Or.inl ⟨event, still, unsteady⟩⟩
    | inr sound =>
      have consistent : ∀ event ∈ a.log ++ [Event.read flag a.main.dsk a.sbFrom a.seen], event.Consistent := by
        rw [forall_mem_append, forall_mem_singleton]
        exact ⟨sound.log, sound.selected.part, sound.sbFrom⟩
      have origin : (if flag then a.sbFrom else (a.main.dsk.drive, a.main.dsk.start)) =
        (a.main.dsk.drive, a.main.dsk.start) := by
        cases flag with
        | true => exact sound.sbFrom rfl
        | false => rfl
      exact ⟨Or.inr ⟨sound.selected, fun _ => origin, consistent⟩,
        fun _ => Or.inr ⟨sound.selected, fun _ => origin, consistent⟩⟩

variable (drives layout) in
theorem runClient_inv (client : Client) (inv : Inv t.reader.dskMeta t.around) :
    Inv (runClient drives layout client t).reader.dskMeta (runClient drives layout client t).around :=
  exec_keeps (dev_keeps drives) client inv

theorem Inv.setMain {flag : Bool} {a : Around σ} (inv : Inv flag a) {m : Main} (gpt : m.gpt = a.main.gpt)
    (drive : m.dsk.drive = a.main.dsk.drive) (part : m.dsk.part = a.main.dsk.part)
    (start : m.dsk.start = a.main.dsk.start) :
    Inv flag { a with main := m } := by
  cases inv with
  | inl broken => exact Or.inl broken
  | inr sound =>
    refine Or.inr ⟨⟨?_, ?_⟩, ?_, sound.log⟩
    · rw [gpt, drive]
      exact sound.selected.table
    · rw [drive, part, start]
      exact sound.selected.part
    · rw [drive, start]
      exact sound.sbFrom

theorem command_inv (env : Env) (cmd : Bytes) (inv : Inv t.reader.dskMeta t.around) :
    Inv (command env cmd t).2.reader.dskMeta (command env cmd t).2.around := by
  rw [command]
  by_cases steady : Event.Steady (.command env cmd t.main)
  · rw [Event.Steady] at steady
    have noted : Inv t.reader.dskMeta (t.note (.command env cmd t.main)).around := by
      cases inv with
      | inl broken =>
        obtain ⟨event, member, unsteady⟩ := broken
        exact Or.inl ⟨event, mem_append_left _ member, unsteady⟩
      | inr sound =>
        refine Or.inr ⟨sound.selected, sound.sbFrom, ?_⟩
        dsimp only [Session.note]
        rw [forall_mem_append, forall_mem_singleton]
        exact ⟨sound.log, trivial⟩
    have parsed : Proofs.GptbootLoop.Parsed t.main (parse env t.main cmd).1 := Proofs.GptbootLoop.parseLoop_parsed ..
    have main : (t.note (.command env cmd t.main)).main = t.main := rfl
    rw [main]
    generalize ran : parse env t.main cmd = result at steady parsed ⊢
    obtain ⟨m, updated⟩ := result
    cases updated with
    | none => exact noted.setMain parsed.gpt steady.1 steady.2 parsed.start
    | some updated =>
      cases updated with
      | false =>
        have same := (parseLoop_plain ran).2
        exact noted.setMain parsed.gpt (by rw [same]; rfl) (by rw [same]; rfl) (by rw [same]; rfl)
      | true =>
        dsimp only at steady ⊢
        rw [initSession]
        have main' : ((t.note (.command env cmd t.main)).setMain m).main = m := rfl
        rw [main']
        generalize init : gptinit env m = result at steady ⊢
        obtain ⟨_, _⟩ := result
        subst steady
        have selects := gptinit_selects init
        cases noted with
        | inl broken => exact Or.inl broken
        | inr sound => exact Or.inr ⟨selects, fun known => Bool.noConfusion known, sound.log⟩
  · have noted : Event.command env cmd t.main ∈ (t.note (.command env cmd t.main)).around.log :=
      mem_append_right _ (mem_singleton.mpr rfl)
    refine Or.inl ⟨.command env cmd t.main, ?_, steady⟩
    split
    · exact noted
    · exact noted
    · rw [initSession]
      split
      · exact noted
      · exact noted

variable (drives layout) in
theorem prompt_inv (entries : List Entry) (inv : Inv t.reader.dskMeta t.around) :
    Inv (prompt drives layout entries t).reader.dskMeta (prompt drives layout entries t).around := by
  induction entries generalizing t with
  | nil => exact inv
  | cons entry _ ih =>
    have commanded := command_inv entry.env entry.cmd inv
    rw [prompt]
    generalize command entry.env entry.cmd t = result at commanded ⊢
    obtain ⟨ok, after⟩ := result
    cases ok with
    | false => exact ih commanded
    | true =>
      have loaded := runClient_inv drives layout (entry.loading after.main.kname) commanded
      dsimp only
      split
      · exact loaded
      · exact ih loaded

variable (drives layout) in
theorem loadImages_inv (round : Round) (names : List Bytes) (inv : Inv t.reader.dskMeta t.around) :
    Inv (loadImages drives layout round names t).2.reader.dskMeta (loadImages drives layout round names t).2.around := by
  induction names generalizing t with
  | nil => exact inv
  | cons kname _ ih =>
    have named : Inv t.reader.dskMeta (t.setMain { t.main with kname }).around := inv.setMain rfl rfl rfl rfl
    have loaded := runClient_inv (t := t.setMain { t.main with kname }) drives layout (round.loading kname) named
    rw [loadImages]
    split
    · exact loaded
    · exact ih loaded

theorem configCommand_inv (env : Env) (inv : Inv t.reader.dskMeta t.around) :
    Inv (configCommand env t).2.reader.dskMeta (configCommand env t).2.around := by
  rw [configCommand]
  split
  · exact inv
  · have commanded := command_inv env t.main.cmd inv
    generalize command env t.main.cmd t = result at commanded ⊢
    obtain ⟨ok, _⟩ := result
    cases ok with
    | false => exact commanded
    | true => exact commanded.setMain rfl rfl rfl rfl

variable (drives layout) in
theorem config_inv (round : Round) (inv : Inv t.reader.dskMeta t.around) :
    Inv (config drives layout round t).2.reader.dskMeta (config drives layout round t).2.around := by
  have named : Inv t.reader.dskMeta (t.setMain { t.main with kname := [] }).around := inv.setMain rfl rfl rfl rfl
  have read := runClient_inv (t := t.setMain { t.main with kname := [] }) drives layout round.reading named
  rw [config]
  apply configCommand_inv
  rw [readConfig]
  split
  · exact read
  · exact read.setMain rfl rfl rfl rfl

variable (drives layout) in
theorem bootRound_inv (round : Round) (inv : Inv t.reader.dskMeta t.around) :
    Inv (bootRound drives layout round t).2.reader.dskMeta (bootRound drives layout round t).2.around := by
  have read := config_inv drives layout round inv
  rw [bootRound]
  generalize config drives layout round t = result at read ⊢
  obtain ⟨ok, u⟩ := result
  cases ok with
  | false => exact read
  | true =>
    dsimp only at read ⊢
    split
    · exact read.setMain rfl rfl rfl rfl
    · have quiet : Inv u.reader.dskMeta (u.setMain { u.main with autoboot := false }).around :=
        read.setMain rfl rfl rfl rfl
      have loaded := loadImages_inv (t := u.setMain { u.main with autoboot := false }) drives layout
        round (images u.main) quiet
      generalize loadImages drives layout round (images u.main) (u.setMain { u.main with autoboot := false }) =
        result at loaded ⊢
      obtain ⟨booted, v⟩ := result
      cases booted with
      | true => exact loaded
      | false =>
        dsimp only at loaded ⊢
        generalize ran : gptfind round.env.bios (gptbootfailed round.env.bios v.main.gpt v.main.dsk) freebsdUfsUuid
          v.main.dsk (-1) = result
        obtain ⟨_, gpt, dsk⟩ := result
        cases loaded with
        | inl broken =>
          split
          · exact Or.inl broken
          · exact Or.inl broken
        | inr sound =>
          have failed : TableOf v.around.seen v.main.dsk.drive
            (gptbootfailed round.env.bios v.main.gpt v.main.dsk) := by
            rw [gptbootfailed]
            split
            · exact sound.selected.table
            · exact sound.selected.table.kept (updateBoth_kept ..) (updateBoth_starts _ _ lbaStart_fail _)
          obtain ⟨table, found | missed⟩ := gptfind_selects failed ran
          · obtain ⟨rfl, part⟩ := found
            exact Or.inr ⟨⟨table, part⟩, fun known => Bool.noConfusion known, sound.log⟩
          · obtain ⟨rfl, rfl⟩ := missed
            exact Or.inr ⟨⟨table, sound.selected.part⟩, sound.sbFrom, sound.log⟩

variable (drives layout) in
theorem rounds_inv (entries : List Entry) (script : List Round) (inv : Inv t.reader.dskMeta t.around) :
    Inv (rounds drives layout entries script t).reader.dskMeta (rounds drives layout entries script t).around := by
  induction script generalizing t with
  | nil => exact inv
  | cons round _ ih =>
    have went := bootRound_inv drives layout round inv
    rw [rounds]
    generalize bootRound drives layout round t = result at went ⊢
    obtain ⟨next, _⟩ := result
    cases next with
    | again => exact ih went
    | prompt => exact prompt_inv drives layout entries went
    | booted => exact went

theorem session_consistent (drives : Drives σ) (layout : Layout) (env : Env) (gpt : State) (drive : UInt8)
    (stack : Bytes) (comspeed : Int) (reader : Reader) (outside : σ) (entries : List Entry) (script : List Round)
    (steady : ∀ event ∈ (session drives layout env gpt drive stack comspeed reader outside entries script).around.log,
      event.Steady) :
    ∀ event ∈ (session drives layout env gpt drive stack comspeed reader outside entries script).around.log,
      event.Consistent := by
  rw [session] at steady ⊢
  generalize begin : start env gpt drive stack comspeed = result at steady ⊢
  obtain ⟨ok, main⟩ := result
  dsimp only at steady ⊢
  split
  next success =>
    subst success
    have selected : Selected gpt.disk main.gpt main.dsk := by
      rw [start] at begin
      generalize init : gptinit env _ = result at begin
      obtain ⟨ok, _⟩ := result
      cases begin
      exact gptinit_selects init
    have inv := rounds_inv (t := ⟨⟨main, outside, gpt.disk, (0, 0), []⟩, { reader with dskMeta := false }⟩)
      drives layout entries script (Or.inr ⟨selected, fun known => Bool.noConfusion known, forall_mem_nil _⟩)
    cases inv with
    | inl broken =>
      obtain ⟨event, member, unsteady⟩ := broken
      exact absurd (steady event member) unsteady
    | inr sound => exact sound.log
  next => exact forall_mem_nil _

end

end Pcbsd.Gptboot

namespace Pcbsd.Prompt
open Lib Gpt Gptboot Boot Drv Ufsread

/-- Both boot blocks read from the partition that is selected, in sessions whose commands are all steady. -/
theorem selected_partition_is_read {σ : Type} (drives : Drives σ) (layout : Layout) :
    (∀ (env : Env) (gpt : State) (drive : UInt8) (stack : Bytes) (comspeed : Int) (reader : Reader) (outside : σ)
        (entries : List Gptboot.Entry) (script : List Round),
      (∀ event ∈ (session drives layout env gpt drive stack comspeed reader outside entries script).around.log,
        event.Steady) →
        ∀ event ∈ (session drives layout env gpt drive stack comspeed reader outside entries script).around.log,
          event.Consistent) ∧
    (∀ (disk : Nat × Nat → Sector) (behind : Bytes) (config : Client) (first : Boot2.Entry) (keyhit : Bool)
        (entries : List Boot2.Entry) (m : Boot2.Main σ),
      m.reader.dskMeta = false → m.around.log = [] →
        (∀ event ∈ (Boot2.main drives disk behind layout config first keyhit entries m).around.log, event.Steady) →
          ∀ event ∈ (Boot2.main drives disk behind layout config first keyhit entries m).around.log,
            event.Consistent disk behind) :=
  ⟨fun env gpt drive stack comspeed reader outside entries script =>
    session_consistent drives layout env gpt drive stack comspeed reader outside entries script,
    fun _ _ config first keyhit entries _ => Boot2.main_sound config first keyhit entries⟩

/-- Slice 1 is at sector 1. Its label has partition a at the start of the slice, with a UFS1 file system that has
the directory /boot and no file. -/
def slicedBytes : Nat → List (Nat × UInt8)
  | 0 => [(446, 0x80), (450, 0xa5), (454, 1)]
  | 2 => [(0, 0x57), (1, 0x45), (2, 0x56), (3, 0x82), (132, 0x57), (133, 0x45), (134, 0x56), (135, 0x82),
      (138, 8), (148, 1), (152, 1), (184, 1)]
  | 21 => [(265, 2), (296, 30)]
  | 31 => [(0, 3), (5, 2), (6, 4), (7, 4), (8, 0x62), (9, 0x6f), (10, 0x6f), (11, 0x74)]
  | 129 => [(16, 20), (49, 0x10), (80, 12), (117, 4), (120, 32), (184, 32), (189, 2)]
  | 131 => [(312, 0xff), (313, 0x0f), (320, 0xff), (321, 1), (348, 0x54), (349, 0x19), (350, 1)]
  | _ => []

def slicedDisk : Nat × Nat → Sector := fun x =>
  Sector.ofBytes ((List.range 512).map fun i => ((slicedBytes x.2).lookup i).getD 0)

def noErrors : Drives Unit where
  answer _ _ _ _ := (none, ())

def freshReader : Reader where
  dskMeta := false
  fsOff := 0
  blkbuf := List.replicate vblksize 0
  indbuf := List.replicate vblksize 0
  sbbuf := List.replicate sblocksize 0
  inomap := 0
  blkmap := 0
  indmap := 0
  dp := ⟨0, fun _ => 0, 0⟩
  spoiled := false

def boot2Start : Boot2.Main Unit where
  around := ⟨⟨0x80, 0, 0, 2, 0, 0, 0⟩, (), (0, 0), []⟩
  reader := freshReader
  console := ⟨0, ioKeyboard, 9600⟩
  kname := none

def lookupOnly (kname : Option Bytes) : Client :=
  lookup 4 (fun _ _ => .done) 8 (kname.getD []) rootino dtDir (List.replicate 512 0)

def typed (buf : Bytes) : Boot2.Entry := ⟨buf, true, lookupOnly, false⟩

/-- "ad(0,2,a" -/
def halfDevice : Bytes := [0x61, 0x64, 0x28, 0x30, 0x2c, 0x32, 0x2c, 0x61]

def boot2Log (cmds : List Bytes) : List Boot2.Event :=
  (Boot2.main noErrors slicedDisk [] onDisk .done (typed []) true (cmds.map typed) boot2Start).around.log

/-- The second command is rejected for its missing parenthesis, and leaves slice 2 behind. -/
theorem half_device_reads_old_slice : ¬∀ event ∈ boot2Log [[], halfDevice, []], event.Consistent slicedDisk [] := by
  intro consistent
  have eighth : (boot2Log [[], halfDevice, []])[7]? = some (.read true ⟨0x80, 0, 0, 3, 0, 1, 1⟩ (0x80, 1)) := by
    decide +kernel
  have place := (consistent _ (List.mem_of_getElem? eighth)).1
  exact absurd place (by decide +kernel)

def typedEnv : Env := { Proofs.GptbootLoop.sampleEnv none with keyhit := true }

def emptyLine : Gptboot.Entry := ⟨typedEnv, [], fun _ => .fsread rootino 512 fun _ => .done⟩

/-- The reads of a session of gptboot on the sample drive with an empty line at the prompt. -/
def gptbootLog : List Gptboot.Event :=
  (session noErrors onDisk typedEnv Proofs.GptbootLoop.selfState 0x80 Proofs.GptbootLoop.emptyCmd 9600 freshReader
    () [emptyLine] [⟨typedEnv, .done, fun _ => .done⟩]).around.log

def plain : Gptboot.Event → Bool
  | .command env cmd _ => cmd.isEmpty && env.behind.isEmpty
  | .read _ _ _ _ => true

def boot2Plain : Boot2.Event → Bool
  | .command buf _ _ => buf.isEmpty
  | .read _ _ _ => true

theorem steady_of_plain {event : Gptboot.Event} (quiet : plain event = true) : event.Steady := by
  cases event with
  | read => trivial
  | command env cmd _ =>
    rw [plain, Bool.and_eq_true, List.isEmpty_iff, List.isEmpty_iff] at quiet
    have empty : cstring env cmd = [] := by rw [cstring, quiet.1, quiet.2]; rfl
    rw [Gptboot.Event.Steady, parse, empty]
    trivial

theorem boot2_steady_of_plain {event : Boot2.Event} (quiet : boot2Plain event = true) : event.Steady := by
  cases event with
  | read => trivial
  | command _ _ _ =>
    rw [boot2Plain, List.isEmpty_iff] at quiet
    rw [quiet]
    intro rejected
    cases rejected

theorem selected_partition_is_read_empty_line :
    (gptbootLog.length = 5 ∧ ∀ event ∈ gptbootLog, event.Consistent) ∧
      (boot2Log [[]]).length = 5 ∧ ∀ event ∈ boot2Log [[]], event.Consistent slicedDisk [] := by
  have quiet : gptbootLog.length = 5 ∧ gptbootLog.all plain = true := by decide +kernel
  have boot2Quiet : (boot2Log [[]]).length = 5 ∧ (boot2Log [[]]).all boot2Plain = true := by decide +kernel
  refine ⟨⟨quiet.1, ?_⟩, boot2Quiet.1, ?_⟩
  · apply (selected_partition_is_read noErrors onDisk).1 typedEnv Proofs.GptbootLoop.selfState 0x80
      Proofs.GptbootLoop.emptyCmd 9600 freshReader () [emptyLine] [⟨typedEnv, .done, fun _ => .done⟩]
    intro event member
    exact steady_of_plain (List.all_eq_true.mp quiet.2 event member)
  · apply (selected_partition_is_read noErrors onDisk).2 slicedDisk [] .done (typed []) true
      (List.map typed [[]]) boot2Start rfl rfl
    intro event member
    exact boot2_steady_of_plain (List.all_eq_true.mp boot2Quiet.2 event member)

end Pcbsd.Prompt
