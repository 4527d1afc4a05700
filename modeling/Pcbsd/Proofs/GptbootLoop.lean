import Mathlib.Data.List.Perm.Subperm
import Mathlib.Data.List.ProdSigma
import Pcbsd.Gptboot
import Pcbsd.Proofs.GptMemory

/-! Whether the first loop of gptboot comes to an end. Between two commands that select a
drive and a partition the loop walks once over the partitions of one table. Each such
command starts the walk again, so the loop ends if none of them is executed twice. -/

namespace Pcbsd.Proofs.GptbootLoop
open Lib Gpt Gptboot Proofs.GptImage Proofs.GptMemory List Option

def rank (s : State) : Nat :=
  (if s.bootonce then s.gpthdr.entries + 1 else 0) + (s.gpthdr.entries - (s.curent + 1).toNat)

variable {m' : Main} {uuid : Bytes} {env : Env} {s : State} {m : Main} {t : State} {bios : Bios} {dsk' dsk : Dsk}

theorem rank_kept (kept : Kept s t) : rank t = rank s := by
  rw [rank, rank, kept.gpthdr, kept.curent, kept.bootonce]

theorem scan_le (p : Ent → Bool) (table : Nat → Ent) (fuel i : Nat) : i ≤ scan p table fuel i := by
  induction fuel generalizing i with
  | zero => exact le_refl _
  | succ fuel ih =>
    rw [scan]
    split
    · exact le_refl _
    · exact le_trans (Nat.le_succ i) (ih (i + 1))

private theorem rank_moved (low : -1 ≤ s.curent) {curent : Nat} {bootonce : Bool} (inside : curent < s.gpthdr.entries)
    (forward : s.bootonce = true ∧ bootonce = false ∨ s.bootonce = bootonce ∧ s.curent < curent) :
    rank (moved s curent bootonce) < rank s := by
  have same : (moved s curent bootonce).gpthdr = s.gpthdr := rfl
  rw [rank, rank, same]
  change (if bootonce then _ else _) + (_ - ((curent : Int) + 1).toNat) < _
  rcases forward with ⟨before, rfl⟩ | ⟨before, _⟩
  · rw [before, if_neg (by decide), if_pos rfl]
    omega
  · rw [before]
    omega

theorem findNext_rank (low : -1 ≤ s.curent) (found : findNext uuid s = (true, t)) :
    rank t < rank s ∧ ∃ curent : Nat, ∃ bootonce, t = moved s curent bootonce := by
  have last : ∀ firsttry start, s.bootonce = true ∨ (s.curent + 1).toNat ≤ start ∧ (firsttry = true → s.curent = -1) →
      findLast uuid s firsttry start = (true, t) → rank t < rank s ∧ ∃ curent : Nat, ∃ bootonce, t = moved s curent bootonce := by
    intro firsttry start before hit
    have forward : ∀ curent : Nat, start ≤ curent ∨ firsttry = true →
        s.bootonce = true ∧ false = false ∨ s.bootonce = false ∧ s.curent < curent := by
      intro curent later
      cases once : s.bootonce with
      | true => exact .inl ⟨rfl, rfl⟩
      | false =>
        obtain ⟨_, first⟩ := before.resolve_left (by simp [once])
        refine .inr ⟨rfl, ?_⟩
        rcases later with later | again
        · omega
        · have := first again
          omega
    rw [findLast] at hit
    split at hit
    next inside =>
      obtain rfl := (Prod.mk.inj hit).2
      exact ⟨rank_moved low inside (forward _ (.inl (scan_le ..))), _, _, rfl⟩
    next =>
      split at hit
      next again =>
        obtain ⟨inside, rfl⟩ := Prod.mk.inj hit
        exact ⟨rank_moved low (by simpa using inside) (forward _ (.inr again)), _, _, rfl⟩
      next => simp at hit
  rw [findNext_eq] at found
  split at found
  next => simp at found
  next =>
    split at found
    next once =>
      split at found
      next inside =>
        obtain rfl := (Prod.mk.inj found).2
        have after := scan_le (isBootonce uuid) s.gpttable (s.gpthdr.entries - (s.curent + 1).toNat) (s.curent + 1).toNat
        exact ⟨rank_moved low inside (.inr ⟨once, by rw [stop]; omega⟩), _, _, rfl⟩
      next => exact last _ _ (.inl once) found
    next => exact last _ _ (.inr ⟨le_refl _, fun begin => by simpa using begin⟩) found

theorem gptfind_rank (low : -1 ≤ s.curent)
    (success : gptfind bios s uuid dsk (-1) = (0, t, dsk')) : rank t < rank s := by
  rw [gptfind, if_neg (by decide)] at success
  split at success
  next => simp at success
  next u hit =>
    obtain ⟨less, -⟩ := findNext_rank low hit
    have kept : Kept u t := by
      have : t = (found bios u dsk).2.1 := by rw [success]
      rw [this, found]
      split
      · exact updateBoth_kept ..
      · exact .refl u
    rw [rank_kept kept]
    exact less

/-- parse touches neither the GPT nor where the current partition starts, and it names a
drive by one byte. -/
structure Parsed (m m' : Main) : Prop where
  gpt : m'.gpt = m.gpt
  start : m'.dsk.start = m.dsk.start
  drive : m.dsk.drive < 256 → m'.dsk.drive < 256

theorem Parsed.refl (m : Main) : Parsed m m := ⟨rfl, rfl, id⟩

theorem Parsed.trans {m'' : Main} (first : Parsed m m') (second : Parsed m' m'') : Parsed m m'' :=
  ⟨second.gpt.trans first.gpt, second.start.trans first.start, fun small => second.drive (first.drive small)⟩

theorem parseOpts_parsed (env : Env) (arg : Bytes) (m : Main) : Parsed m (parseOpts env arg m).1 := by
  induction arg generalizing m with
  | nil => exact .refl m
  | cons _ arg ih =>
    rw [parseOpts]
    split
    next =>
      refine Parsed.trans ?_ (ih _)
      split
      · exact .refl m
      · exact ⟨rfl, rfl, id⟩
    next =>
      split
      next =>
        split
        next => split <;> exact ⟨rfl, rfl, id⟩
        next => exact .refl m
      next =>
        split
        next => exact .refl m
        next =>
          refine Parsed.trans ?_ (ih _)
          exact ⟨rfl, rfl, id⟩

theorem parseUnit_parsed (m : Main) (tok : Bytes) (q arg : Nat) {drv : Option Nat} (small : ∀ d, drv = some d → d ≤ 9) :
    Parsed m (parseUnit m tok q arg drv).1 := by
  rw [parseUnit]
  split
  next => exact .refl m
  next =>
    split
    next => exact .refl m
    next =>
      simp only
      split
      next => exact ⟨rfl, rfl, id⟩
      next _ =>
        split
        next => exact ⟨rfl, rfl, id⟩
        next =>
          split
          next => exact ⟨rfl, rfl, id⟩
          next =>
            refine ⟨rfl, rfl, fun _ => ?_⟩
            have number : drv.getD (digit (tok.getD (arg + 3) 0)).toNat ≤ 9 := by
              cases drv with
              | none => simp only [getD_none]; omega
              | some d => exact small d rfl
            simp only [drvHard]
            split <;> omega

theorem parseDev_parsed (m : Main) (tok : Bytes) (q : Nat) : Parsed m (parseDev m tok q).1 := by
  rw [parseDev]
  split
  next =>
    simp only
    split
    next => exact .refl m
    next _ =>
      refine parseUnit_parsed m tok q 2 fun d same => ?_
      obtain rfl := some.inj same
      omega
  next => exact parseUnit_parsed m tok q 0 (by simp)

theorem parseKname_parsed {name : Bytes} (done : parseKname m name = some m') : Parsed m m' := by
  rw [parseKname] at done
  split at done
  next => obtain rfl := some.inj done; exact .refl m
  next =>
    split at done
    next => simp at done
    next => obtain rfl := some.inj done; exact ⟨rfl, rfl, id⟩

theorem parseArg_parsed (env : Env) (m : Main) (updated : Bool) (tok : Bytes) :
    Parsed m (parseArg env m updated tok).1 := by
  rw [parseArg.eq_def]
  split
  next => exact .refl m
  next c word =>
    split
    next =>
      have opts := parseOpts_parsed env word m
      split
      next m' parsed => rwa [parsed] at opts
      next m' parsed =>
        rw [parsed] at opts
        exact opts.trans ⟨rfl, rfl, id⟩
    next =>
      split
      next =>
        split
        next => exact .refl m
        next named => exact parseKname_parsed named
      next q _ =>
        have dev := parseDev_parsed m (c :: word) (q + 1)
        split
        next parsed => rwa [parsed] at dev
        next parsed =>
          rw [parsed] at dev
          split
          next => exact dev
          next named => exact dev.trans (parseKname_parsed named)

theorem parseLoop_parsed (env : Env) (fuel : Nat) (str : Bytes) (m : Main) (updated : Bool) :
    Parsed m (parseLoop env fuel str m updated).1 := by
  induction fuel generalizing str m updated with
  | zero => exact .refl m
  | succ fuel ih =>
    cases str with
    | nil => exact .refl m
    | cons c arg =>
      rw [parseLoop]
      split
      next => exact ih ..
      next =>
        have first := parseArg_parsed env m updated (c :: arg.takeWhile fun c => !isSpace c)
        simp only
        split
        next parsed => rwa [parsed] at first
        next parsed =>
          rw [parsed] at first
          exact first.trans (ih ..)

/-- The key of a file system is a drive of one byte and a 64-bit sector. -/
structure Bounded (m : Main) : Prop where
  drive : m.dsk.drive < 256
  start : m.dsk.start < 2 ^ 64
  low : -1 ≤ m.gpt.curent

theorem found_bounded (bios : Bios) (s : State) (dsk : Dsk) :
    (found bios s dsk).2.2.drive = dsk.drive ∧ (found bios s dsk).2.2.start < 2 ^ 64 ∧
    (found bios s dsk).2.1.curent = s.curent := by
  have small : (s.gpttable s.curent.toNat).lbaStart < 2 ^ 64 := le_lt 8 32 _
  rw [found]
  split
  · exact ⟨rfl, small, (updateBoth_kept ..).curent⟩
  · exact ⟨rfl, small, rfl⟩

theorem gptfind_bounded {part : Int} (success : gptfind bios s uuid dsk part = (0, t, dsk')) :
    dsk'.drive = dsk.drive ∧ dsk'.start < 2 ^ 64 ∧ -1 ≤ t.curent := by
  rcases gptfind_cases bios s uuid dsk part with ⟨curent, bootonce, failed⟩ | ⟨curent, bootonce, -, through⟩
  · rw [failed] at success
    simp at success
  · have spec := found_bounded bios (moved s curent bootonce) dsk
    rw [← through, success] at spec
    obtain ⟨drive, start, position⟩ := spec
    refine ⟨drive, start, ?_⟩
    rw [position]
    change -1 ≤ (curent : Int)
    omega

theorem gptinit_bounded (success : gptinit env m = (true, m')) (small : m.dsk.drive < 256) :
    Bounded m' := by
  rw [gptinit] at success
  split at success
  next _ dsk loaded =>
    split at success
    next _ _ done =>
      obtain rfl := (Prod.mk.inj success).2
      obtain ⟨drive, start, low⟩ := gptfind_bounded done
      have same : dsk = { m.dsk with start := 0 } := (congrArg (·.2.2) loaded).symm
      refine ⟨?_, start, low⟩
      rw [drive, same]
      exact small
    next => simp at success
  next => simp at success

/-- The command that is executed in this round, if any, selects a drive and a partition. -/
def selects (env : Env) (m : Main) : Bool :=
  let m := readConfig env { m with kname := [] }
  m.cmd.headD 0 != 0 && (parse env m m.cmd).2 == some true

def key (m : Main) : Nat × Nat := (m.dsk.drive, m.dsk.start)

theorem readConfig_parsed (env : Env) (m : Main) : Parsed m (readConfig env { m with kname := [] }) := by
  rw [readConfig]
  split <;> exact ⟨rfl, rfl, id⟩

theorem runConfig_again (bounded : Bounded m)
    (through : runConfig env (readConfig env { m with kname := [] }) = (m', true)) :
    Bounded m' ∧ (selects env m = true ∨ m'.gpt = m.gpt) := by
  have read := readConfig_parsed env m
  rw [selects]
  generalize readConfig env { m with kname := [] } = r at through read ⊢
  have start : Bounded r := ⟨read.drive bounded.drive, read.start ▸ bounded.start, read.gpt ▸ bounded.low⟩
  have parsed := parseLoop_parsed env (cstring env r.cmd).length (cstring env r.cmd) r false
  rw [runConfig] at through
  split at through
  next =>
    obtain rfl := (Prod.mk.inj through).1
    exact ⟨start, .inr read.gpt⟩
  next command =>
    have step : Parsed r (parse env r r.cmd).1 := parsed
    split at through
    next => simp at through
    next t done =>
      rw [done] at step
      obtain rfl := (Prod.mk.inj through).1
      exact ⟨⟨step.drive start.drive, step.start ▸ start.start, step.gpt ▸ start.low⟩, .inr (step.gpt.trans read.gpt)⟩
    next t done =>
      rw [done] at step
      split at through
      next => simp at through
      next _ ready =>
        obtain rfl := (Prod.mk.inj through).1
        obtain ⟨drive, begin, low⟩ := gptinit_bounded ready (step.drive start.drive)
        refine ⟨⟨drive, begin, low⟩, .inl ?_⟩
        simp only [done]
        simpa using command

theorem iteration_again (bounded : Bounded m) (again : iteration env m = .again m') :
    Bounded m' ∧ (selects env m = true ∨ rank m'.gpt < rank m.gpt) := by
  rw [iteration] at again
  split at again
  next => simp at again
  next t through =>
    obtain ⟨bounded', same⟩ := runConfig_again bounded through
    split at again
    next => simp at again
    next =>
      simp only at again
      split at again
      next => simp at again
      next =>
        have kept : Kept t.gpt (gptbootfailed env.bios t.gpt t.dsk) := by
          rw [gptbootfailed]
          split
          · exact .refl _
          · exact updateBoth_kept ..
        split at again
        next gpt dsk next =>
          obtain rfl := Step.again.inj again
          obtain ⟨drive, start, low⟩ := gptfind_bounded next
          have less := gptfind_rank (by rw [kept.curent]; exact bounded'.low) next
          rw [rank_kept kept] at less
          refine ⟨⟨drive ▸ bounded'.drive, start, low⟩, same.imp_right fun equal => ?_⟩
          rw [← equal]
          exact less
        next => simp at again

def stateAt (env : Env) : Nat → Main → Option Main
  | 0, m => some m
  | k + 1, m =>
    match iteration env m with
    | .again m => stateAt env k m
    | _ => none

/-- No file system has a command executed twice that selects a drive and a partition. -/
def SelectsOnce (env : Env) (m : Main) : Prop :=
  ∀ i j mi mj, i < j → stateAt env i m = some mi → stateAt env j m = some mj →
    selects env mi = true → selects env mj = true → key mi ≠ key mj

def ReachesPrompt (env : Env) (m : Main) : Prop := ∃ fuel m', loop env fuel m = some (.prompt m')

theorem iteration_not_booted (fails : ∀ dsk kname, env.load dsk kname = false) (m m' : Main) :
    iteration env m ≠ .booted m' := by
  intro booted
  rw [iteration] at booted
  split at booted
  next => simp at booted
  next _ _ =>
    split at booted
    next => simp at booted
    next =>
      simp only at booted
      split at booted
      next found =>
        have := find?_some found
        rw [fails] at this
        exact absurd this (by decide)
      next => split at booted <;> simp at booted

def keyBound : Nat := 256 * 2 ^ 64

private theorem history_bound {history : List (Nat × Nat)} (once : history.Nodup)
    (small : ∀ k ∈ history, k.1 < 256 ∧ k.2 < 2 ^ 64) : history.length ≤ keyBound := by
  have inside : history ⊆ range 256 ×ˢ range (2 ^ 64) := by
    intro k member
    obtain ⟨drive, start⟩ := small k member
    exact mem_product.mpr ⟨mem_range.mpr drive, mem_range.mpr start⟩
  have bound := (once.subperm inside).length_le
  rwa [length_product, length_range, length_range] at bound

/-- What is known before a round: `history` are the file systems whose command has been
executed, and none of them will have another one executed. -/
structure Pending (env : Env) (m : Main) (history : List (Nat × Nat)) : Prop where
  bounded : Bounded m
  nodup : history.Nodup
  small : ∀ k ∈ history, k.1 < 256 ∧ k.2 < 2 ^ 64
  once : SelectsOnce env m
  new : ∀ i mi, stateAt env i m = some mi → selects env mi = true → key mi ∉ history

section

variable {env : Env} {m m' : Main} {history : List (Nat × Nat)}

private theorem stateAt_again (again : iteration env m = .again m') (i : Nat) :
    stateAt env (i + 1) m = stateAt env i m' := by
  rw [stateAt, again]

theorem Pending.walk (pending : Pending env m history) (again : iteration env m = .again m') : Pending env m' history := by
  refine ⟨(iteration_again pending.bounded again).1, pending.nodup, pending.small, ?_, ?_⟩
  · intro i j mi mj less reached reached'
    exact pending.once (i + 1) (j + 1) mi mj (by omega) (stateAt_again again i ▸ reached) (stateAt_again again j ▸ reached')
  · intro i mi reached
    exact pending.new (i + 1) mi (stateAt_again again i ▸ reached)

theorem Pending.select (pending : Pending env m history) (again : iteration env m = .again m')
    (sent : selects env m = true) :
    Pending env m' (key m :: history) ∧ history.length < keyBound := by
  have walked := pending.walk again
  have nodup : (key m :: history).Nodup := nodup_cons.mpr ⟨pending.new 0 m rfl sent, pending.nodup⟩
  have small : ∀ k ∈ key m :: history, k.1 < 256 ∧ k.2 < 2 ^ 64 := by
    intro k member
    rcases mem_cons.mp member with rfl | member
    · exact ⟨pending.bounded.drive, pending.bounded.start⟩
    · exact pending.small k member
  refine ⟨⟨walked.bounded, nodup, small, walked.once, fun i mi reached sent' member => ?_⟩, history_bound nodup small⟩
  rcases mem_cons.mp member with same | member
  · exact pending.once 0 (i + 1) m mi (by omega) rfl (stateAt_again again i ▸ reached) sent sent' same.symm
  · exact walked.new i mi reached sent' member

/-- The outer induction is on the file systems without a command so far, the inner one on
the rest of the walk. -/
theorem Pending.ends (fails : ∀ dsk kname, env.load dsk kname = false) (pending : Pending env m history) :
    ReachesPrompt env m := by
  generalize left : keyBound - history.length = unseen
  induction unseen using Nat.strong_induction_on generalizing m history with
  | _ unseen outer =>
    generalize near : rank m.gpt = steps
    induction steps using Nat.strong_induction_on generalizing m with
    | _ steps inner =>
      cases round : iteration env m with
      | prompt m' => exact ⟨1, m', by rw [loop, round]⟩
      | booted m' => exact absurd round (iteration_not_booted fails m m')
      | again m' =>
        have ends : ReachesPrompt env m' := by
          obtain ⟨-, sent | closer⟩ := iteration_again pending.bounded round
          · obtain ⟨selected, _⟩ := pending.select round sent
            exact outer _ (by rw [← left, length_cons]; omega) selected rfl
          · exact inner _ (near ▸ closer) (pending.walk round) rfl
        obtain ⟨fuel, last, done⟩ := ends
        exact ⟨fuel + 1, last, by rw [loop, round]; exact done⟩

end

/-- The loop of gptboot ends when no file system has a command executed twice that selects
a drive and a partition. -/
theorem autoboot_loop_ends (env : Env) (fails : ∀ dsk kname, env.load dsk kname = false)
    (gpt : State) (drive : UInt8) (stack : Bytes) (comspeed : Int)
    (ready : (start env gpt drive stack comspeed).1 = true)
    (once : SelectsOnce env (start env gpt drive stack comspeed).2) :
    ReachesPrompt env (start env gpt drive stack comspeed).2 := by
  have bounded : Bounded (start env gpt drive stack comspeed).2 := by
    rw [start] at ready ⊢
    generalize entry : gptinit env _ = r at ready ⊢
    obtain ⟨ok, _⟩ := r
    obtain rfl : ok = true := ready
    obtain ⟨small, begin, low⟩ := gptinit_bounded entry drive.toNat_lt
    exact ⟨small, begin, low⟩
  have pending : Pending env (start env gpt drive stack comspeed).2 [] := ⟨bounded, .nil, by simp, once, by simp⟩
  exact pending.ends fails

/-! Partition 1 of two is marked BOOTME, and its configuration file holds ad(0p1). -/

def ufsEnt : Ent := Ent.setAttr ⟨freebsdUfsUuid ++ replicate 112 0, by simp [freebsdUfsUuid]⟩ gptEntAttrBootme

def selfDisk : Nat × Nat → Sector := sampleDisk 92 [ufsEnt, sampleEnt 0]

def selfState : State := sampleState 92 [ufsEnt, sampleEnt 0]

/-- "ad(0p1)" -/
def selfCommand : Bytes := [0x61, 0x64, 0x28, 0x30, 0x70, 0x31, 0x29]

/-- The sample drive with `content` as the configuration file of every partition. -/
def sampleEnv (content : Option Bytes) : Env :=
  { bios := sampleBios, config := fun _ _ => content, load := fun _ _ => false, keyhit := false, keyboard := true,
    behind := [] }

def emptyCmd : Bytes := replicate 512 0

def selfPlace (lba : Nat) : Place := placeOf selfDisk 128 lba

theorem selfPlace_valid (lba : Nat) (one : lba = 1 ∨ lba = 9) : Valid sampleBios (selfPlace lba) selfDisk := by
  refine valid_of_accepted sampleDsk (c := sampleCopy) ?_ ?_ ?_
  · rcases one with rfl | rfl <;> exact ⟨by decide +kernel, by decide +kernel⟩
  · rcases one with rfl | rfl <;> decide
  · rcases one with rfl | rfl <;> decide

structure Reset (s : State) : Prop where
  disk : s.disk = selfDisk
  entries : s.gpthdr.entries = 2
  curent : s.curent = -1
  bootonce : s.bootonce = true
  first : s.gpttable 0 = diskEnt (selfPlace 1) selfDisk 0
  second : s.gpttable 1 = diskEnt (selfPlace 1) selfDisk 1

theorem gptread_self {s : State} (disk : s.disk = selfDisk) (dsk : Dsk) (drive : dsk.drive = 128) :
    ∃ t, gptread sampleBios s dsk = (0, t, { dsk with start := 0 }) ∧ Reset t := by
  have count : (selfPlace 1).entries = 2 ∧ (selfPlace 9).entries = 2 := by decide
  have untried : ∀ j < 2, isTried (diskEnt (selfPlace 1) selfDisk j) = false ∧
    isTried (diskEnt (selfPlace 9) selfDisk j) = false := by
    decide
  obtain ⟨read, synced, active⟩ := gptread_quiet s dsk (disk ▸ selfPlace_valid 1 (.inl rfl))
    (disk ▸ selfPlace_valid 9 (.inr rfl)) drive drive rfl (by decide) (by decide)
    (fun j less => disk ▸ (untried j (count.1 ▸ less)).1) (fun j less => disk ▸ (untried j (count.2 ▸ less)).2)
  rw [disk] at synced
  refine ⟨_, read, disk, ?_, rfl, rfl, ?_, ?_⟩
  · rw [State.gpthdr, active, synced.good.entries, count.1]
  · rw [State.gpttable, active, synced.agree 0 (by rw [count.1]; decide)]
  · rw [State.gpttable, active, synced.agree 1 (by rw [count.1]; decide)]

private theorem self_first : isType freebsdUfsUuid (diskEnt (selfPlace 1) selfDisk 0) = true ∧
    isBootme freebsdUfsUuid (diskEnt (selfPlace 1) selfDisk 0) = true ∧
    (diskEnt (selfPlace 1) selfDisk 0).has gptEntAttrBootonce = false ∧
    isBootonce freebsdUfsUuid (diskEnt (selfPlace 1) selfDisk 1) = false := by decide

private theorem found_first {s : State} (reset : Reset s) (bootonce : Bool) (dsk : Dsk) :
    ∃ start, found sampleBios (moved s 0 bootonce) dsk = (0, moved s 0 bootonce, ⟨dsk.drive, dsk.type, dsk.unit, 1, start⟩) := by
  have unmarked : ((moved s 0 bootonce).gpttable (moved s 0 bootonce).curent.toNat).has gptEntAttrBootonce = false := by
    change (s.gpttable 0).has gptEntAttrBootonce = false
    rw [reset.first]
    exact self_first.2.2.1
  rw [found, unmarked]
  exact ⟨_, rfl⟩

private theorem next_first {s : State} (reset : Reset s) {curent : Int} (one : curent = -1 ∨ curent = 0) :
    findNext freebsdUfsUuid (moved s curent true) = (true, moved s 0 false) := by
  have unmarked : isBootonce freebsdUfsUuid (s.gpttable 0) = false := by
    rw [reset.first, isBootonce, self_first.2.2.1, Bool.and_false]
  have once : stop (isBootonce freebsdUfsUuid) (moved s curent true) (curent + 1).toNat = 2 := by
    change scan _ s.gpttable (s.gpthdr.entries - _) _ = 2
    rw [reset.entries]
    rcases one with rfl | rfl
    · simp [scan, unmarked, reset.second, self_first.2.2.2]
    · simp [scan, reset.second, self_first.2.2.2]
  have plain : stop (isBootme freebsdUfsUuid) (moved s curent true) 0 = 0 := by
    change scan _ s.gpttable (s.gpthdr.entries - 0) 0 = 0
    rw [reset.entries]
    simp only [scan, reset.first, self_first.2.1, if_true]
  have entries : (moved s curent true).gpthdr.entries = 2 := reset.entries
  have position : (moved s curent true).curent = curent := rfl
  have flag : (moved s curent true).bootonce = true := rfl
  rw [findNext_eq, entries, position, if_neg (by omega), if_pos flag, once, if_neg (by decide), findLast,
    plain, entries, if_pos (by decide)]
  rfl

def selfDsk (start : Nat) : Dsk := ⟨128, 0, 0, 1, start⟩

def fullCmd : Bytes := selfCommand ++ replicate 505 0

private theorem parse_self (m : Main) : parse (sampleEnv (some selfCommand)) m fullCmd =
    ({ m with dsk := selfDsk m.dsk.start }, some true) := by
  have text : cstring (sampleEnv (some selfCommand)) fullCmd = selfCommand := by decide
  rw [parse, text]
  rfl

structure Caught (m : Main) : Prop where
  disk : m.gpt.disk = selfDisk
  cmd : put 0 selfCommand m.cmd = fullCmd

theorem caught_again {m : Main} (caught : Caught m) :
    ∃ m', iteration (sampleEnv (some selfCommand)) m = .again m' ∧ Caught m' := by
  have config : readConfig (sampleEnv (some selfCommand)) { m with kname := [] } =
    { m with kname := [], cmd := fullCmd } := by
    rw [readConfig]
    simp only [sampleEnv]
    rw [show selfCommand.take 512 = selfCommand by decide, caught.cmd]
  obtain ⟨t, loaded, reset⟩ := gptread_self caught.disk (selfDsk m.dsk.start) rfl
  have read : gptread sampleBios m.gpt (selfDsk m.dsk.start) = (0, t, selfDsk 0) := loaded
  obtain ⟨start, found⟩ := found_first reset true (selfDsk 0)
  have explicit : gptfind sampleBios t freebsdUfsUuid (selfDsk 0) 1 =
      (0, moved t 0 true, selfDsk start) := by
    have kind : (!isType freebsdUfsUuid (t.gpttable 0)) = false := by rw [reset.first, self_first.1]; rfl
    rw [gptfind, if_pos (by decide), if_neg (by rw [reset.entries]; decide)]
    have same : { t with curent := (1 : Int) - 1 } = moved t 0 true := by
      rw [moved, ← reset.bootonce]
      rfl
    rw [show ((1 : Int) - 1).toNat = 0 from rfl, kind, if_neg (by decide), same]
    exact found
  have failed : gptbootfailed sampleBios (moved t 0 true) (selfDsk start) =
      moved t 0 true := by
    have unmarked : ((moved t 0 true).gpttable (moved t 0 true).curent.toNat).has gptEntAttrBootonce = false := by
      change (t.gpttable 0).has gptEntAttrBootonce = false
      rw [reset.first]
      exact self_first.2.2.1
    rw [gptbootfailed, unmarked]
    rfl
  obtain ⟨start', found'⟩ := found_first reset false (selfDsk start)
  have next : gptfind sampleBios (moved t 0 true) freebsdUfsUuid
      (selfDsk start) (-1) =
      (0, moved t 0 false, selfDsk start') := by
    rw [gptfind, if_neg (by decide), next_first reset (.inr rfl)]
    exact found'
  have bios : (sampleEnv (some selfCommand)).bios = sampleBios := rfl
  have parsed := parse_self { m with kname := [], cmd := fullCmd }
  have ran : runConfig (sampleEnv (some selfCommand)) { m with kname := [], cmd := fullCmd } =
      ({ m with
        gpt := moved t 0 true
        dsk := selfDsk start
        kname := []
        cmd := put 0 [0] fullCmd }, true) := by
    rw [runConfig, if_neg (by change ¬ fullCmd.headD 0 = 0; decide), parsed]
    have part : (selfDsk 0).part = 1 := rfl
    simp only [gptinit, bios, read, part, explicit]
  refine ⟨{ m with
    gpt := moved t 0 false
    dsk := selfDsk start'
    kname := pathKernel
    cmd := put 0 [0] fullCmd
    autoboot := false }, ?_, reset.disk, (by decide +kernel : put 0 selfCommand (put 0 [0] fullCmd) = fullCmd)⟩
  rw [iteration, config, ran]
  simp only [bios, failed, next]
  simp only [sampleEnv, Bool.false_eq_true, and_false, if_false]
  rw [find?_eq_none.mpr (by simp)]

/-- The loop goes on for ever. -/
theorem self_reference_never_ends :
    (start (sampleEnv (some selfCommand)) selfState 0x80 emptyCmd 9600).1 = true ∧
    ¬ ReachesPrompt (sampleEnv (some selfCommand)) (start (sampleEnv (some selfCommand)) selfState 0x80 emptyCmd 9600).2 := by
  have forever : ∀ fuel m, Caught m → loop (sampleEnv (some selfCommand)) fuel m = none := by
    intro fuel
    induction fuel with
    | zero => exact fun _ _ => rfl
    | succ fuel ih =>
      intro m caught
      obtain ⟨m', again, caught'⟩ := caught_again caught
      rw [loop, again]
      exact ih m' caught'
  have caught : (start (sampleEnv (some selfCommand)) selfState 0x80 emptyCmd 9600).1 = true ∧
      Caught (start (sampleEnv (some selfCommand)) selfState 0x80 emptyCmd 9600).2 := by
    obtain ⟨t, read, reset⟩ := gptread_self (s := selfState) rfl ⟨128, 0, 0, -1, 0⟩ rfl
    obtain ⟨begin, found⟩ := found_first reset false ⟨128, 0, 0, -1, 0⟩
    have first : gptfind sampleBios t freebsdUfsUuid ⟨128, 0, 0, -1, 0⟩ (-1) = (0, moved t 0 false, ⟨128, 0, 0, 1, begin⟩) := by
      have same : t = moved t (-1) true := by rw [moved, ← reset.curent, ← reset.bootonce]
      rw [gptfind, if_neg (by decide), same, next_first reset (.inl rfl)]
      exact found
    have dsk : (⟨(0x80 : UInt8).toNat, if (0x80 : UInt8).toNat &&& drvHard ≠ 0 then typeAd else typeFd,
        (0x80 : UInt8).toNat &&& drvMask, -1, 0⟩ : Dsk) = ⟨128, 0, 0, -1, 0⟩ := by decide
    have bios : (sampleEnv (some selfCommand)).bios = sampleBios := rfl
    simp only [start, dsk, gptinit, bios, read, first]
    exact ⟨trivial, reset.disk, (by decide +kernel : put 0 selfCommand (put 0 [0] emptyCmd) = fullCmd)⟩
  refine ⟨caught.1, ?_⟩
  rintro ⟨fuel, m', done⟩
  rw [forever fuel _ caught.2] at done
  simp at done

/-- "1:ad(0p1)" with its NUL -/
def otherCommand : Bytes := [0x31, 0x3a, 0x61, 0x64, 0x28, 0x30, 0x70, 0x31, 0x29, 0]

/-- Two drives like the sample one: the configuration file on the first names the second, which has none. -/
def otherEnv : Env := { sampleEnv none with config := fun drive _ => if drive = 128 then some otherCommand else none }

def otherMain : Main := (start otherEnv selfState 0x80 emptyCmd 9600).2

private theorem stateAt_add (env : Env) (i k : Nat) (m : Main) :
    stateAt env (i + k) m = (stateAt env i m).bind (stateAt env k) := by
  induction i generalizing m with
  | zero => rw [Nat.zero_add, stateAt, bind_some]
  | succ i ih =>
    rw [Nat.succ_add, stateAt, stateAt]
    cases iteration env m with
    | again m' => exact ih m'
    | prompt => rfl
    | booted => rfl

theorem other_drive_reaches_prompt : selects otherEnv otherMain = true ∧ ReachesPrompt otherEnv otherMain := by
  refine ⟨by decide +kernel, autoboot_loop_ends otherEnv (fun _ _ =>
    rfl) selfState 0x80 emptyCmd 9600 (by decide +kernel) ?_⟩
  change SelectsOnce otherEnv otherMain
  -- The second round has no command, and it is the last one.
  obtain ⟨quiet, last⟩ : (stateAt otherEnv 1 otherMain).all (fun m => !selects otherEnv m) = true ∧
    (stateAt otherEnv 2 otherMain).isNone = true := by decide +kernel
  intro i j mi mj less _ reached _ sent
  obtain rfl | later : j = 1 ∨ 2 ≤ j := by omega
  · rw [reached, all_some, sent] at quiet
    cases quiet
  · obtain ⟨_, rfl⟩ := Nat.exists_eq_add_of_le later
    rw [stateAt_add, Option.isNone_iff_eq_none.1 last] at reached
    cases reached

end Pcbsd.Proofs.GptbootLoop
