import Pcbsd.Zfsboot

/-! The pool that zfsboot boots from, over whole sessions. The pool pointer, the mount and the
initialisation of a pool agree as long as the commands stay with the pool that main has mounted and
none of them fails behind a switch. -/

namespace Pcbsd.Zfsboot
open Lib Boot Gptboot
open List hiding after

variable {μ σ : Type}

/-- What is on the disks: the MOS of each pool, and the object set of each of its datasets. -/
structure Disks (μ : Type) where
  mos : Nat → μ
  objset : Nat → Nat → μ

structure Env.Faithful (env : Env μ σ) (disks : Disks μ) : Prop where
  readMos : ∀ outside p old new outside', env.readMos outside p old = (true, new, outside') → new = disks.mos p
  mountDataset : ∀ outside p rootobj old new outside',
    env.mountDataset outside p (disks.mos p) rootobj old = (.ok (), new, outside') → new = disks.objset p rootobj

def Env.KeepsBuffer (env : Env μ σ) : Prop :=
  ∀ outside p mos rootobj old new outside', env.mountDataset outside p mos rootobj old = (.failed, new, outside') → new = old

structure Mounted (disks : Disks μ) (m : Main μ σ) : Prop where
  pool : ∃ pool, m.pool m.spa = some pool ∧ pool.inited = true ∧ pool.mos = disks.mos m.spa
  spa : m.zfsmount.spa = some m.spa
  objset : m.zfsmount.objset = disks.objset m.spa m.zfsmount.rootobj

/-- A load starts from the pool that is mounted, and a rejected command has changed nothing. -/
def Event.Consistent (disks : Disks μ) : Event μ σ → Prop
  | .command _ _ => True
  | .load m => Mounted disks m
  | .rejected before after => after.spa = before.spa ∧ after.zfsmount = before.zfsmount

def switches (m : Main μ σ) (tok : Bytes) : Option Nat :=
  if tok.head? = some 0x2d ∨ tok.head? = some 0x3f then none
  else (tok.findIdx? (· == charColon)).bind fun q => spaFindByName m (tok.take q)

variable (env : Env μ σ)

/-- The words of a command switch to the current pool only, with a name that fits into kname, and none
is rejected behind a switch. -/
def Steady : List Bytes → (switched : Bool) → Main μ σ → Prop
  | [], _, _ => True
  | tok :: rest, switched, m =>
    (∀ p, switches m tok = some p → p = m.spa ∧ tok.length < 1024) ∧
      match parseWord env tok m with
      | (.accepted, after) => Steady rest (switched || (switches m tok).isSome) after
      | (.rejected, _) => switched = false
      | (.trapped, _) => True

variable {env} {disks : Disks μ} {m : Main μ σ}

theorem Mounted.congr {m' : Main μ σ} (mounted : Mounted disks m) (pools : m'.pools = m.pools) (spa : m'.spa = m.spa)
    (zfsmount : m'.zfsmount = m.zfsmount) : Mounted disks m' where
  pool := by
    rw [Main.pool, pools, spa]
    exact mounted.pool
  spa := by rw [zfsmount, spa, mounted.spa]
  objset := by rw [zfsmount, spa, mounted.objset]

def Keeps (disks : Disks μ) (m : Main μ σ) : Parsed × Main μ σ → Prop
  | (.accepted, after) => Mounted disks after ∧ after.spa = m.spa
  | (.rejected, after) => Mounted disks after ∧ after.spa = m.spa ∧ after.zfsmount = m.zfsmount
  | (.trapped, _) => True

private theorem parseKname_keeps {name : Bytes} {before : Main μ σ} (mounted : Mounted disks m) (spa : m.spa = before.spa)
    (zfsmount : 1024 ≤ name.length → m.zfsmount = before.zfsmount) : Keeps disks before (parseKname name m) := by
  rw [parseKname]
  split
  · exact ⟨mounted, spa⟩
  · split
    next long => exact ⟨mounted, spa, zfsmount long⟩
    next => exact ⟨mounted.congr rfl rfl rfl, spa⟩

def Ready (disks : Disks μ) (m : Main μ σ) : Prop :=
  ∃ pool, m.pool m.spa = some pool ∧ pool.inited = true ∧ pool.mos = disks.mos m.spa

def MountsReady (disks : Disks μ) (m : Main μ σ) : Reply Unit × Main μ σ → Prop
  | (.ok _, after) => Mounted disks after ∧ after.spa = m.spa
  | (.failed, after) => after.pools = m.pools ∧ after.spa = m.spa ∧ after.zfsmount = { m.zfsmount with spa := some m.spa }
  | (.trapped, _) => True

variable (faithful : env.Faithful disks)

include faithful

private theorem mountRoot_mounts (keeps : env.KeepsBuffer) (ready : Ready disks m) (rootobj : Nat) (outside : σ) :
    MountsReady disks m (mountRoot env m.spa rootobj (disks.mos m.spa)
      { m with zfsmount := { m.zfsmount with spa := some m.spa }, outside }) := by
  rw [mountRoot]
  generalize ran : env.mountDataset outside m.spa (disks.mos m.spa) rootobj m.zfsmount.objset = result
  obtain ⟨reply, objset, _⟩ := result
  cases reply with
  | ok _ => exact ⟨⟨ready, rfl, faithful.mountDataset _ _ _ _ _ _ ran⟩, rfl⟩
  | failed =>
    obtain rfl := keeps _ _ _ _ _ _ _ ran
    exact ⟨rfl, rfl, rfl⟩
  | trapped => trivial

theorem zfsMount_mounts (keeps : env.KeepsBuffer) (ready : Ready disks m) (rootobj : Nat) :
    MountsReady disks m (zfsMount env m.spa rootobj m) := by
  have ⟨pool, here, _, mos⟩ := ready
  rw [zfsMount]
  split
  next none => cases none.symm.trans here
  next _ some =>
    obtain rfl := Option.some.inj (some.symm.trans here)
    rw [mos]
    split
    · split
      next rootobj outside _ => exact mountRoot_mounts faithful keeps ready rootobj outside
      next outside _ => exact ⟨rfl, rfl, rfl⟩
      next outside _ => trivial
    · exact mountRoot_mounts faithful keeps ready rootobj m.outside

private theorem switchMount_keeps (keeps : env.KeepsBuffer) (mounted : Mounted disks m) (newroot : Nat) {name : Bytes}
    (short : name.length < 1024) (outside : σ) :
    Keeps disks m (switchMount env m.spa newroot name { m with outside }) := by
  have ready : Ready disks { m with outside } := mounted.pool
  have mounts := zfsMount_mounts faithful keeps ready newroot
  have same : ({ m.zfsmount with spa := some m.spa } : Zfsmount μ) = m.zfsmount := by rw [← mounted.spa]
  rw [switchMount]
  generalize zfsMount env m.spa newroot { m with outside } = result at mounts ⊢
  obtain ⟨reply, _⟩ := result
  cases reply with
  | ok _ => exact parseKname_keeps mounts.1 mounts.2 fun long => by omega
  | failed =>
    have kept := mounts.2.2.trans same
    exact ⟨mounted.congr mounts.1 mounts.2.1 kept, mounts.2.1, kept⟩
  | trapped => trivial

theorem switchPool_keeps (keeps : env.KeepsBuffer) (mounted : Mounted disks m) {arg : Bytes}
    (short : arg.length < 1024) : Keeps disks m (switchPool env m.spa arg m) := by
  rw [switchPool]
  split
  · exact switchMount_keeps faithful keeps mounted 0 short m.outside
  next q _ =>
    have dropped : (arg.drop (q + 1)).length < 1024 := by
      rw [length_drop]
      omega
    split
    · trivial
    · split
      next newroot outside _ => exact switchMount_keeps faithful keeps mounted newroot dropped outside
      next outside _ => exact ⟨mounted.congr rfl rfl rfl, rfl, rfl⟩
      next outside _ => trivial

theorem parseWord_keeps (keeps : env.KeepsBuffer) (mounted : Mounted disks m) (tok : Bytes)
    (current : ∀ p, switches m tok = some p → p = m.spa ∧ tok.length < 1024) :
    Keeps disks m (parseWord env tok m) ∧
      ∀ after, parseWord env tok m = (.accepted, after) → switches m tok = none → after.zfsmount = m.zfsmount := by
  cases tok with
  | nil =>
    refine ⟨⟨mounted, rfl⟩, ?_⟩
    rintro after ⟨⟩ -
    rfl
  | cons c word =>
    rw [parseWord]
    split
    next =>
      split
      next console _ => exact ⟨⟨mounted.congr rfl rfl rfl, rfl, rfl⟩, by rintro _ ⟨⟩⟩
      next console _ =>
        refine ⟨⟨mounted.congr rfl rfl rfl, rfl⟩, ?_⟩
        rintro after ⟨⟩ -
        rfl
    next noOption =>
      split
      next =>
        split
        next => exact ⟨trivial, by rintro _ ⟨⟩⟩
        next => exact ⟨⟨mounted.congr rfl rfl rfl, rfl, rfl⟩, by rintro _ ⟨⟩⟩
      next noQuestion =>
        split
        next => exact ⟨⟨mounted, rfl, rfl⟩, by rintro _ ⟨⟩⟩
        next =>
          split
          next =>
            refine ⟨parseKname_keeps mounted rfl fun _ => rfl, ?_⟩
            rintro after ran -
            rw [parseKname] at ran
            split at ran
            · cases ran
              rfl
            · split at ran
              · cases ran
              · cases ran
                rfl
          next q colon =>
            have switch : switches m (c :: word) = spaFindByName m ((c :: word).take q) := by
              rw [switches, if_neg (by simp [noOption, noQuestion]), colon, Option.bind_some]
            split
            next => exact ⟨⟨mounted, rfl, rfl⟩, by rintro _ ⟨⟩⟩
            next newspa found =>
              have names := switch.trans found
              obtain ⟨rfl, _⟩ := current newspa names
              refine ⟨switchPool_keeps faithful keeps mounted ?_, ?_⟩
              · rw [length_drop]
                omega
              · intro after _ none
                rw [names] at none
                cases none

omit faithful

private theorem steady_accepts {words : List Bytes} (steady : Steady env words true m) (after : Main μ σ) :
    parseWords env words m ≠ (.rejected, after) := by
  induction words generalizing m with
  | nil =>
    intro same
    cases same
  | cons _ _ ih =>
    have step := steady.2
    rw [parseWords]
    split
    next next accepted =>
      rw [accepted] at step
      exact ih step
    next _ =>
      intro rejected
      rw [rejected] at step
      cases step

theorem parseWords_keeps (faithful : env.Faithful disks) (keeps : env.KeepsBuffer) (words : List Bytes) (switched : Bool)
    (mounted : Mounted disks m) (steady : Steady env words switched m) : Keeps disks m (parseWords env words m) := by
  induction words generalizing m switched with
  | nil => exact ⟨mounted, rfl⟩
  | cons tok rest ih =>
    obtain ⟨current, steady⟩ := steady
    obtain ⟨step, unchanged⟩ := parseWord_keeps faithful keeps mounted tok current
    rw [parseWords]
    generalize parseWord env tok m = result at step unchanged steady ⊢
    obtain ⟨ended, next⟩ := result
    cases ended with
    | trapped => trivial
    | rejected => exact step
    | accepted =>
      have later := ih _ step.1 steady
      dsimp only at steady ⊢
      generalize ran : parseWords env rest next = result at later ⊢
      obtain ⟨ended, after⟩ := result
      cases ended with
      | trapped => trivial
      | accepted => exact ⟨later.1, later.2.trans step.2⟩
      | rejected =>
        refine ⟨later.1, later.2.1.trans step.2, later.2.2.trans (unchanged next rfl ?_)⟩
        cases switch : switches m tok with
        | none => rfl
        | some _ =>
          rw [switch, Option.isSome_some, Bool.or_true] at steady
          exact absurd ran (steady_accepts steady after)

def SteadyEvents (env : Env μ σ) (events : List (Event μ σ)) : Prop :=
  ∀ cmd m, .command cmd m ∈ events → Steady env (commandWords cmd) false m

/-- From a state with the current pool mounted, what follows is consistent if its commands are steady. -/
def Continues (env : Env μ σ) (disks : Disks μ) (next : Main μ σ → List (Event μ σ)) : Prop :=
  ∀ m, Mounted disks m → SteadyEvents env (next m) → ∀ event ∈ next m, event.Consistent disks

private theorem SteadyEvents.tail {event : Event μ σ} {events : List (Event μ σ)} (steady : SteadyEvents env (event :: events)) :
    SteadyEvents env events := fun cmd m member => steady cmd m (mem_cons_of_mem _ member)

theorem runLoad_continues {next : Main μ σ → List (Event μ σ)} (continues : Continues env disks next) :
    Continues env disks fun m => runLoad env m next := by
  intro m mounted steady event member
  dsimp only at steady member
  have tail := steady.tail
  cases mem_cons.mp member with
  | inl same =>
    subst same
    exact mounted
  | inr later =>
    split at later
    next outside ran =>
      rw [ran] at tail
      exact continues { m with outside } (mounted.congr rfl rfl rfl) tail event later
    next => cases later

include faithful

theorem runParse_continues (keeps : env.KeepsBuffer) (cmd : Bytes) {accepted rejected : Main μ σ → List (Event μ σ)}
    (goesOn : Continues env disks accepted) (recovers : Continues env disks rejected) :
    Continues env disks fun m => runParse env cmd m accepted rejected := by
  intro m mounted steady event member
  dsimp only at steady member
  have parsed := parseWords_keeps faithful keeps (commandWords cmd) false mounted (steady cmd m mem_cons_self)
  have tail := steady.tail
  cases mem_cons.mp member with
  | inl same =>
    subst same
    trivial
  | inr later =>
    rw [parse] at later tail
    generalize parseWords env (commandWords cmd) m = result at parsed later tail
    obtain ⟨ended, after⟩ := result
    cases ended with
    | trapped => cases later
    | accepted => exact goesOn after parsed.1 tail event later
    | rejected =>
      cases mem_cons.mp later with
      | inl same =>
        subst same
        exact parsed.2
      | inr rest => exact recovers after parsed.1 tail.tail event rest

theorem prompt_continues (keeps : env.KeepsBuffer) (cmds : List Bytes) (auto : Bool) :
    Continues env disks (prompt env cmds auto) := by
  induction cmds generalizing auto with
  | nil =>
    intro m mounted steady event member
    cases member
  | cons cmd _ ih =>
    intro m mounted steady event member
    have shown : ∀ m', showPrompt env auto m = some m' → Mounted disks m' := by
      intro m' show'
      rw [showPrompt] at show'
      split at show'
      · cases show'
        exact mounted
      · split at show'
        · cases show'
        · split at show'
          · cases show'
          · cases show'
            exact mounted.congr rfl rfl rfl
    rw [prompt] at steady member
    split at member
    next => cases member
    next m' ran =>
      rw [ran] at steady
      exact runParse_continues faithful keeps cmd (runLoad_continues (ih false)) (ih false) m' (shown m' ran) steady event member

theorem autoboot_continues (keeps : env.KeepsBuffer) (auto keyhit : Bool) (cmds : List Bytes) :
    Continues env disks (autoboot env auto keyhit cmds) := by
  intro m mounted steady event member
  have typed := prompt_continues faithful keeps cmds auto
  have named : Mounted disks { m with kname := pathBoot3 } := mounted.congr rfl rfl rfl
  rw [autoboot] at steady member
  split at member
  next loads =>
    rw [if_pos loads] at steady
    split at member
    next hit =>
      rw [if_pos hit] at steady
      exact typed _ named steady event member
    next noHit =>
      rw [if_neg noHit] at steady
      refine runLoad_continues ?_ _ named steady event member
      intro m mounted
      exact typed _ (mounted.congr rfl rfl rfl)
  next prompts =>
    rw [if_neg prompts] at steady
    exact typed m mounted steady event member

theorem mountDefault_mounted {m' : Main μ σ} (fresh : ∀ pool ∈ m.pools, pool.inited = false) (keeps : env.KeepsBuffer)
    (success : mountDefault env m = (some true, m')) : Mounted disks m' := by
  rw [mountDefault] at success
  split at success
  next => cases success
  next m₁ init =>
    have ready : Ready disks m₁ := by
      rw [zfsSpaInit] at init
      split at init
      next => cases init
      next pool here =>
        have notYet := fresh pool (mem_of_getElem? here)
        rw [if_neg (by simp [notYet])] at init
        split at init
        next _ mos _ read =>
          cases init
          have inside := (List.getElem?_eq_some_iff.mp here).1
          refine ⟨{ pool with mos, inited := true }, ?_, rfl, ?_⟩
          · rw [Main.pool, List.getElem?_set_self inside]
          · exact faithful.readMos _ _ _ _ _ read
    have mounts := zfsMount_mounts faithful keeps ready 0
    split at success
    next ran =>
      cases success
      rw [ran] at mounts
      exact mounts.1
    next => cases success
    next => cases success

omit faithful

/-- The sessions in which zfsboot keeps its pool together. -/
theorem main_consistent (faithful : env.Faithful disks) (keeps : env.KeepsBuffer) (keyhit : Bool) (cmds : List Bytes)
    (m : Main μ σ) (fresh : ∀ pool ∈ m.pools, pool.inited = false) (mounts : (mountDefault env m).1 = some true)
    (steady : SteadyEvents env (main env keyhit cmds m)) : ∀ event ∈ main env keyhit cmds m, event.Consistent disks := by
  obtain ⟨⟨_, m'⟩, ran⟩ : ∃ result, mountDefault env m = result := ⟨_, rfl⟩
  rw [ran] at mounts
  subst mounts
  have mounted := mountDefault_mounted faithful fresh keeps ran
  intro event member
  rw [main, ran] at steady member
  dsimp only at steady member
  rw [configured, if_pos rfl] at steady member
  split at member
  next cmd outside read =>
    rw [read] at steady
    exact runParse_continues faithful keeps cmd (autoboot_continues faithful keeps true keyhit cmds)
      (autoboot_continues faithful keeps false keyhit cmds) { m' with outside } (mounted.congr rfl rfl rfl) steady event member
  next outside read =>
    rw [read] at steady
    exact autoboot_continues faithful keeps true keyhit cmds { m' with outside } (mounted.congr rfl rfl rfl) steady event member
  next => cases member

/-- One pool "t", all of whose reads succeed. An object set is the number of its dataset. -/
def readable : Env Nat Unit where
  keyboard := true
  readMos _ _ _ := (true, 1, ())
  getRoot _ _ _ := (.ok 3, ())
  lookupDataset _ _ _ _ := (.ok 5, ())
  mountDataset _ _ _ rootobj _ := (.ok (), rootobj, ())
  rlookup _ _ _ _ := (.ok [], ())
  list _ _ _ := (.failed, ())
  config _ _ := (.failed, ())
  load _ _ _ _ := (.failed, ())

def readableDisks : Disks Nat where
  mos _ := 1
  objset _ rootobj := rootobj

def probed : Main Nat Unit where
  pools := [⟨[0x74], false, 0⟩]
  spa := 0
  zfsmount := ⟨none, 0, 0⟩
  console := ⟨0, ioKeyboard, 9600⟩
  kname := []
  outside := ()

private theorem readable_faithful : readable.Faithful readableDisks where
  readMos := by
    rintro _ _ _ _ _ ⟨⟩
    rfl
  mountDataset := by
    rintro _ _ _ _ _ _ ⟨⟩
    rfl

private theorem readable_keepsBuffer : readable.KeepsBuffer := by rintro _ _ _ _ _ _ _ ⟨⟩

/-- The command "t:a: -z" is rejected at its second word, when the first has mounted another dataset. -/
theorem rejected_command_remounts :
    ¬∀ event ∈ main readable true [[0x74, 0x3a, 0x61, 0x3a, 0x20, 0x2d, 0x7a]] probed, event.Consistent readableDisks := by
  intro consistent
  obtain ⟨before, after, member, changed⟩ : ∃ before after : Main Nat Unit,
      .rejected before after ∈ main readable true [[0x74, 0x3a, 0x61, 0x3a, 0x20, 0x2d, 0x7a]] probed ∧
        after.zfsmount ≠ before.zfsmount :=
    ⟨_, _, mem_cons_of_mem _ mem_cons_self, by decide⟩
  exact changed (consistent _ member).2

theorem main_consistent_one_switch :
    (main readable true [[0x74, 0x3a]] probed).length = 2 ∧
      ∀ event ∈ main readable true [[0x74, 0x3a]] probed, event.Consistent readableDisks := by
  refine ⟨by decide, main_consistent readable_faithful readable_keepsBuffer true [[0x74, 0x3a]] probed (by simp [probed]) rfl ?_⟩
  intro cmd m member
  cases mem_cons.mp member with
  | inl same =>
    cases same
    exact ⟨by decide, trivial⟩
  | inr later =>
    cases mem_cons.mp later with
    | inl same => cases same
    | inr rest => cases rest

end Pcbsd.Zfsboot
