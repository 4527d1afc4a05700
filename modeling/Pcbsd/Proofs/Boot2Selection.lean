import Pcbsd.Boot2

/-! What a boot block keeps while it works with the UFS reader. -/

namespace Pcbsd.Ufsread
open Lib

variable {S : Type}

/-- What dskread keeps, by dsk_meta, and what it establishes by succeeding. -/
structure Dev.Keeps (dev : Dev S) (I : Bool → S → Prop) : Prop where
  read : ∀ {flag s lba nblk buf ok buf' s'}, I flag s → dev.dskread flag s lba nblk buf = (ok, buf', s') →
    I flag s' ∧ (ok = true → I true s')

variable {layout : Layout} {dev : Dev S} {I : Bool → S → Prop} {fs : Fs} {r r' : Reader} {s s' : S}

variable {found : Option Fs} {result : Result} {vbaddr inode size : Nat} {b : Bool} {nb : Nat}

variable (keeps : dev.Keeps I)

include keeps

theorem trySuper_keeps (locs : List Nat) (inv : I r.dskMeta s)
    (ran : trySuper layout dev locs r s = (found, r', s')) : I r'.dskMeta s' := by
  induction locs generalizing r s with
  | nil =>
    cases ran
    exact inv
  | cons _ _ ih =>
    rw [trySuper] at ran
    split at ran
    next read =>
      cases ran
      exact (keeps.read inv read).1
    next sbbuf _ read =>
      split at ran
      · cases ran
        exact (keeps.read inv read).2 rfl
      · exact ih (r := { r with sbbuf }) (keeps.read inv read).1 ran

theorem readSuper_keeps (inv : I r.dskMeta s) (ran : readSuper layout dev r s = (found, r', s')) : I r'.dskMeta s' := by
  rw [readSuper] at ran
  split at ran
  · cases ran
    exact inv
  · exact trySuper_keeps (r := { r with inomap := 0 }) keeps sblockTry inv ran

theorem readInode_keeps (inv : I r.dskMeta s)
    (ran : readInode layout dev fs inode r s = (b, r', s')) : I r'.dskMeta s' := by
  rw [readInode] at ran
  split at ran
  · cases ran
    exact inv
  · dsimp only at ran
    split at ran
    next read =>
      cases ran
      exact (keeps.read inv read).1
    next read =>
      cases ran
      exact (keeps.read inv read).1

theorem readIndirect_keeps (inv : I r.dskMeta s)
    (ran : readIndirect dev vbaddr r s = (b, r', s')) : I r'.dskMeta s' := by
  rw [readIndirect] at ran
  split at ran
  · cases ran
    exact inv
  · split at ran
    next read =>
      cases ran
      exact (keeps.read inv read).1
    next read =>
      cases ran
      exact (keeps.read inv read).1

theorem readBlock_keeps (inv : I r.dskMeta s) {nblk : Nat}
    (ran : readBlock dev vbaddr nblk r s = (b, r', s')) : I r'.dskMeta s' := by
  rw [readBlock] at ran
  split at ran
  · cases ran
    exact inv
  · split at ran
    next read =>
      cases ran
      exact (keeps.read inv read).1
    next read =>
      cases ran
      exact (keeps.read inv read).1

theorem blockAddr_keeps (inv : I r.dskMeta s) {lbn : Nat} {addr : Option Nat}
    (ran : blockAddr dev fs lbn r s = (addr, r', s')) : I r'.dskMeta s' := by
  rw [blockAddr] at ran
  split at ran
  · cases ran
    exact inv
  · split at ran
    · dsimp only at ran
      split at ran
      next read =>
        cases ran
        exact readIndirect_keeps keeps inv read
      next read =>
        cases ran
        exact readIndirect_keeps keeps inv read
    · cases ran
      exact inv

theorem turn_keeps (inv : I r.dskMeta s) {bytes : Option Bytes}
    (ran : turn dev fs size nb r s = (bytes, r', s')) : I r'.dskMeta s' := by
  rw [turn] at ran
  dsimp only at ran
  split at ran
  next found =>
    cases ran
    exact blockAddr_keeps keeps inv found
  next found =>
    split at ran
    next read =>
      cases ran
      exact readBlock_keeps keeps (blockAddr_keeps keeps inv found) read
    next read =>
      have kept := readBlock_keeps keeps (blockAddr_keeps keeps inv found) read
      cases ran
      exact kept

theorem copyLoop_keeps (inv : I r.dskMeta s) {fuel : Nat} {out : Bytes}
    (ran : copyLoop dev fs size fuel nb out r s = (result, r', s')) : I r'.dskMeta s' := by
  induction fuel generalizing nb out r s with
  | zero =>
    cases ran
    exact inv
  | succ fuel ih =>
    rw [copyLoop] at ran
    split at ran
    · cases ran
      exact inv
    · split at ran
      next turned =>
        cases ran
        exact turn_keeps keeps inv turned
      next turned => exact ih (turn_keeps keeps inv turned) ran

theorem fsread_keeps (inv : I r.dskMeta s) {nbyte : Nat}
    (ran : fsread layout dev inode nbyte r s = (result, r', s')) : I r'.dskMeta s' := by
  rw [fsread] at ran
  split at ran
  next searched =>
    cases ran
    exact readSuper_keeps keeps inv searched
  next searched =>
    have ready := readSuper_keeps keeps inv searched
    split at ran
    · cases ran
      exact ready
    · split at ran
      next read =>
        cases ran
        exact readInode_keeps keeps ready read
      next read => exact copyLoop_keeps keeps (readInode_keeps keeps ready read) ran

theorem exec_keeps (client : Client) (inv : I r.dskMeta s) :
    I (exec layout dev client r s).1.dskMeta (exec layout dev client r s).2 := by
  induction client generalizing r s with
  | done => exact inv
  | seek off next ih => exact ih (r := { r with fsOff := off % 2 ^ 32 }) inv
  | fsread inode nbyte next ih =>
    rw [exec]
    generalize ran : Pcbsd.Ufsread.fsread layout dev inode nbyte r s = result
    obtain ⟨result, _, _⟩ := result
    exact ih result (fsread_keeps keeps inv ran)

end Pcbsd.Ufsread

/-! What boot2 reads for the file system, over whole sessions. The partition that is selected and the place
that is read agree as long as no command is given up within a device. -/

namespace Pcbsd.Boot2
open Lib Gpt Gptboot Drv Ufsread List

/-- Where a slice starts: the whole disk, the first FreeBSD slice, or the one that is named. -/
def sliceStart (mbr : Bytes) (slice : Nat) : Option Nat :=
  if slice = wholeDiskSlice then some 0
  else if slice = compatibilitySlice then ((range ndospart).find? fun i => dpTyp mbr i == dosptyp386bsd).map
    (dpStart mbr)
  else if dpTyp mbr (slice - baseSlice) = dosptyp386bsd then some (dpStart mbr (slice - baseSlice))
  else none

def labelStart (label : Bytes) (base part : Nat) : Option Nat :=
  if dMagic label ≠ diskmagic ∨ dMagic2 label ≠ diskmagic then if part = rawPart then some base else none
  else if dNpartitions label ≤ part ∨ pSize label part = 0 then none
  else some ((base + pOffset label part + (2 ^ 32 - pOffset label rawPart)) % 2 ^ 32)

def partStart (disk : Nat × Nat → Sector) (behind : Bytes) (drive slice part : Nat) : Option Nat :=
  (sliceStart ((disk (drive, 0)).bytes ++ behind) slice).bind fun base =>
    labelStart (disk (drive, (base + labelsector) % 2 ^ 32)).bytes base part

/-- The place that is read is that of the selected partition, and so was sbbuf if it is in use. -/
def Event.Consistent (disk : Nat × Nat → Sector) (behind : Bytes) : Event → Prop
  | .command _ _ _ => True
  | .read dskMeta dsk sbFrom =>
    partStart disk behind dsk.drive dsk.slice dsk.part = some dsk.start ∧ (dskMeta = true → sbFrom = (dsk.drive, dsk.start))

/-- The command is not given up behind a slice or a partition other than before, unless the selection is to be
looked up anyway. -/
def Event.Steady : Event → Prop
  | .command buf keyboard v =>
    (parse keyboard buf.length buf v).2 = false → (parse keyboard buf.length buf v).1.dskMeta = true →
      (parse keyboard buf.length buf v).1.dsk.slice = v.dsk.slice ∧ (parse keyboard buf.length buf v).1.dsk.part = v.dsk.part
  | .read _ _ _ => True

theorem sliceLoop_first (mbr : Bytes) (l : List Nat) {sl : Nat} (low : sl < baseSlice) :
    sliceLoop mbr compatibilitySlice l sl =
      match l.find? fun i => dpTyp mbr i == dosptyp386bsd with
      | some i => baseSlice + i
      | none => sl := by
  induction l with
  | nil => rfl
  | cons i _ ih =>
    rw [sliceLoop]
    by_cases bsd : dpTyp mbr i = dosptyp386bsd
    · rw [if_pos ⟨bsd, Or.inr low⟩, if_pos (Or.inr rfl), find?_cons_of_pos (by simpa using bsd)]
    · rw [if_neg fun both => bsd both.1, ih, find?_cons_of_neg (by simpa using bsd)]

theorem sliceLoop_ge (mbr : Bytes) (slice : Nat) (l : List Nat) (sl : Nat) :
    sliceLoop mbr slice l sl = sl ∨ baseSlice ≤ sliceLoop mbr slice l sl := by
  induction l generalizing sl with
  | nil => exact Or.inl rfl
  | cons i _ ih =>
    rw [sliceLoop]
    split
    · split
      · exact Or.inr (Nat.le_add_right ..)
      · cases ih (baseSlice + i) with
        | inl same =>
          rw [same]
          exact Or.inr (Nat.le_add_right ..)
        | inr more => exact Or.inr more
    · exact ih sl

theorem chosen_whole {mbr : Bytes} {slice : Nat} (whole : chosen mbr slice = wholeDiskSlice) :
    slice = wholeDiskSlice := by
  rw [chosen] at whole
  split at whole
  · cases sliceLoop_ge mbr slice (range ndospart) slice with
    | inl same => exact same.symm.trans whole
    | inr more =>
      rw [whole] at more
      exact absurd more (by decide)
  · exact whole

theorem sliceStart_chosen {mbr : Bytes} {slice : Nat} (some : chosen mbr slice ≠ wholeDiskSlice)
    (bsd : dpTyp mbr (chosen mbr slice - baseSlice) = dosptyp386bsd) :
    sliceStart mbr (if slice = wholeDiskSlice then chosen mbr slice else slice) =
      Option.some (dpStart mbr (chosen mbr slice - baseSlice)) := by
  have named {n : Nat} (large : baseSlice ≤ n) (typ : dpTyp mbr (n - baseSlice) = dosptyp386bsd) :
      sliceStart mbr n = Option.some (dpStart mbr (n - baseSlice)) := by
    rw [baseSlice] at large
    rw [sliceStart, if_neg (by rw [wholeDiskSlice]; omega), if_neg (by rw [compatibilitySlice]; omega), if_pos typ]
  by_cases whole : slice = wholeDiskSlice
  · rw [if_pos whole]
    have large : baseSlice ≤ chosen mbr slice := by
      rw [chosen, if_pos (by rw [whole]; decide)] at some ⊢
      cases sliceLoop_ge mbr slice (range ndospart) slice with
      | inl same => exact absurd (same.trans whole) some
      | inr more => exact more
    exact named large bsd
  · rw [if_neg whole]
    by_cases first : slice = compatibilitySlice
    · subst first
      have loop := sliceLoop_first mbr (range ndospart) (show compatibilitySlice < baseSlice by decide)
      rw [chosen, if_pos (by decide), loop] at bsd ⊢
      rw [sliceStart, if_neg whole, if_pos rfl]
      split at bsd
      next _ found => rw [found, Option.map_some, Nat.add_sub_cancel_left]
      next none =>
        rw [find?_eq_none] at none
        exact absurd (beq_iff_eq.mpr bsd) (none 0 (by decide))
    · have large : baseSlice ≤ slice := by
        rw [wholeDiskSlice] at whole
        rw [compatibilitySlice] at first
        rw [baseSlice]
        omega
      rw [chosen, if_neg (by omega)] at bsd ⊢
      exact named large bsd

section

variable {σ : Type} {drives : Drives σ} {disk : Nat × Nat → Sector} {behind : Bytes} {a a' : Around σ}

variable {ok : Bool} {lba : Nat} {buf' : Bytes} {flag : Bool} {nblk : Nat} {buf : Bytes}

theorem readSec_spec {found : Option Bytes} (ran : readSec drives disk a lba = (found, a')) :
    (∃ outside, a' = { a with outside }) ∧ ∀ sec, found = some sec → sec = (disk (a.dsk.drive, lba)).bytes := by
  rw [readSec] at ran
  split at ran
  next outside _ =>
    cases ran
    refine ⟨⟨outside, rfl⟩, ?_⟩
    intro sec same
    cases same
    rfl
  next outside _ =>
    cases ran
    exact ⟨⟨outside, rfl⟩, fun _ none => by cases none⟩

theorem findSlice_spec {mbr : Bytes} (zero : a.dsk.start = 0) (ran : findSlice mbr a = (ok, a')) :
    (∃ dsk, a' = { a with dsk }) ∧ a'.dsk.drive = a.dsk.drive ∧
      (ok = true → sliceStart mbr a'.dsk.slice = some a'.dsk.start) := by
  rw [findSlice] at ran
  have drive : (if a.dsk.slice = wholeDiskSlice then { a.dsk with slice := chosen mbr a.dsk.slice } else a.dsk).drive =
      a.dsk.drive := by
    split <;> rfl
  by_cases whole : chosen mbr a.dsk.slice = wholeDiskSlice
  · rw [if_pos whole, if_pos (chosen_whole whole)] at ran
    cases ran
    refine ⟨⟨_, rfl⟩, rfl, fun _ => ?_⟩
    rw [sliceStart, if_pos whole, zero]
  · rw [if_neg whole] at ran
    split at ran
    next =>
      cases ran
      exact ⟨⟨_, rfl⟩, drive, fun no => by cases no⟩
    next bsd =>
      rw [not_not] at bsd
      cases ran
      refine ⟨⟨_, rfl⟩, drive, fun _ => ?_⟩
      rw [← sliceStart_chosen whole bsd]
      split <;> rfl

theorem findPart_spec {label : Bytes} (ran : findPart label a = (ok, a')) :
    (∃ dsk, a' = { a with dsk }) ∧ a'.dsk.drive = a.dsk.drive ∧ a'.dsk.slice = a.dsk.slice ∧
      (ok = true → labelStart label a.dsk.start a'.dsk.part = some a'.dsk.start) := by
  rw [findPart] at ran
  split at ran
  next none =>
    cases ran
    refine ⟨⟨_, rfl⟩, rfl, rfl, fun raw => ?_⟩
    rw [labelStart, if_pos none, if_pos (by simpa using raw)]
  next label =>
    dsimp only at ran
    generalize new : (if a.dsk.init = 0 then _ else a.dsk) = dsk at ran
    have same : dsk.drive = a.dsk.drive ∧ dsk.slice = a.dsk.slice ∧ dsk.part = a.dsk.part ∧ dsk.start = a.dsk.start := by
      rw [← new]
      split <;> exact ⟨rfl, rfl, rfl, rfl⟩
    split at ran
    next =>
      cases ran
      exact ⟨⟨_, rfl⟩, same.1, same.2.1, fun no => by cases no⟩
    next found =>
      cases ran
      refine ⟨⟨_, rfl⟩, same.1, same.2.1, fun _ => ?_⟩
      rw [labelStart, if_neg label, if_neg found, same.2.2.2]

theorem locate_spec (ran : locate drives disk behind a = (ok, a')) :
    a'.log = a.log ∧ (ok = true → partStart disk behind a'.dsk.drive a'.dsk.slice a'.dsk.part = some a'.dsk.start) := by
  rw [locate] at ran
  split at ran
  next read =>
    cases ran
    obtain ⟨⟨_, rfl⟩, _⟩ := readSec_spec read
    exact ⟨rfl, fun no => by cases no⟩
  next sec _ read =>
    obtain ⟨⟨_, same⟩, here⟩ := readSec_spec read
    have mbr := here sec rfl
    split at ran
    next slice =>
      cases ran
      obtain ⟨⟨_, rfl⟩, _⟩ := findSlice_spec (by rw [same]) slice
      rw [same]
      exact ⟨rfl, fun no => by cases no⟩
    next _ slice =>
      obtain ⟨⟨dsk, rfl⟩, drive, start⟩ := findSlice_spec (by rw [same]) slice
      split at ran
      next read' =>
        cases ran
        obtain ⟨⟨_, rfl⟩, _⟩ := readSec_spec read'
        rw [same]
        exact ⟨rfl, fun no => by cases no⟩
      next sec' _ read' =>
        obtain ⟨⟨_, rfl⟩, there⟩ := readSec_spec read'
        have label := there sec' rfl
        obtain ⟨⟨_, rfl⟩, drive', slice', part⟩ := findPart_spec ran
        refine ⟨by rw [same], fun found => ?_⟩
        rw [same] at drive
        rw [drive', slice', drive, partStart, ← mbr, start rfl, Option.bind_some]
        rw [drive] at label
        rw [← label, part found]

/-- When dsk_meta is set, the selection is the one that was looked up, and all reads so far were sound. -/
structure Sound (disk : Nat × Nat → Sector) (behind : Bytes) (dskMeta : Bool) (a : Around σ) : Prop where
  selected : dskMeta = true → partStart disk behind a.dsk.drive a.dsk.slice a.dsk.part = some a.dsk.start ∧
    a.sbFrom = (a.dsk.drive, a.dsk.start)
  log : ∀ event ∈ a.log, event.Consistent disk behind

/-- The invariant of a session: it is sound, unless a command was not steady. -/
def Inv (disk : Nat × Nat → Sector) (behind : Bytes) (dskMeta : Bool) (a : Around σ) : Prop :=
  (∃ event ∈ a.log, ¬event.Steady) ∨ Sound disk behind dskMeta a

theorem dskread_sound (sound : Sound disk behind flag a)
    (ran : dskread drives disk behind flag a lba nblk buf = (ok, buf', a')) :
    Sound disk behind flag a' ∧ (ok = true → Sound disk behind true a') := by
  rw [dskread] at ran
  generalize found : (if flag then (true, a) else locate drives disk behind a) = result at ran
  obtain ⟨ready, b⟩ := result
  have located : b.log = a.log ∧
    (ready = true → partStart disk behind b.dsk.drive b.dsk.slice b.dsk.part = some b.dsk.start) ∧
      (flag = true → b = a) := by
    cases flag with
    | true =>
      cases found
      exact ⟨rfl, fun _ => (sound.selected rfl).1, fun _ => rfl⟩
    | false => exact ⟨(locate_spec found).1, (locate_spec found).2, fun no => by cases no⟩
  obtain ⟨log, place, same⟩ := located
  cases ready with
  | false =>
    cases ran
    refine ⟨⟨fun known => ?_, by rw [log]; exact sound.log⟩, fun no => by cases no⟩
    rw [same known]
    exact sound.selected known
  | true =>
    generalize drvread drives disk b.outside b.dsk.drive ((b.dsk.start + lba) % 2 ^ 32) nblk buf = answer at ran
    cases ran
    have consistent : ∀ event ∈ b.log ++ [Event.read flag b.dsk b.sbFrom], event.Consistent disk behind := by
      rw [forall_mem_append]
      refine ⟨by rw [log]; exact sound.log, ?_⟩
      rw [forall_mem_singleton]
      refine ⟨place rfl, fun known => ?_⟩
      rw [same known]
      exact (sound.selected known).2
    have origin : (if flag then b.sbFrom else (b.dsk.drive, b.dsk.start)) = (b.dsk.drive, b.dsk.start) := by
      cases flag with
      | true =>
        rw [same rfl]
        exact (sound.selected rfl).2
      | false => rfl
    exact ⟨⟨fun _ => ⟨place rfl, origin⟩, consistent⟩, fun _ => ⟨fun _ => ⟨place rfl, origin⟩, consistent⟩⟩

theorem dskread_log (ran : dskread drives disk behind flag a lba nblk buf = (ok, buf', a')) : a.log ⊆ a'.log := by
  rw [dskread] at ran
  generalize found : (if flag then (true, a) else locate drives disk behind a) = result at ran
  obtain ⟨ready, b⟩ := result
  have log : b.log = a.log := by
    cases flag with
    | true =>
      cases found
      rfl
    | false => exact (locate_spec found).1
  cases ready with
  | false =>
    cases ran
    rw [log]
    exact List.Subset.refl _
  | true =>
    generalize drvread drives disk b.outside b.dsk.drive ((b.dsk.start + lba) % 2 ^ 32) nblk buf = answer at ran
    cases ran
    rw [← log]
    exact subset_append_left ..

theorem dev_keeps (drives : Drives σ) (disk : Nat × Nat → Sector) (behind : Bytes) :
    (dev drives disk behind).Keeps (Inv disk behind) where
  read inv ran := by
    cases inv with
    | inl broken =>
      obtain ⟨event, member, unsteady⟩ := broken
      have still := dskread_log ran member
      exact ⟨Or.inl ⟨event, still, unsteady⟩, fun _ => Or.inl ⟨event, still, unsteady⟩⟩
    | inr sound =>
      obtain ⟨kept, success⟩ := dskread_sound sound ran
      exact ⟨Or.inr kept, fun ok => Or.inr (success ok)⟩

end

structure Parsed (v v' : Vars) (ok : Bool) : Prop where
  dskMeta : v'.dskMeta = true → v.dskMeta = true
  drive : v'.dskMeta = true → v'.dsk.drive = v.dsk.drive
  start : v'.dskMeta = true → v'.dsk.start = v.dsk.start
  accepted : ok = true → v'.dskMeta = true → v'.dsk.slice = v.dsk.slice ∧ v'.dsk.part = v.dsk.part

variable {v' v : Vars} {ok : Bool} {found : Option Nat} {keyboard : Bool} {mem : Bytes} {q : Nat}

theorem Parsed.trans {v'' : Vars} (first : Parsed v v' true) (second : Parsed v' v'' ok) : Parsed v v'' ok where
  dskMeta known := first.dskMeta (second.dskMeta known)
  drive known := (second.drive known).trans (first.drive (second.dskMeta known))
  start known := (second.start known).trans (first.start (second.dskMeta known))
  accepted done known := by
    obtain ⟨slice, part⟩ := second.accepted done known
    obtain ⟨slice', part'⟩ := first.accepted rfl (second.dskMeta known)
    exact ⟨slice.trans slice', part.trans part'⟩

theorem Parsed.of_dsk (dsk : v'.dsk = v.dsk) (dskMeta : v'.dskMeta = v.dskMeta) : Parsed v v' ok where
  dskMeta known := dskMeta ▸ known
  drive _ := by rw [dsk]
  start _ := by rw [dsk]
  accepted _ _ := by rw [dsk]; exact ⟨rfl, rfl⟩

theorem Parsed.rejected (dskMeta : v'.dskMeta = v.dskMeta) (drive : v'.dsk.drive = v.dsk.drive)
    (start : v'.dsk.start = v.dsk.start) : Parsed v v' false where
  dskMeta known := dskMeta ▸ known
  drive _ := drive
  start _ := start
  accepted no := by cases no

theorem Parsed.reset {v v' : Vars} {ok : Bool} (reset : v'.dskMeta = false) : Parsed v v' ok where
  dskMeta known := by rw [reset] at known; cases known
  drive known := by rw [reset] at known; cases known
  start known := by rw [reset] at known; cases known
  accepted _ known := by rw [reset] at known; cases known

theorem parseUnit_parsed {arg : Nat} {drv : Option Nat}
    (ran : parseUnit v mem q arg drv = (v', found)) : Parsed v v' found.isSome := by
  rw [parseUnit] at ran
  split at ran
  · cases ran
    exact Parsed.of_dsk rfl rfl
  · split at ran
    · cases ran
      exact Parsed.of_dsk rfl rfl
    · dsimp only [Vars.setDsk] at ran
      split at ran
      · cases ran
        exact Parsed.rejected rfl rfl rfl
      · split at ran
        · cases ran
          exact Parsed.rejected rfl rfl rfl
        · split at ran
          · cases ran
            exact Parsed.rejected rfl rfl rfl
          · split at ran
            · cases ran
              exact Parsed.rejected rfl rfl rfl
            · cases ran
              exact Parsed.reset rfl

theorem parseDev_parsed (ran : parseDev v mem q = (v', found)) :
    Parsed v v' found.isSome := by
  rw [parseDev] at ran
  split at ran
  · dsimp only at ran
    split at ran
    · cases ran
      exact Parsed.of_dsk rfl rfl
    · exact parseUnit_parsed ran
  · exact parseUnit_parsed ran

theorem parseKname_parsed {name : Bytes} (ran : parseKname v name = (v', ok)) : Parsed v v' ok := by
  rw [parseKname] at ran
  split at ran
  · cases ran
    exact Parsed.of_dsk rfl rfl
  · split at ran
    · cases ran
      exact Parsed.of_dsk rfl rfl
    · cases ran
      exact Parsed.of_dsk rfl rfl

theorem parseWord_parsed {tok : Bytes} (ran : parseWord keyboard v tok mem = (v', ok)) : Parsed v v' ok := by
  rw [parseWord.eq_def] at ran
  split at ran
  · cases ran
    exact Parsed.of_dsk rfl rfl
  · split at ran
    · split at ran
      · cases ran
        exact Parsed.of_dsk rfl rfl
      · cases ran
        exact Parsed.of_dsk rfl rfl
    · split at ran
      · exact parseKname_parsed ran
      · split at ran
        next device =>
          cases ran
          exact parseDev_parsed device
        next device => exact (parseDev_parsed device).trans (parseKname_parsed ran)

theorem parse_parsed {fuel : Nat} {buf : Bytes} (ran : parse keyboard fuel buf v = (v', ok)) : Parsed v v' ok := by
  induction fuel generalizing buf v with
  | zero =>
    cases ran
    exact Parsed.of_dsk rfl rfl
  | succ fuel ih =>
    cases buf with
    | nil =>
      cases ran
      exact Parsed.of_dsk rfl rfl
    | cons _ _ =>
      rw [parse] at ran
      split at ran
      · cases ran
        exact Parsed.of_dsk rfl rfl
      · split at ran
        · exact ih ran
        · dsimp only at ran
          split at ran
          next word =>
            cases ran
            exact parseWord_parsed word
          next word =>
            have step := parseWord_parsed word
            split at ran
            · cases ran
              exact step
            · exact step.trans (ih ran)

section

variable {σ : Type} {drives : Drives σ} {disk : Nat × Nat → Sector} {behind : Bytes} {layout : Layout} {m : Main σ}

variable (drives layout) in
theorem runClient_inv (client : Client) (inv : Inv disk behind m.reader.dskMeta m.around) :
    Inv disk behind (runClient drives disk behind layout client m).reader.dskMeta
      (runClient drives disk behind layout client m).around :=
  exec_keeps (dev_keeps drives disk behind) client inv

theorem runParse_inv (buf : Bytes) (keyboard : Bool) (inv : Inv disk behind m.reader.dskMeta m.around) :
    Inv disk behind (runParse buf keyboard m).2.reader.dskMeta (runParse buf keyboard m).2.around := by
  by_cases steady : Event.Steady (.command buf keyboard m.vars)
  · rw [runParse]
    generalize ran : parse keyboard buf.length buf m.vars = result
    obtain ⟨v, ok⟩ := result
    rw [Event.Steady, ran] at steady
    have parsed := parse_parsed ran
    cases inv with
    | inl broken =>
      obtain ⟨event, member, unsteady⟩ := broken
      exact Or.inl ⟨event, mem_append_left _ member, unsteady⟩
    | inr sound =>
      refine Or.inr ⟨fun known => ?_, ?_⟩
      · have same : v.dsk.slice = m.around.dsk.slice ∧ v.dsk.part = m.around.dsk.part := by
          cases ok with
          | true => exact parsed.accepted rfl known
          | false => exact steady rfl known
        have drive := parsed.drive known
        have start := parsed.start known
        have selected := sound.selected (parsed.dskMeta known)
        dsimp only [Main.note, Main.setVars]
        rw [drive, start, same.1, same.2]
        exact selected
      · dsimp only [Main.note, Main.setVars]
        rw [forall_mem_append, forall_mem_singleton]
        exact ⟨sound.log, trivial⟩
  · exact Or.inl ⟨_, mem_append_right _ (mem_singleton.mpr rfl), steady⟩

theorem prompt_inv (entries : List Entry) (inv : Inv disk behind m.reader.dskMeta m.around) :
    Inv disk behind (prompt drives disk behind layout entries m).reader.dskMeta
      (prompt drives disk behind layout entries m).around := by
  induction entries generalizing m with
  | nil => exact inv
  | cons entry _ ih =>
    have parsed := runParse_inv entry.buf entry.keyboard inv
    rw [prompt]
    generalize runParse entry.buf entry.keyboard m = result at parsed ⊢
    obtain ⟨ok, after⟩ := result
    cases ok with
    | false => exact ih parsed
    | true =>
      have loaded := runClient_inv drives layout (entry.load after.kname) parsed
      dsimp only
      split
      · exact loaded
      · exact ih loaded

theorem main_inv (config : Client) (first : Entry) (keyhit : Bool) (entries : List Entry)
    (inv : Inv disk behind m.reader.dskMeta m.around) :
    Inv disk behind (main drives disk behind layout config first keyhit entries m).reader.dskMeta
      (main drives disk behind layout config first keyhit entries m).around := by
  have read := runClient_inv drives layout config inv
  rw [main]
  generalize runClient drives disk behind layout config m = m₁ at read ⊢
  have parsed : Inv disk behind
      (if first.buf.headD 0 = 0 then (true, m₁) else runParse first.buf first.keyboard m₁).2.reader.dskMeta
      (if first.buf.headD 0 = 0 then (true, m₁) else runParse first.buf first.keyboard m₁).2.around := by
    split
    · exact read
    · exact runParse_inv _ _ read
  generalize (if first.buf.headD 0 = 0 then (true, m₁) else runParse first.buf first.keyboard m₁) = result at parsed ⊢
  obtain ⟨_, m₂⟩ := result
  dsimp only at parsed ⊢
  split
  · split
    · have loaded := runClient_inv (m := { m₂ with kname := some pathBoot3 }) drives layout (first.load (some pathBoot3)) parsed
      split
      · exact loaded
      · exact prompt_inv (m := { runClient drives disk behind layout (first.load (some pathBoot3))
          { m₂ with kname := some pathBoot3 } with kname := some pathKernel }) entries loaded
    · exact prompt_inv (m := { m₂ with kname := some pathBoot3 }) entries parsed
  · exact prompt_inv entries parsed

theorem main_sound (config : Client) (first : Entry) (keyhit : Bool) (entries : List Entry)
    (fresh : m.reader.dskMeta = false) (empty : m.around.log = [])
    (steady : ∀ event ∈ (main drives disk behind layout config first keyhit entries m).around.log, event.Steady) :
    ∀ event ∈ (main drives disk behind layout config first keyhit entries m).around.log,
      event.Consistent disk behind := by
  have start : Inv disk behind m.reader.dskMeta m.around := by
    refine Or.inr ⟨fun known => ?_, ?_⟩
    · rw [fresh] at known
      cases known
    · rw [empty]
      exact forall_mem_nil _
  cases main_inv config first keyhit entries start with
  | inl broken =>
    obtain ⟨event, member, unsteady⟩ := broken
    exact absurd (steady event member) unsteady
  | inr sound => exact sound.log

end

end Pcbsd.Boot2
