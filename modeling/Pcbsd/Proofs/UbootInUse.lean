import Pcbsd.UbootDisk

/-! Which U-Boot devices are open while the storage driver is used. One counter stands for all units;
each call keeps the devices in step with the open handles under a condition of its own, and a run does
when all of its calls do. -/

namespace Pcbsd.UbootDisk
open Lib List

def World.Used (w : World) (h : Nat) : Prop := ∃ handle ∈ w.handles, w.driver.device handle.dev.unit = h

def InUse (w : World) : Prop := ∀ h, w.driver.isOpen h = true ↔ w.Used h

/-- A call that reads through an open handle finds the device of the handle open. -/
def ReadsOpen (w : World) : Call → Prop
  | .storStrategy place _ _ _ _ => ∀ handle, w.handles[place]? = some handle →
      w.driver.isOpen (w.driver.device handle.dev.unit) = true
  | _ => True

def World.UsedBeside (w : World) (place : Nat) (h : Nat) : Prop :=
  ∃ handle ∈ w.handles.eraseIdx place, w.driver.device handle.dev.unit = h

/-- When the counter and the devices agree on a call. An open that opens the device, because the counter is not
positive, finds a partition table unless the device has a handle already. A close brings the counter to zero, and
U-Boot closes the device, exactly when no other handle is open on it. -/
def Counted (w : World) : Call → Prop
  | .storOpen dev uboot => ¬0 < w.driver.storOpenCount → uboot.opens = true →
      (∃ handle, openTable (entered w.driver dev) uboot dev = .ok handle) ∨ w.Used (w.driver.device dev.unit)
  | .storClose place uboot => ∀ handle, w.handles[place]? = some handle →
      ((w.driver.storOpenCount = 1 ∧ uboot.closes = true) ↔ ¬w.UsedBeside place (w.driver.device handle.dev.unit))
  | .storStrategy .. => True

section
variable (s : Driver)

theorem setOpened_isOpen (h : Nat) (opened : Bool) (other : Nat) :
    (s.setOpened h opened).isOpen other = if other = h then opened else s.isOpen other := by
  rw [Driver.isOpen, Driver.setOpened]
  dsimp only
  rw [Function.update_apply]
  split
  · rfl
  · rfl

theorem entered_isOpen (dev : Devdesc) (h : Nat) :
    (entered s dev).isOpen h = if ¬0 < s.storOpenCount ∧ h = s.device dev.unit then true else s.isOpen h := by
  rw [entered]
  split
  next nested =>
    rw [if_neg (fun both => both.1 nested)]
    rfl
  next first =>
    rw [setOpened_isOpen]
    simp only [first, not_false_eq_true, true_and]

end

variable {w : World} {handle : Handle} {uboot : Uboot}

variable {dev : Devdesc} {s : Driver} {bsize : Nat}

theorem storReaddev_open {h : Nat} {blk : Int} {size : Nat} {buf : Bytes}
    (read : storReaddev s uboot h blk size = .ok buf) : s.isOpen h = true := by
  rw [storReaddev] at read
  split at read
  next valid => exact valid.1
  next => cases read

private theorem bind_ok {ε α β : Type} {x : Except ε α} {f : α → Except ε β} {b : β} (ok : (x >>= f) = .ok b) :
    ∃ a, x = .ok a ∧ f a = .ok b := by
  cases x with
  | error => cases ok
  | ok a => exact ⟨a, rfl, ok⟩

theorem storOpenGpt_open (found : storOpenGpt s uboot bsize dev = .ok handle) :
    s.isOpen (s.device dev.unit) = true ∧ handle.dev.unit = dev.unit := by
  rw [storOpenGpt] at found
  dsimp only at found
  split at found
  · cases found
  · obtain ⟨_, read, found⟩ := bind_ok found
    refine ⟨storReaddev_open read, ?_⟩
    split at found
    · cases found
    · split at found
      · cases found
      · obtain ⟨_, -, found⟩ := bind_ok found
        split at found
        · cases found
        · obtain ⟨_, -, found⟩ := bind_ok found
          cases found
          rfl

theorem storOpenBsdlabel_open (found : storOpenBsdlabel s uboot bsize dev = .ok handle) :
    s.isOpen (s.device dev.unit) = true ∧ handle.dev.unit = dev.unit := by
  rw [storOpenBsdlabel] at found
  split at found
  · cases found
  next _ read =>
    refine ⟨storReaddev_open read, ?_⟩
    dsimp only at found
    split at found
    · cases found
    · cases found
      rfl

theorem openTable_open (found : openTable s uboot dev = .ok handle) :
    s.isOpen (s.device dev.unit) = true ∧ handle.dev.unit = dev.unit := by
  rw [openTable] at found
  split at found
  next gpt =>
    cases found
    exact storOpenGpt_open gpt
  next => exact storOpenBsdlabel_open found

theorem storOpendev_cases (s : Driver) (uboot : Uboot) (dev : Devdesc) :
    (¬0 < s.storOpenCount ∧ uboot.opens = false ∧ storOpendev s uboot dev = (s, .error .enxio)) ∨
    (∃ handle, openTable (entered s dev) uboot dev = .ok handle ∧
      storOpendev s uboot dev = ({ entered s dev with storOpenCount := 1 }, .ok handle)) ∨
    (∃ err, (¬0 < s.storOpenCount → uboot.opens = true) ∧ openTable (entered s dev) uboot dev = .error err ∧
      storOpendev s uboot dev = (entered s dev, .error err)) := by
  rw [storOpendev]
  split
  next refused => exact Or.inl ⟨refused.1, by simpa using refused.2, rfl⟩
  next entering =>
    right
    rw [not_and, not_not] at entering
    cases table : openTable (entered s dev) uboot dev with
    | ok handle => exact Or.inl ⟨handle, rfl, rfl⟩
    | error err => exact Or.inr ⟨err, entering, rfl, rfl⟩

theorem used_append {driver : Driver} (kept : ∀ unit, driver.device unit = w.driver.device unit) (h : Nat) : World.Used
    ⟨driver, w.handles ++ [handle]⟩ h ↔ w.Used h ∨ w.driver.device handle.dev.unit = h := by
  simp only [World.Used, mem_append, mem_singleton, kept]
  constructor
  · rintro ⟨other, old | rfl, unit⟩
    · exact Or.inl ⟨other, old, unit⟩
    · exact Or.inr unit
  · rintro (⟨other, old, unit⟩ | unit)
    · exact ⟨other, Or.inl old, unit⟩
    · exact ⟨handle, Or.inr rfl, unit⟩

/-- An open leaves the devices and the open handles in step when it finds a table, and otherwise when the device it
opened is in use. -/
theorem open_inUse_iff (inUse : InUse w) (dev : Devdesc) (uboot : Uboot) :
    InUse (step w (.storOpen dev uboot)) ↔ Counted w (.storOpen dev uboot) := by
  rcases storOpendev_cases w.driver uboot dev with
    ⟨first, refused, result⟩ | ⟨handle, table, result⟩ | ⟨err, opened, table, result⟩
  · -- U-Boot does not open the device
    rw [step, result]
    refine ⟨fun _ _ opens => ?_, fun _ => inUse⟩
    rw [refused] at opens
    cases opens
  · -- The device is open, as the table was read from it, and has a handle now
    rw [step, result]
    refine ⟨fun _ _ _ => Or.inl ⟨handle, table⟩, fun _ h => ?_⟩
    obtain ⟨isOpen, unit⟩ := openTable_open table
    rw [entered_device] at isOpen
    have owners : World.Used ⟨{ entered w.driver dev with storOpenCount := 1 }, w.handles ++ [handle]⟩ h ↔ _ :=
      used_append (entered_device w.driver dev) h
    change (entered w.driver dev).isOpen h = true ↔
      World.Used ⟨{ entered w.driver dev with storOpenCount := 1 }, w.handles ++ [handle]⟩ h
    rw [owners, unit, ← inUse h]
    by_cases same : w.driver.device dev.unit = h
    · rw [← same, isOpen]
      simp
    · rw [entered_isOpen, if_neg (fun both => same both.2.symm)]
      simp [same]
  · -- No table: the device stays as it was opened, without a new handle
    rw [step, result]
    have kept (h : Nat) : World.Used ⟨entered w.driver dev, w.handles⟩ h ↔ w.Used h := by
      simp only [World.Used, entered_device]
    rw [Counted]
    constructor
    · intro after first _
      right
      rw [← kept, ← after, entered_isOpen, if_pos ⟨first, rfl⟩]
    · intro counted h
      rw [kept, ← inUse h, entered_isOpen]
      split
      next both =>
        rcases counted both.1 (opened both.1) with ⟨handle, found⟩ | used
        · rw [table] at found
          cases found
        · rw [both.2]
          exact ⟨fun _ => (inUse _).mpr used, fun _ => rfl⟩
      next => rfl

theorem storClosedev_isOpen (s : Driver) (uboot : Uboot) (dev : Devdesc) (h : Nat) :
    (storClosedev s uboot dev).1.isOpen h =
      if (s.storOpenCount = 1 ∧ uboot.closes = true) ∧ h = s.device dev.unit then false else s.isOpen h := by
  rw [storClosedev]
  dsimp only
  split
  next _ =>
    have last : s.storOpenCount = 1 := by omega
    split
    next closes =>
      rw [setOpened_isOpen]
      simp only [last, closes, and_self, true_and]
      rfl
    next fails =>
      rw [if_neg (fun all => fails all.1.2)]
      rfl
  next more =>
    rw [if_neg (fun all => more (by rw [all.1.1]; rfl))]
    rfl

theorem storClosedev_device (s : Driver) (uboot : Uboot) (dev : Devdesc) (unit : Nat) :
    (storClosedev s uboot dev).1.device unit = s.device unit := by
  rw [storClosedev]
  split
  · split <;> rfl
  · rfl

theorem used_beside {place : Nat} (named : w.handles[place]? = some handle) (h : Nat) :
    w.Used h ↔ w.UsedBeside place h ∨ w.driver.device handle.dev.unit = h := by
  simp only [World.Used, World.UsedBeside, mem_eraseIdx_iff_getElem?]
  simp only [mem_iff_getElem?]
  constructor
  · rintro ⟨other, ⟨i, found⟩, unit⟩
    by_cases same : i = place
    · rw [same, named] at found
      cases found
      exact Or.inr unit
    · exact Or.inl ⟨other, ⟨i, same, found⟩, unit⟩
  · rintro (⟨other, ⟨i, -, found⟩, unit⟩ | unit)
    · exact ⟨other, ⟨i, found⟩, unit⟩
    · exact ⟨handle, ⟨place, named⟩, unit⟩

theorem close_inUse_iff (inUse : InUse w) (place : Nat) (uboot : Uboot) :
    InUse (step w (.storClose place uboot)) ↔ Counted w (.storClose place uboot) := by
  rw [step, Counted]
  cases named : w.handles[place]? with
  | none =>
    refine ⟨fun _ other found => ?_, fun _ => inUse⟩
    cases found
  | some handle =>
    have beside (h : Nat) : World.Used ⟨(storClosedev w.driver uboot handle.dev).1, w.handles.eraseIdx place⟩ h ↔
        w.UsedBeside place h := by
      simp only [World.Used, World.UsedBeside, storClosedev_device]
    have was := used_beside named
    constructor
    · intro after other found
      cases found
      have device := after (w.driver.device handle.dev.unit)
      rw [beside] at device
      rw [storClosedev_isOpen] at device
      rw [← device]
      by_cases closed : w.driver.storOpenCount = 1 ∧ uboot.closes = true
      · simp [closed]
      · have before := (inUse _).mpr ((was _).mpr (Or.inr rfl))
        simp [closed, before]
    · intro counted h
      have counted := counted handle rfl
      rw [beside, storClosedev_isOpen]
      by_cases same : w.driver.device handle.dev.unit = h
      · subst same
        by_cases closed : w.driver.storOpenCount = 1 ∧ uboot.closes = true
        · simp [closed, counted.mp closed]
        · have before := (inUse _).mpr ((was _).mpr (Or.inr rfl))
          have other := not_not.mp fun none => closed (counted.mpr none)
          simp [closed, before, other]
      · rw [if_neg (fun all => same all.2.symm), inUse h, was h]
        simp [same]

theorem step_inUse_iff (inUse : InUse w) (call : Call) : InUse (step w call) ↔ Counted w call := by
  cases call with
  | storOpen dev uboot => exact open_inUse_iff inUse dev uboot
  | storClose place uboot => exact close_inUse_iff inUse place uboot
  | storStrategy => exact ⟨fun _ => trivial, fun _ => inUse⟩

theorem reads_open (inUse : InUse w) (call : Call) : ReadsOpen w call := by
  cases call with
  | storStrategy _ =>
    intro handle named
    exact (inUse _).mpr ⟨handle, mem_of_getElem? named, rfl⟩
  | _ => trivial

theorem start_inUse (devices : Nat → DeviceInfo) (devsNo : Nat) : InUse (start devices devsNo) := by
  intro h
  constructor
  · intro wrong
    cases wrong
  · rintro ⟨_, none, -⟩
    cases none

theorem run_inUse_iff (inUse : InUse w) (calls : List Call) :
    (∀ n, InUse (run w (calls.take n))) ↔ ∀ n call, calls[n]? = some call → Counted (run w (calls.take n)) call := by
  induction calls generalizing w with
  | nil => simp [run, inUse]
  | cons call calls ih =>
    constructor
    · intro all
      have next : InUse (step w call) := all 1
      intro n found named
      cases n with
      | zero =>
        cases named
        exact (step_inUse_iff inUse call).mp next
      | succ n => exact (ih next).mp (fun k => all (k + 1)) n found named
    · intro counted n
      have next : InUse (step w call) := (step_inUse_iff inUse call).mpr (counted 0 call rfl)
      cases n with
      | zero => exact inUse
      | succ n => exact (ih next).mpr (fun k found named => counted (k + 1) found named) n

/-- For any calls after stor_init: U-Boot's devices are open exactly while they are in use, and are read through open
handles only while open, in every state of the run, exactly when the counter agrees with the open handles on every
call. -/
theorem open_while_in_use_iff (devices : Nat → DeviceInfo) (devsNo : Nat) (calls : List Call) :
    ((∀ n, InUse (run (start devices devsNo) (calls.take n))) ∧
        ∀ n call, calls[n]? = some call → ReadsOpen (run (start devices devsNo) (calls.take n)) call) ↔
      ∀ n call, calls[n]? = some call → Counted (run (start devices devsNo) (calls.take n)) call := by
  rw [← run_inUse_iff (start_inUse devices devsNo) calls]
  exact ⟨fun both => both.1, fun all => ⟨all, fun n call _ => reads_open (all n) call⟩⟩

def labelled : Uboot :=
  ⟨true, true, fun _ blk _ => some (if blk = labelsector then toLe 4 diskmagic ++ replicate 508 0 else replicate 512 0),
    fun _ => 0⟩

def nested : List Call :=
  [.storOpen ⟨0, 0, .none⟩ labelled, .storOpen ⟨0, 0, .none⟩ labelled, .storClose 0 labelled]

/-- The second open sets the counter to one: the first close closes the device below the other handle. -/
theorem nested_open_closed_early : ¬∀ n, InUse (run (start (fun _ => ⟨true, false, 512⟩) 1) (nested.take n)) := by
  intro all
  have closed : (run (start (fun _ => ⟨true, false, 512⟩) 1) nested).driver.isOpen 0 = false := by decide +kernel
  have left : (run (start (fun _ => ⟨true, false, 512⟩) 1) nested).handles.map
      (fun handle => (run (start (fun _ => ⟨true, false, 512⟩) 1) nested).driver.device handle.dev.unit) = [0] := by
    decide +kernel
  obtain ⟨handle, member, unit⟩ := List.mem_map.mp (left ▸ mem_singleton_self 0)
  have opened := (all 3 0).mpr ⟨handle, member, unit⟩
  rw [show nested.take 3 = nested from rfl, closed] at opened
  cases opened

end Pcbsd.UbootDisk
