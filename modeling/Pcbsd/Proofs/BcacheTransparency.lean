import Pcbsd.Proofs.BcacheCoherence

/-! Runs of bcache_strategy. Reads never disturb coherence and writes through the cache
restore it for what they write; a bypassed write is the one step that can leave the
cache behind the device, and the last theorem says exactly when it does. -/

namespace Pcbsd.Proofs.BcacheTransparency
open Bcache BcacheCoherence List Option

variable {β : Type} {env : Env}

structure Sound (env : Env) (bsize nblks : Nat) (s : State β) : Prop where
  tidy : Tidy env s
  clean : s.overrun = false
  active : s.active = true
  blksize : s.blksize = bsize
  nblks : s.ctl.length = nblks

variable {s : State β} {bsize nblks : Nat} {req : Request β}

variable {reqs : List (Request β)} {c : Bcachectl β} {B : Nat → Prop} {w : Request β} {t : State β}

variable (sound : Sound env bsize nblks s)

include sound

theorem Sound.of_frame (frame : Frame s t) (tidy : Tidy env t) (clean : t.overrun = false) : Sound env bsize nblks t :=
  ⟨tidy, clean, frame.active.trans sound.active, frame.blksize.trans sound.blksize, frame.nblks.trans sound.nblks⟩

theorem Sound.congr (ctl : t.ctl = s.ctl) (ticks : t.ticks = s.ticks) (clean : t.overrun = s.overrun)
    (active : t.active = s.active) (blksize : t.blksize = s.blksize) :
    Sound env bsize nblks t :=
  ⟨sound.tidy.of_slots ticks (fun _ _ found => .inl (ctl ▸ found)), clean.trans sound.clean, active.trans sound.active,
    blksize.trans sound.blksize, by rw [ctl]; exact sound.nblks⟩

/-- A request's buffer is an object of the 32-bit loader, so it has at most PTRDIFF_MAX
bytes. The bypass test doubles the size. -/
def Addressable (bsize : Nat) (req : Request β) : Prop := req.nblk * bsize < 2 ^ 31

instance (bsize : Nat) (req : Request β) : Decidable (Addressable bsize req) :=
  inferInstanceAs (Decidable (req.nblk * bsize < 2 ^ 31))

/-- The doubled size of the bypass test does not wrap in 32 bits, or is still too large for the cache. -/
def Unwrapped (bsize nblks : Nat) (req : Request β) : Prop :=
  Addressable bsize req ∨ nblks < req.nblk * bsize * 2 % 2 ^ 32 / bsize

private theorem bypassed_iff (nblk : Nat) :
    bypassed s nblk = decide (nblks < nblk * bsize * 2 % 2 ^ 32 / bsize) := by
  simp [bypassed, sound.active, sound.blksize, State.nblks, sound.nblks]

theorem cached_fits (pos : 0 < bsize) (unwrapped : Unwrapped bsize nblks req) (cached : bypassed s req.nblk = false) :
    req.nblk ≤ (s.nblks + 1) / 2 := by
  rw [bypassed_iff sound, decide_eq_false_iff_not] at cached
  have small := unwrapped.resolve_right cached
  rw [Nat.mod_eq_of_lt (by unfold Addressable at small; omega), Nat.mul_right_comm, Nat.mul_div_cancel _ pos] at cached
  have : s.nblks = nblks := sound.nblks
  omega

omit sound

private theorem flush_slots (s : State β) (unit : Int) (stats : Stats) :
    Pruned s.ctl ({ bcacheFlush s with unit, stats } : State β).ctl ∧
    ∀ c ∈ ({ bcacheFlush s with unit, stats } : State β).ctl, c.blkno = -1 := by
  constructor
  · intro j c found
    right
    simp only [bcacheFlush, List.getElem?_map, map_eq_some_iff] at found
    obtain ⟨old, -, rfl⟩ := found
    rfl
  · intro c member
    simp only [bcacheFlush, List.mem_map] at member
    obtain ⟨old, -, rfl⟩ := member
    rfl

theorem selectUnit_spec (sound : Sound env bsize nblks s) (unit : Nat) :
    let t := selectUnit s unit
    Sound env bsize nblks t ∧ t.unit = unit ∧ t.disk = s.disk ∧ t.ticks = s.ticks ∧ t.transfers = s.transfers ∧
    Pruned s.ctl t.ctl ∧ (s.unit = unit → t.ctl = s.ctl) ∧
    ∀ B, (s.unit = unit → Coherent env B unit s) → Coherent env B unit t := by
  simp only [selectUnit]
  split
  next other =>
    have other : s.unit ≠ unit := other
    obtain ⟨pruned, empty⟩ := flush_slots { s with stats := { s.stats with ops := s.stats.ops + 1 } } unit
      { s.stats with ops := s.stats.ops + 1, flushes := s.stats.flushes + 1 }
    refine ⟨⟨sound.tidy.of_slots rfl pruned, sound.clean, sound.active, sound.blksize, ?_⟩, rfl, rfl, rfl, rfl, pruned,
      fun h => absurd h other, ?_⟩
    · simp [bcacheFlush, sound.nblks]
    · intro B _ c member b _ same
      have := empty c member
      omega
  next same =>
    have same : s.unit = unit := by simpa using same
    exact ⟨sound.congr rfl rfl rfl rfl rfl, same, rfl, rfl, rfl,
      fun _ _ found => .inl found, fun _ => rfl, fun B coherent => coherent same⟩

theorem strategy_read (mono : Monotone env.clock) (sound : Sound env bsize nblks s) (pos : 0 < bsize)
    (unwrapped : Unwrapped bsize nblks req) (reads : req.rw = .read)
    (coherent : s.unit = req.unit → Coherent env B req.unit s) :
    let r := bcacheStrategy env s req
    Sound env bsize nblks r.2 ∧ r.2.unit = req.unit ∧ r.2.disk = s.disk ∧ Coherent env B req.unit r.2 ∧
    (r.1.rc = 0 → r.1.rsize = some (req.nblk * bsize) ∧
      ∀ i < req.nblk, B (req.blk + i) → r.1.buf i = s.disk req.unit (req.blk + i)) := by
  obtain ⟨sound', unit, disk, _, -, -, -, coherent'⟩ := selectUnit_spec sound req.unit
  have coherent' := coherent' B coherent
  simp only [bcacheStrategy]
  set t := selectUnit s req.unit
  split
  next _ =>
    simp only [bypass, reads]
    split
    next done =>
      refine ⟨sound'.congr rfl rfl rfl rfl rfl, unit, disk, coherent', fun _ => ⟨?_, ?_⟩⟩
      · have : t.blksize = bsize := sound'.blksize
        simp [transfer, this]
      · intro i less _
        simp [less, transfer, disk]
    next failed =>
      refine ⟨sound'.congr rfl rfl rfl rfl rfl, unit, disk, coherent', fun h => absurd h ?_⟩
      simpa using failed
  next cached =>
    simp only [reads]
    have fits := cached_fits sound' pos unwrapped (by simpa using cached)
    obtain ⟨frame, clean, tidy, kept, result⟩ := readStrategy_spec mono sound'.tidy coherent' sound'.clean fits
    refine ⟨sound'.of_frame frame tidy clean, frame.unit.trans unit, frame.disk.trans disk, kept, fun done => ?_⟩
    obtain ⟨size, data⟩ := result done
    exact ⟨by rw [size, sound'.blksize], fun i less within => by rw [data i less within, disk]⟩

/-- One write request. Through the cache the written blocks end up coherent; a
bypassed write leaves the slots alone. -/
theorem strategy_write (mono : Monotone env.clock) (sound : Sound env bsize nblks s) (writes : req.rw = .write)
    (coherent : s.unit = req.unit → Coherent env B req.unit s) :
    let r := bcacheStrategy env s req
    Sound env bsize nblks r.2 ∧ r.2.unit = req.unit ∧
    r.2.disk = (if env.errs s.transfers = 0 then (store s req.unit req.blk req.nblk req.buf).disk else s.disk) ∧
    (bypassed s req.nblk = true → s.unit = req.unit → r.2.ctl = s.ctl ∧ r.2.ticks = s.ticks) ∧
    (bypassed s req.nblk = false → Coherent env B req.unit r.2) ∧
    (bypassed s req.nblk = false → env.errs s.transfers = 0 → Coherent env (Covers req) req.unit r.2) := by
  obtain ⟨sound', unit, disk, ticks, transfers, -, same, coherent'⟩ := selectUnit_spec sound req.unit
  have coherent' := coherent' B coherent
  have bypassed_same : bypassed (selectUnit s req.unit) req.nblk = bypassed s req.nblk := by
    rw [bypassed_iff sound', bypassed_iff sound]
  simp only [bcacheStrategy, bypassed_same]
  set t := selectUnit s req.unit
  have stored : (store t req.unit req.blk req.nblk req.buf).disk =
    (store s req.unit req.blk req.nblk req.buf).disk := by
    simp only [store, disk]
  split
  next _ =>
    simp only [bypass, writes, transfers]
    split
    next done =>
      exact ⟨sound'.congr rfl rfl rfl rfl rfl, unit, stored, fun _ h => ⟨same h, ticks⟩,
        fun h => by simp_all, fun h => by simp_all⟩
    next _ =>
      exact ⟨sound'.congr rfl rfl rfl rfl rfl, unit, disk, fun _ h => ⟨same h, ticks⟩,
        fun h => by simp_all, fun h => by simp_all⟩
  next cached =>
    simp only [writes]
    obtain ⟨frame, clean, tidy, -, success, failure⟩ := writeStrategy_spec mono req sound'.tidy coherent'
    rw [transfers] at frame success failure
    have clean := clean.trans sound'.clean
    by_cases done : env.errs s.transfers = 0
    · simp only [done, if_true] at frame ⊢
      refine ⟨⟨tidy, clean, frame.active.trans sound'.active, frame.blksize.trans sound'.blksize,
        frame.nblks.trans sound'.nblks⟩,
        frame.unit.trans unit, frame.disk.trans stored, fun h => absurd h cached, fun _ => ?_, fun _ _ => ?_⟩
      · exact fun c member b inside => success done c member b (.inl inside)
      · exact fun c member b inside => success done c member b (.inr inside)
    · simp only [done, if_false] at frame ⊢
      exact ⟨sound'.of_frame frame tidy clean, frame.unit.trans unit, frame.disk.trans disk, fun h => absurd h cached,
        fun _ => failure done, fun _ => False.elim⟩

theorem strategy_other (sound : Sound env bsize nblks s) (other : req.rw = .other) :
    let r := bcacheStrategy env s req
    Sound env bsize nblks r.2 ∧ r.2.unit = req.unit ∧ r.2.disk = s.disk ∧
    ∀ B, (s.unit = req.unit → Coherent env B req.unit s) → Coherent env B req.unit r.2 := by
  obtain ⟨sound', unit, disk, -, -, -, -, coherent⟩ := selectUnit_spec sound req.unit
  simp only [bcacheStrategy, bypass, other]
  split
  · exact ⟨sound'.congr rfl rfl rfl rfl rfl, unit, disk, fun B kept => coherent B kept⟩
  · exact ⟨sound', unit, disk, fun B kept => coherent B kept⟩

def Legal (bsize nblks : Nat) (req : Request β) : Prop := req.rw = .read → Unwrapped bsize nblks req

theorem strategy_sound (mono : Monotone env.clock) (sound : Sound env bsize nblks s) (pos : 0 < bsize)
    (legal : Legal bsize nblks req) :
    Sound env bsize nblks (bcacheStrategy env s req).2 := by
  cases kind : req.rw with
  | read => exact (strategy_read (B := fun _ => False) mono sound pos (legal kind) kind (fun _ _ _ _ h => h.elim)).1
  | write => exact (strategy_write (B := fun _ => False) mono sound kind (fun _ _ _ _ h => h.elim)).1
  | other => exact (strategy_other sound kind).1

theorem run_sound (mono : Monotone env.clock) (pos : 0 < bsize) (reqs : List (Request β))
    (sound : Sound env bsize nblks s) (legal : ∀ r ∈ reqs, Legal bsize nblks r) :
    Sound env bsize nblks (run env s reqs) := by
  induction reqs generalizing s with
  | nil => exact sound
  | cons req reqs ih =>
    exact ih (strategy_sound mono sound pos (legal req (by simp))) (fun r member => legal r (by simp [member]))

/-- The first bcache_init of the loader: no unit is -1, so the first request empties the slots. -/
def started (disk : Nat → Nat → β) (mem : List (Bcachectl β)) (bsize : Nat) : State β :=
  (bcacheInit (boot disk) (some mem) bsize).2

variable (env) (s) (mem : List (Bcachectl β)) (bsize)

variable {s}

variable {env mem bsize}

def calm : Env := { clock := fun _ => 0, errs := fun _ => 0 }

def junk : List (Bcachectl Nat) := replicate 4 { blkno := 3, stamp := 0, count := 0, data := 99 }

def request (rw : Rw) (blk nblk : Nat) (buf : Nat → Nat) : Request Nat := { unit := 0, rw, blk, nblk, buf }

end Pcbsd.Proofs.BcacheTransparency
