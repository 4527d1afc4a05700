import Mathlib
import Pcbsd.Bcache

/-! Coherence of the block cache. A slot matters only while its stamp is unexpired;
the invariant says what unexpired slots hold, for a chosen set of blocks, so that the
same lemmas serve requests that keep the whole cache coherent and those that do not. -/

namespace Pcbsd.Proofs.BcacheCoherence
open Bcache List Option Function

variable {β : Type} {env : Env}

def Coherent (env : Env) (B : Nat → Prop) (unit : Nat) (s : State β) : Prop :=
  ∀ c ∈ s.ctl, ∀ b : Nat, B b → c.blkno = b → now env s ≤ c.stamp + bcacheTimeout →
    c.data = s.disk unit b

/-- Slot 0 is the only one bcache_insert does not search, so a block can be cached
there and once more elsewhere; the copy in slot 0 is then expired. -/
structure Tidy (env : Env) (s : State β) : Prop where
  unique : ∀ i j c d, 1 ≤ i → i < j → s.ctl[i]? = some c → s.ctl[j]? = some d →
    c.blkno ≠ -1 → c.blkno ≠ d.blkno
  head : ∀ j c d, 1 ≤ j → s.ctl[0]? = some c → s.ctl[j]? = some d →
    c.blkno ≠ -1 → c.blkno = d.blkno → c.stamp + bcacheTimeout < now env s

def Missed (env : Env) (s : State β) (blkno : Int) : Prop :=
  ∀ c ∈ s.ctl, c.blkno = blkno → c.stamp + bcacheTimeout < now env s

theorem now_le_tick (mono : Monotone env.clock) (s : State β) : now env s ≤ now env (tick s) :=
  mono (Nat.le_succ s.ticks)

variable (blkno : Int)

theorem insertScan_spec (rest : List (Bcachectl β)) (i cand : Nat) (ocount : Int) :
    (∃ j c, rest[j]? = some c ∧ c.blkno = blkno ∧ insertScan blkno rest i cand ocount = i + j) ∨
    ((∀ c ∈ rest, c.blkno ≠ blkno) ∧ (insertScan blkno rest i cand ocount = cand ∨
      ∃ j < rest.length, insertScan blkno rest i cand ocount = i + j)) := by
  induction rest generalizing i cand ocount with
  | nil => exact .inr ⟨by simp, .inl rfl⟩
  | cons c rest ih =>
    by_cases same : c.blkno = blkno
    · exact .inl ⟨0, c, rfl, same, by simp [insertScan, same]⟩
    · simp only [insertScan, same, if_false]
      split
      · obtain ⟨j, d, found, here, index⟩ | ⟨absent, index | ⟨j, inside, index⟩⟩ := ih (i + 1) i c.count
        · exact .inl ⟨j + 1, d, found, here, by omega⟩
        · exact .inr ⟨by simp_all, .inr ⟨0, by simp, by omega⟩⟩
        · exact .inr ⟨by simp_all, .inr ⟨j + 1, by simpa using inside, by omega⟩⟩
      · obtain ⟨j, d, found, here, index⟩ | ⟨absent, index | ⟨j, inside, index⟩⟩ := ih (i + 1) cand ocount
        · exact .inl ⟨j + 1, d, found, here, by omega⟩
        · exact .inr ⟨by simp_all, .inl index⟩
        · exact .inr ⟨by simp_all, .inr ⟨j + 1, by simpa using inside, by omega⟩⟩

variable (s : State β)

variable (data : β)

/-- What an insertion does to the slots. Under `Tidy`, no slot but slot 0 and the
overwritten one can hold the block. -/
theorem bcacheInsert_slots (blk : Nat) (tidy : Tidy env s) :
    ∃ cand new, new.blkno = (blk : Int) ∧ new.stamp = now env s ∧ new.data = data ∧
      (∀ j c, (bcacheInsert env s data blk).ctl[j]? = some c →
        j = cand ∧ c = new ∨ j ≠ cand ∧ s.ctl[j]? = some c) ∧
      ∀ j d, 1 ≤ j → j ≠ cand → s.ctl[j]? = some d → d.blkno ≠ (blk : Int) := by
  cases shape : s.ctl with
  | nil =>
    refine ⟨0, ⟨blk, now env s, 0, data⟩, rfl, rfl, rfl, ?_, by simp⟩
    intro j c found
    simp [bcacheInsert, shape, tick] at found
  | cons first rest =>
    refine ⟨insertScan blk rest 1 0 first.count, ⟨blk, now env s, toInt32 s.bcount, data⟩, rfl, rfl, rfl, ?_, ?_⟩
    · intro j c found
      simp only [bcacheInsert, shape, getElem?_set] at found
      split at found
      · next here => exact .inl ⟨here.symm, by split at found <;> simp_all⟩
      · next away => exact .inr ⟨Ne.symm away, found⟩
    · intro j d tail other at_j same
      obtain ⟨k, c, found, here, _⟩ | ⟨absent, -⟩ := insertScan_spec (blk : Int) rest 1 0 first.count
      · -- the block was found in slot k + 1, so slot j would be a second copy outside slot 0
        have at_k : s.ctl[1 + k]? = some c := by rw [shape, Nat.add_comm]; simpa using found
        rw [← shape] at at_j
        rcases Nat.lt_or_gt_of_ne (show j ≠ 1 + k by omega) with less | more
        · exact tidy.unique j (1 + k) d c tail less at_j at_k (by omega) (by omega)
        · exact tidy.unique (1 + k) j c d (by omega) more at_k at_j (by omega) (by omega)
      · obtain ⟨k, rfl⟩ : ∃ k, j = k + 1 := ⟨j - 1, by omega⟩
        exact absent d (mem_of_getElem? (by simpa using at_j)) same

@[simp] theorem bcacheInsert_disk :
    (bcacheInsert env s data blkno).disk = s.disk := by
  unfold bcacheInsert; split <;> rfl

@[simp] theorem bcacheInsert_ticks :
    (bcacheInsert env s data blkno).ticks = s.ticks + 1 := by
  unfold bcacheInsert; split <;> rfl

@[simp] theorem bcacheInsert_overrun :
    (bcacheInsert env s data blkno).overrun = s.overrun := by
  unfold bcacheInsert; split <;> rfl

@[simp] theorem bcacheInsert_miss :
    (bcacheInsert env s data blkno).miss = s.miss := by
  unfold bcacheInsert; split <;> rfl

theorem now_insert :
    now env (bcacheInsert env s data blkno) = now env (tick s) := by simp [now, tick]

variable {s : State β} {B : Nat → Prop} {blk unit : Nat} {data : β} {t : State β}

theorem bcacheInsert_coherent (mono : Monotone env.clock) (tidy : Tidy env s) (coherent : Coherent env B unit s)
    (right : B blk → data = s.disk unit blk) :
    Coherent env B unit (bcacheInsert env s data blk) := by
  intro c member b inside same fresh
  have later := now_le_tick mono s
  rw [now_insert] at fresh
  obtain ⟨_, _, _, -, content, slots, -⟩ := bcacheInsert_slots s data blk tidy
  obtain ⟨j, found⟩ := mem_iff_getElem?.mp member
  rw [bcacheInsert_disk]
  rcases slots j c found with ⟨-, rfl⟩ | ⟨-, old⟩
  · obtain rfl : b = blk := by omega
    exact content.trans (right inside)
  · exact coherent c (mem_of_getElem? old) b inside same (by omega)

theorem bcacheInsert_tidy (mono : Monotone env.clock) (tidy : Tidy env s)
    (stale : ∀ c, s.ctl[0]? = some c → c.blkno = (blk : Int) → c.stamp + bcacheTimeout < now env s) :
    Tidy env (bcacheInsert env s data blk) := by
  have later := now_le_tick mono s
  obtain ⟨_, _, _, -, -, slots, others⟩ := bcacheInsert_slots s data blk tidy
  constructor
  · intro i j c d tail less at_i at_j real same
    rcases slots i c at_i with ⟨rfl, rfl⟩ | ⟨awayI, oldI⟩ <;> rcases slots j d at_j with ⟨rfl, rfl⟩ | ⟨awayJ, oldJ⟩
    · omega
    · exact others j d (by omega) awayJ oldJ (by omega)
    · exact others i c tail awayI oldI (by omega)
    · exact tidy.unique i j c d tail less oldI oldJ real same
  · intro j c d tail at_0 at_j real same
    rw [now_insert]
    rcases slots 0 c at_0 with ⟨rfl, rfl⟩ | ⟨-, old0⟩ <;> rcases slots j d at_j with ⟨rfl, rfl⟩ | ⟨awayJ, oldJ⟩
    · omega
    · exact absurd (by omega) (others j d tail awayJ oldJ)
    · have := stale c old0 (by omega)
      omega
    · have := tidy.head j c d tail old0 oldJ real same
      omega

theorem bcacheInsert_only (tidy : Tidy env s) (first : ∀ c, s.ctl[0]? = some c → c.blkno ≠ (blk : Int)) :
    ∀ c ∈ (bcacheInsert env s data blk).ctl, c.blkno = (blk : Int) → c.data = data := by
  intro c member same
  obtain ⟨_, _, -, -, content, slots, others⟩ := bcacheInsert_slots s data blk tidy
  obtain ⟨j, found⟩ := mem_iff_getElem?.mp member
  rcases slots j c found with ⟨-, rfl⟩ | ⟨away, old⟩
  · exact content
  · rcases Nat.eq_zero_or_pos j with rfl | tail
    · exact absurd same (first c old)
    · exact absurd same (others j c tail away old)

variable {p : Pending β} {c : Bcachectl β} {blkno : Int} {start n i : Nat}

theorem bcacheInsert_other (tidy : Tidy env s) {j : Nat} (found : (bcacheInsert env s data blk).ctl[j]? = some c)
    (other : c.blkno ≠ (blk : Int)) :
    s.ctl[j]? = some c := by
  obtain ⟨_, _, block, -, -, slots, -⟩ := bcacheInsert_slots s data blk tidy
  rcases slots j c found with ⟨-, rfl⟩ | ⟨-, old⟩
  · exact absurd block other
  · exact old

theorem Missed.insert (mono : Monotone env.clock) {b : Int} (tidy : Tidy env s) (missed : Missed env s b)
    (other : b ≠ blk) : Missed env
    (bcacheInsert env s data blk) b := by
  intro c member same
  have later := now_le_tick mono s
  obtain ⟨_, found⟩ := mem_iff_getElem?.mp member
  have old := bcacheInsert_other tidy found (by omega)
  have expired := missed c (mem_of_getElem? old) same
  rw [now_insert]
  omega

structure Frame (s t : State β) : Prop where
  disk : t.disk = s.disk
  unit : t.unit = s.unit
  blksize : t.blksize = s.blksize
  active : t.active = s.active
  nblks : t.ctl.length = s.ctl.length
  ticks : s.ticks ≤ t.ticks

theorem Frame.refl (s : State β) : Frame s s := ⟨rfl, rfl, rfl, rfl, rfl, le_refl _⟩

theorem Frame.trans {u : State β} (first : Frame s t) (second : Frame t u) : Frame s u :=
  ⟨second.disk.trans first.disk, second.unit.trans first.unit, second.blksize.trans first.blksize,
    second.active.trans first.active, second.nblks.trans first.nblks, le_trans first.ticks second.ticks⟩

theorem Frame.now_le (mono : Monotone env.clock) (frame : Frame s t) : now env s ≤ now env t :=
  mono frame.ticks

theorem bcacheInsert_frame (s : State β) (data : β) (blkno : Int) : Frame s (bcacheInsert env s data blkno) := by
  unfold bcacheInsert
  split <;> constructor <;> simp [tick]

theorem insertLoop_frame (env : Env) (buf : Nat → β) (first blk n : Nat) (s : State β) :
    Frame s (insertLoop env buf first blk n s) ∧
    (insertLoop env buf first blk n s).overrun = s.overrun ∧
    (insertLoop env buf first blk n s).miss = s.miss := by
  induction n with
  | zero => exact ⟨Frame.refl s, rfl, rfl⟩
  | succ n ih =>
    simp only [insertLoop, bcacheInsert_overrun, bcacheInsert_miss]
    exact ⟨ih.1.trans (bcacheInsert_frame _ _ _), ih.2⟩

theorem insertLoop_read (mono : Monotone env.clock) {buf : Nat → β} (first n : Nat) (tidy : Tidy env s)
    (coherent : Coherent env B unit s) (right : ∀ j < n, buf (first + j) = s.disk unit (blk + j))
    (missed : ∀ j < n, Missed env s (blk + j : Nat)) :
    Tidy env (insertLoop env buf first blk n s) ∧ Coherent env B unit (insertLoop env buf first blk n s) ∧
    ∀ b : Int, (∀ j < n, b ≠ (blk + j : Nat)) → Missed env s b → Missed env (insertLoop env buf first blk n s) b := by
  induction n with
  | zero => exact ⟨tidy, coherent, fun _ _ missed => missed⟩
  | succ n ih =>
    obtain ⟨tidy', coherent', keeps⟩ :=
      ih (fun j less => right j (by omega)) (fun j less => missed j (by omega))
    have frame := (insertLoop_frame env buf first blk n s).1
    have last := keeps _ (fun j less => by omega) (missed n (by omega))
    refine ⟨bcacheInsert_tidy mono tidy' ?_, bcacheInsert_coherent mono tidy' coherent' ?_, ?_⟩
    · exact fun c at_0 same => last c (mem_of_getElem? at_0) same
    · exact fun _ => by rw [frame.disk]; exact right n (by omega)
    · exact fun b outside missed => (keeps b (fun j less => outside j (by omega)) missed).insert mono tidy'
        (outside n (by omega))

/-- The state after the lookup loop: hits are in the buffer, misses have no unexpired slot. -/
structure Looked (env : Env) (B : Nat → Prop) (unit blk n : Nat) (s : State β) (r : State β × (Nat → β)) : Prop where
  frame : Frame s r.1
  ctl : r.1.ctl = s.ctl
  overrun : n ≤ (s.nblks + 1) / 2 → s.overrun = false → r.1.overrun = false
  hits : ∀ j < n, r.1.miss j = false → B (blk + j) → r.2 j = s.disk unit (blk + j)
  misses : ∀ j < n, r.1.miss j = true → Missed env r.1 (blk + j : Nat)

theorem lookup_some {t : Int} (found : s.ctl.find? (hit t blkno) = some c) :
    c ∈ s.ctl ∧ c.blkno = blkno ∧ t ≤ c.stamp + bcacheTimeout := by
  have matched := find?_some found
  simp only [hit, Bool.and_eq_true, beq_iff_eq, decide_eq_true_eq] at matched
  exact ⟨mem_of_find?_eq_some found, matched⟩

theorem lookup_none (absent : s.ctl.find? (hit (now env s) blkno) = none) :
    Missed env s blkno := by
  intro c member same
  have := find?_eq_none.mp absent c member
  simpa [hit, same] using this

variable (mono : Monotone env.clock)

include mono

private theorem Looked.step {out out' : Nat → β} (looked : Looked env B unit blk n s (t, out)) (v : Bool)
    (stats : Stats) (same : ∀ j < n, out' j = out j)
    (found : v = false → B (blk + n) → out' n = s.disk unit (blk + n))
    (missed : v = true → Missed env t (blk + n : Nat)) :
    Looked env B unit blk (n + 1) s ({ bitPut (tick t) n v with stats }, out') := by
  have later := now_le_tick mono t
  have moved : Frame s (tick t) := looked.frame.trans ⟨rfl, rfl, rfl, rfl, rfl, Nat.le_succ _⟩
  have earlier : ∀ j < n, (bitPut (tick t) n v).miss j = t.miss j := by
    intro j less
    simp [bitPut, tick, update_of_ne (Nat.ne_of_lt less)]
  refine ⟨⟨moved.disk, moved.unit, moved.blksize, moved.active, moved.nblks, moved.ticks⟩, looked.ctl, ?_, ?_, ?_⟩
  · intro room kept
    have clean : t.overrun = false := looked.overrun (by omega) kept
    have size : t.ctl.length = s.nblks := congrArg length looked.ctl
    change (t.overrun || decide ((t.ctl.length + 1) / 2 ≤ n)) = false
    rw [clean, size, Bool.false_or, decide_eq_false_iff_not]
    omega
  · intro j less bit inside
    rcases Nat.lt_succ_iff_lt_or_eq.mp less with less | rfl
    · exact (same j less).trans (looked.hits j less ((earlier j less).symm.trans bit) inside)
    · exact found (by simpa [bitPut] using bit) inside
  · intro j less bit c member at_block
    rcases Nat.lt_succ_iff_lt_or_eq.mp less with less | rfl
    · exact lt_of_lt_of_le (looked.misses j less ((earlier j less).symm.trans bit) c member at_block) later
    · exact lt_of_lt_of_le (missed (by simpa [bitPut] using bit) c member at_block) later

theorem lookupLoop_spec (blk : Nat) (buf : Nat → β) (coherent : Coherent env B unit s) (n : Nat) :
    Looked env B unit blk n s (lookupLoop env blk n (s, buf)) := by
  induction n with
  | zero => exact ⟨Frame.refl s, rfl, fun _ kept => kept, by simp, by simp⟩
  | succ n ih =>
    rcases before : lookupLoop env blk n (s, buf) with ⟨t, _⟩
    rw [before] at ih
    have since : now env s ≤ now env t := ih.frame.now_le mono
    cases found : t.ctl.find? (hit (now env t) (blk + n : Nat)) with
    | none =>
      simp only [lookupLoop, before, bcacheLookup, found, map_none]
      exact ih.step mono true _ (fun _ _ => rfl) (fun h => by cases h) (fun _ => lookup_none found)
    | some c =>
      obtain ⟨_, same, _⟩ := lookup_some found
      have member' : c ∈ s.ctl := by rwa [← ih.ctl]
      simp only [lookupLoop, before, bcacheLookup, found, map_some]
      apply ih.step mono false _ _ _ (fun h => by cases h)
      · exact fun j less => update_of_ne (Nat.ne_of_lt less) _ _
      · intro _ inside
        rw [update_self]
        exact coherent c member' _ inside same (by omega)

/-- The second loop after `i` steps. Everything below `start` is delivered; from there
on hits are in the buffer and misses are still without an unexpired slot. -/
structure Filling (env : Env) (B : Nat → Prop) (unit blk n i start : Nat) (s : State β) (p : Pending β) : Prop where
  frame : Frame s p.s
  overrun : p.s.overrun = false
  tidy : Tidy env p.s
  coherent : Coherent env B unit p.s
  pending : p.result = 0 → match p.pblk with
    | none => start = i
    | some b => start = p.pbuf ∧ b = blk + p.pbuf ∧ p.pbuf + p.psize = i
  delivered : p.result = 0 → ∀ j < start, B (blk + j) → p.buf j = s.disk unit (blk + j)
  waiting : p.result = 0 → ∀ j, start ≤ j → j < i → p.s.miss j = true
  hits : p.result = 0 → ∀ j, i ≤ j → j < n → p.s.miss j = false → B (blk + j) → p.buf j = s.disk unit (blk + j)
  misses : p.result = 0 → ∀ j, start ≤ j → j < n → p.s.miss j = true → Missed env p.s (blk + j : Nat)

theorem completePending_spec {pblk : Nat} (filling : Filling env B unit blk n i start s p) (room : i ≤ n)
    (running : p.result = 0) (pending : p.pblk = some pblk) (next : i < n → p.s.miss i = false) :
    Filling env B unit blk n (min (i + 1) n) (min (i + 1) n) s (completePending env unit p pblk) := by
  have shape := filling.pending running
  rw [pending] at shape
  obtain ⟨rfl, rfl, _⟩ := shape
  have moved : Frame s (transfer p.s) := filling.frame.trans ⟨rfl, rfl, rfl, rfl, rfl, le_refl _⟩
  have tidy : Tidy env (transfer p.s) := ⟨filling.tidy.unique, filling.tidy.head⟩
  have coherent := filling.coherent
  by_cases fault : env.errs p.s.transfers = 0
  · simp only [completePending, fault, ne_eq, not_true_eq_false, if_false]
    set buf := fun i => if p.pbuf ≤ i ∧ i < p.pbuf + p.psize then (transfer p.s).disk unit (blk + p.pbuf + (i - p.pbuf))
      else p.buf i
    have read : ∀ j, p.pbuf ≤ j → j < i → buf j = s.disk unit (blk + j) := by
      intro j lower upper
      simp only [buf, show p.pbuf ≤ j ∧ j < p.pbuf + p.psize by omega, and_self, if_true, moved.disk]
      congr 1; omega
    have kept : ∀ j, ¬ (p.pbuf ≤ j ∧ j < i) → buf j = p.buf j := by
      intro j outside
      simp only [buf, show ¬ (p.pbuf ≤ j ∧ j < p.pbuf + p.psize) by omega, if_false]
    have missed : ∀ j < p.psize, Missed env (transfer p.s) (blk + p.pbuf + j : Nat) := by
      intro j less
      have := filling.misses running (p.pbuf + j) (by omega) (by omega)
        (filling.waiting running (p.pbuf + j) (by omega) (by omega))
      rwa [← Nat.add_assoc] at this
    obtain ⟨frame, overrun, miss⟩ := insertLoop_frame env buf p.pbuf (blk + p.pbuf) p.psize (transfer p.s)
    obtain ⟨tidy', coherent', keeps⟩ := insertLoop_read mono p.pbuf p.psize tidy coherent
      (fun j less => by rw [moved.disk, Nat.add_assoc]; exact read (p.pbuf + j) (by omega) (by omega)) missed
    have delivered : ∀ j < i, B (blk + j) → buf j = s.disk unit (blk + j) := by
      intro j less inside
      by_cases lower : p.pbuf ≤ j
      · exact read j lower less
      · rw [kept j (by omega)]
        exact filling.delivered running j (by omega) inside
    refine ⟨moved.trans frame, overrun.trans filling.overrun, tidy', coherent', fun _ => rfl, ?_, ?_, ?_, ?_⟩
    · intro _ j less inside
      by_cases last : j < i
      · exact delivered j last inside
      · obtain rfl : j = i := by omega
        exact (kept j (by omega)).trans (filling.hits running j (by omega) (by omega) (next (by omega)) inside)
    · intro _ j lower upper
      omega
    · intro _ j lower upper bit inside
      exact (kept j (by omega)).trans (filling.hits running j (by omega) upper (by rw [← bit, miss]; rfl) inside)
    · intro _ j lower upper bit
      refine keeps _ (fun k less => by omega) ?_
      exact filling.misses running j (by omega) upper (by rw [← bit, miss]; rfl)
  · simp only [completePending, ne_eq, fault, not_false_eq_true, if_true]
    exact ⟨moved, filling.overrun, tidy, coherent, fun h => absurd h fault, fun h => absurd h fault,
      fun h => absurd h fault, fun h => absurd h fault, fun h => absurd h fault⟩

theorem fillStep_spec (filling : Filling env B unit blk n i start s p) (inside : i < n) (room : n ≤ (s.nblks + 1) / 2) :
    ∃ start', Filling env B unit blk n (i + 1) start' s (fillStep env unit blk i p) := by
  by_cases failed : p.result = 0
  swap
  · refine ⟨start, ?_⟩
    simp only [fillStep, ne_eq, failed, not_false_eq_true, if_true]
    exact ⟨filling.frame, filling.overrun, filling.tidy, filling.coherent, fun h => absurd h failed,
      fun h => absurd h failed, fun h => absurd h failed, fun h => absurd h failed, fun h => absurd h failed⟩
  have size : p.s.nblks = s.nblks := filling.frame.nblks
  have inBits : (p.s.overrun || decide ((p.s.nblks + 1) / 2 ≤ i)) = false := by
    rw [filling.overrun, size, Bool.false_or, decide_eq_false_iff_not]
    omega
  -- testing a bit inside bcache_miss leaves the state as it was
  have same : { p.s with overrun := p.s.overrun || decide ((p.s.nblks + 1) / 2 ≤ i) } = p.s := by
    rw [inBits, ← filling.overrun]
  rw [fillStep, if_neg (not_not.mpr failed)]
  simp only [same]
  have shape := filling.pending failed
  have hits : ∀ j, i + 1 ≤ j → j < n → p.s.miss j = false → B (blk + j) → p.buf j = s.disk unit (blk + j) :=
    fun j lower => filling.hits failed j (by omega)
  split
  next bit =>
    split
    next none_pending =>
      rw [none_pending] at shape
      subst shape
      refine ⟨start, filling.frame, filling.overrun, filling.tidy, filling.coherent, fun _ => ⟨rfl, rfl, rfl⟩,
        fun _ => filling.delivered failed, ?_, fun _ => hits, fun _ => filling.misses failed⟩
      intro _ j lower upper
      obtain rfl : j = start := by omega
      exact bit
    next b some_pending =>
      rw [some_pending] at shape
      refine ⟨start, filling.frame, filling.overrun, filling.tidy, filling.coherent, ?_,
        fun _ => filling.delivered failed, ?_, fun _ => hits, fun _ => filling.misses failed⟩
      · intro _
        simp only [some_pending]
        omega
      · intro _ j lower upper
        by_cases last : j = i
        · exact last ▸ bit
        · exact filling.waiting failed j lower (by omega)
  next bit =>
    have bit : p.s.miss i = false := by simpa using bit
    split
    next none_pending =>
      rw [none_pending] at shape
      subst shape
      refine ⟨start + 1, filling.frame, filling.overrun, filling.tidy, filling.coherent, ?_, ?_, ?_, fun _ => hits, ?_⟩
      · intro _
        simp only [none_pending]
      · intro _ j less within
        by_cases last : j = start
        · exact last ▸ filling.hits failed start (le_refl _) inside bit (last ▸ within)
        · exact filling.delivered failed j (by omega) within
      · intro _ j lower upper
        omega
      · exact fun _ j lower => filling.misses failed j (by omega)
    next b some_pending =>
      have := completePending_spec mono filling (by omega) failed some_pending (fun _ => bit)
      rw [Nat.min_eq_left (show i + 1 ≤ n by omega)] at this
      exact ⟨i + 1, this⟩

theorem fillLoop_spec (filling : Filling env B unit blk n 0 0 s p) (room : n ≤ (s.nblks + 1) / 2) (i : Nat)
    (bound : i ≤ n) :
    ∃ start, Filling env B unit blk n i start s (fillLoop env unit blk i p) := by
  induction i with
  | zero => exact ⟨0, filling⟩
  | succ i ih =>
    obtain ⟨start, before⟩ := ih (by omega)
    exact fillStep_spec mono before (by omega) room

theorem readStrategy_spec {req : Request β} (tidy : Tidy env s) (coherent : Coherent env B req.unit s)
    (clean : s.overrun = false) (room : req.nblk ≤ (s.nblks + 1) / 2) :
    let r := readStrategy env s req
    Frame s r.2 ∧ r.2.overrun = false ∧ Tidy env r.2 ∧ Coherent env B req.unit r.2 ∧
    (r.1.rc = 0 → r.1.rsize = some (req.nblk * s.blksize) ∧
      ∀ i < req.nblk, B (req.blk + i) → r.1.buf i = s.disk req.unit (req.blk + i)) := by
  have looked := lookupLoop_spec mono req.blk req.buf coherent req.nblk
  rcases after : lookupLoop env req.blk req.nblk (s, req.buf) with ⟨t, buf⟩
  simp only [readStrategy, after]
  rw [after] at looked
  have since : now env s ≤ now env t := looked.frame.now_le mono
  have ctl : t.ctl = s.ctl := looked.ctl
  have filling : Filling env B req.unit req.blk req.nblk 0 0 s ⟨t, buf, none, 0, 0, 0⟩ := by
    refine ⟨looked.frame, looked.overrun room clean, ⟨?_, ?_⟩, ?_, fun _ => rfl, by simp, by simp, ?_, ?_⟩
    · simpa only [ctl] using tidy.unique
    · intro j c d tail at_0 at_j real same
      rw [ctl] at at_0 at_j
      exact lt_of_lt_of_le (tidy.head j c d tail at_0 at_j real same) since
    · intro c member b within same fresh
      have disk : t.disk = s.disk := looked.frame.disk
      exact (coherent c (ctl ▸ member) b within same (le_trans since fresh)).trans (by rw [disk])
    · exact fun _ j _ less => looked.hits j less
    · exact fun _ j _ less => looked.misses j less
  obtain ⟨start, filled⟩ := fillLoop_spec mono filling room req.nblk (le_refl _)
  set p := fillLoop env req.unit req.blk req.nblk ⟨t, buf, none, 0, 0, 0⟩
  have finished : ∃ final, Filling env B req.unit req.blk req.nblk req.nblk final s (fillRest env req.unit p) ∧
      ((fillRest env req.unit p).result = 0 → final = req.nblk) := by
    unfold fillRest
    split
    next failed => exact ⟨start, filled, fun h => absurd h failed⟩
    next running =>
      have running : p.result = 0 := by simpa using running
      split
      next none_pending =>
        have shape := filled.pending running
        rw [none_pending] at shape
        exact ⟨start, filled, fun _ => shape⟩
      next b some_pending =>
        have := completePending_spec mono filled (le_refl _) running some_pending (fun h => absurd h (lt_irrefl _))
        rw [Nat.min_eq_right (show req.nblk ≤ req.nblk + 1 by omega)] at this
        exact ⟨req.nblk, this, fun _ => rfl⟩
  obtain ⟨final, last, complete⟩ := finished
  refine ⟨last.frame, last.overrun, last.tidy, last.coherent, ?_⟩
  intro done
  have done : (fillRest env req.unit p).result = 0 := by exact_mod_cast done
  have blksize : t.blksize = s.blksize := looked.frame.blksize
  refine ⟨by simp only [done, if_true, blksize], ?_⟩
  intro i less within
  exact last.delivered done i (by rw [complete done]; exact less) within

omit mono

/-! A read of more blocks than bcache_miss has bits sets a bit outside them, and what follows does not undo that. -/

def Pruned (old ctl : List (Bcachectl β)) : Prop :=
  ∀ (j : Nat) (c : Bcachectl β), ctl[j]? = some c → old[j]? = some c ∨ c.blkno = -1

private theorem invalidateFirst_spec (blk : Nat) (ctl : List (Bcachectl β)) :
    (invalidateFirst blk ctl).length = ctl.length ∧ Pruned ctl (invalidateFirst blk ctl) ∧
    ∀ c, (invalidateFirst blk ctl)[0]? = some c → c.blkno ≠ (blk : Int) := by
  induction ctl with
  | nil => simp [invalidateFirst, Pruned]
  | cons _ _ ih =>
    simp only [invalidateFirst]
    split
    next _ =>
      refine ⟨by simp, ?_, by simp⟩
      intro j c found
      cases j with
      | zero => exact .inr (by simp only [getElem?_cons_zero, Option.some.injEq] at found; rw [← found])
      | succ j => exact .inl (by simpa using found)
    next other =>
      refine ⟨by simp [ih.1], ?_, by simpa using other⟩
      intro j c found
      cases j with
      | zero => exact .inl (by simpa using found)
      | succ j => simpa using ih.2.1 j c (by simpa using found)

theorem invalidateLoop_spec (blk n : Nat) (s : State β) :
    let t := invalidateLoop blk n s
    Frame s t ∧ t.overrun = s.overrun ∧ t.ticks = s.ticks ∧ t.transfers = s.transfers ∧
    Pruned s.ctl t.ctl ∧ ∀ c, t.ctl[0]? = some c → ∀ j < n, c.blkno ≠ ((blk + j : Nat) : Int) := by
  induction n with
  | zero => exact ⟨Frame.refl s, rfl, rfl, rfl, fun _ _ found => .inl found, by simp⟩
  | succ n ih =>
    obtain ⟨frame, overrun, ticks, transfers, slots, first⟩ := ih
    obtain ⟨length, old, head⟩ := invalidateFirst_spec (blk + n) (invalidateLoop blk n s).ctl
    refine ⟨⟨frame.disk, frame.unit, frame.blksize, frame.active, length.trans frame.nblks, frame.ticks⟩,
      overrun, ticks, transfers, ?_, ?_⟩
    · intro j c found
      rcases old j c found with found | empty
      · exact slots j c found
      · exact .inr empty
    · intro c at_0 j less
      rcases Nat.lt_succ_iff_lt_or_eq.mp less with less | rfl
      · rcases old 0 c at_0 with found | empty
        · exact first c found j less
        · omega
      · exact head c at_0

theorem Tidy.of_slots (tidy : Tidy env s) (ticks : t.ticks = s.ticks) (slots : Pruned s.ctl t.ctl) : Tidy env t := by
  have time : now env t = now env s := by simp [now, ticks]
  constructor
  · intro i j c d tail less at_i at_j real same
    rcases slots i c at_i with oldI | empty
    · rcases slots j d at_j with oldJ | empty
      · exact tidy.unique i j c d tail less oldI oldJ real same
      · exact real (same.trans empty)
    · exact real empty
  · intro j c d tail at_0 at_j real same
    rw [time]
    rcases slots 0 c at_0 with old0 | empty
    · rcases slots j d at_j with oldJ | empty
      · exact tidy.head j c d tail old0 oldJ real same
      · exact absurd (same.trans empty) real
    · exact absurd empty real

theorem Coherent.of_slots (coherent : Coherent env B unit s) (ticks : t.ticks = s.ticks)
    (disk : ∀ b, B b → t.disk unit b = s.disk unit b) (slots : Pruned s.ctl t.ctl) : Coherent env B unit t := by
  intro c member b inside same fresh
  have time : now env t = now env s := by simp [now, ticks]
  obtain ⟨j, found⟩ := mem_iff_getElem?.mp member
  rcases slots j c found with old | _
  · rw [disk b inside]
    exact coherent c (mem_of_getElem? old) b inside same (by omega)
  · omega

def Covers (req : Request β) (b : Nat) : Prop := req.blk ≤ b ∧ b < req.blk + req.nblk

/-- Insertions of the blocks of a write, after their invalidation. A copy that survived
sits in one slot other than slot 0, and that is the slot its insertion reuses. -/
theorem insertLoop_write (mono : Monotone env.clock) (blk : Nat) (buf : Nat → β) (tidy : Tidy env s)
    (coherent : Coherent env B unit s) (first : ∀ c, s.ctl[0]? = some c → ∀ j < n, c.blkno ≠ ((blk + j : Nat) : Int))
    (right : ∀ j < n, buf j = s.disk unit (blk + j)) (k : Nat) (bound : k ≤ n) :
    let t := insertLoop env buf 0 blk k s
    Tidy env t ∧ Coherent env (fun b => B b ∨ blk ≤ b ∧ b < blk + k) unit t ∧
    ∀ c, t.ctl[0]? = some c → ∀ j, k ≤ j → j < n → c.blkno ≠ ((blk + j : Nat) : Int) := by
  induction k with
  | zero =>
    refine ⟨tidy, ?_, fun c at_0 j _ less => first c at_0 j less⟩
    intro c member b inside
    exact coherent c member b (inside.resolve_right (by omega))
  | succ k ih =>
    obtain ⟨tidy', coherent', head⟩ := ih (by omega)
    have frame := (insertLoop_frame env buf 0 blk k s).1
    simp only [insertLoop, Nat.zero_add]
    have data : buf k = (insertLoop env buf 0 blk k s).disk unit (blk + k) := by
      rw [frame.disk]; exact right k (by omega)
    have absent : ∀ c, (insertLoop env buf 0 blk k s).ctl[0]? = some c → c.blkno ≠ ((blk + k : Nat) : Int) :=
      fun c at_0 => head c at_0 k (le_refl _) (by omega)
    refine ⟨bcacheInsert_tidy mono tidy' (fun c at_0 same => absurd same (absent c at_0)), ?_, ?_⟩
    · intro c member b inside same fresh
      by_cases last : b = blk + k
      · subst last
        rw [bcacheInsert_only tidy' absent c member same, bcacheInsert_disk, data]
      · refine bcacheInsert_coherent mono tidy' coherent' (fun _ => data) c member b ?_ same fresh
        exact inside.imp_right (fun range => by omega)
    · intro c at_0 j lower less same
      obtain ⟨_, _, _, -, -, slots, -⟩ := bcacheInsert_slots _ (buf k) (blk + k) tidy'
      rcases slots 0 c at_0 with ⟨-, rfl⟩ | ⟨-, old⟩
      · omega
      · exact head c old j (by omega) less same

/-- A write through the cache: afterwards the written blocks are coherent, whatever
the cache held of them before. -/
theorem writeStrategy_spec (mono : Monotone env.clock) (req : Request β) (tidy : Tidy env s)
    (coherent : Coherent env B req.unit s) :
    let r := writeStrategy env s req
    let t := if env.errs s.transfers = 0 then store s req.unit req.blk req.nblk req.buf else s
    Frame t r.2 ∧ r.2.overrun = s.overrun ∧ Tidy env r.2 ∧ (r.1.rc = 0 ↔ env.errs s.transfers = 0) ∧
    (env.errs s.transfers = 0 → Coherent env (fun b => B b ∨ Covers req b) req.unit r.2) ∧
    (env.errs s.transfers ≠ 0 → Coherent env B req.unit r.2) := by
  obtain ⟨frame, overrun, ticks, transfers, slots, first⟩ := invalidateLoop_spec req.blk req.nblk s
  have tidy' := tidy.of_slots ticks slots
  have coherent' := coherent.of_slots ticks (fun _ _ => by rw [frame.disk]) slots
  by_cases done : env.errs s.transfers = 0
  · simp only [writeStrategy, transfers, done, if_true]
    set t := store (transfer (invalidateLoop req.blk req.nblk s)) req.unit req.blk req.nblk req.buf
    have moved : Frame (store s req.unit req.blk req.nblk req.buf) t := by
      refine ⟨?_, frame.unit, frame.blksize, frame.active, frame.nblks, frame.ticks⟩
      funext u b
      simp only [t, store, transfer, frame.disk]
    have stored : ∀ j < req.nblk, req.buf j = t.disk req.unit (req.blk + j) := by
      intro j less
      have inside : req.blk ≤ req.blk + j ∧ req.blk + j < req.blk + req.nblk := by omega
      simp [t, store, inside]
    have outside : Coherent env (fun b => B b ∧ ¬ Covers req b) req.unit t := by
      intro c member b inside same fresh
      rw [coherent' c member b inside.1 same fresh]
      have apart : ¬ (req.blk ≤ b ∧ b < req.blk + req.nblk) := inside.2
      simp [t, store, transfer, apart]
    obtain ⟨tidy'', coherent'', -⟩ := insertLoop_write mono (n := req.nblk) (s := t) req.blk req.buf
      ⟨tidy'.unique, tidy'.head⟩ outside first stored req.nblk (le_refl _)
    obtain ⟨frame', overrun', -⟩ := insertLoop_frame env req.buf 0 req.blk req.nblk t
    refine ⟨moved.trans frame', overrun'.trans overrun, tidy'', by simp, fun _ => ?_, fun h => absurd rfl h⟩
    intro c member b inside
    refine coherent'' c member b ?_
    by_cases within : Covers req b
    · exact .inr within
    · exact .inl ⟨inside.resolve_right within, within⟩
  · simp only [writeStrategy, transfers, done, if_false]
    refine ⟨⟨frame.disk, frame.unit, frame.blksize, frame.active, frame.nblks, frame.ticks⟩, overrun,
      ⟨tidy'.unique, tidy'.head⟩, ?_, False.elim, fun _ => coherent'⟩
    simpa using done

end Pcbsd.Proofs.BcacheCoherence
