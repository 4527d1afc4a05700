import Pcbsd.Proofs.BcacheTransparency

/-! How often a block is cached. A request is a sequence of flushes, invalidations and insertions, and only an
insertion can make a second copy: the loop of bcache_insert begins at slot 1, so the copy in slot 0 is reused only
when slot 0 is the oldest slot. -/

namespace Pcbsd.Proofs.BcacheOnce
open Bcache BcacheCoherence BcacheTransparency List
open Option hiding or_self

variable {β : Type}

structure Slots (β : Type) where
  ctl : List (Bcachectl β)
  bcount : Nat

def slots (s : State β) : Slots β := ⟨s.ctl, s.bcount⟩

/-- A call of bcache_flush, bcache_invalidate or bcache_insert; `stamp` is the time that bcache_insert reads. -/
inductive Op (β : Type) where
  | flush
  | invalidate (blkno : Int)
  | insert (data : β) (blkno : Nat) (stamp : Int)

def Slots.apply (s : Slots β) : Op β → Slots β
  | .flush => { s with ctl := s.ctl.map fun c => { c with count := -1, blkno := -1 } }
  | .invalidate blkno => { s with ctl := invalidateFirst blkno s.ctl }
  | .insert data blkno stamp =>
    match s.ctl with
    | [] => s
    | c :: rest =>
      { ctl := s.ctl.set (insertScan blkno rest 1 0 c.count) { blkno, stamp, count := toInt32 s.bcount, data }
        bcount := (s.bcount + 1) % 2 ^ 32 }

def Slots.applyAll (s : Slots β) (ops : List (Op β)) : Slots β := ops.foldl Slots.apply s

@[simp] theorem applyAll_nil (s : Slots β) : s.applyAll [] = s := rfl

@[simp] theorem applyAll_append (s : Slots β) (first second : List (Op β)) :
    s.applyAll (first ++ second) = (s.applyAll first).applyAll second := foldl_append

variable (env : Env)

variable (s : State β)

theorem slots_insert (data : β) (blkno : Nat) :
    slots (bcacheInsert env s data blkno) = (slots s).apply (.insert data blkno (now env s)) := by
  cases shape : s.ctl <;> simp [bcacheInsert, Slots.apply, slots, tick, shape]

def insertOps (buf : Nat → β) (first blk : Nat) : Nat → State β → List (Op β)
  | 0, _ => []
  | n + 1, s => insertOps buf first blk n s ++ [.insert (buf (first + n)) (blk + n) (now env (insertLoop env buf first blk n s))]

theorem slots_insertLoop (buf : Nat → β) (first blk n : Nat) (s : State β) :
    slots (insertLoop env buf first blk n s) = (slots s).applyAll (insertOps env buf first blk n s) := by
  induction n with
  | zero => rfl
  | succ n ih =>
    rw [insertOps, applyAll_append, ← ih]
    exact slots_insert env _ _ _

def invalidateOps (blk : Nat) : Nat → List (Op β)
  | 0 => []
  | n + 1 => invalidateOps blk n ++ [.invalidate (blk + n : Nat)]

theorem slots_invalidateLoop (blk n : Nat) (s : State β) :
    slots (invalidateLoop blk n s) = (slots s).applyAll (invalidateOps blk n) := by
  induction n with
  | zero => rfl
  | succ n ih =>
    rw [invalidateOps, applyAll_append, ← ih]
    rfl

def writeOps (s : State β) (req : Request β) : List (Op β) :=
  let s := invalidateLoop req.blk req.nblk s
  invalidateOps req.blk req.nblk ++
    if env.errs s.transfers = 0 then insertOps env req.buf 0 req.blk req.nblk
      (store (transfer s) req.unit req.blk req.nblk req.buf) else []

theorem slots_write (req : Request β) :
    slots (writeStrategy env s req).2 = (slots s).applyAll (writeOps env s req) := by
  simp only [writeOps, applyAll_append, ← slots_invalidateLoop]
  unfold writeStrategy
  dsimp only
  split
  · exact slots_insertLoop env _ _ _ _ _
  · rfl

def completeOps (unit : Nat) (p : Pending β) (pblk : Nat) : List (Op β) :=
  if env.errs p.s.transfers ≠ 0 then []
  else
    let buf := fun i => if p.pbuf ≤ i ∧ i < p.pbuf + p.psize then p.s.disk unit (pblk + (i - p.pbuf)) else p.buf i
    insertOps env buf p.pbuf pblk p.psize (transfer p.s)

theorem slots_complete (unit : Nat) (p : Pending β) (pblk : Nat) :
    slots (completePending env unit p pblk).s = (slots p.s).applyAll (completeOps env unit p pblk) := by
  unfold completePending completeOps
  dsimp only
  split
  · rfl
  · exact slots_insertLoop env _ _ _ _ _

def stepOps (unit i : Nat) (p : Pending β) : List (Op β) :=
  let s := { p.s with overrun := p.s.overrun || decide ((p.s.nblks + 1) / 2 ≤ i) }
  if p.result ≠ 0 ∨ p.s.miss i then [] else p.pblk.elim [] (completeOps env unit { p with s })

theorem slots_step (unit blk i : Nat) (p : Pending β) :
    slots (fillStep env unit blk i p).s = (slots p.s).applyAll (stepOps env unit i p) := by
  obtain ⟨s, _, pblk, _, _, result⟩ := p
  unfold fillStep stepOps
  by_cases failed : result ≠ 0
  · simp [failed]
  · by_cases missed : s.miss i
    · cases pblk <;> simp [failed, missed, slots]
    · cases pblk with
      | none => simp [failed, missed, slots]
      | some pblk =>
        simp only [failed, missed, if_false, or_self, Bool.false_eq_true, elim_some]
        exact slots_complete env unit _ pblk

def fillOps (unit blk : Nat) : Nat → Pending β → List (Op β)
  | 0, _ => []
  | n + 1, p => fillOps unit blk n p ++ stepOps env unit n (fillLoop env unit blk n p)

theorem slots_fill (unit blk n : Nat) (p : Pending β) :
    slots (fillLoop env unit blk n p).s = (slots p.s).applyAll (fillOps env unit blk n p) := by
  induction n with
  | zero => rfl
  | succ n ih =>
    rw [fillOps, applyAll_append, ← ih]
    exact slots_step env unit blk n _

def restOps (unit : Nat) (p : Pending β) : List (Op β) :=
  if p.result ≠ 0 then [] else p.pblk.elim [] (completeOps env unit p)

theorem slots_rest (unit : Nat) (p : Pending β) :
    slots (fillRest env unit p).s = (slots p.s).applyAll (restOps env unit p) := by
  unfold fillRest restOps
  split
  · rfl
  · cases p.pblk with
    | none => rfl
    | some pblk => exact slots_complete env unit p pblk

theorem slots_lookup (blk n : Nat) (acc : State β × (Nat → β)) : slots (lookupLoop env blk n acc).1 = slots acc.1 := by
  induction n with
  | zero => rfl
  | succ n ih =>
    rw [← ih]
    simp only [lookupLoop]
    rcases found : bcacheLookup env (lookupLoop env blk n acc).1 (blk + n : Nat) with ⟨_ | _, _⟩
    all_goals
      obtain rfl := congrArg Prod.snd found
      rfl

def lookedUp (s : State β) (req : Request β) : Pending β :=
  ⟨(lookupLoop env req.blk req.nblk (s, req.buf)).1, (lookupLoop env req.blk req.nblk (s, req.buf)).2, none, 0, 0, 0⟩

def readOps (s : State β) (req : Request β) : List (Op β) :=
  fillOps env req.unit req.blk req.nblk (lookedUp env s req) ++
    restOps env req.unit (fillLoop env req.unit req.blk req.nblk (lookedUp env s req))

theorem slots_read (req : Request β) :
    slots (readStrategy env s req).2 = (slots s).applyAll (readOps env s req) := by
  have looked : slots (lookedUp env s req).s = slots s := slots_lookup env req.blk req.nblk (s, req.buf)
  rw [readOps, applyAll_append, ← looked, ← slots_fill, ← slots_rest]
  rfl

def strategyOps (s : State β) (req : Request β) : List (Op β) :=
  (if s.unit ≠ req.unit then [.flush] else []) ++
    if bypassed (selectUnit s req.unit) req.nblk then []
    else
      match req.rw with
      | .read => readOps env (selectUnit s req.unit) req
      | .write => writeOps env (selectUnit s req.unit) req
      | .other => []

theorem slots_select (unit : Nat) :
    slots (selectUnit s unit) = (slots s).applyAll (if s.unit ≠ unit then [.flush] else []) := by
  unfold selectUnit
  dsimp only
  split <;> rfl

theorem slots_strategy (req : Request β) :
    slots (bcacheStrategy env s req).2 = (slots s).applyAll (strategyOps env s req) := by
  rw [strategyOps, applyAll_append, ← slots_select]
  unfold bcacheStrategy
  dsimp only
  split
  · unfold bypass
    cases req.rw
    · simp only
      split <;> rfl
    · simp only
      split <;> rfl
    · rfl
  · cases req.rw
    · exact slots_read env _ req
    · exact slots_write env _ req
    · rfl

def runOps : State β → List (Request β) → List (Op β)
  | _, [] => []
  | s, req :: reqs => strategyOps env s req ++ runOps (bcacheStrategy env s req).2 reqs

theorem slots_run (reqs : List (Request β)) : slots (run env s reqs) = (slots s).applyAll (runOps env s reqs) := by
  induction reqs generalizing s with
  | nil => rfl
  | cons _ reqs ih =>
    rw [runOps, applyAll_append, ← slots_strategy]
    exact ih _

theorem runOps_append (front back : List (Request β)) :
    runOps env s (front ++ back) = runOps env s front ++ runOps env (run env s front) back := by
  induction front generalizing s with
  | nil => rfl
  | cons _ front ih =>
    rw [cons_append, runOps, runOps, ih, append_assoc]
    rfl

def Slots.Once (s : Slots β) : Prop :=
  ∀ (i j : Nat) (c d : Bcachectl β), i < j → s.ctl[i]? = some c → s.ctl[j]? = some d → c.blkno ≠ -1 → c.blkno ≠ d.blkno

def Op.Meets (s : Slots β) : Op β → Prop
  | .flush => True
  | .invalidate _ => True
  | .insert _ blkno _ => ∀ c, s.ctl[0]? = some c → c.blkno = (blkno : Int) → ∀ d ∈ s.ctl, c.count ≤ d.count

/-- Where the loop of bcache_insert ends: in the slot of the block, or in slot `cand` or one that is older. -/
theorem insertScan_least (blkno : Int) (rest : List (Bcachectl β)) (i cand : Nat) (ocount : Int)
    (absent : ∀ c ∈ rest, c.blkno ≠ blkno) :
    (insertScan blkno rest i cand ocount = cand ∧ ∀ c ∈ rest, ocount ≤ c.count) ∨
      ((∃ j < rest.length, insertScan blkno rest i cand ocount = i + j) ∧ ∃ c ∈ rest, c.count < ocount) := by
  induction rest generalizing i cand ocount with
  | nil => exact .inl ⟨rfl, by simp⟩
  | cons c rest ih =>
    have other : c.blkno ≠ blkno := absent c mem_cons_self
    have absent : ∀ c ∈ rest, c.blkno ≠ blkno := fun d member => absent d (mem_cons_of_mem _ member)
    simp only [insertScan, if_neg other]
    split
    · rename_i older
      right
      refine ⟨?_, c, mem_cons_self, older⟩
      rcases ih (i + 1) i c.count absent with ⟨here, -⟩ | ⟨⟨j, inside, there⟩, -⟩
      · exact ⟨0, by simp, here⟩
      · exact ⟨j + 1, by simpa using inside, by omega⟩
    · rename_i newer
      rcases ih (i + 1) cand ocount absent with ⟨here, least⟩ | ⟨⟨j, inside, there⟩, d, member, older⟩
      · refine .inl ⟨here, ?_⟩
        intro d member
        rcases mem_cons.mp member with rfl | member
        · omega
        · exact least d member
      · exact .inr ⟨⟨j + 1, by simpa using inside, by omega⟩, d, mem_cons_of_mem _ member, older⟩

theorem flush_once (s : Slots β) : (s.apply .flush).Once := by
  intro i j c d _ first _ real
  simp only [Slots.apply, getElem?_map, map_eq_some_iff] at first
  obtain ⟨_, -, rfl⟩ := first
  exact absurd rfl real

variable {s : Slots β}

theorem invalidate_once (once : s.Once) (blkno : Int) : (s.apply (.invalidate blkno)).Once := by
  have old : ∀ (ctl : List (Bcachectl β)) (i : Nat) (c : Bcachectl β), (invalidateFirst blkno ctl)[i]? = some c →
      ctl[i]? = some c ∨ c.blkno = -1 := by
    intro ctl
    induction ctl with
    | nil => intro i c found; simp [invalidateFirst] at found
    | cons first _ ih =>
      intro i c found
      simp only [invalidateFirst] at found
      split at found
      · cases i with
        | zero =>
          right
          simp only [getElem?_cons_zero, Option.some.injEq] at found
          rw [← found]
        | succ i => exact .inl found
      · cases i with
        | zero => exact .inl found
        | succ i => exact ih i c found
  intro i j c d less first second real same
  rcases old s.ctl i c first with first | gone
  · rcases old s.ctl j d second with second | gone
    · exact once i j c d less first second real same
    · exact real (same.trans gone)
  · exact real gone

theorem set_once (once : s.Once) {cand : Nat} {new : Bcachectl β} {bcount : Nat}
    (others : ∀ (j : Nat) (d : Bcachectl β), j ≠ cand → s.ctl[j]? = some d → d.blkno ≠ new.blkno) :
    (⟨s.ctl.set cand new, bcount⟩ : Slots β).Once := by
  have old : ∀ (j : Nat) (d : Bcachectl β), (s.ctl.set cand new)[j]? = some d → j = cand ∧ d = new ∨ j ≠ cand ∧
    s.ctl[j]? = some d := by
    intro j d found
    rw [getElem?_set] at found
    split at found
    · rename_i here
      split at found
      · exact .inl ⟨here.symm, (some.inj found).symm⟩
      · exact absurd found (by simp)
    · rename_i away
      exact .inr ⟨Ne.symm away, found⟩
  intro i j c d less first second real same
  rcases old i c first with ⟨rfl, rfl⟩ | ⟨awayI, oldI⟩ <;> rcases old j d second with ⟨rfl, rfl⟩ | ⟨awayJ, oldJ⟩
  · exact absurd less (Nat.lt_irrefl _)
  · exact others j d awayJ oldJ same.symm
  · exact others i c awayI oldI same
  · exact once i j c d less oldI oldJ real same

theorem insert_once (once : s.Once) (data : β) (blkno : Nat) (stamp : Int) :
    (s.apply (.insert data blkno stamp)).Once ↔ (Op.insert data blkno stamp).Meets s := by
  cases shape : s.ctl with
  | nil => simp [Slots.apply, Op.Meets, shape, once]
  | cons first rest =>
    have at_0 : s.ctl[0]? = some first := by rw [shape]; rfl
    have at_succ : ∀ j, s.ctl[1 + j]? = rest[j]? := fun j => by rw [shape, Nat.add_comm]; rfl
    have real : (blkno : Int) ≠ -1 := by omega
    have applied : s.apply (.insert data blkno stamp) = ⟨s.ctl.set (insertScan blkno rest 1 0 first.count)
        ⟨blkno, stamp, toInt32 s.bcount, data⟩, (s.bcount + 1) % 2 ^ 32⟩ := by simp only [Slots.apply, shape]
    have meets : (Op.insert data blkno stamp).Meets s ↔ (first.blkno = blkno → ∀ d ∈ s.ctl, first.count ≤ d.count) := by
      constructor
      · exact fun meets => meets first at_0
      · intro meets c found
        obtain rfl : first = c := some.inj (at_0.symm.trans found)
        exact meets
    rw [applied, meets]
    obtain ⟨k, c, found, here, _⟩ | ⟨absent, -⟩ := insertScan_spec (blkno : Int) rest 1 0 first.count
    · -- The block is in slot k + 1, and so nowhere else.
      have at_k : s.ctl[1 + k]? = some c := (at_succ k).trans found
      have head : first.blkno ≠ blkno := fun same => once 0 (1 + k) first c (by omega) at_0 at_k (by omega) (by omega)
      refine iff_of_true (set_once once ?_) fun same => absurd same head
      intro j d away at_j same
      rcases Nat.lt_or_gt_of_ne (show j ≠ 1 + k by omega) with less | more
      · exact once j (1 + k) d c less at_j at_k (by rw [same]; exact real) (same.trans here.symm)
      · exact once (1 + k) j c d more at_k at_j (by omega) (here.trans same.symm)
    · have tail : ∀ (j : Nat) (d : Bcachectl β), j ≠ 0 → s.ctl[j]? = some d → d.blkno ≠ blkno := by
        intro j d positive at_j
        obtain ⟨k, rfl⟩ : ∃ k, j = 1 + k := ⟨j - 1, by omega⟩
        exact absent d (mem_of_getElem? ((at_succ k).symm.trans at_j))
      by_cases head : first.blkno = blkno
      · rcases insertScan_least (blkno : Int) rest 1 0 first.count absent with ⟨here, least⟩ | ⟨⟨k, _, there⟩, d, member, _⟩
        · rw [here]
          refine iff_of_true (set_once once tail) fun _ => ?_
          rw [shape]
          intro d member
          rcases mem_cons.mp member with rfl | member
          · exact Int.le_refl _
          · exact least d member
        · -- Slot 0 keeps its copy, and slot k + 1 gets another one.
          rw [there]
          refine iff_of_false (fun twice => ?_) fun meets => ?_
          · have room : 1 + k < s.ctl.length := by rw [shape, length_cons]; omega
            apply twice 0 (1 + k) first _ (by omega)
            · simpa [getElem?_set] using at_0
            · exact getElem?_set_self room
            · omega
            · exact head
          · have least := meets head d (by rw [shape]; exact mem_cons_of_mem _ member)
            omega
      · refine iff_of_true (set_once once ?_) fun same => absurd same head
        intro j d _ at_j
        by_cases zero : j = 0
        · subst zero
          obtain rfl : first = d := some.inj (at_0.symm.trans at_j)
          exact head
        · exact tail j d zero at_j

theorem apply_once (once : s.Once) (op : Op β) : (s.apply op).Once ↔ op.Meets s := by
  cases op with
  | flush => exact iff_of_true (flush_once s) trivial
  | invalidate blkno => exact iff_of_true (invalidate_once once blkno) trivial
  | insert data blkno stamp => exact insert_once once data blkno stamp

def Meet : Slots β → List (Op β) → Prop
  | _, [] => True
  | s, op :: ops => op.Meets s ∧ Meet (s.apply op) ops

def reached : Slots β → List (Op β) → List (Slots β)
  | _, [] => []
  | s, op :: ops => s.apply op :: reached (s.apply op) ops

theorem meet_iff (once : s.Once) (ops : List (Op β)) : Meet s ops ↔ ∀ t ∈ reached s ops, t.Once := by
  induction ops generalizing s with
  | nil => simp [Meet, reached]
  | cons op ops ih =>
    simp only [Meet, reached, forall_mem_cons]
    rw [← apply_once once op]
    constructor
    · rintro ⟨next, rest⟩
      exact ⟨next, (ih next).mp rest⟩
    · rintro ⟨next, rest⟩
      exact ⟨next, (ih next).mpr rest⟩

theorem applyAll_reached (s : Slots β) {ops : List (Op β)} (some_op : ops ≠ []) : s.applyAll ops ∈ reached s ops := by
  induction ops generalizing s with
  | nil => exact absurd rfl some_op
  | cons op ops ih =>
    cases ops with
    | nil => exact mem_cons_self
    | cons next ops => exact mem_cons_of_mem _ (ih (s.apply op) (by simp))

theorem reached_append (s : Slots β) (first second : List (Op β)) :
    reached s (first ++ second) = reached s first ++ reached (s.applyAll first) second := by
  induction first generalizing s with
  | nil => rfl
  | cons _ first ih =>
    simp only [cons_append, reached, ih]
    rfl

theorem invalidateFirst_eq (blkno : Int) (ctl : List (Bcachectl β)) :
    (invalidateFirst blkno ctl = ctl ∧ ∀ c ∈ ctl, c.blkno ≠ blkno) ∨
      ∃ k c, ctl[k]? = some c ∧ c.blkno = blkno ∧ (∀ i < k, ∀ d, ctl[i]? = some d → d.blkno ≠ blkno) ∧
        invalidateFirst blkno ctl = ctl.set k { c with count := -1, blkno := -1 } := by
  induction ctl with
  | nil => exact .inl ⟨rfl, by simp⟩
  | cons first _ ih =>
    by_cases here : first.blkno = blkno
    · exact .inr ⟨0, first, rfl, here, by simp, by simp [invalidateFirst, here]⟩
    · rcases ih with ⟨same, absent⟩ | ⟨k, c, found, equal, before, changed⟩
      · left
        refine ⟨by simp [invalidateFirst, here, same], ?_⟩
        intro c member
        rcases mem_cons.mp member with rfl | member
        · exact here
        · exact absent c member
      · refine .inr ⟨k + 1, c, found, equal, ?_, by simp [invalidateFirst, here, changed]⟩
        intro i less d at_i
        cases i with
        | zero =>
          obtain rfl : first = d := some.inj at_i
          exact here
        | succ i => exact before i (Nat.lt_of_succ_lt_succ less) d at_i

theorem once_iff_removed (s : Slots β) :
    s.Once ↔ ∀ blkno, blkno ≠ -1 → ∀ c ∈ (s.apply (.invalidate blkno)).ctl, c.blkno ≠ blkno := by
  constructor
  · intro once blkno real c member same
    change c ∈ invalidateFirst blkno s.ctl at member
    rcases invalidateFirst_eq blkno s.ctl with ⟨unchanged, absent⟩ | ⟨k, d, found, equal, -, changed⟩
    · rw [unchanged] at member
      exact absent c member same
    · rw [changed] at member
      obtain ⟨i, at_i⟩ := mem_iff_getElem?.mp member
      rw [getElem?_set] at at_i
      split at at_i
      · split at at_i
        · have gone := congrArg Bcachectl.blkno (some.inj at_i)
          exact real (same.symm.trans gone.symm)
        · exact absurd at_i (by simp)
      · rename_i away
        rcases Nat.lt_or_gt_of_ne away with less | more
        · exact once k i d c less found at_i (by rwa [equal]) (equal.trans same.symm)
        · exact once i k c d more at_i found (by rwa [same]) (same.trans equal.symm)
  · intro removed i j c d less first second real same
    apply removed c.blkno real d ?_ same.symm
    change d ∈ invalidateFirst c.blkno s.ctl
    rcases invalidateFirst_eq c.blkno s.ctl with ⟨unchanged, -⟩ | ⟨k, _, found, equal, before, changed⟩
    · rw [unchanged]
      exact mem_of_getElem? second
    · have behind : k ≤ i := Nat.le_of_not_lt fun early => before i early c first rfl
      rw [changed]
      apply mem_of_getElem? (i := j)
      rw [getElem?_set_ne (by omega)]
      exact second

theorem runOps_flushes (disk : Nat → Nat → β) (mem : List (Bcachectl β)) (bsize : Nat) (req : Request β)
    (reqs : List (Request β)) :
    ∃ ops, runOps env (started disk mem bsize) (req :: reqs) = .flush :: ops := by
  have fresh : (started disk mem bsize).unit ≠ req.unit := by
    change (-1 : Int) ≠ req.unit
    omega
  rw [runOps, strategyOps, if_pos fresh]
  exact ⟨_, rfl⟩

/-- In every run a block is in one slot at most, and bcache_invalidate removes it, exactly as long as bcache_insert
gets no block that slot 0 holds while another slot is older. -/
theorem block_cached_once (disk : Nat → Nat → β) (mem : List (Bcachectl β)) (bsize : Nat) (reqs : List (Request β)) :
    (Meet (slots (started disk mem bsize)) (runOps env (started disk mem bsize) reqs) ↔
      ∀ t ∈ reached (slots (started disk mem bsize)) (runOps env (started disk mem bsize) reqs),
        t.Once ∧ ∀ blkno, blkno ≠ -1 → ∀ c ∈ (t.apply (.invalidate blkno)).ctl, c.blkno ≠ blkno) ∧
    ∀ front back, reqs = front ++ back → front ≠ [] →
      slots (run env (started disk mem bsize) front) ∈
        reached (slots (started disk mem bsize)) (runOps env (started disk mem bsize) reqs) := by
  constructor
  · have whole : ∀ t : Slots β, (t.Once ∧ ∀ blkno, blkno ≠ -1 → ∀ c ∈ (t.apply (.invalidate blkno)).ctl,
      c.blkno ≠ blkno) ↔ t.Once :=
      fun t => ⟨And.left, fun once => ⟨once, (once_iff_removed t).mp once⟩⟩
    simp only [whole]
    cases reqs with
    | nil => simp [runOps, Meet, reached]
    | cons req reqs =>
      obtain ⟨ops, begins⟩ := runOps_flushes env disk mem bsize req reqs
      have flushed := flush_once (slots (started disk mem bsize))
      rw [begins]
      simp only [Meet, reached, forall_mem_cons, meet_iff flushed]
      exact ⟨fun rest => ⟨flushed, rest.2⟩, fun rest => ⟨trivial, rest.2⟩⟩
  · rintro front back rfl some_request
    rw [runOps_append, reached_append, slots_run]
    apply mem_append_left
    apply applyAll_reached
    obtain ⟨req, front, rfl⟩ := exists_cons_of_ne_nil some_request
    obtain ⟨ops, begins⟩ := runOps_flushes env disk mem bsize req front
    exact cons_ne_nil _ _

def later : Env := { clock := fun n => if n < 2 then 0 else 3, errs := fun _ => 0 }

def readsTwice : List (Request Nat) := replicate 2 (request .read 7 1 fun _ => 0)

theorem block_cached_twice :
    ¬ ∀ (env : Env) (disk : Nat → Nat → Nat) (mem : List (Bcachectl Nat)) (bsize : Nat) (reqs : List (Request Nat)),
      reqs ≠ [] → (slots (run env (started disk mem bsize) reqs)).Once := by
  intro once
  have blocks : (run later (started (fun _ _ => 0) (junk.take 2) 512) readsTwice).ctl.map Bcachectl.blkno = [7, 7] := by
    decide
  have slot : ∀ i < 2, ∃ c, (run later (started (fun _ _ => 0) (junk.take 2) 512) readsTwice).ctl[i]? = some c ∧
    c.blkno = 7 := by
    intro i inside
    have here : ((run later (started (fun _ _ => 0) (junk.take 2) 512) readsTwice).ctl.map Bcachectl.blkno)[i]? =
      some 7 := by
      obtain rfl | rfl : i = 0 ∨ i = 1 := by omega
      · rfl
      · rfl
    rw [getElem?_map, map_eq_some_iff] at here
    exact here
  obtain ⟨c, first, here⟩ := slot 0 (by decide)
  obtain ⟨d, second, there⟩ := slot 1 (by decide)
  exact once later (fun _ _ => 0) (junk.take 2) 512 readsTwice (by decide) 0 1 c d (by decide) first second (by omega)
    (here.trans there.symm)

end Pcbsd.Proofs.BcacheOnce
