import Mathlib.Data.Prod.Lex
import Pcbsd.Proofs.VdevForest

/-! Which uberblock a pool ends with: of those that are not older than the pool the greatest by transaction group and
time stamp, over all devices. -/

namespace Pcbsd.Zfs
open Lib List

variable {δ : Type}

def Uberblock.key (up : Uberblock) : Nat ×ₗ Nat := toLex (up.txg, up.timestamp)

def validUberblocks (slots : List (Option Uberblock)) : List Uberblock :=
  (slots.filterMap id).filter (·.magic = uberblockMagic)

theorem key_lt_iff {a b : Uberblock} : a.key < b.key ↔ a.txg < b.txg ∨ a.txg = b.txg ∧ a.timestamp < b.timestamp :=
  Prod.Lex.toLex_lt_toLex

theorem considerUberblock_key (spa : Spa) {up : Uberblock} (valid : up.magic = uberblockMagic) :
    (considerUberblock spa (some up)).uberblock.key = if spa.txg ≤ up.txg then max spa.uberblock.key up.key
      else spa.uberblock.key := by
  rw [considerUberblock, if_neg (not_not.mpr valid)]
  by_cases old : up.txg < spa.txg
  · rw [if_pos old, if_neg (not_le.mpr old)]
  · rw [if_neg old, if_pos (not_lt.mp old)]
    by_cases later : spa.uberblock.txg < up.txg
    · rw [if_pos later, max_eq_right (key_lt_iff.mpr (.inl later)).le]
    · rw [if_neg later]
      by_cases newer : up.txg = spa.uberblock.txg ∧ spa.uberblock.timestamp < up.timestamp
      · rw [if_pos newer, max_eq_right (key_lt_iff.mpr (.inr ⟨newer.1.symm, newer.2⟩)).le]
      · rw [if_neg newer, max_eq_left]
        refine not_lt.mp fun less => ?_
        obtain less | ⟨same, less⟩ := key_lt_iff.mp less
        · exact later less
        · exact newer ⟨same.symm, less⟩

theorem considerUberblock_kept (spa : Spa) (slot : Option Uberblock) :
    (considerUberblock spa slot).txg = spa.txg ∧ (considerUberblock spa slot).guid = spa.guid := by
  unfold considerUberblock
  cases slot with
  | none => exact ⟨rfl, rfl⟩
  | some _ =>
    dsimp only
    split_ifs
    all_goals exact ⟨rfl, rfl⟩

theorem considerUberblocks_kept (spa : Spa) (slots : List (Option Uberblock)) :
    (slots.foldl considerUberblock spa).txg = spa.txg ∧ (slots.foldl considerUberblock spa).guid = spa.guid := by
  induction slots generalizing spa with
  | nil => exact ⟨rfl, rfl⟩
  | cons slot slots ih =>
    obtain ⟨txg, guid⟩ := considerUberblock_kept spa slot
    rw [foldl_cons, (ih _).1, (ih _).2, txg, guid]
    exact ⟨rfl, rfl⟩

structure UpTo (best : Uberblock) (seen : List Uberblock) (spa : Spa) : Prop where
  current : spa.txg ≤ best.txg
  below : spa.uberblock.key ≤ best.key
  reached : best ∈ seen → spa.uberblock.key = best.key

section

variable {best : Uberblock} {seen : List Uberblock} {spa : Spa}

theorem considerUberblock_invalid {slot : Option Uberblock} (invalid : validUberblocks [slot] = []) :
    considerUberblock spa slot = spa := by
  cases slot with
  | none => rfl
  | some up =>
    have magic : up.magic ≠ uberblockMagic := fun valid => by simp [validUberblocks, valid] at invalid
    rw [considerUberblock, if_pos magic]

theorem UpTo.slot (upTo : UpTo best seen spa) (slot : Option Uberblock)
    (greatest : ∀ up ∈ validUberblocks [slot], up.key ≤ best.key) :
    UpTo best (seen ++ validUberblocks [slot]) (considerUberblock spa slot) := by
  obtain ⟨txg, -⟩ := considerUberblock_kept spa slot
  by_cases invalid : validUberblocks [slot] = []
  · rw [considerUberblock_invalid invalid, invalid, append_nil]
    exact upTo
  obtain ⟨up, rfl, valid⟩ : ∃ up, slot = some up ∧ up.magic = uberblockMagic := by
    cases slot with
    | none => exact absurd rfl invalid
    | some up => exact ⟨up, rfl, by_contra fun magic => invalid (by simp [validUberblocks, magic])⟩
  have single : validUberblocks [some up] = [up] := by simp [validUberblocks, valid]
  rw [single] at greatest ⊢
  have less := greatest up (mem_singleton.mpr rfl)
  have key := considerUberblock_key spa valid
  refine ⟨txg.trans_le upTo.current, ?_, fun member => ?_⟩
  · rw [key]
    split
    · exact max_le upTo.below less
    · exact upTo.below
  · rw [key]
    obtain before | here := mem_append.mp member
    · rw [upTo.reached before]
      split
      · exact max_eq_left less
      · rfl
    · obtain rfl := mem_singleton.mp here
      rw [if_pos upTo.current, max_eq_right upTo.below]

theorem UpTo.ring (upTo : UpTo best seen spa) (slots : List (Option Uberblock))
    (greatest : ∀ up ∈ validUberblocks slots, up.key ≤ best.key) :
    UpTo best (seen ++ validUberblocks slots) (slots.foldl considerUberblock spa) := by
  induction slots generalizing seen spa with
  | nil =>
    have none : validUberblocks [] = [] := rfl
    rw [none, append_nil]
    exact upTo
  | cons slot slots ih =>
    have split : validUberblocks (slot :: slots) = validUberblocks [slot] ++ validUberblocks slots := by
      rw [validUberblocks, ← singleton_append, filterMap_append, filter_append]
      rfl
    rw [split] at greatest ⊢
    rw [← append_assoc]
    exact ih (upTo.slot slot fun up member => greatest up (mem_append_left _ member))
      fun up member => greatest up (mem_append_right _ member)

end

def ring (media : Media δ) (st : ZfsState δ) (dev : δ) (guid : Nat) : List (Option Uberblock) :=
  match vdevFind st.vdevs guid with
  | none => []
  | some vdev => media.uberblocks dev (st.vdevs.vdev (st.vdevs.vdev vdev).top).ashift

def poolWith (st : ZfsState δ) (guid : Nat) : Option Spa := st.pools.find? (·.guid = guid)

section

variable {pools : List Spa} {f : Spa → Spa} {i guid : Nat}

theorem spaFindByGuid_modify (keeps : ∀ spa, (f spa).guid = spa.guid) :
    spaFindByGuid (pools.modify i f) guid = spaFindByGuid pools guid := by
  induction pools generalizing i with
  | nil => cases i <;> rfl
  | cons spa pools ih =>
    cases i with
    | zero => simp only [spaFindByGuid, modify_zero_cons, List.findIdx?_cons, keeps]
    | succ i =>
      have rest := @ih i
      simp only [spaFindByGuid] at rest
      simp only [spaFindByGuid, modify_succ_cons, List.findIdx?_cons, rest]

theorem find_modify (keeps : ∀ spa, (f spa).guid = spa.guid) : (pools.modify i f).find? (·.guid = guid) =
    if spaFindByGuid pools guid = some i then (pools.find? (·.guid = guid)).map f else pools.find? (·.guid = guid) := by
  induction pools generalizing i with
  | nil => cases i <;> simp [spaFindByGuid]
  | cons spa pools ih =>
    rw [spaFindByGuid, List.findIdx?_cons]
    by_cases here : spa.guid = guid
    · cases i with
      | zero => simp [here, keeps]
      | succ i => simp [here]
    · cases i with
      | zero => simp [here, keeps]
      | succ i =>
        simp [here, ih, spaFindByGuid]
        rfl

end

variable {pools : List Spa} {guid : Nat} {media : Media δ} {st' st : ZfsState δ} {dev : δ} {rc : Int} {i : Nat}

theorem spaFindByGuid_eq_some (found : spaFindByGuid pools guid = some i) :
    ∃ spa, pools[i]? = some spa ∧ pools.find? (·.guid = guid) = some spa := by
  induction pools generalizing i with
  | nil => cases found
  | cons spa pools ih =>
    rw [spaFindByGuid, List.findIdx?_cons] at found
    by_cases here : spa.guid = guid
    · simp only [here, decide_true, if_true, Option.some.injEq] at found
      subst found
      exact ⟨spa, rfl, List.find?_cons_of_pos (by simpa using here)⟩
    · simp only [here, decide_false, Bool.false_eq_true, if_false, Option.map_eq_some_iff] at found
      obtain ⟨_, found, rfl⟩ := found
      obtain ⟨other, there, first⟩ := ih found
      exact ⟨other, there, (List.find?_cons_of_neg (by simpa using here)).trans first⟩

theorem spaFindByGuid_eq_none (missing : spaFindByGuid pools guid = none) :
    pools.find? (·.guid = guid) = none := by
  rw [spaFindByGuid, List.findIdx?_eq_none_iff] at missing
  simpa using missing

theorem find_modify_other {f : Spa → Spa} (keeps : ∀ spa, (f spa).guid = spa.guid) {other : Nat}
    (found : spaFindByGuid pools guid = some i) (differs : other ≠ guid) :
    (pools.modify i f).find? (·.guid = other) = pools.find? (·.guid = other) := by
  rw [find_modify keeps, if_neg fun same => ?_]
  obtain ⟨spa, there, first⟩ := spaFindByGuid_eq_some found
  obtain ⟨_, there', first'⟩ := spaFindByGuid_eq_some same
  obtain rfl := Option.some.inj (there.symm.trans there')
  have guid : spa.guid = guid := by simpa using List.find?_some first
  have guid' : spa.guid = other := by simpa using List.find?_some first'
  exact differs (guid'.symm.trans guid)

theorem findOrCreateSpa_find (pools : List Spa) (poolGuid : Nat) (name : Bytes) :
    spaFindByGuid (findOrCreateSpa pools poolGuid name).2 poolGuid = some (findOrCreateSpa pools poolGuid name).1 ∧
      (findOrCreateSpa pools poolGuid name).2.find? (·.guid = poolGuid) =
        some ((pools.find? (·.guid = poolGuid)).getD (spaCreate poolGuid name)) ∧
      ∀ other ≠ poolGuid, (findOrCreateSpa pools poolGuid name).2.find? (·.guid = other) = pools.find? (·.guid = other) := by
  rw [findOrCreateSpa]
  cases found : spaFindByGuid pools poolGuid with
  | some _ =>
    obtain ⟨_, -, first⟩ := spaFindByGuid_eq_some found
    exact ⟨found, by rw [first]; rfl, fun _ _ => rfl⟩
  | none =>
    have missing := spaFindByGuid_eq_none found
    refine ⟨?_, ?_, fun other differs => ?_⟩
    · rw [spaFindByGuid] at found
      simp [spaFindByGuid, List.findIdx?_append, found, spaCreate]
    · simp [List.find?_append, missing, spaCreate]
    · simp [List.find?_append, spaCreate, Ne.symm differs]

theorem enterPool_find (pools : List Spa) (txg poolGuid : Nat) (name : Bytes) :
    spaFindByGuid (enterPool pools txg poolGuid name).2.2 poolGuid = some (enterPool pools txg poolGuid name).1 ∧
      (∃ spa, (enterPool pools txg poolGuid name).2.2.find? (·.guid = poolGuid) = some spa ∧
        spa.txg = max ((pools.find? (·.guid = poolGuid)).getD (spaCreate poolGuid name)).txg txg ∧
        spa.uberblock = ((pools.find? (·.guid = poolGuid)).getD (spaCreate poolGuid name)).uberblock) ∧
      ∀ other ≠ poolGuid, (enterPool pools txg poolGuid name).2.2.find? (·.guid = other) =
        pools.find? (·.guid = other) := by
  obtain ⟨found, here, others⟩ := findOrCreateSpa_find pools poolGuid name
  rw [enterPool]
  generalize findOrCreateSpa pools poolGuid name = entered at found here others ⊢
  obtain ⟨spa, there, first⟩ := spaFindByGuid_eq_some found
  dsimp only at found here others first there ⊢
  obtain rfl := Option.some.inj (first.symm.trans here)
  generalize (pools.find? (·.guid = poolGuid)).getD (spaCreate poolGuid name) = spa at first there ⊢
  rw [there, Option.any_some]
  by_cases newer : spa.txg < txg
  · rw [if_pos (by simpa using newer)]
    have keeps : ∀ spa : Spa, ({ spa with txg } : Spa).guid = spa.guid := fun _ => rfl
    refine ⟨(spaFindByGuid_modify keeps).trans found, ⟨{ spa with txg }, ?_, (max_eq_right newer.le).symm, rfl⟩,
      fun other differs => ?_⟩
    · rw [find_modify keeps, if_pos found, first]
      rfl
    · exact (find_modify_other keeps found differs).trans (others other differs)
  · rw [if_neg (by simpa using newer)]
    exact ⟨found, ⟨spa, first, (max_eq_left (not_lt.mp newer)).symm, rfl⟩, others⟩

theorem addToplevel_pools (st : ZfsState δ) (spa top : Nat) :
    ∃ f : Spa → Spa, (∀ pool, (f pool).guid = pool.guid ∧ (f pool).txg = pool.txg ∧
      (f pool).uberblock = pool.uberblock) ∧ (addToplevel st spa top).pools = st.pools.modify spa f := by
  rw [addToplevel]
  cases found : st.pools[spa]? with
  | none => exact ⟨id, fun _ => ⟨rfl, rfl, rfl⟩, (modify_id ..).symm⟩
  | some pool =>
    dsimp only
    by_cases there : top ∈ st.vdevs.chain pool.vdevs
    · rw [if_pos there]
      exact ⟨id, fun _ => ⟨rfl, rfl, rfl⟩, (modify_id ..).symm⟩
    · rw [if_neg there]
      generalize Stailq.insertTail st.vdevs.links pool.vdevs top = inserted
      obtain ⟨_, head⟩ := inserted
      refine ⟨({ · with vdevs := head }), fun _ => ⟨rfl, rfl, rfl⟩, ext_getElem? fun i => ?_⟩
      rw [List.getElem?_set, List.getElem?_modify]
      by_cases here : spa = i
      · subst here
        obtain ⟨inside, -⟩ := List.getElem?_eq_some_iff.mp found
        rw [if_pos rfl, if_pos inside, found]
        simp
      · rw [if_neg here]
        simp [here]

theorem vdevFind_congr {h h' : Vdevs δ} (count : h'.count = h.count) (guids : ∀ q, (h'.vdev q).guid = (h.vdev q).guid)
    (guid : Nat) :
    vdevFind h' guid = vdevFind h guid := by
  rw [vdevFind, vdevFind, count]
  simp only [guids]

theorem attachVdev_pools {spa : Nat} {isNewer : Bool} {tree : Config}
    (ran : attachVdev media dev spa guid isNewer tree st = (rc, st')) :
    ∃ f : Spa → Spa, (∀ pool, (f pool).guid = pool.guid ∧ (f pool).txg = pool.txg ∧
      (f pool).uberblock = pool.uberblock) ∧ st'.pools = st.pools.modify spa fun pool =>
        (if rc = 0 then ring media st' dev guid else []).foldl considerUberblock (f pool) := by
  rw [attachVdev] at ran
  generalize vdevInit tree none isNewer st.vdevs = reply at ran
  obtain ⟨failed, top, vdevs⟩ := reply
  dsimp only at ran
  by_cases stopped : failed ≠ 0
  · rw [if_pos stopped] at ran
    obtain ⟨rfl, rfl⟩ := Prod.mk.inj ran
    rw [if_neg stopped]
    exact ⟨id, fun _ => ⟨rfl, rfl, rfl⟩, (modify_id ..).symm⟩
  rw [if_neg stopped] at ran
  obtain ⟨f, keeps, pools⟩ := addToplevel_pools { st with vdevs } spa top
  generalize addToplevel { st with vdevs } spa top = placed at pools ran
  refine ⟨f, keeps, ?_⟩
  cases found : vdevFind placed.vdevs guid with
  | none =>
    rw [found] at ran
    obtain ⟨rfl, rfl⟩ := Prod.mk.inj ran
    rw [if_neg (by decide), pools]
    rfl
  | some vdev =>
    rw [found] at ran
    obtain ⟨rfl, rfl⟩ := Prod.mk.inj ran
    have same := SameShape.trans (.modify anyVdev_static placed.vdevs vdev (fun _ => .healthy) fun _ => some dev)
      (.setState anyVdev_static _ top)
    rw [if_pos rfl, ring, vdevFind_congr same.count same.guid, found, pools, modify_modify_eq]
    rfl

/-- What a probe does to the pools: nothing, or the pool of the label is entered and then its ring is read. -/
theorem vdevProbe_pools (ran : vdevProbe media st dev = (rc, st')) :
    ((media.label dev).bind (Label.pool media) = none ∧ rc ≠ 0 ∧ st' = st) ∨
      ∃ (label : Label) (txg poolGuid : Nat) (name : Bytes) (f : Spa → Spa),
        media.label dev = some label ∧ label.pool media = some (txg, poolGuid, name) ∧
        (∀ pool, (f pool).guid = pool.guid ∧ (f pool).txg = pool.txg ∧ (f pool).uberblock = pool.uberblock) ∧
        st'.pools = (enterPool st.pools txg poolGuid name).2.2.modify (enterPool st.pools txg poolGuid name).1 fun pool =>
          (if rc = 0 then label.guid.elim [] (ring media st' dev) else []).foldl considerUberblock (f pool) := by
  rw [vdevProbe] at ran
  cases read : media.label dev with
  | none =>
    rw [read] at ran
    obtain ⟨rfl, rfl⟩ := Prod.mk.inj ran
    exact .inl ⟨rfl, by decide, rfl⟩
  | some label =>
  rw [read] at ran
  dsimp only at ran
  rw [probeLabel] at ran
  rw [Option.bind_some]
  cases pool : label.pool media with
  | none =>
    rw [pool] at ran
    obtain ⟨rfl, rfl⟩ := Prod.mk.inj ran
    exact .inl ⟨rfl, by decide, rfl⟩
  | some found =>
  obtain ⟨txg, poolGuid, name⟩ := found
  rw [pool] at ran
  dsimp only at ran
  have nothing : ∀ i (pools : List Spa), pools = pools.modify i id := fun i pools => (modify_id ..).symm
  refine .inr ⟨label, txg, poolGuid, name, ?_⟩
  generalize enterPool st.pools txg poolGuid name = entered at ran ⊢
  obtain ⟨spa, _, pools⟩ := entered
  cases guid : label.guid with
  | none =>
    rw [guid] at ran
    obtain ⟨rfl, rfl⟩ := Prod.mk.inj ran
    exact ⟨id, rfl, pool, fun _ => ⟨rfl, rfl, rfl⟩, nothing spa pools⟩
  | some guid' =>
  rw [guid] at ran
  cases tree : label.tree with
  | none =>
    rw [tree] at ran
    obtain ⟨rfl, rfl⟩ := Prod.mk.inj ran
    exact ⟨id, rfl, pool, fun _ => ⟨rfl, rfl, rfl⟩, nothing spa pools⟩
  | some _ =>
    rw [tree] at ran
    dsimp only at ran
    by_cases inited : vdevInited st.vdevs guid'
    · rw [if_pos inited] at ran
      obtain ⟨rfl, rfl⟩ := Prod.mk.inj ran
      exact ⟨id, rfl, pool, fun _ => ⟨rfl, rfl, rfl⟩, nothing spa pools⟩
    · rw [if_neg inited] at ran
      obtain ⟨f, keeps, same⟩ := attachVdev_pools ran
      exact ⟨f, rfl, pool, keeps, same⟩

def probeUberblocks (media : Media δ) (poolGuid : Nat) (st : ZfsState δ) (dev : δ) : List Uberblock :=
  match media.label dev with
  | none => []
  | some label =>
    if (label.pool media).any (·.2.1 = poolGuid) ∧ (vdevProbe media st dev).1 = 0 then
      validUberblocks (label.guid.elim [] (ring media (vdevProbe media st dev).2 dev))
    else []

/-- The transaction group of a label of the pool that is not turned down before. -/
def poolTxgs (media : Media δ) (poolGuid : Nat) (dev : δ) : List Nat :=
  (((media.label dev).bind (Label.pool media)).filter (·.2.1 = poolGuid)).toList.map Prod.fst

def Standing (best : Uberblock) (seen : List Uberblock) : Option Spa → Prop
  | none => best ∉ seen
  | some spa => UpTo best seen spa

section

variable {media : Media δ} {best : Uberblock} {seen : List Uberblock} {st : ZfsState δ} {dev : δ} {poolGuid : Nat}

theorem Standing.enter {pools : List Spa} {txg : Nat} (standing : Standing best seen (pools.find? (·.guid = poolGuid)))
    (current : txg ≤ best.txg) (name : Bytes) :
    ∃ spa, (enterPool pools txg poolGuid name).2.2.find? (·.guid = poolGuid) = some spa ∧ UpTo best seen spa := by
  obtain ⟨-, ⟨spa, first, txgs, uberblock⟩, -⟩ := enterPool_find pools txg poolGuid name
  refine ⟨spa, first, ?_⟩
  cases before : pools.find? (·.guid = poolGuid) with
  | none =>
    rw [before] at standing txgs uberblock
    refine ⟨txgs.trans_le (max_le (Nat.zero_le _) current), ?_, fun member => absurd member standing⟩
    rw [uberblock]
    exact Prod.Lex.toLex_le_toLex.mpr
      ((Nat.eq_zero_or_pos best.txg).elim (fun zero => .inr ⟨zero.symm, Nat.zero_le _⟩) .inl)
  | some _ =>
    rw [before] at standing txgs uberblock
    exact ⟨txgs.trans_le (max_le standing.current current), uberblock ▸ standing.below,
      fun member => uberblock ▸ standing.reached member⟩

theorem vdevProbe_standing (standing : Standing best seen (poolWith st poolGuid))
    (current : ∀ txg ∈ poolTxgs media poolGuid dev, txg ≤ best.txg)
    (greatest : ∀ up ∈ probeUberblocks media poolGuid st dev, up.key ≤ best.key) :
    Standing best (seen ++ probeUberblocks media poolGuid st dev) (poolWith (vdevProbe media st dev).2 poolGuid) := by
  rw [probeUberblocks] at greatest ⊢
  rw [poolTxgs] at current
  generalize ran : vdevProbe media st dev = reply at greatest ⊢
  obtain ⟨rc, st'⟩ := reply
  obtain ⟨_, failed, rfl⟩ | ⟨label, txg, guid, name, f, read, pool, keeps, pools⟩ := vdevProbe_pools ran
  · cases read : media.label dev with
    | none =>
      rw [append_nil]
      exact standing
    | some label =>
      dsimp only
      rw [if_neg fun both => failed both.2, append_nil]
      exact standing
  rw [read, Option.bind_some, pool] at current
  rw [read] at greatest ⊢
  dsimp only at greatest ⊢
  rw [pool, Option.any_some] at greatest ⊢
  have kept : ∀ spa : Spa, ((if rc = 0 then label.guid.elim [] (ring media st' dev) else []).foldl considerUberblock
    (f spa)).guid = spa.guid :=
    fun spa => (considerUberblocks_kept _ _).2.trans (keeps spa).1
  obtain ⟨found, -, others⟩ := enterPool_find st.pools txg guid name
  rw [poolWith, pools]
  by_cases ours : guid = poolGuid
  · subst ours
    obtain ⟨spa, first, upTo⟩ := standing.enter (current txg (by simp)) name
    rw [find_modify kept, if_pos found, first]
    have placed : UpTo best seen (f spa) := by
      obtain ⟨-, txgs, uberblock⟩ := keeps spa
      exact ⟨txgs ▸ upTo.current, uberblock ▸ upTo.below, uberblock ▸ upTo.reached⟩
    by_cases ok : rc = 0
    · rw [if_pos ⟨by simp, ok⟩] at greatest ⊢
      rw [if_pos ok]
      exact placed.ring _ greatest
    · rw [if_neg (fun both => ok both.2), append_nil, if_neg ok]
      exact placed
  · rw [if_neg (fun both => ours (by simpa using both.1)), append_nil, find_modify_other kept found (Ne.symm ours),
      others _ (Ne.symm ours)]
    exact standing

end

/-- The valid uberblocks of the pool that a run reads in its successful probes. -/
def runUberblocks (media : Media δ) (poolGuid : Nat) : ZfsState δ → List δ → List Uberblock
  | _, [] => []
  | st, dev :: devs => probeUberblocks media poolGuid st dev ++ runUberblocks media poolGuid (vdevProbe media st dev).2 devs

theorem probeRun_standing {media : Media δ} {best : Uberblock} {seen : List Uberblock} {st : ZfsState δ}
    {devs : List δ} {poolGuid : Nat} (standing : Standing best seen (poolWith st poolGuid))
    (current : ∀ txg ∈ devs.flatMap (poolTxgs media poolGuid), txg ≤ best.txg)
    (greatest : ∀ up ∈ runUberblocks media poolGuid st devs, up.key ≤ best.key) :
    Standing best (seen ++ runUberblocks media poolGuid st devs) (poolWith (probeRun media st devs) poolGuid) := by
  induction devs generalizing st seen with
  | nil =>
    rw [runUberblocks, append_nil]
    exact standing
  | cons _ devs ih =>
    rw [runUberblocks] at greatest ⊢
    rw [← append_assoc]
    refine ih (vdevProbe_standing standing ?_ ?_) ?_ ?_
    · exact fun txg member => current txg (mem_append_left _ member)
    · exact fun up member => greatest up (mem_append_left _ member)
    · exact fun txg member => current txg (mem_append_right _ member)
    · exact fun up member => greatest up (mem_append_right _ member)

/-- The pool ends with the greatest uberblock, in whatever order devices and slots come. -/
theorem probeRun_best_uberblock (media : Media δ) (vdev : Nat → VdevT δ) (devs : List δ) (poolGuid : Nat)
    {best : Uberblock} (member : best ∈ runUberblocks media poolGuid (noPools vdev) devs)
    (greatest : ∀ up ∈ runUberblocks media poolGuid (noPools vdev) devs, up.txg < best.txg ∨ up.txg = best.txg ∧
      up.timestamp ≤ best.timestamp) (current : ∀ txg ∈ devs.flatMap (poolTxgs media poolGuid), txg ≤ best.txg) :
    ∃ spa, poolWith (probeRun media (noPools vdev) devs) poolGuid = some spa ∧
      spa.uberblock.txg = best.txg ∧ spa.uberblock.timestamp = best.timestamp := by
  have start : Standing best [] (poolWith (noPools vdev) poolGuid) := not_mem_nil
  have standing := probeRun_standing start current fun up there => Prod.Lex.toLex_le_toLex.mpr (greatest up there)
  cases found : poolWith (probeRun media (noPools vdev) devs) poolGuid with
  | none =>
    rw [found] at standing
    exact absurd member standing
  | some spa =>
    rw [found] at standing
    have same := Prod.mk.inj (toLex.injective (standing.reached member))
    exact ⟨spa, rfl, same.1, same.2⟩

/-! Two disks of a mirror; the second slot of the first ring has a bad magic, and the last ring comes with an older
label. -/

private def uberblockAt (txg timestamp : Nat) : Uberblock := ⟨uberblockMagic, txg, timestamp, []⟩

private def ringMedia : Media Nat where
  label
    | 0 => some (sampleLabel 20 8 (.mk { guid := 7, id := 0, read := .mirror } [sampleDisk 8, sampleDisk 9]))
    | 1 => some (sampleLabel 10 9 (.mk { guid := 7, id := 0, read := .mirror } [sampleDisk 8, sampleDisk 9]))
    | _ => none
  uberblocks
    | 0, _ => [some (uberblockAt 21 5), some ⟨0, 30, 5, []⟩, none]
    | _, _ => [some (uberblockAt 21 6), some (uberblockAt 15 9)]
  spaVersion := 28

theorem probeRun_best_uberblock_mirror :
    let vdev := fun _ : Nat => (⟨0, 0, 0, 0, 0, [], .disk, none, .offline, 0, Stailq.empty, none⟩ : VdevT Nat)
    ∃ spa, poolWith (probeRun ringMedia (noPools vdev) [0, 2, 1]) 1 = some spa ∧ spa.uberblock.txg = 21 ∧
      spa.uberblock.timestamp = 6 := by
  intro vdev
  have read : (runUberblocks ringMedia 1 (noPools vdev) [0, 2, 1]) =
    [uberblockAt 21 5, uberblockAt 21 6, uberblockAt 15 9] := by decide
  have best := @probeRun_best_uberblock Nat ringMedia vdev [0, 2, 1] 1 (uberblockAt 21 6)
  exact best (by decide) (by decide) (by decide)

end Pcbsd.Zfs
