import Pcbsd.Proofs.VdevDecode
import Pcbsd.Zfs.Probe

/-! When probing keeps the lists of vdevs in order. v_children and spa_vdevs share v_childlink,
children are linked only while their parent is new, and v_nchildren is rewritten by every label. -/

namespace Pcbsd.Zfs
open Lib List Option Function

variable {δ : Type}

/-- All lists that are chained through v_childlink: `kids p` are the children of the vdev `p` and
`tops i` the top-level vdevs of the pool `i`. No two of them have a vdev in common. -/
structure Forest (h : Vdevs δ) (heads : List (Stailq.Head Nat)) (kids tops : Nat → List Nat) : Prop where
  linked : Linked 0 h kids
  holds : ∀ i head, heads[i]? = some head → Stailq.Holds h.links head (tops i)
  inside : ∀ i < heads.length, ∀ p ∈ tops i, p < h.count
  apart : ∀ i < heads.length, ∀ p < h.count, ∀ r ∈ tops i, r ∉ kids p
  separate : ∀ i < heads.length, ∀ j < heads.length, i ≠ j → ∀ r ∈ tops i, r ∉ tops j
  top : ∀ i < heads.length, ∀ r ∈ tops i, (h.vdev r).top = r

section

variable {h h' : Vdevs δ} {heads : List (Stailq.Head Nat)} {kids kids' tops : Nat → List Nat}

theorem Forest.chain (forest : Forest h heads kids tops) {i : Nat} {head : Stailq.Head Nat} (found : heads[i]? = some head) :
    h.chain head = tops i := by
  have chain := (forest.holds i head found).chain
  have within : tops i ⊆ List.range h.count := by
    intro p member
    exact mem_range.mpr (forest.inside i (List.getElem?_eq_some_iff.mp found).1 p member)
  have short := (chain.nodup.subperm within).length_le
  rw [length_range] at short
  exact chain.walk_eq short

theorem Forest.create (forest : Forest h heads kids tops) :
    Forest h (heads ++ [Stailq.empty]) kids (update tops heads.length []) := by
  have split : ∀ i < (heads ++ [Stailq.empty]).length, i = heads.length ∨ i < heads.length := by
    intro i less
    simp only [length_append, length_singleton] at less
    omega
  refine ⟨forest.linked, ?_, ?_, ?_, ?_, ?_⟩
  · intro i head found
    rcases split i (List.getElem?_eq_some_iff.mp found).1 with rfl | less
    · rw [List.getElem?_append_right le_rfl, Nat.sub_self] at found
      cases found
      rw [update_self]
      exact Stailq.holds_empty
    · rw [List.getElem?_append_left less] at found
      rw [update_of_ne (by omega)]
      exact forest.holds i head found
  · intro i less p member
    rcases split i less with rfl | less
    · rw [update_self] at member
      cases member
    · rw [update_of_ne (by omega)] at member
      exact forest.inside i less p member
  · intro i less p inside r member
    rcases split i less with rfl | less
    · rw [update_self] at member
      cases member
    · rw [update_of_ne (by omega)] at member
      exact forest.apart i less p inside r member
  · intro i less j less' differ r member
    rcases split i less with rfl | less
    · rw [update_self] at member
      cases member
    · rw [update_of_ne (by omega)] at member
      rcases split j less' with rfl | less'
      · rw [update_self]
        exact not_mem_nil
      · rw [update_of_ne (by omega)]
        exact forest.separate i less j less' differ r member
  · intro i less r member
    rcases split i less with rfl | less
    · rw [update_self] at member
      cases member
    · rw [update_of_ne (by omega)] at member
      exact forest.top i less r member

theorem Forest.added (forest : Forest h heads kids tops) {gs : List Nat} (added : Added 0 h h' kids kids' gs) :
    Forest h' heads kids' tops := by
  have grown := added.count
  refine ⟨added.linked, ?_, ?_, ?_, forest.separate, ?_⟩
  · intro i head found
    refine (forest.holds i head found).congr ?_
    intro p member
    exact congrArg VdevT.childlink (added.old p (forest.inside i (List.getElem?_eq_some_iff.mp found).1 p member)).1
  · intro i less p member
    have := forest.inside i less p member
    omega
  · intro i less p inside r member
    have early := forest.inside i less r member
    by_cases old : p < h.count
    · rw [(added.old p old).2]
      exact forest.apart i less p old r member
    · intro child
      have := added.below p inside (by omega) r child
      omega
  · intro i less r member
    rw [(added.old r (forest.inside i less r member)).1]
    exact forest.top i less r member

theorem Forest.insert (forest : Forest h heads kids tops) {i top : Nat} {head : Stailq.Head Nat} (found : heads[i]? = some head)
    (fresh : top < h.count) (notKid : ∀ p < h.count, top ∉ kids p) (notTop : ∀ j < heads.length, top ∉ tops j)
    (root : (h.vdev top).top = top) :
    Forest (h.setLinks (Stailq.insertTail h.links head top).1) (heads.set i (Stailq.insertTail h.links head top).2) kids
      (update tops i (tops i ++ [top])) := by
  have less := (List.getElem?_eq_some_iff.mp found).1
  have here := forest.holds i head found
  have links : (h.setLinks (Stailq.insertTail h.links head top).1).links = (Stailq.insertTail h.links head top).1 := rfl
  have members : ∀ j r, r ∈ update tops i (tops i ++ [top]) j ↔ r ∈ tops j ∨ j = i ∧ r = top := by
    intro j r
    by_cases same : j = i
    · subst same
      simp
    · simp [same]
  refine ⟨⟨?_, ?_, ?_, ?_, forest.linked.top⟩, ?_, ?_, ?_, ?_, ?_⟩
  · exact forest.linked.unique
  · intro p inside above
    exact here.insertTail_other (forest.linked.holds p inside above) (notKid p inside) (forest.apart i less p inside)
  · exact forest.linked.bounded
  · exact forest.linked.apart
  · intro j head' found'
    by_cases same : j = i
    · subst same
      rw [List.getElem?_set_self less, Option.some.injEq] at found'
      subst found'
      rw [update_self]
      exact here.insertTail (notTop j less)
    · rw [List.getElem?_set_ne (Ne.symm same)] at found'
      rw [update_of_ne same]
      have less' := (List.getElem?_eq_some_iff.mp found').1
      exact here.insertTail_other (forest.holds j head' found') (notTop j less') (forest.separate i less j less' (Ne.symm same))
  · intro j less' p member
    rw [length_set] at less'
    rcases (members j p).mp member with member | ⟨-, rfl⟩
    · exact forest.inside j less' p member
    · exact fresh
  · intro j less' p inside r member
    rw [length_set] at less'
    rcases (members j r).mp member with member | ⟨-, rfl⟩
    · exact forest.apart j less' p inside r member
    · exact notKid p inside
  · intro j less' k less'' differ r member
    rw [length_set] at less' less''
    rw [members, not_or]
    rcases (members j r).mp member with old | ⟨rfl, rfl⟩
    · refine ⟨forest.separate j less' k less'' differ r old, ?_⟩
      rintro ⟨-, rfl⟩
      exact notTop j less' old
    · exact ⟨notTop k less'', fun same => differ same.1.symm⟩
  · intro j less' r member
    rw [length_set] at less'
    rcases (members j r).mp member with old | ⟨rfl, rfl⟩
    · exact forest.top j less' r old
    · exact root

variable {good : VdevT δ → Details → Prop}

/-- Zfs_vdevs with the same guids, counts of children and pointers, and no vdev worse. -/
structure SameShape (good : VdevT δ → Details → Prop) (h h' : Vdevs δ) : Prop where
  count : h'.count = h.count
  guid : ∀ q, (h'.vdev q).guid = (h.vdev q).guid
  nchildren : ∀ q, (h'.vdev q).nchildren = (h.vdev q).nchildren
  children : ∀ q, (h'.vdev q).children = (h.vdev q).children
  childlink : ∀ q, (h'.vdev q).childlink = (h.vdev q).childlink
  top : ∀ q, (h'.vdev q).top = (h.vdev q).top
  good : ∀ q d, good (h.vdev q) d → good (h'.vdev q) d

theorem SameShape.trans {h'' : Vdevs δ} (first : SameShape good h h') (second : SameShape good h' h'') :
    SameShape good h h'' where
  count := second.count.trans first.count
  guid := fun q => (second.guid q).trans (first.guid q)
  nchildren := fun q => (second.nchildren q).trans (first.nchildren q)
  children := fun q => (second.children q).trans (first.children q)
  childlink := fun q => (second.childlink q).trans (first.childlink q)
  top := fun q => (second.top q).trans (first.top q)
  good := fun q d fields => second.good q d (first.good q d fields)

theorem SameShape.refl (h : Vdevs δ) : SameShape good h h :=
  ⟨rfl, fun _ => rfl, fun _ => rfl, fun _ => rfl, fun _ => rfl, fun _ => rfl, fun _ _ fields => fields⟩

theorem SameShape.refresh (static : Details.Static good) (h : Vdevs δ) (flag : Nat → Option VdevState) :
    SameShape good h (h.refresh flag) :=
  ⟨rfl, fun _ => rfl, fun _ => rfl, fun _ => rfl, fun _ => rfl, fun _ => rfl,
    fun q d => static.state (h.vdev q) d _ (h.vdev q).phys⟩

theorem SameShape.modify (static : Details.Static good) (h : Vdevs δ) (p : Nat) (f : VdevT δ → VdevState)
    (g : VdevT δ → Option δ) : SameShape good h (h.modify p fun v => { v with state := f v, phys := g v }) := by
  have at_ : ∀ q, (h.modify p fun v => { v with state := f v, phys := g v }).vdev q =
      if q = p then { h.vdev q with state := f (h.vdev q), phys := g (h.vdev q) } else h.vdev q := by
    intro q
    by_cases here : q = p
    · subst here
      simp [Vdevs.modify]
    · simp [Vdevs.modify, here]
  refine ⟨rfl, ?_, ?_, ?_, ?_, ?_, ?_⟩
  all_goals
    intro q
    rw [at_]
    split
  · rfl
  · rfl
  · rfl
  · rfl
  · rfl
  · rfl
  · rfl
  · rfl
  · rfl
  · rfl
  · exact fun d => static.state _ d _ _
  · exact fun _ fields => fields

theorem SameShape.setState (static : Details.Static good) (h : Vdevs δ) (p : Nat) : SameShape good h (vdevSetState h p) := by
  unfold vdevSetState
  split
  · exact .modify static h p _ fun v => v.phys
  · exact .refl h

theorem SameShape.links (same : SameShape good h h') : h'.links = h.links := funext same.childlink

theorem SameShape.forest (same : SameShape good h h') (forest : Forest h heads kids tops) : Forest h' heads kids tops := by
  have count := same.count
  refine ⟨⟨?_, ?_, ?_, ?_, ?_⟩, ?_, ?_, ?_, forest.separate, ?_⟩
  · intro p less q less' above above' equal
    rw [same.guid, same.guid] at equal
    exact forest.linked.unique p (by omega) q (by omega) above above' equal
  · intro p less above
    rw [same.links, same.children]
    exact forest.linked.holds p (by omega) above
  · intro p less above q member
    rw [count]
    exact forest.linked.bounded p (by omega) above q member
  · intro p less q less' above above'
    exact forest.linked.apart p (by omega) q (by omega) above above'
  · intro p less above q member
    rw [same.top]
    exact forest.linked.top p (by omega) above q member
  · intro i head found
    rw [same.links]
    exact forest.holds i head found
  · intro i less p member
    rw [count]
    exact forest.inside i less p member
  · intro i less p less'
    exact forest.apart i less p (by omega)
  · intro i less r member
    rw [same.top]
    exact forest.top i less r member

theorem SameShape.matches (same : SameShape good h h') {p : Nat} {c : Config} (matched : Matches good h kids p c) :
    Matches good h' kids p c := by
  refine Matches.congr (h := h) ?_ c ?_ matched
  · rw [same.count]
  · exact fun q _ _ => ⟨⟨same.guid q, same.nchildren q, same.good q⟩, rfl⟩

end

/-- A tree that vdev_init_from_nvlist turns down before it looks for the vdev. -/
def Config.rejected : Config → Bool
  | .mk d _ _ =>
    match d.guid, d.id, d.type with
    | some _, some _, some type => (vdevType type).isNone
    | _, _, _ => true

theorem vdevInit_rejected {c : Config} (rejected : c.rejected) (pvdev : Option Nat) (isNewer : Bool) (h : Vdevs δ) :
    (vdevInit c pvdev isNewer h).1 ≠ 0 ∧ (vdevInit c pvdev isNewer h).2.2 = h := by
  obtain ⟨d, _, _⟩ := c
  have turned : (vdevEnter d pvdev isNewer h).1 ≠ 0 ∧ (vdevEnter d pvdev isNewer h).2.2.2 = h := by
    rw [Config.rejected] at rejected
    cases guid : d.guid with
    | none => simp [vdevEnter, guid, enoent]
    | some _ =>
      cases id : d.id with
      | none => simp [vdevEnter, guid, id, enoent]
      | some _ =>
        cases type : d.type with
        | none => simp [vdevEnter, guid, id, type, enoent]
        | some type' =>
          have unsupported : vdevType type' = none := by simpa [guid, id, type] using rejected
          simp [vdevEnter, guid, id, type, unsupported, eio]
  rw [vdevInit]
  generalize vdevEnter d pvdev isNewer h = reply at turned ⊢
  dsimp only at turned ⊢
  rw [if_pos turned.1]
  exact turned

/-- The pool and the tree with which a probe gets as far as vdev_init_from_nvlist. -/
def reached (media : Media δ) (st : ZfsState δ) (dev : δ) : Option (Nat × Config) := do
  let label ← media.label dev
  let (_, poolGuid, _) ← label.pool media
  let guid ← label.guid
  let tree ← label.tree
  if vdevInited st.vdevs guid then none else some (poolGuid, tree)

/-- A complete tree that is either new throughout or already linked, as it stands, below a
top-level vdev of its pool. -/
def Fits (good : VdevT δ → Details → Prop) (st : ZfsState δ) (poolGuid : Nat) (c : Config) : Prop :=
  c.Complete ∧
    ((c.guids.Nodup ∧ ∀ g ∈ c.guids, vdevFind st.vdevs g = none) ∨
      ∃ i ∈ spaFindByGuid st.pools poolGuid, ∃ pool ∈ st.pools[i]?, ∃ p ∈ st.vdevs.chain pool.vdevs,
        Matches good st.vdevs st.vdevs.children p c)

structure InOrder (good : VdevT δ → Details → Prop) (st : ZfsState δ) (trees : List Config)
    (kids tops : Nat → List Nat) : Prop where
  forest : Forest st.vdevs (st.pools.map (·.vdevs)) kids tops
  shown : ∀ c ∈ trees, ∃ p, Matches good st.vdevs kids p c
  covered : ∀ p < st.vdevs.count, ∃ c ∈ trees, (st.vdevs.vdev p).guid ∈ c.guids

section

variable {good : VdevT δ → Details → Prop} {st : ZfsState δ} {trees : List Config} {kids tops : Nat → List Nat}

theorem InOrder.sameShape (order : InOrder good st trees kids tops) {st' : ZfsState δ}
    (same : SameShape good st.vdevs st'.vdevs)
    (heads : st'.pools.map (·.vdevs) = st.pools.map (·.vdevs)) : InOrder good st' trees kids tops := by
  refine ⟨heads ▸ same.forest order.forest, ?_, ?_⟩
  · intro c member
    obtain ⟨p, matched⟩ := order.shown c member
    exact ⟨p, same.matches matched⟩
  · intro p inside
    rw [same.count] at inside
    rw [same.guid]
    exact order.covered p inside

variable {c : Config} {spa guid : Nat}

theorem addToplevel_new (static : Details.Static good) (order : InOrder good st trees kids tops)
    (complete : c.Complete) (distinct : c.guids.Nodup) (unknown : ∀ g ∈ c.guids, vdevFind st.vdevs g = none)
    (inside : spa < st.pools.length) (isNewer : Bool) :
    ∃ h' kids' tops', vdevInit c none isNewer st.vdevs = (0, st.vdevs.count, h') ∧ Added 0 st.vdevs h' kids kids' c.guids ∧
      InOrder good (addToplevel { st with vdevs := h' } spa st.vdevs.count) (c :: trees) kids' tops' := by
  obtain ⟨h', kids', ran, added, matched, root⟩ := vdevInit_new static.toCheck c complete distinct order.forest.linked
    (Nat.zero_le _) (fun g member => vdevFind_eq_none.mp (unknown g member)) none isNewer
  have forest := order.forest.added added
  have grown := added.count
  have some_ := c.guids_pos
  have found := List.getElem?_eq_getElem inside
  have head : (st.pools.map (·.vdevs))[spa]? = some st.pools[spa].vdevs := by simp [inside]
  have notTop : ∀ j < (st.pools.map (·.vdevs)).length, st.vdevs.count ∉ tops j := by
    intro j less member
    exact absurd (order.forest.inside j less _ member) (lt_irrefl _)
  have notKid : ∀ p < h'.count, st.vdevs.count ∉ kids' p := by
    intro p less member
    by_cases old : p < st.vdevs.count
    · rw [(added.old p old).2] at member
      exact absurd (order.forest.linked.bounded p old (Nat.zero_le _) _ member) (lt_irrefl _)
    · exact absurd (added.below p less (by omega) _ member) (lt_irrefl _)
  have inserted := forest.insert head (show st.vdevs.count < h'.count by omega) notKid notTop root
  refine ⟨h', kids', update tops spa (tops spa ++ [st.vdevs.count]), ran, added, ?_⟩
  rw [addToplevel, found]
  dsimp only
  rw [if_neg (by rw [forest.chain head]; exact notTop spa (by simpa using inside))]
  refine ⟨by rw [map_set]; exact inserted, ?_, ?_⟩
  · intro tree member
    rcases mem_cons.mp member with rfl | member
    · refine ⟨_, Matches.congr (h := h') ?_ tree ?_ matched⟩
      · exact le_rfl
      · exact fun q _ _ => ⟨(SameVdev.setLinks h' _ q).alike static.toCheck, rfl⟩
    · obtain ⟨p, shown⟩ := order.shown tree member
      refine ⟨p, Matches.congr (h := st.vdevs) ?_ tree ?_ shown⟩
      · exact Nat.le.intro grown.symm
      · intro q less _
        have old := added.old q less
        refine ⟨SameVdev.alike static.toCheck ?_, old.2⟩
        rw [← old.1]
        exact .setLinks h' _ q
  · intro p less
    rcases added.known less with old | mine
    · obtain ⟨tree, member, guid⟩ := order.covered p old
      refine ⟨tree, mem_cons_of_mem _ member, ?_⟩
      change (h'.vdev p).guid ∈ _
      rwa [(added.old p old).1]
    · exact ⟨c, mem_cons_self, mine⟩

theorem addToplevel_known (static : Details.Static good) (order : InOrder good st trees kids tops)
    (complete : c.Complete) {i p : Nat} {pool : Spa} (found : st.pools[i]? = some pool)
    (member : p ∈ st.vdevs.chain pool.vdevs) (matched : Matches good st.vdevs st.vdevs.children p c) (isNewer : Bool) :
    ∃ h', vdevInit c none isNewer st.vdevs = (0, p, h') ∧
      InOrder good (addToplevel { st with vdevs := h' } i p) (c :: trees) kids tops := by
  have head : (st.pools.map (·.vdevs))[i]? = some pool.vdevs := by simp [found]
  have linked := order.forest.linked
  have shown : Matches good st.vdevs kids p c := by
    refine Matches.congr (h := st.vdevs) ?_ c ?_ matched
    · exact le_rfl
    · exact fun q less _ => ⟨⟨rfl, rfl, fun _ fields => fields⟩, (linked.children less (Nat.zero_le q)).symm⟩
  have same := SameShape.refresh static st.vdevs fun g => if isNewer then c.flag g else none
  refine ⟨_, vdevInit_known c complete linked (shown.congr le_rfl c fun _ _ _ => ⟨⟨rfl, rfl, fun _ _ => trivial⟩, rfl⟩)
    none isNewer, ?_⟩
  have present : p ∈ (st.vdevs.refresh fun g => if isNewer then c.flag g else none).chain pool.vdevs := by
    rw [(same.forest order.forest).chain head, ← order.forest.chain head]
    exact member
  rw [addToplevel]
  dsimp only
  rw [found]
  dsimp only
  rw [if_pos present]
  have kept : InOrder good ⟨_, st.pools⟩ trees kids tops := order.sameShape same rfl
  refine ⟨kept.forest, ?_, ?_⟩
  · intro tree member
    rcases mem_cons.mp member with rfl | member
    · exact ⟨p, same.matches shown⟩
    · exact kept.shown tree member
  · intro q less
    obtain ⟨tree, member, guid⟩ := kept.covered q less
    exact ⟨tree, mem_cons_of_mem _ member, guid⟩

theorem considerUberblock_vdevs (slots : List (Option Uberblock)) (pool : Spa) :
    (slots.foldl considerUberblock pool).vdevs = pool.vdevs := by
  induction slots generalizing pool with
  | nil => rfl
  | cons _ slots ih =>
    rw [foldl_cons, ih]
    unfold considerUberblock
    split
    · rfl
    · split_ifs <;> rfl

theorem map_modify_vdevs (pools : List Spa) (spa : Nat) {f : Spa → Spa} (kept : ∀ pool, (f pool).vdevs = pool.vdevs) :
    (pools.modify spa f).map (·.vdevs) = pools.map (·.vdevs) := by
  apply ext_getElem?
  intro i
  rw [List.getElem?_map, List.getElem?_map, List.getElem?_modify]
  cases pools[i]? with
  | none => rfl
  | some pool =>
    by_cases here : spa = i
    · simp [here, kept]
    · simp [here]

theorem attachVdev_finish (static : Details.Static good) (media : Media δ) (dev : δ) {top : Nat} {isNewer : Bool}
    {h' : Vdevs δ} (ran : vdevInit c none isNewer st.vdevs = (0, top, h'))
    (order : InOrder good (addToplevel { st with vdevs := h' } spa top) trees kids tops) :
    InOrder good (attachVdev media dev spa guid isNewer c st).2 trees kids tops := by
  rw [attachVdev, ran]
  dsimp only
  cases vdevFind (addToplevel { st with vdevs := h' } spa top).vdevs guid with
  | none => exact order
  | some vdev =>
    refine order.sameShape ?_ (map_modify_vdevs _ spa fun pool => considerUberblock_vdevs _ pool)
    exact SameShape.trans (.modify static _ vdev (fun _ => .healthy) fun _ => some dev) (.setState static _ top)

/-- From the vdev tree on a probe keeps the lists in order, for a tree that is turned down and for
one that fits. -/
private theorem attachVdev_inOrder (static : Details.Static good) (media : Media δ) (dev : δ) (isNewer : Bool)
    (order : InOrder good st trees kids tops) (inside : spa < st.pools.length)
    (fits : c.rejected ∨ c.Complete ∧
      ((c.guids.Nodup ∧ ∀ g ∈ c.guids, vdevFind st.vdevs g = none) ∨ ∃ pool p, st.pools[spa]? = some pool ∧
      p ∈ st.vdevs.chain pool.vdevs ∧ Matches good st.vdevs st.vdevs.children p c)) :
    ∃ kids' tops', InOrder good (attachVdev media dev spa guid isNewer c st).2 (if c.rejected then trees
      else c :: trees) kids' tops' := by
  by_cases rejected : c.rejected
  · obtain ⟨failed, unchanged⟩ := vdevInit_rejected rejected none isNewer st.vdevs
    refine ⟨kids, tops, ?_⟩
    rw [if_pos rejected, attachVdev]
    generalize vdevInit c none isNewer st.vdevs = reply at failed unchanged ⊢
    obtain ⟨_, _, h'⟩ := reply
    dsimp only at failed unchanged ⊢
    rw [if_pos failed, unchanged]
    exact order
  · rw [if_neg rejected]
    obtain ⟨complete, ⟨distinct, unknown⟩ | ⟨pool, p, found, member, matched⟩⟩ := fits.resolve_left rejected
    · obtain ⟨h', kids', tops', ran, -, placed⟩ := addToplevel_new static order complete distinct unknown inside isNewer
      exact ⟨kids', tops', attachVdev_finish static media dev ran placed⟩
    · obtain ⟨h', ran, placed⟩ := addToplevel_known static order complete found member matched isNewer
      exact ⟨kids, tops, attachVdev_finish static media dev ran placed⟩

theorem enterPool_heads (pools : List Spa) (txg poolGuid : Nat) (name : Bytes) :
    (enterPool pools txg poolGuid name).2.2.map (·.vdevs) = (findOrCreateSpa pools poolGuid name).2.map (·.vdevs) ∧
      (enterPool pools txg poolGuid name).1 = (findOrCreateSpa pools poolGuid name).1 := by
  rw [enterPool]
  rcases findOrCreateSpa pools poolGuid name with ⟨spa, pools⟩
  dsimp only
  split
  · exact ⟨map_modify_vdevs pools spa fun _ => rfl, rfl⟩
  · exact ⟨rfl, rfl⟩

theorem enterPool_inOrder (order : InOrder good st trees kids tops) (txg poolGuid : Nat) (name : Bytes) :
    (∃ tops', InOrder good { st with pools := (enterPool st.pools txg poolGuid name).2.2 } trees kids tops') ∧
      (enterPool st.pools txg poolGuid name).1 < (enterPool st.pools txg poolGuid name).2.2.length := by
  obtain ⟨heads, spa⟩ := enterPool_heads st.pools txg poolGuid name
  have length := congrArg List.length heads
  rw [length_map, length_map] at length
  rw [spa, length]
  rw [findOrCreateSpa] at heads ⊢
  cases found : spaFindByGuid st.pools poolGuid with
  | some _ =>
    rw [found] at heads
    exact ⟨⟨tops, order.sameShape (.refl _) heads⟩,
      (List.findIdx?_eq_some_iff_getElem.mp found).1⟩
  | none =>
    rw [found] at heads
    have created := order.forest.create
    refine ⟨⟨update tops (st.pools.map (·.vdevs)).length [], ⟨?_, order.shown, order.covered⟩⟩, by simp⟩
    rw [heads, map_append]
    exact created

theorem fits_enterPool {poolGuid : Nat} (fits : Fits good st poolGuid c) (txg : Nat) (name : Bytes) :
    c.Complete ∧
      ((c.guids.Nodup ∧ ∀ g ∈ c.guids, vdevFind st.vdevs g = none) ∨
        ∃ pool p, (enterPool st.pools txg poolGuid name).2.2[(enterPool st.pools txg poolGuid name).1]? = some pool ∧
          p ∈ st.vdevs.chain pool.vdevs ∧ Matches good st.vdevs st.vdevs.children p c) := by
  refine ⟨fits.1, fits.2.imp_right ?_⟩
  rintro ⟨i, found, pool, there, p, member, matched⟩
  rw [mem_def] at found there
  obtain ⟨heads, spa⟩ := enterPool_heads st.pools txg poolGuid name
  rw [findOrCreateSpa, found] at heads spa
  have head := congrArg (·[i]?) heads
  simp only [List.getElem?_map, there, map_some, map_eq_some_iff] at head
  obtain ⟨pool', there', same⟩ := head
  rw [spa]
  exact ⟨pool', p, there', same ▸ member, matched⟩

end

def probeRun (media : Media δ) (st : ZfsState δ) (devs : List δ) : ZfsState δ :=
  devs.foldl (fun st dev => (vdevProbe media st dev).2) st

/-- A probe whose label, if it gets that far, has a tree that is turned down or fits. -/
def ProbeFits (good : VdevT δ → Details → Prop) (media : Media δ) (st : ZfsState δ) (dev : δ) : Prop :=
  ∀ found ∈ reached media st dev, found.2.rejected ∨ Fits good st found.1 found.2

def RunFits (good : VdevT δ → Details → Prop) (media : Media δ) : ZfsState δ → List δ → Prop
  | _, [] => True
  | st, dev :: devs => ProbeFits good media st dev ∧ RunFits good media (vdevProbe media st dev).2 devs

section

variable {good : VdevT δ → Details → Prop} [∀ v d, Decidable (good v d)]

instance (st : ZfsState δ) (poolGuid : Nat) (c : Config) : Decidable (Fits good st poolGuid c) :=
  inferInstanceAs (Decidable (_ ∧ (_ ∨ _)))

instance (media : Media δ) (st : ZfsState δ) (dev : δ) : Decidable (ProbeFits good media st dev) :=
  inferInstanceAs (Decidable (∀ found ∈ reached media st dev, _ ∨ _))

instance decidableRunFits (media : Media δ) : ∀ st devs, Decidable (RunFits good media st devs)
  | _, [] => isTrue trivial
  | st, dev :: devs =>
    have := decidableRunFits media (vdevProbe media st dev).2 devs
    inferInstanceAs (Decidable (ProbeFits good media st dev ∧ _))

end

def taken (media : Media δ) : ZfsState δ → List δ → List Config → List Config
  | _, [], trees => trees
  | st, dev :: devs, trees =>
    taken media (vdevProbe media st dev).2 devs
      (match reached media st dev with
      | some (_, c) => if c.rejected then trees else c :: trees
      | none => trees)

section

variable {good : VdevT δ → Details → Prop} {st : ZfsState δ} {trees : List Config} {kids tops : Nat → List Nat}

theorem vdevProbe_inOrder (static : Details.Static good) (media : Media δ) {dev : δ}
    (order : InOrder good st trees kids tops) (fits : ProbeFits good media st dev) :
    ∃ kids' tops', InOrder good (vdevProbe media st dev).2
      (match reached media st dev with
      | some (_, c) => if c.rejected then trees else c :: trees
      | none => trees) kids' tops' := by
  unfold ProbeFits at fits
  revert fits
  unfold reached vdevProbe
  cases media.label dev with
  | none => exact fun _ => ⟨kids, tops, order⟩
  | some label =>
    simp only [bind_eq_bind, bind_some]
    unfold probeLabel
    cases label.pool media with
    | none => exact fun _ => ⟨kids, tops, order⟩
    | some pool =>
      obtain ⟨txg, poolGuid, name⟩ := pool
      obtain ⟨⟨tops', entered⟩, inside⟩ := enterPool_inOrder order txg poolGuid name
      cases label.guid with
      | none => exact fun _ => ⟨kids, tops', entered⟩
      | some guid =>
        cases label.tree with
        | none => exact fun _ => ⟨kids, tops', entered⟩
        | some c =>
          simp only [bind_some]
          by_cases inited : vdevInited st.vdevs guid
          · simp only [inited, if_true]
            exact fun _ => ⟨kids, tops', entered⟩
          · simp only [inited, Bool.false_eq_true, if_false]
            intro fits
            refine attachVdev_inOrder static media dev _ entered inside ((fits _ rfl).imp_right ?_)
            intro fits
            exact fits_enterPool fits txg name

theorem probeRun_inOrder (static : Details.Static good) (media : Media δ) (devs : List δ)
    (order : InOrder good st trees kids tops) (fits : RunFits good media st devs) :
    ∃ kids' tops', InOrder good (probeRun media st devs) (taken media st devs trees) kids' tops' := by
  induction devs generalizing st trees kids tops with
  | nil => exact ⟨kids, tops, order⟩
  | cons _ devs ih =>
    obtain ⟨kids', tops', next⟩ := vdevProbe_inOrder static media order fits.1
    exact ih next fits.2

end

namespace Config

def kids : Config → List Config
  | mk _ _ kids => kids

mutual

def nodes : Config → List Config
  | mk d nkids kids => mk d nkids kids :: nodesAll kids

def nodesAll : List Config → List Config
  | [] => []
  | c :: cs => nodes c ++ nodesAll cs

end

mutual

theorem exists_node (c : Config) {g : Nat} (member : g ∈ c.guids) : ∃ n ∈ c.nodes, n.guid = g := by
  match c with
  | mk d nkids kids =>
    rw [guids, mem_cons] at member
    rcases member with rfl | member
    · exact ⟨mk d nkids kids, by rw [nodes]; exact mem_cons_self, rfl⟩
    · obtain ⟨n, inside, guid⟩ := exists_nodeAll kids member
      exact ⟨n, by rw [nodes]; exact mem_cons_of_mem _ inside, guid⟩

theorem exists_nodeAll (cs : List Config) {g : Nat} (member : g ∈ guidsAll cs) : ∃ n ∈ nodesAll cs, n.guid = g := by
  match cs with
  | [] => simp [guidsAll] at member
  | c :: cs =>
    rw [guidsAll, mem_append] at member
    rcases member with member | member
    · obtain ⟨n, inside, guid⟩ := exists_node c member
      exact ⟨n, by rw [nodesAll]; exact mem_append_left _ inside, guid⟩
    · obtain ⟨n, inside, guid⟩ := exists_nodeAll cs member
      exact ⟨n, by rw [nodesAll]; exact mem_append_right _ inside, guid⟩

end

theorem mem_nodes_self (c : Config) : c ∈ c.nodes := by
  cases c
  exact mem_cons_self

end Config

section

variable {good : VdevT δ → Details → Prop} {h : Vdevs δ} {kids : Nat → List Nat}

mutual

theorem Matches.parent {p : Nat} (c : Config) (matched : Matches good h kids p c) {n : Config} (member : n ∈ c.nodes) :
    ∃ q, Matches good h kids q n ∧ (q = p ∨ ∃ n' ∈ c.nodes, ∃ p', Matches good h kids p' n' ∧ q ∈ kids p') := by
  match c with
  | .mk d nkids cs =>
    rw [Config.nodes, mem_cons] at member
    rcases member with rfl | member
    · exact ⟨p, matched, .inl rfl⟩
    · have whole := matched
      obtain ⟨q, shown, here | ⟨n', node, rest⟩⟩ := MatchesAll.parent cs matched.2.2.2.2 member
      · exact ⟨q, shown, .inr ⟨_, Config.mem_nodes_self _, p, whole, here⟩⟩
      · exact ⟨q, shown, .inr ⟨n', by rw [Config.nodes]; exact mem_cons_of_mem _ node, rest⟩⟩

theorem MatchesAll.parent {ps : List Nat} (cs : List Config) (matched : MatchesAll good h kids ps cs) {n : Config}
    (member : n ∈ Config.nodesAll cs) :
    ∃ q, Matches good h kids q n ∧ (q ∈ ps ∨ ∃ n' ∈ Config.nodesAll cs, ∃ p', Matches good h kids p' n' ∧ q ∈ kids p') := by
  match ps, cs with
  | [], [] => simp [Config.nodesAll] at member
  | [], _ :: _ => simp [MatchesAll] at matched
  | _ :: _, [] => simp [MatchesAll] at matched
  | p :: ps, c :: cs =>
    rw [Config.nodesAll, mem_append] at member
    rcases member with member | member
    · obtain ⟨q, shown, rfl | ⟨n', node, rest⟩⟩ := Matches.parent c matched.1 member
      · exact ⟨q, shown, .inl mem_cons_self⟩
      · exact ⟨q, shown, .inr ⟨n', by rw [Config.nodesAll]; exact mem_append_left _ node, rest⟩⟩
    · obtain ⟨q, shown, here | ⟨n', node, rest⟩⟩ := MatchesAll.parent cs matched.2 member
      · exact ⟨q, shown, .inl (mem_cons_of_mem _ here)⟩
      · exact ⟨q, shown, .inr ⟨n', by rw [Config.nodesAll]; exact mem_append_right _ node, rest⟩⟩

end

theorem MatchesAll.guids {ps : List Nat} {cs : List Config} (matched : MatchesAll good h kids ps cs) :
    ps.map (fun p => (h.vdev p).guid) = cs.map Config.guid := by
  induction ps generalizing cs with
  | nil =>
    cases cs with
    | nil => rfl
    | cons c cs => simp [MatchesAll] at matched
  | cons p ps ih =>
    cases cs with
    | nil => simp [MatchesAll] at matched
    | cons c cs =>
      obtain ⟨_, _, _⟩ := c
      have first := matched.1
      rw [map_cons, map_cons, ih matched.2, first.2.1]
      rfl

end

def noPools (vdev : Nat → VdevT δ) : ZfsState δ := ⟨⟨0, vdev⟩, []⟩

theorem noPools_inOrder (good : VdevT δ → Details → Prop) (vdev : Nat → VdevT δ) :
    InOrder good (noPools vdev) [] (fun _ => []) (fun _ => []) := by
  refine ⟨⟨⟨?_, ?_, ?_, ?_, ?_⟩, ?_, ?_, ?_, ?_, ?_⟩, ?_, ?_⟩
  all_goals simp [noPools]

/-- In every run whose labels fit, guids are unique, no vdev is twice on the list of a pool, and the
children of every vdev are exactly those that each label taken in names, in its order; this holds
in particular for the newest of these labels. -/
theorem probeRun_lists_follow_labels (media : Media δ) (vdev : Nat → VdevT δ) (devs : List δ)
    (fits : RunFits anyVdev media (noPools vdev) devs) :
    let st := probeRun media (noPools vdev) devs
    (∀ p < st.vdevs.count, ∀ q < st.vdevs.count, (st.vdevs.vdev p).guid = (st.vdevs.vdev q).guid → p = q) ∧
    (∀ pool ∈ st.pools, ∃ tops, Stailq.Holds st.vdevs.links pool.vdevs tops ∧ tops.Nodup) ∧
    ∀ p < st.vdevs.count, ∃ kids, Stailq.Holds st.vdevs.links (st.vdevs.vdev p).children kids ∧ kids.Nodup ∧
      (st.vdevs.vdev p).nchildren = kids.length ∧
      (∃ c ∈ taken media (noPools vdev) devs [], ∃ n ∈ c.nodes, n.guid = (st.vdevs.vdev p).guid) ∧
      ∀ c ∈ taken media (noPools vdev) devs [], ∀ n ∈ c.nodes, n.guid = (st.vdevs.vdev p).guid →
        kids.map (fun q => (st.vdevs.vdev q).guid) = n.kids.map Config.guid := by
  intro st
  obtain ⟨kids, tops, order⟩ := probeRun_inOrder anyVdev_static media devs (noPools_inOrder anyVdev vdev) fits
  have linked := order.forest.linked
  have agree : ∀ p < st.vdevs.count, ∀ c ∈ taken media (noPools vdev) devs [], ∀ n ∈ c.nodes,
      n.guid = (st.vdevs.vdev p).guid →
      (st.vdevs.vdev p).nchildren = (kids p).length ∧
        (kids p).map (fun q => (st.vdevs.vdev q).guid) = n.kids.map Config.guid := by
    intro p inside c member n node guid
    obtain ⟨_, shown⟩ := order.shown c member
    obtain ⟨q, matched, -⟩ := shown.parent c node
    obtain ⟨_, _, _⟩ := n
    have same : q = p := linked.unique q matched.1 p inside (Nat.zero_le _) (Nat.zero_le _) (matched.2.1.trans guid)
    subst same
    have guids := MatchesAll.guids matched.2.2.2.2
    have length := congrArg List.length guids
    rw [length_map, length_map] at length
    exact ⟨by rw [matched.2.2.1, length], guids⟩
  refine ⟨fun p less q less' => linked.unique p less q less' (Nat.zero_le _) (Nat.zero_le _), ?_, ?_⟩
  · intro pool member
    obtain ⟨i, less, rfl⟩ := getElem_of_mem member
    have holds := order.forest.holds i st.pools[i].vdevs (by simp [st, less])
    exact ⟨tops i, holds, holds.chain.nodup⟩
  · intro p inside
    have holds := linked.holds p inside (Nat.zero_le _)
    obtain ⟨c, member, guid⟩ := order.covered p inside
    obtain ⟨n, node, named⟩ := c.exists_node guid
    refine ⟨kids p, holds, holds.chain.nodup, (agree p inside c member n node named).1, ⟨c, member, n, node, named⟩, ?_⟩
    exact fun c member n node named => (agree p inside c member n node named).2

/-! Two labels of a mirror, before and after a second disk was attached. -/

def sampleDisk (guid : Nat) : VdevTree := .mk { guid, id := 0, read := .disk } []

def sampleLabel (txg guid : Nat) (tree : VdevTree) : Label where
  version := some 28
  state := some 0
  txg := some txg
  poolGuid := some 1
  name := some (chars ['p'])
  isLog := 0
  guid := some guid
  tree := some tree.config

private def sampleMirrors (guids : List Nat) : VdevTree :=
  .mk { guid := 7, id := 0, read := .mirror } (guids.map sampleDisk)

private def sampleMedia : Media Nat where
  label
    | 0 => some (sampleLabel 10 8 (sampleMirrors [8]))
    | 1 => some (sampleLabel 20 9 (sampleMirrors [8, 9]))
    | 2 => some (sampleLabel 20 8 (sampleMirrors [8, 9]))
    | _ => none
  uberblocks := fun _ _ => []
  spaVersion := 28

private def noVdev : VdevT Nat := Details.vdev ⟨none, none, none, 0, 0, 0, 0, 0, none, none, none⟩ none 0 0

theorem probeRun_lists_follow_mirror_labels :
    RunFits anyVdev sampleMedia (noPools fun _ => noVdev) [2, 3, 1] ∧
      let st := probeRun sampleMedia (noPools fun _ => noVdev) [2, 3, 1]
      ∀ p < st.vdevs.count, ∃ kids, Stailq.Holds st.vdevs.links (st.vdevs.vdev p).children kids ∧ kids.Nodup ∧
        (st.vdevs.vdev p).nchildren = kids.length := by
  have fits : RunFits anyVdev sampleMedia (noPools fun _ => noVdev) [2, 3, 1] := by decide +kernel
  refine ⟨fits, ?_⟩
  have all := (probeRun_lists_follow_labels sampleMedia (fun _ => noVdev) [2, 3, 1] fits).2.2
  generalize probeRun sampleMedia (noPools fun _ => noVdev) [2, 3, 1] = st at all ⊢
  intro st p inside
  obtain ⟨kids, holds, distinct, count, -⟩ := all p inside
  exact ⟨kids, holds, distinct, count⟩

/-- The newer label names two children; v_nchildren becomes 2, but the mirror was not new and its
list keeps one. -/
theorem probeRun_misses_attached_disk :
    let st := probeRun sampleMedia (noPools fun _ => noVdev) [0, 1]
    (vdevProbe sampleMedia (noPools fun _ => noVdev) 0).1 = 0 ∧
      (vdevProbe sampleMedia (probeRun sampleMedia (noPools fun _ => noVdev) [0]) 1).1 = 0 ∧
      (st.vdevs.vdev 0).guid = 7 ∧ (st.vdevs.vdev 0).nchildren = 2 ∧
      (st.vdevs.children 0).map (fun q => (st.vdevs.vdev q).guid) = [8] ∧
      ((taken sampleMedia (noPools fun _ => noVdev) [0, 1] []).head?.map fun c => (c.guid, c.kids.map Config.guid)) =
        some (7, [8, 9]) := by
  decide +kernel

end Pcbsd.Zfs
