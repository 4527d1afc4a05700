import Pcbsd.Proofs.ProbeTraces

/-! Which vdevs end healthy. vdev_probe sets the state of the vdev of its device and then re-evaluates that of the
top-level vdev; the state of a vdev with children below a top-level one is never looked at. -/

namespace Pcbsd.Zfs
open Lib List Function

variable {δ : Type}

namespace Config

def details : Config → Details
  | mk d _ _ => d

/-- No vdev of the tree is marked offline, removed, faulted, degraded or not present. -/
def Unmarked (c : Config) : Prop := ∀ n ∈ c.nodes, n.details.flagged = none

instance (c : Config) : Decidable c.Unmarked := inferInstanceAs (Decidable (∀ n ∈ c.nodes, _))

theorem mem_nodesAll {n : Config} {cs : List Config} (member : n ∈ nodesAll cs) : ∃ c ∈ cs, n ∈ c.nodes := by
  induction cs with
  | nil => simp [nodesAll] at member
  | cons c cs ih =>
    rw [nodesAll, mem_append] at member
    obtain here | later := member
    · exact ⟨c, mem_cons_self, here⟩
    · obtain ⟨c', there, node⟩ := ih later
      exact ⟨c', mem_cons_of_mem _ there, node⟩

theorem eq_of_flat {c n : Config} (flat : ∀ kid ∈ c.kids, kid.kids = []) (node : n ∈ c.nodes) (interior : n.kids ≠ []) :
    n = c := by
  obtain ⟨_, _, _⟩ := c
  rw [nodes, mem_cons] at node
  obtain root | below := node
  · exact root
  · obtain ⟨kid, member, node⟩ := mem_nodesAll below
    have bare := flat kid member
    obtain ⟨_, _, cs'⟩ := kid
    obtain rfl : cs' = [] := bare
    rw [nodes, nodesAll, mem_singleton] at node
    subst node
    exact absurd rfl interior

mutual

theorem flag_unmarked (c : Config) (unmarked : c.Unmarked) (g : Nat) : c.flag g = none := by
  match c with
  | mk d nkids kids =>
    have below : ∀ n ∈ nodesAll kids, n.details.flagged = none :=
      fun n member => unmarked n (by rw [nodes]; exact mem_cons_of_mem _ member)
    have own : d.flagged = none := unmarked (mk d nkids kids) (mem_nodes_self _)
    rw [flag, flagAll_unmarked kids below g, own, ite_self]
    rfl

theorem flagAll_unmarked (cs : List Config) (unmarked : ∀ n ∈ nodesAll cs, n.details.flagged = none) (g : Nat) :
    flagAll g cs = none := by
  match cs with
  | [] => rw [flagAll]
  | c :: cs =>
    rw [flagAll, flagAll_unmarked cs (fun n member => unmarked n (mem_append_right _ member)) g,
      flag_unmarked c (fun n member => unmarked n (mem_append_left _ member)) g]
    rfl

end

end Config

/-- A device whose label, if it has one with a vdev tree, marks no vdev and is that of a leaf of the tree. -/
def LeafLabel (media : Media δ) (dev : δ) : Prop :=
  ∀ label ∈ media.label dev, ∀ c ∈ label.tree, c.Unmarked ∧ ∃ leaf ∈ c.nodes, leaf.kids = [] ∧ label.guid = some leaf.guid

instance (media : Media δ) (dev : δ) : Decidable (LeafLabel media dev) :=
  inferInstanceAs (Decidable (∀ label ∈ media.label dev, ∀ c ∈ label.tree, _ ∧ ∃ leaf ∈ c.nodes, _))

/-- What holds of the states between two probes: a leaf with a device is healthy, a vdev with children below another
one is not, and a top-level vdev is healthy if all its children are. -/
structure Health (h : Vdevs δ) : Prop where
  leaf : ∀ p < h.count, h.children p = [] → (h.vdev p).phys.isSome → (h.vdev p).state = .healthy
  inner : ∀ p < h.count, h.children p ≠ [] → ∀ q < h.count, p ∈ h.children q → (h.vdev p).state ≠ .healthy
  root : ∀ p < h.count, h.children p ≠ [] → (∀ q < h.count, p ∉ h.children q) →
    (∀ k ∈ h.children p, (h.vdev k).state = .healthy) → (h.vdev p).state = .healthy

section

variable {h : Vdevs δ}

theorem SameShape.children_eq {good : VdevT δ → Details → Prop} {h' : Vdevs δ} (same : SameShape good h h') (p : Nat) :
    h'.children p = h.children p := by
  rw [Vdevs.children, Vdevs.children, Vdevs.chain, Vdevs.chain, same.links, same.count, same.children]

theorem children_ne_nil_iff {p : Nat} (inside : p < h.count) : h.children p ≠ [] ↔ (h.vdev p).children.first.isSome := by
  rw [Vdevs.children, Vdevs.chain]
  obtain ⟨n, count⟩ : ∃ n, h.count = n + 1 := ⟨h.count - 1, by omega⟩
  rw [count]
  cases (h.vdev p).children.first <;> simp [Stailq.walk]

theorem vdevSetState_other {p q : Nat} (other : q ≠ p) : (vdevSetState h p).vdev q = h.vdev q := by
  rw [vdevSetState]
  split_ifs
  · exact update_of_ne other ..
  · rfl

theorem vdevSetState_healthy {p : Nat} (inside : p < h.count) (interior : h.children p ≠ [])
    (healthy : ∀ k ∈ h.children p, (h.vdev k).state = .healthy) : ((vdevSetState h p).vdev p).state = .healthy := by
  have bad : (h.children p).countP (fun k => ¬(h.vdev k).state = .healthy) = 0 := by
    rw [countP_eq_zero]
    intro k member
    simp [healthy k member]
  rw [vdevSetState, if_pos ((children_ne_nil_iff inside).mp interior), Vdevs.modify]
  dsimp only
  rw [update_self, bad]
  rfl

theorem vdevSetState_leaf {p : Nat} (inside : p < h.count) (leaf : h.children p = []) : vdevSetState h p = h := by
  rw [vdevSetState, if_neg fun first => (children_ne_nil_iff inside).mpr first leaf]

theorem Health.settle (health : Health h) {dev : δ} {v top : Nat} (inside : top < h.count) (leaf : h.children v = [])
    (root : ∀ q < h.count, top ∉ h.children q)
    (only : ∀ p < h.count, v ∈ h.children p → (∀ q < h.count, p ∉ h.children q) → p = top) :
    Health (vdevSetState (h.modify v ({ · with phys := some dev, state := .healthy })) top) := by
  have placed := SameShape.modify anyVdev_static h v (fun _ => .healthy) fun _ => some dev
  have other : ∀ q, q ≠ v → (h.modify v ({ · with phys := some dev, state := .healthy })).vdev q = h.vdev q :=
    fun q differs => update_of_ne differs ..
  have here : (h.modify v ({ · with phys := some dev, state := .healthy })).vdev v =
    { h.vdev v with phys := some dev, state := .healthy } :=
    update_self ..
  generalize h.modify v ({ · with phys := some dev, state := .healthy }) = h₁ at placed other here ⊢
  have set := SameShape.setState anyVdev_static h₁ top
  have count := set.count.trans placed.count
  have children : ∀ p, (vdevSetState h₁ top).children p = h.children p :=
    fun p => (set.children_eq p).trans (placed.children_eq p)
  have kept : ∀ q, q ≠ top ∨ h.children top = [] → (vdevSetState h₁ top).vdev q = h₁.vdev q := by
    rintro q (differs | flat)
    · exact vdevSetState_other differs
    · rw [vdevSetState_leaf (by rw [placed.count]; exact inside) ((placed.children_eq top).trans flat)]
  refine ⟨?_, ?_, ?_⟩
  all_goals simp only [count, children]
  · intro p less flat found
    have same : (vdevSetState h₁ top).vdev p = h₁.vdev p := by
      refine kept p ?_
      by_cases root : p = top
      · exact .inr (root ▸ flat)
      · exact .inl root
    rw [same] at found ⊢
    by_cases leaf : p = v
    · rw [leaf, here]
    · rw [other p leaf] at found ⊢
      exact health.leaf p less flat found
  · intro p less interior q less' child
    have notTop : p ≠ top := fun same => root q less' (same ▸ child)
    have notLeaf : p ≠ v := fun same => interior (same ▸ leaf)
    rw [kept p (.inl notTop), other p notLeaf]
    exact health.inner p less interior q less' child
  · intro p less interior parentless all
    have below : ∀ k ∈ h.children p, k ≠ top := fun k member same => root p less (same ▸ member)
    by_cases at_ : p = top
    · subst at_
      refine vdevSetState_healthy (by rw [placed.count]; exact less) (by rw [placed.children_eq]; exact interior)
        fun k member => ?_
      rw [placed.children_eq] at member
      rw [← kept k (.inl (below k member))]
      exact all k member
    · have notLeaf : p ≠ v := fun same => interior (same ▸ leaf)
      rw [kept p (.inl at_), other p notLeaf]
      refine health.root p less interior parentless fun k member => ?_
      have notKid : k ≠ v := by
        rintro rfl
        exact at_ (only p less member parentless)
      rw [← other k notKid, ← kept k (.inl (below k member))]
      exact all k member

variable {h' : Vdevs δ}

def fresh (v : VdevT δ) (d : Details) : Prop := v.state = d.flagged.getD .offline ∧ v.phys = none

theorem fresh_check : Details.Check (fresh (δ := δ)) where
  new := fun _ _ _ _ => ⟨rfl, rfl⟩
  stable := fun _ _ _ same equal =>
    ⟨(congrArg VdevT.state same).symm.trans equal.1, (congrArg VdevT.phys same).symm.trans equal.2⟩

theorem vdevInit_new_offline {c : Config} (complete : c.Complete) (distinct : c.guids.Nodup) (unmarked : c.Unmarked)
    {kids : Nat → List Nat} (linked : Linked 0 h kids) (unknown : ∀ g ∈ c.guids, vdevFind h g = none) {isNewer : Bool}
    {top : Nat} (ran : vdevInit c none isNewer h = (0, top, h')) {q : Nat} (inside : q < h'.count) (new : h.count ≤ q) :
    (h'.vdev q).state = .offline ∧ (h'.vdev q).phys = none := by
  obtain ⟨h'', _, ran', added, matched, -⟩ := vdevInit_new fresh_check c complete distinct linked
    (Nat.zero_le _) (fun g member => vdevFind_eq_none.mp (unknown g member)) none isNewer
  rw [ran] at ran'
  obtain rfl : h' = h'' := (Prod.mk.inj (Prod.mk.inj ran').2).2
  have named := (added.known inside).resolve_left (not_lt.mpr new)
  obtain ⟨n, node, guid⟩ := c.exists_node named
  obtain ⟨p, shown, -⟩ := matched.parent c node
  obtain ⟨d, _, _⟩ := n
  have same : p = q := added.linked.unique p shown.1 q inside (Nat.zero_le _) (Nat.zero_le _) (shown.2.1.trans guid)
  subst same
  obtain ⟨state, phys⟩ := shown.2.2.2.1
  have plain : d.flagged = none := unmarked _ node
  rw [plain] at state
  exact ⟨state, phys⟩

theorem Health.new (health : Health h) {kids kids' : Nat → List Nat} {gs : List Nat} (linked : Linked 0 h kids)
    (added : Added 0 h h' kids kids' gs)
    (offline : ∀ q < h'.count, h.count ≤ q → (h'.vdev q).state = .offline ∧ (h'.vdev q).phys = none) :
    Health h' := by
  have grown := added.count
  have old : ∀ p < h.count, h'.children p = h.children p := by
    intro p less
    rw [added.linked.children (by omega) (Nat.zero_le _), linked.children less (Nat.zero_le _), (added.old p less).2]
  have above : ∀ q < h'.count, h.count ≤ q → ∀ k ∈ h'.children q, h.count < k ∧ k < h'.count := by
    intro q less new k member
    rw [added.linked.children less (Nat.zero_le _)] at member
    exact ⟨added.below q less new k member, added.linked.bounded q less (Nat.zero_le _) k member⟩
  have within : ∀ p < h.count, ∀ k ∈ h.children p, k < h.count := by
    intro p less k member
    rw [linked.children less (Nat.zero_le _)] at member
    exact linked.bounded p less (Nat.zero_le _) k member
  refine ⟨fun p less flat found => ?_, fun p less interior q less' child =>
    ?_, fun p less interior parentless all => ?_⟩
  · by_cases early : p < h.count
    · rw [old p early] at flat
      rw [(added.old p early).1] at found ⊢
      exact health.leaf p early flat found
    · rw [(offline p less (not_lt.mp early)).2] at found
      cases found
  · by_cases early : p < h.count
    · have parent : q < h.count := by
        by_contra late
        exact absurd (above q less' (not_lt.mp late) p child).1 (not_lt.mpr early.le)
      rw [old p early] at interior
      rw [old q parent] at child
      rw [(added.old p early).1]
      exact health.inner p early interior q parent child
    · rw [(offline p less (not_lt.mp early)).1]
      decide
  · by_cases early : p < h.count
    · rw [old p early] at interior all
      rw [(added.old p early).1]
      refine health.root p early interior
        (fun q less' child => parentless q (by omega) (by rw [old q less']; exact child)) fun k member => ?_
      rw [← (added.old k (within p early k member)).1]
      exact all k member
    · obtain ⟨k, member⟩ := exists_mem_of_ne_nil _ interior
      obtain ⟨late, inside⟩ := above p less (not_lt.mp early) k member
      have sick := all k member
      rw [(offline k inside late.le).1] at sick
      cases sick

variable {good : VdevT δ → Details → Prop} {kids : Nat → List Nat}

theorem MatchesAll.nil {ps : List Nat} (matched : MatchesAll good h kids ps []) : ps = [] := by
  cases ps with
  | nil => rfl
  | cons _ ps => simp [MatchesAll] at matched

theorem MatchesAll.kid {ps : List Nat} {cs : List Config} (matched : MatchesAll good h kids ps cs) {kid : Config}
    (member : kid ∈ cs) :
    ∃ q ∈ ps, Matches good h kids q kid := by
  induction cs generalizing ps with
  | nil => cases member
  | cons _ cs ih =>
    cases ps with
    | nil => simp [MatchesAll] at matched
    | cons p ps =>
      obtain _ | ⟨_, member⟩ := member
      · exact ⟨p, mem_cons_self, matched.1⟩
      · obtain ⟨q, there, shown⟩ := ih matched.2 member
        exact ⟨q, mem_cons_of_mem _ there, shown⟩

variable {cs : List Config} {ps : List Nat} {c : Config} {p : Nat}

theorem MatchesAll.named (matched : MatchesAll good h kids ps cs) {q : Nat} (member : q ∈ ps) :
    ∃ kid ∈ cs, Matches good h kids q kid := by
  induction ps generalizing cs with
  | nil => cases member
  | cons _ ps ih =>
    cases cs with
    | nil => simp [MatchesAll] at matched
    | cons c cs =>
      obtain _ | ⟨_, member⟩ := member
      · exact ⟨c, mem_cons_self, matched.1⟩
      · obtain ⟨kid, there, shown⟩ := ih matched.2 member
        exact ⟨kid, mem_cons_of_mem _ there, shown⟩

theorem MatchesAll.length (matched : MatchesAll good h kids ps cs) : ps.length = cs.length := by
  have guids := congrArg List.length matched.guids
  rwa [length_map, length_map] at guids

theorem Matches.children (matched : Matches good h kids p c) : MatchesAll good h kids (kids p) c.kids := by
  cases c
  exact matched.2.2.2.2

theorem Matches.guid_eq (matched : Matches good h kids p c) : p < h.count ∧ (h.vdev p).guid = c.guid := by
  cases c
  exact ⟨matched.1, matched.2.1⟩

variable {st : ZfsState δ} {trees : List Config} {tops : Nat → List Nat}

theorem Health.congr {h h' : Vdevs δ} (health : Health h) (count : h'.count = h.count)
    (children : ∀ p < h.count, h'.children p = h.children p)
    (states : ∀ p < h.count, (h'.vdev p).state = (h.vdev p).state ∧ (h'.vdev p).phys = (h.vdev p).phys)
    (within : ∀ p < h.count, ∀ k ∈ h.children p, k < h.count) : Health h' := by
  refine ⟨fun p less flat found => ?_, fun p less interior q less' child =>
    ?_, fun p less interior parentless all => ?_⟩
  all_goals rw [count] at less
  · rw [children p less] at flat
    rw [(states p less).2] at found
    rw [(states p less).1]
    exact health.leaf p less flat found
  · rw [count] at less'
    rw [children p less] at interior
    rw [children q less'] at child
    rw [(states p less).1]
    exact health.inner p less interior q less' child
  · rw [count] at parentless
    rw [children p less] at interior all
    rw [(states p less).1]
    refine health.root p less interior (fun q less' child => parentless q less' (by rw [children q less']; exact child))
      fun k member => ?_
    rw [← (states k (within p less k member)).1]
    exact all k member

theorem addToplevel_vdevs (st : ZfsState δ) (i top : Nat) : ∃ next, (addToplevel st i top).vdevs = st.vdevs.setLinks next := by
  rw [addToplevel]
  cases st.pools[i]? with
  | none => exact ⟨st.vdevs.links, rfl⟩
  | some _ =>
    dsimp only
    split_ifs
    · exact ⟨st.vdevs.links, rfl⟩
    · exact ⟨_, rfl⟩

theorem attachVdev_health (media : Media δ) (dev : δ) {i top : Nat} {isNewer : Bool} {c leaf : Config} {h' : Vdevs δ}
    (ran : vdevInit c none isNewer st.vdevs = (0, top, h'))
    (order : InOrder anyVdev (addToplevel { st with vdevs := h' } i top) (c :: trees) kids tops)
    (health : Health (addToplevel { st with vdevs := h' } i top).vdevs)
    (inside : top < (addToplevel { st with vdevs := h' } i top).vdevs.count)
    (guid : ((addToplevel { st with vdevs := h' } i top).vdevs.vdev top).guid = c.guid)
    (root : ∀ q < (addToplevel { st with vdevs := h' } i top).vdevs.count, top ∉ kids q) (node : leaf ∈ c.nodes)
    (childless : leaf.kids = []) :
    Health (attachVdev media dev i leaf.guid isNewer c st).2.vdevs := by
  rw [attachVdev, ran]
  dsimp only
  generalize addToplevel { st with vdevs := h' } i top = placed at order health inside guid root ⊢
  have linked := order.forest.linked
  have unique : ∀ p < placed.vdevs.count, ∀ q < placed.vdevs.count, (placed.vdevs.vdev p).guid =
    (placed.vdevs.vdev q).guid → p = q :=
    fun p less q less' => linked.unique p less q less' (Nat.zero_le _) (Nat.zero_le _)
  have children : ∀ p < placed.vdevs.count, placed.vdevs.children p = kids p :=
    fun p less => linked.children less (Nat.zero_le _)
  cases found : vdevFind placed.vdevs leaf.guid with
  | none => exact health
  | some v =>
    have lessV : v < placed.vdevs.count := mem_range.mp (mem_of_find?_eq_some found)
    obtain ⟨p, shown⟩ := order.shown c mem_cons_self
    obtain rfl : p = top := unique p shown.guid_eq.1 top inside (shown.guid_eq.2.trans guid.symm)
    have position : ∀ n ∈ c.nodes, ∀ q < placed.vdevs.count, (placed.vdevs.vdev q).guid = n.guid →
        q = p ∨ ∃ n' ∈ c.nodes, ∃ p', Matches anyVdev placed.vdevs kids p' n' ∧ q ∈ kids p' := by
      intro n member q less named
      obtain ⟨q', there, parent⟩ := shown.parent c member
      obtain rfl : q' = q := unique q' there.guid_eq.1 q less (there.guid_eq.2.trans named.symm)
      exact parent
    have bare : kids v = [] := by
      obtain ⟨v', there, -⟩ := shown.parent c node
      obtain rfl : v' = v := unique v' there.guid_eq.1 v lessV (there.guid_eq.2.trans (vdevFind_guid found).symm)
      obtain ⟨_, _, cs⟩ := leaf
      obtain rfl : cs = [] := childless
      exact there.2.2.2.2.nil
    refine health.settle inside ((children v lessV).trans bare)
      (fun q less => by rw [children q less]; exact root q less) fun q less child top => ?_
    rw [children q less] at child
    obtain rfl | ⟨n', node', p', there, child'⟩ := position leaf node v lessV (vdevFind_guid found)
    · exact absurd child (root q less)
    have lessP := there.guid_eq.1
    have same : q = p' := by
      by_contra differs
      exact linked.apart q less p' lessP (Nat.zero_le _) (Nat.zero_le _) differs v child child'
    subst same
    obtain here | ⟨_, -, p'', there', child''⟩ := position n' node' q less there.guid_eq.2
    · exact here
    · exact absurd child'' (by rw [← children p'' there'.guid_eq.1]; exact top p'' there'.guid_eq.1)

theorem attachVdev_fits_health (media : Media δ) (dev : δ) {i : Nat} (isNewer : Bool) {c leaf : Config}
    (order : InOrder anyVdev st trees kids tops) (health : Health st.vdevs) (less : i < st.pools.length)
    (unmarked : c.Unmarked) (node : leaf ∈ c.nodes) (childless : leaf.kids = [])
    (fits : c.rejected ∨ c.Complete ∧
      ((c.guids.Nodup ∧ ∀ g ∈ c.guids, vdevFind st.vdevs g = none) ∨ ∃ pool p, st.pools[i]? = some pool ∧
      p ∈ st.vdevs.chain pool.vdevs ∧ Matches anyVdev st.vdevs st.vdevs.children p c)) :
    Health (attachVdev media dev i leaf.guid isNewer c st).2.vdevs := by
  have linked := order.forest.linked
  obtain rejected | ⟨complete, ⟨distinct, unknown⟩ | ⟨pool, p, found, member, matched⟩⟩ := fits
  · obtain ⟨failed, unchanged⟩ := vdevInit_rejected rejected none isNewer st.vdevs
    rw [attachVdev]
    generalize vdevInit c none isNewer st.vdevs = reply at failed unchanged ⊢
    obtain ⟨_, _, h'⟩ := reply
    dsimp only at failed unchanged ⊢
    rw [if_pos failed, unchanged]
    exact health
  · obtain ⟨h', _, _, ran, added, placed⟩ := addToplevel_new anyVdev_static order complete distinct unknown less isNewer
    have grown := added.count
    have some_ := c.guids_pos
    have built := health.new linked added fun q inside new =>
      vdevInit_new_offline complete distinct unmarked linked unknown ran inside new
    obtain ⟨next, vdevs⟩ := addToplevel_vdevs { st with vdevs := h' } i st.vdevs.count
    have count : (addToplevel { st with vdevs := h' } i st.vdevs.count).vdevs.count = h'.count := by rw [vdevs]; rfl
    have fields : ∀ p, SameVdev (h'.vdev p) ((addToplevel { st with vdevs := h' } i st.vdevs.count).vdevs.vdev p) := by
      intro p
      rw [vdevs]
      exact .setLinks h' next p
    have first : c.guids[0]? = some c.guid := by
      cases c
      rfl
    refine attachVdev_health media dev ran placed ?_ (by omega) ?_ ?_ node childless
    · refine built.congr count (fun p less => ?_) (fun p _ => ?_) fun p less k member => ?_
      · rw [placed.forest.linked.children (by omega) (Nat.zero_le _), added.linked.children less (Nat.zero_le _)]
      · exact ⟨(congrArg VdevT.state (fields p)).symm, (congrArg VdevT.phys (fields p)).symm⟩
      · rw [added.linked.children less (Nat.zero_le _)] at member
        exact added.linked.bounded p less (Nat.zero_le _) k member
    · exact (fields _).guid.trans (added.guids 0 c.guid first)
    · intro q less child
      by_cases old : q < st.vdevs.count
      · rw [(added.old q old).2] at child
        exact absurd (linked.bounded q old (Nat.zero_le _) _ child) (lt_irrefl _)
      · exact absurd (added.below q (count ▸ less) (not_lt.mp old) _ child) (lt_irrefl _)
  · have head : (st.pools.map (·.vdevs))[i]? = some pool.vdevs := by rw [getElem?_map, found, Option.map_some]
    have listed : p ∈ tops i := by
      rw [← order.forest.chain head]
      exact member
    have shown : Matches anyVdev st.vdevs kids p c := by
      refine Matches.congr (Nat.le_refl _) c (fun q less _ => ?_) matched
      exact ⟨⟨rfl, rfl, fun _ fields => fields⟩, (linked.children less (Nat.zero_le q)).symm⟩
    obtain ⟨h', ran, placed⟩ := addToplevel_known anyVdev_static order complete found member matched isNewer
    have same := vdevInit_known c complete linked shown none isNewer
    simp only [c.flag_unmarked unmarked, ite_self, refresh_none] at same
    obtain rfl : h' = st.vdevs := (Prod.mk.inj (Prod.mk.inj (ran.symm.trans same)).2).2
    have stays : addToplevel { st with vdevs := st.vdevs } i p = st := by
      rw [addToplevel, found]
      dsimp only
      rw [if_pos member]
    refine attachVdev_health media dev ran placed ?_ ?_ ?_ ?_ node childless
    all_goals rw [stays]
    · exact health
    · exact shown.guid_eq.1
    · exact shown.guid_eq.2
    · intro q less' child
      exact order.forest.apart i (by rw [length_map]; exact less) q less' p listed child

theorem vdevProbe_health (media : Media δ) {dev : δ} (order : InOrder anyVdev st trees kids tops)
    (health : Health st.vdevs) (fits : ProbeFits anyVdev media st dev) (labels : LeafLabel media dev) :
    Health (vdevProbe media st dev).2.vdevs := by
  rw [ProbeFits, reached] at fits
  rw [vdevProbe]
  cases read : media.label dev with
  | none => exact health
  | some label =>
  dsimp only
  rw [probeLabel]
  cases pool : label.pool media with
  | none => exact health
  | some found =>
  obtain ⟨txg, poolGuid, name⟩ := found
  obtain ⟨⟨_, entered⟩, inside⟩ := enterPool_inOrder order txg poolGuid name
  cases guid : label.guid with
  | none => exact health
  | some guid' =>
  cases tree : label.tree with
  | none => exact health
  | some c =>
    dsimp only
    by_cases inited : vdevInited st.vdevs guid'
    · rw [if_pos inited]
      exact health
    · rw [if_neg inited]
      obtain ⟨unmarked, leaf, node, childless, named⟩ := labels label read c tree
      obtain rfl : guid' = leaf.guid := Option.some.inj (guid.symm.trans named)
      refine attachVdev_fits_health media dev _ entered health inside unmarked node childless ?_
      have reaches : c.rejected ∨ Fits anyVdev st poolGuid c := by
        refine fits (poolGuid, c) ?_
        simp [read, pool, guid, tree, inited]
      exact reaches.imp_right fun fits => fits_enterPool fits txg name

end

theorem probeRun_health (media : Media δ) (devs : List δ) {st : ZfsState δ} {trees : List Config} {kids tops : Nat → List Nat}
    (order : InOrder anyVdev st trees kids tops) (health : Health st.vdevs) (fits : RunFits anyVdev media st devs)
    (labels : ∀ dev ∈ devs, LeafLabel media dev) : Health (probeRun media st devs).vdevs := by
  induction devs generalizing st trees kids tops with
  | nil => exact health
  | cons dev devs ih =>
    obtain ⟨_, _, next⟩ := vdevProbe_inOrder anyVdev_static media order fits.1
    exact ih next (vdevProbe_health media order health fits.1 (labels dev mem_cons_self)) fits.2
      fun dev member => labels dev (mem_cons_of_mem _ member)

/-- With a device for every leaf, all vdevs that have children end healthy exactly when none of them is below another
vdev. -/
theorem probeRun_healthy_iff (media : Media δ) (vdev : Nat → VdevT δ) (devs : List δ)
    (fits : RunFits anyVdev media (noPools vdev) devs) (labels : ∀ dev ∈ devs, LeafLabel media dev)
    (probed : ∀ p < (probeRun media (noPools vdev) devs).vdevs.count,
      (probeRun media (noPools vdev) devs).vdevs.children p = [] →
      ((probeRun media (noPools vdev) devs).vdevs.vdev p).phys.isSome) :
    (∀ p < (probeRun media (noPools vdev) devs).vdevs.count,
        (probeRun media (noPools vdev) devs).vdevs.children p ≠ [] →
        ((probeRun media (noPools vdev) devs).vdevs.vdev p).state = .healthy) ↔
      ∀ c ∈ taken media (noPools vdev) devs [], ∀ kid ∈ c.kids, kid.kids = [] := by
  have start : Health (noPools vdev).vdevs := by
    refine ⟨?_, ?_, ?_⟩
    all_goals simp [noPools]
  have health := probeRun_health media devs (noPools_inOrder anyVdev vdev) start fits labels
  obtain ⟨kids, _, order⟩ := probeRun_inOrder anyVdev_static media devs (noPools_inOrder anyVdev vdev) fits
  generalize probeRun media (noPools vdev) devs = st at probed health order ⊢
  generalize taken media (noPools vdev) devs [] = trees at order ⊢
  have linked := order.forest.linked
  have children : ∀ p < st.vdevs.count, st.vdevs.children p = kids p :=
    fun p less => linked.children less (Nat.zero_le _)
  have interior : ∀ {p n}, Matches anyVdev st.vdevs kids p n → (st.vdevs.children p ≠ [] ↔ n.kids ≠ []) := by
    intro p n shown
    rw [children p shown.guid_eq.1, ← length_pos_iff, ← length_pos_iff, shown.children.length]
  constructor
  · intro healthy c member kid below
    by_contra deeper
    obtain ⟨p, shown⟩ := order.shown c member
    obtain ⟨q, child, there⟩ := shown.children.kid below
    rw [← children p shown.guid_eq.1] at child
    have hasKids := (interior there).mpr deeper
    exact health.inner q there.guid_eq.1 hasKids p shown.guid_eq.1 child (healthy q there.guid_eq.1 hasKids)
  · intro flat p less hasKids
    -- a vdev with children is the root of a label's tree
    have top : ∀ q < st.vdevs.count, st.vdevs.children q ≠ [] → ∃ c ∈ trees, Matches anyVdev st.vdevs kids q c := by
      intro q less hasKids
      obtain ⟨c, member, named⟩ := order.covered q less
      obtain ⟨n, node, guid⟩ := c.exists_node named
      obtain ⟨_, shown⟩ := order.shown c member
      obtain ⟨q', there, -⟩ := shown.parent c node
      obtain rfl : q' = q := linked.unique q' there.guid_eq.1 q less (Nat.zero_le _) (Nat.zero_le _)
        (there.guid_eq.2.trans guid)
      obtain rfl := Config.eq_of_flat (flat c member) node ((interior there).mp hasKids)
      exact ⟨n, member, there⟩
    -- and what is below it has none
    have bare : ∀ q < st.vdevs.count, ∀ k ∈ st.vdevs.children q, k < st.vdevs.count ∧ st.vdevs.children k = [] := by
      intro q less k child
      obtain ⟨c, member, shown⟩ := top q less (ne_nil_of_mem child)
      rw [children q less] at child
      obtain ⟨kid, below, there⟩ := shown.children.named child
      exact ⟨there.guid_eq.1, not_not.mp fun hasKids => (interior there).mp hasKids (flat c member kid below)⟩
    refine health.root p less hasKids (fun q less' child => hasKids (bare q less' p child).2) fun k child => ?_
    obtain ⟨less', leaf⟩ := bare p less k child
    exact health.leaf k less' leaf (probed k less' leaf)

/-! A mirror of two disks, and a disk that is being replaced in a mirror. -/

private def healthMedia : Media Nat where
  label
    | 0 => some (sampleLabel 20 8 (.mk { guid := 7, id := 0, read := .mirror } [sampleDisk 8, sampleDisk 9]))
    | 1 => some (sampleLabel 20 9 (.mk { guid := 7, id := 0, read := .mirror } [sampleDisk 8, sampleDisk 9]))
    | 2 => some (sampleLabel 20 4 replaced)
    | 3 => some (sampleLabel 20 5 replaced)
    | 4 => some (sampleLabel 20 6 replaced)
    | _ => none
  uberblocks := fun _ _ => []
  spaVersion := 28
where
  replaced := VdevTree.mk { guid := 3, id := 0, read := .mirror }
    [.mk { guid := 2, id := 0, read := .replacing } [sampleDisk 4, sampleDisk 5], sampleDisk 6]

private def healthVdev : VdevT Nat := ⟨0, 0, 0, 0, 0, [], .disk, none, .offline, 0, Stailq.empty, none⟩

theorem probeRun_healthy_mirror :
    let st := probeRun healthMedia (noPools fun _ => healthVdev) [1, 0]
    ∀ p < st.vdevs.count, st.vdevs.children p ≠ [] → (st.vdevs.vdev p).state = .healthy := by
  intro st
  obtain ⟨fits, labels, probed, flat⟩ : RunFits anyVdev healthMedia (noPools fun _ => healthVdev) [1, 0] ∧
      (∀ dev ∈ [1, 0], LeafLabel healthMedia dev) ∧
      (∀ p < st.vdevs.count, st.vdevs.children p = [] → (st.vdevs.vdev p).phys.isSome) ∧
      ∀ c ∈ taken healthMedia (noPools fun _ => healthVdev) [1, 0] [], ∀ kid ∈ c.kids, kid.kids = [] := by
    decide +kernel
  exact (probeRun_healthy_iff healthMedia (fun _ => healthVdev) [1, 0] fits labels probed).mpr flat

/-- All leaves of a mirror over a replacing vdev have their devices; the replacing vdev stays offline and the mirror
degraded. -/
theorem probeRun_leaves_replacing_offline :
    let st := probeRun healthMedia (noPools fun _ => healthVdev) [2, 3, 4]
    RunFits anyVdev healthMedia (noPools fun _ => healthVdev) [2, 3, 4] ∧ (∀ dev ∈ [2, 3, 4], LeafLabel healthMedia dev) ∧
      (∀ p < st.vdevs.count, st.vdevs.children p = [] → (st.vdevs.vdev p).phys.isSome ∧ (st.vdevs.vdev p).state = .healthy) ∧
      (vdevFind st.vdevs 2).map (fun p => ((st.vdevs.children p).length, (st.vdevs.vdev p).state)) = some (2, .offline) ∧
      (vdevFind st.vdevs 3).map (fun p => (st.vdevs.vdev p).state) = some .degraded := by
  decide +kernel

end Pcbsd.Zfs
