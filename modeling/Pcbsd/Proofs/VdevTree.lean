import Mathlib.Data.List.Nodup
import Mathlib.Data.List.Perm.Subperm
import Pcbsd.Zfs.Vdev

/-! What vdev_init_from_nvlist makes of a vdev tree. A tree of which no vdev is known is built as
it stands; a tree that repeats the linked one only refreshes states. -/

namespace Pcbsd.Zfs
open Lib List Option Function

variable {δ : Type}

namespace Config

def guid : Config → Nat
  | mk d _ _ => d.guid.getD 0

mutual

def guids : Config → List Nat
  | mk d _ kids => d.guid.getD 0 :: guidsAll kids

def guidsAll : List Config → List Nat
  | [] => []
  | c :: cs => guids c ++ guidsAll cs

end

theorem guids_pos (c : Config) : 0 < c.guids.length := by
  cases c
  simp [guids]

end Config

def Details.Complete (d : Details) : Prop :=
  d.guid.isSome ∧ d.id.isSome ∧ d.type.isSome ∧ (vdevType (d.type.getD [])).isSome ∧
    (vdevName d (d.type.getD []) (d.nparity.getD 0)).isSome

instance (d : Details) : Decidable d.Complete := inferInstanceAs (Decidable (_ ∧ _))

theorem Details.Complete.exists {d : Details} (complete : d.Complete) :
    ∃ guid id type read name, d.guid = some guid ∧ d.id = some id ∧ d.type = some type ∧
      vdevType type = some read ∧ vdevName d type (d.nparity.getD 0) = some name := by
  obtain ⟨hasGuid, hasId, hasType, supported, named⟩ := complete
  obtain ⟨guid, hasGuid⟩ := isSome_iff_exists.mp hasGuid
  obtain ⟨id, hasId⟩ := isSome_iff_exists.mp hasId
  obtain ⟨type, hasType⟩ := isSome_iff_exists.mp hasType
  rw [hasType, getD_some] at supported named
  obtain ⟨read, supported⟩ := isSome_iff_exists.mp supported
  obtain ⟨name, named⟩ := isSome_iff_exists.mp named
  exact ⟨guid, id, type, read, name, hasGuid, hasId, hasType, supported, named⟩

mutual

def Config.Complete : Config → Prop
  | .mk d nkids kids => d.Complete ∧ (nkids = some (kids.length : Int) ∨ nkids = none ∧ kids = []) ∧ AllComplete kids

def AllComplete : List Config → Prop
  | [] => True
  | c :: cs => c.Complete ∧ AllComplete cs

end

mutual

instance Config.decidableComplete : ∀ c : Config, Decidable c.Complete
  | .mk d nkids kids =>
    have := decidableAllComplete kids
    decidable_of_iff (d.Complete ∧ (nkids = some (kids.length : Int) ∨ nkids = none ∧ kids.isEmpty) ∧ AllComplete kids)
      (by rw [Config.Complete, List.isEmpty_iff])

instance decidableAllComplete : ∀ cs : List Config, Decidable (AllComplete cs)
  | [] => isTrue (by rw [AllComplete]; trivial)
  | c :: cs =>
    have := c.decidableComplete
    have := decidableAllComplete cs
    decidable_of_iff (c.Complete ∧ AllComplete cs) (by rw [AllComplete])

end

/-- From the vdev `base` on guids are unique, and the lists of children are what `kids` says:
within zfs_vdevs, below their parent and with no vdev in common. -/
structure Linked (base : Nat) (h : Vdevs δ) (kids : Nat → List Nat) : Prop where
  unique : ∀ p < h.count, ∀ q < h.count, base ≤ p → base ≤ q → (h.vdev p).guid = (h.vdev q).guid → p = q
  holds : ∀ p < h.count, base ≤ p → Stailq.Holds h.links (h.vdev p).children (kids p)
  bounded : ∀ p < h.count, base ≤ p → ∀ q ∈ kids p, q < h.count
  apart : ∀ p < h.count, ∀ q < h.count, base ≤ p → base ≤ q → p ≠ q → ∀ r ∈ kids p, r ∉ kids q
  top : ∀ p < h.count, base ≤ p → ∀ q ∈ kids p, (h.vdev q).top = p

theorem Linked.children {base : Nat} {h : Vdevs δ} {kids : Nat → List Nat} (linked : Linked base h kids) {p : Nat}
    (inside : p < h.count) (above : base ≤ p) : h.children p = kids p := by
  have chain := (linked.holds p inside above).chain
  have within : kids p ⊆ range h.count := by
    intro q member
    exact mem_range.mpr (linked.bounded p inside above q member)
  have short := (chain.nodup.subperm within).length_le
  rw [length_range] at short
  exact chain.walk_eq short

def anyVdev (_ : VdevT δ) (_ : Details) : Prop := True

instance (v : VdevT δ) (d : Details) : Decidable (anyVdev v d) := isTrue trivial

section

variable (good : VdevT δ → Details → Prop)

mutual

/-- The vdev at `p` and what is linked below it is the tree `c`; `good` compares the other fields. -/
def Matches (h : Vdevs δ) (kids : Nat → List Nat) (p : Nat) : Config → Prop
  | .mk d _ cs => p < h.count ∧ (h.vdev p).guid = d.guid.getD 0 ∧ (h.vdev p).nchildren = cs.length ∧
      good (h.vdev p) d ∧ MatchesAll h kids (kids p) cs

def MatchesAll (h : Vdevs δ) (kids : Nat → List Nat) : List Nat → List Config → Prop
  | [], [] => True
  | p :: ps, c :: cs => Matches h kids p c ∧ MatchesAll h kids ps cs
  | _, _ => False

end

variable {good} [∀ v d, Decidable (good v d)]

mutual

instance decidableMatches (h : Vdevs δ) (kids : Nat → List Nat) (p : Nat) : ∀ c, Decidable (Matches good h kids p c)
  | .mk d _ cs =>
    have := decidableMatchesAll h kids (kids p) cs
    decidable_of_iff (p < h.count ∧ (h.vdev p).guid = d.guid.getD 0 ∧ (h.vdev p).nchildren = cs.length ∧
      good (h.vdev p) d ∧ MatchesAll good h kids (kids p) cs) (by rw [Matches])

instance decidableMatchesAll (h : Vdevs δ) (kids : Nat → List Nat) : ∀ ps cs, Decidable (MatchesAll good h kids ps cs)
  | [], [] => isTrue (by rw [MatchesAll]; trivial)
  | [], _ :: _ => isFalse (by simp [MatchesAll])
  | _ :: _, [] => isFalse (by simp [MatchesAll])
  | p :: ps, c :: cs =>
    have := decidableMatches h kids p c
    have := decidableMatchesAll h kids ps cs
    decidable_of_iff (Matches good h kids p c ∧ MatchesAll good h kids ps cs) (by rw [MatchesAll])

end

end

def SameVdev (v v' : VdevT δ) : Prop := { v with children := Stailq.empty, childlink := none } =
  { v' with children := Stailq.empty, childlink := none }

section

variable {good good' : VdevT δ → Details → Prop} {h h' : Vdevs δ} {kids kids' : Nat → List Nat}

structure Alike (good good' : VdevT δ → Details → Prop) (v v' : VdevT δ) : Prop where
  guid : v'.guid = v.guid
  nchildren : v'.nchildren = v.nchildren
  good : ∀ d, good v d → good' v' d

mutual

theorem Matches.congr (grows : h.count ≤ h'.count) {p : Nat} (c : Config)
    (same : ∀ q < h.count, (h.vdev q).guid ∈ c.guids → Alike good good' (h.vdev q) (h'.vdev q) ∧ kids' q = kids q)
    (matched : Matches good h kids p c) : Matches good' h' kids' p c := by
  match c with
  | .mk d nkids cs =>
    obtain ⟨inside, guid, count, fields, below⟩ := matched
    obtain ⟨alike, list⟩ := same p inside (by rw [guid, Config.guids]; exact mem_cons_self)
    refine ⟨by omega, alike.guid ▸ guid, alike.nchildren ▸ count, alike.good d fields, ?_⟩
    rw [list]
    refine MatchesAll.congr grows cs ?_ below
    intro q less member
    exact same q less (by rw [Config.guids]; exact mem_cons_of_mem _ member)

theorem MatchesAll.congr (grows : h.count ≤ h'.count) {ps : List Nat} (cs : List Config)
    (same : ∀ q < h.count, (h.vdev q).guid ∈ Config.guidsAll cs →
      Alike good good' (h.vdev q) (h'.vdev q) ∧ kids' q = kids q)
    (matched : MatchesAll good h kids ps cs) : MatchesAll good' h' kids' ps cs := by
  match ps, cs with
  | [], [] => simp [MatchesAll]
  | [], _ :: _ => simp [MatchesAll] at matched
  | _ :: _, [] => simp [MatchesAll] at matched
  | p :: ps, c :: cs =>
    simp only [Config.guidsAll, mem_append] at same
    exact ⟨Matches.congr grows c (fun q less member => same q less (.inl member)) matched.1,
      MatchesAll.congr grows cs (fun q less member => same q less (.inr member)) matched.2⟩

end

end

theorem vdevFind_eq_none {h : Vdevs δ} {guid : Nat} : vdevFind h guid = none ↔ ∀ p < h.count, (h.vdev p).guid ≠ guid := by
  simp [vdevFind]

/-- The vdev that vdev_init_from_nvlist creates for a vdev with `n` children. -/
def Details.vdev (d : Details) (pvdev : Option Nat) (p : Nat) (n : Int) : VdevT δ where
  guid := d.guid.getD 0
  id := d.id.getD 0
  top := pvdev.getD p
  ashift := d.ashift.getD 0
  nparity := d.nparity.getD 0
  name := (vdevName d (d.type.getD []) (d.nparity.getD 0)).getD []
  read := (vdevType (d.type.getD [])).getD .disk
  phys := none
  state := d.flagged.getD .offline
  nchildren := n
  children := Stailq.empty
  childlink := none

def Vdevs.push (h : Vdevs δ) (v : VdevT δ) : Vdevs δ := ⟨h.count + 1, update h.vdev h.count v⟩

@[simp] theorem push_count (h : Vdevs δ) (v : VdevT δ) : (h.push v).count = h.count + 1 := rfl

@[simp] theorem push_last (h : Vdevs δ) (v : VdevT δ) : (h.push v).vdev h.count = v := update_self ..

theorem push_old (h : Vdevs δ) (v : VdevT δ) {q : Nat} (less : q < h.count) : (h.push v).vdev q = h.vdev q :=
  update_of_ne (by omega) ..

private theorem push_modify (h : Vdevs δ) (v : VdevT δ) (f : VdevT δ → VdevT δ) :
    (h.push v).modify h.count f = h.push (f v) := by
  simp [Vdevs.modify, Vdevs.push]

theorem vdevEnter_new {d : Details} (complete : d.Complete) {h : Vdevs δ}
    (unknown : ∀ p < h.count, (h.vdev p).guid ≠ d.guid.getD 0) (pvdev : Option Nat) (isNewer : Bool) :
    vdevEnter d pvdev isNewer h =
      (0, h.count, true, h.push (d.vdev pvdev h.count 0)) := by
  obtain ⟨guid, _, _, _, _, hasGuid, hasId, hasType, supported, named⟩ := complete.exists
  have missing : vdevFind h guid = none := vdevFind_eq_none.mpr (by simpa [hasGuid] using unknown)
  simp [vdevEnter, hasGuid, hasId, hasType, supported, missing, vdevAdd, named, vdevRefresh, Vdevs.modify, vdevCreate,
    Details.vdev, Vdevs.push]

section

variable {base : Nat} {h : Vdevs δ} {kids : Nat → List Nat} {p k : Nat}

theorem insertChild_links (h : Vdevs δ) (p k : Nat) :
    (insertChild h p k).links = (Stailq.insertTail h.links (h.vdev p).children k).1 := by
  funext q
  by_cases here : q = p
  · subst here
    simp [insertChild, Vdevs.links, Vdevs.modify, Vdevs.setLinks]
  · simp [insertChild, Vdevs.links, Vdevs.modify, Vdevs.setLinks, here]

theorem insertChild_children (h : Vdevs δ) (p k q : Nat) :
    ((insertChild h p k).vdev q).children =
      if q = p then (Stailq.insertTail h.links (h.vdev p).children k).2 else (h.vdev q).children := by
  by_cases here : q = p
  · subst here
    simp [insertChild, Vdevs.modify, Vdevs.setLinks]
  · simp [insertChild, Vdevs.modify, Vdevs.setLinks, here]

theorem insertChild_same (h : Vdevs δ) (p k q : Nat) : SameVdev (h.vdev q) ((insertChild h p k).vdev q) := by
  by_cases here : q = p
  · subst here
    simp [SameVdev, insertChild, Vdevs.modify, Vdevs.setLinks]
  · simp [SameVdev, insertChild, Vdevs.modify, Vdevs.setLinks, here]

theorem SameVdev.setLinks (h : Vdevs δ) (next : Nat → Option Nat) (q : Nat) :
    SameVdev (h.vdev q) ((h.setLinks next).vdev q) := rfl

variable {v v' : VdevT δ}

theorem SameVdev.guid (same : SameVdev v v') : v'.guid = v.guid :=
  (congrArg VdevT.guid same).symm

theorem SameVdev.top (same : SameVdev v v') : v'.top = v.top :=
  (congrArg VdevT.top same).symm

theorem SameVdev.trans {v'' : VdevT δ} (first : SameVdev v v') (second : SameVdev v' v'') : SameVdev v v'' :=
  Eq.trans first second

theorem insertChild_other (linked : Linked base h kids) (inside : p < h.count) (above : base ≤ p) {q : Nat}
    (notList : q ≠ p) (notNew : q ≠ k) (notIn : q ∉ kids p) : (insertChild h p k).vdev q = h.vdev q := by
  have link : (Stailq.insertTail h.links (h.vdev p).children k).1 q = h.links q := by
    rw [Stailq.insertTail]
    split
    next => exact update_of_ne notNew ..
    next last found =>
      have notLast : q ≠ last := by
        rintro rfl
        exact notIn (mem_of_getLast? ((linked.holds p inside above).last.symm.trans found))
      dsimp only
      rw [update_of_ne notLast, update_of_ne notNew]
  simp only [insertChild, Vdevs.modify, Vdevs.setLinks, link, update_of_ne notList]
  rfl

theorem insertChild_linked (linked : Linked base h kids) (inside : p < h.count) (above : base ≤ p) (fresh : k < h.count)
    (free : ∀ q < h.count, base ≤ q → k ∉ kids q) (under : (h.vdev k).top = p) :
    Linked base (insertChild h p k) (update kids p (kids p ++ [k])) := by
  constructor
  · intro q less r less' above' above'' same
    rw [(insertChild_same h p k q).guid, (insertChild_same h p k r).guid] at same
    exact linked.unique q less r less' above' above'' same
  · intro q less above'
    rw [insertChild_links, insertChild_children]
    by_cases here : q = p
    · subst here
      rw [if_pos rfl, update_self]
      exact (linked.holds q inside above).insertTail (free q inside above)
    · rw [if_neg here, update_of_ne here]
      exact (linked.holds p inside above).insertTail_other (linked.holds q less above') (free q less above')
        (linked.apart p inside q less above above' (Ne.symm here))
  · intro q less above' r member
    by_cases here : q = p
    · subst here
      rw [update_self, mem_append, mem_singleton] at member
      rcases member with member | rfl
      · exact linked.bounded q less above' r member
      · exact fresh
    · rw [update_of_ne here] at member
      exact linked.bounded q less above' r member
  · intro q less r less' above' above'' differ s member
    by_cases here : q = p
    · subst here
      rw [update_self, mem_append, mem_singleton] at member
      rw [update_of_ne (Ne.symm differ)]
      rcases member with member | rfl
      · exact linked.apart q less r less' above' above'' differ s member
      · exact free r less' above''
    · rw [update_of_ne here] at member
      by_cases there : r = p
      · subst there
        rw [update_self, mem_append, mem_singleton, not_or]
        refine ⟨linked.apart q less r less' above' above'' differ s member, ?_⟩
        rintro rfl
        exact free q less above' member
      · rw [update_of_ne there]
        exact linked.apart q less r less' above' above'' differ s member
  · intro q less above' r member
    rw [(insertChild_same h p k r).top]
    by_cases here : q = p
    · subst here
      rw [update_self, mem_append, mem_singleton] at member
      rcases member with member | rfl
      · exact linked.top q less above' r member
      · exact under
    · rw [update_of_ne here] at member
      exact linked.top q less above' r member

theorem push_linked (linked : Linked base h kids) (unknown : ∀ q < h.count, (h.vdev q).guid ≠ v.guid)
    (childless : v.children = Stailq.empty) : Linked base (h.push v) (update kids h.count []) := by
  have split : ∀ q < h.count + 1, q = h.count ∨ q < h.count := by omega
  constructor
  · intro q less r less' above above' same
    rcases split q less with rfl | less <;> rcases split r less' with rfl | less'
    · rfl
    · rw [push_last, push_old h v less'] at same
      exact absurd same.symm (unknown r less')
    · rw [push_last, push_old h v less] at same
      exact absurd same (unknown q less)
    · rw [push_old h v less, push_old h v less'] at same
      exact linked.unique q less r less' above above' same
  · intro q less above
    rcases split q less with rfl | less
    · rw [push_last, update_self, childless]
      exact Stailq.holds_empty
    · rw [push_old h v less, update_of_ne (by omega)]
      refine (linked.holds q less above).congr ?_
      intro r member
      exact congrArg VdevT.childlink (push_old h v (linked.bounded q less above r member))
  · intro q less above r member
    rcases split q less with rfl | less
    · rw [update_self] at member
      cases member
    · rw [update_of_ne (by omega)] at member
      have := linked.bounded q less above r member
      rw [push_count]
      omega
  · intro q less r less' above above' differ s member
    rcases split q less with rfl | less
    · rw [update_self] at member
      cases member
    · rw [update_of_ne (by omega)] at member
      rcases split r less' with rfl | less'
      · rw [update_self]
        exact not_mem_nil
      · rw [update_of_ne (by omega)]
        exact linked.apart q less r less' above above' differ s member
  · intro q less above r member
    rcases split q less with rfl | less
    · rw [update_self] at member
      cases member
    · rw [update_of_ne (by omega)] at member
      rw [push_old h v (linked.bounded q less above r member)]
      exact linked.top q less above r member

end

/-- zfs_vdevs grows by vdevs with the guids `gs`, in that order, and nothing else changes. -/
structure Added (base : Nat) (h h' : Vdevs δ) (kids kids' : Nat → List Nat) (gs : List Nat) : Prop where
  linked : Linked base h' kids'
  count : h'.count = h.count + gs.length
  old : ∀ q < h.count, h'.vdev q = h.vdev q ∧ kids' q = kids q
  guids : ∀ i g, gs[i]? = some g → (h'.vdev (h.count + i)).guid = g
  below : ∀ q < h'.count, h.count ≤ q → ∀ r ∈ kids' q, h.count < r

structure AddedKids (base : Nat) (h h' : Vdevs δ) (kids kids' : Nat → List Nat) (p : Nat) (ks gs : List Nat) : Prop where
  linked : Linked base h' kids'
  count : h'.count = h.count + gs.length
  list : kids' p = kids p ++ ks
  old : ∀ q < h.count, SameVdev (h.vdev q) (h'.vdev q)
  others : ∀ q < h.count, q ≠ p → kids' q = kids q
  outside : ∀ q < h.count, q ≠ p → q ∉ kids p → h'.vdev q = h.vdev q
  guids : ∀ i g, gs[i]? = some g → (h'.vdev (h.count + i)).guid = g
  below : ∀ q < h'.count, h.count ≤ q → ∀ r ∈ kids' q, h.count ≤ r
  fresh : ∀ k ∈ ks, h.count ≤ k

private theorem vdevInit_eq_kids {d : Details} {nkids : Option Int} {cs : List Config} (complete : d.Complete)
    (counted : nkids = some (cs.length : Int) ∨ nkids = none ∧ cs = []) {h : Vdevs δ}
    (unknown : ∀ p < h.count, (h.vdev p).guid ≠ d.guid.getD 0) (pvdev : Option Nat) (isNewer : Bool) :
    vdevInit (.mk d nkids cs) pvdev isNewer h =
      match vdevInitKids cs h.count true isNewer (h.push (d.vdev pvdev h.count cs.length)) with
      | (rc, h') => if rc ≠ 0 then (rc, 0, h') else (0, h.count, h') := by
  rw [vdevInit, vdevEnter_new complete unknown]
  dsimp only
  rcases counted with rfl | ⟨rfl, rfl⟩
  · dsimp only
    rw [push_modify]
    rfl
  · simp [vdevInitKids, push_modify, Details.vdev]

/-- A comparison that a new vdev passes and that does not look at the queues. -/
structure Details.Check (good : VdevT δ → Details → Prop) : Prop where
  new : ∀ (d : Details) pvdev p n, good (d.vdev pvdev p n) d
  stable : ∀ v v' d, SameVdev v v' → good v d → good v' d

theorem SameVdev.alike {good : VdevT δ → Details → Prop} (check : Details.Check good) {v v' : VdevT δ}
    (same : SameVdev v v') : Alike good good v v' :=
  ⟨same.guid, (congrArg VdevT.nchildren same).symm, fun d => check.stable v v' d same⟩

theorem Added.known {base : Nat} {h h' : Vdevs δ} {kids kids' : Nat → List Nat} {gs : List Nat}
    (added : Added base h h' kids kids' gs) {q : Nat} (less : q < h'.count) : q < h.count ∨ (h'.vdev q).guid ∈ gs := by
  have count := added.count
  by_cases old : q < h.count
  · exact .inl old
  · have index : q - h.count < gs.length := by omega
    have guid := added.guids (q - h.count) _ (getElem?_eq_getElem index)
    rw [Nat.add_sub_cancel' (by omega)] at guid
    exact .inr (guid ▸ getElem_mem index)

structure Details.Static (good : VdevT δ → Details → Prop) : Prop extends Details.Check good where
  state : ∀ v d state phys, good v d → good { v with state, phys } d

theorem anyVdev_static : Details.Static (anyVdev (δ := δ)) where
  new := fun _ _ _ _ => trivial
  stable := fun _ _ _ _ _ => trivial
  state := fun _ _ _ _ _ => trivial

section

variable {good : VdevT δ → Details → Prop} {base : Nat}

mutual

theorem vdevInit_new (check : Details.Check good) (c : Config) (complete : c.Complete) (distinct : c.guids.Nodup)
    {h : Vdevs δ} {kids : Nat → List Nat} (linked : Linked base h kids) (above : base ≤ h.count)
    (unknown : ∀ g ∈ c.guids, ∀ q < h.count, (h.vdev q).guid ≠ g) (pvdev : Option Nat) (isNewer : Bool) :
    ∃ h' kids', vdevInit c pvdev isNewer h = (0, h.count, h') ∧ Added base h h' kids kids' c.guids ∧
      Matches good h' kids' h.count c ∧ (h'.vdev h.count).top = pvdev.getD h.count := by
  match c with
  | .mk d nkids cs =>
    rw [Config.guids, nodup_cons] at distinct
    simp only [Config.guids, mem_cons] at unknown
    obtain ⟨whole, counted, complete⟩ := complete
    have own := unknown _ (.inl rfl)
    have ready := push_linked linked (v := d.vdev pvdev h.count cs.length) own rfl
    obtain ⟨h', kids', ks, ran, added, below⟩ := vdevInitKids_new check cs complete distinct.2 ready
      (Nat.lt_succ_self h.count) above (by
        intro g member q less
        rcases Nat.lt_succ_iff_lt_or_eq.mp less with less | rfl
        · rw [push_old h _ less]
          exact unknown g (.inr member) q less
        · rw [push_last]
          rintro rfl
          exact distinct.1 member) isNewer
    have count := added.count
    have list : kids' h.count = ks := by simpa using added.list
    have root := added.old h.count (Nat.lt_succ_self _)
    rw [push_last] at root
    rw [push_count] at count
    refine ⟨h', kids', ?_, ⟨added.linked, ?_, ?_, ?_, ?_⟩, ?_, root.top⟩
    · rw [vdevInit_eq_kids whole counted own, ran]
      rfl
    · rw [count, Config.guids, length_cons]
      omega
    · intro q less
      have notNew : q ≠ h.count := by omega
      have kept := added.outside q (Nat.lt_succ_of_lt less) notNew (by simp)
      have list := added.others q (Nat.lt_succ_of_lt less) notNew
      rw [push_old h _ less] at kept
      rw [update_of_ne notNew] at list
      exact ⟨kept, list⟩
    · intro i g found
      cases i with
      | zero =>
        rw [Config.guids, getElem?_cons_zero, Option.some.injEq] at found
        rw [Nat.add_zero, root.guid]
        exact found
      | succ i =>
        rw [Config.guids, getElem?_cons_succ] at found
        have := added.guids i g found
        rwa [push_count, Nat.add_right_comm] at this
    · intro q less from_ r member
      rcases Nat.eq_or_lt_of_le from_ with rfl | from_
      · rw [list] at member
        exact added.fresh r member
      · exact added.below q less from_ r member
    · rw [Matches, list]
      refine ⟨by omega, root.guid, ?_, check.stable _ _ d root (check.new d pvdev h.count _), below⟩
      exact (congrArg VdevT.nchildren root).symm

theorem vdevInitKids_new (check : Details.Check good) (cs : List Config) (complete : AllComplete cs)
    (distinct : (Config.guidsAll cs).Nodup) {h : Vdevs δ} {kids : Nat → List Nat} (linked : Linked base h kids)
    {p : Nat} (inside : p < h.count) (above : base ≤ p)
    (unknown : ∀ g ∈ Config.guidsAll cs, ∀ q < h.count, (h.vdev q).guid ≠ g) (isNewer : Bool) :
    ∃ h' kids' ks, vdevInitKids cs p true isNewer h = (0, h') ∧
      AddedKids base h h' kids kids' p ks (Config.guidsAll cs) ∧ MatchesAll good h' kids' ks cs := by
  match cs with
  | [] =>
    refine ⟨h, kids, [], by rw [vdevInitKids], ⟨linked,
      rfl, by simp, fun _ _ => rfl, fun _ _ _ => rfl, fun _ _ _ _ => rfl,
      by simp [Config.guidsAll], ?_, by simp⟩, by simp [MatchesAll]⟩
    intro q less from_
    omega
  | c :: cs =>
    rw [Config.guidsAll, nodup_append] at distinct
    simp only [Config.guidsAll, mem_append] at unknown
    obtain ⟨h₁, kids₁, first, added, matched, under⟩ := vdevInit_new check c complete.1 distinct.1 linked (by omega)
      (fun g member => unknown g (.inl member)) (some p) isNewer
    have grown := added.count
    have inside₁ : p < h₁.count := by omega
    have nonempty := c.guids_pos
    -- The kid is new and at the top of its subtree, so no list has it yet.
    have free : ∀ q < h₁.count, base ≤ q → h.count ∉ kids₁ q := by
      intro q less above' member
      by_cases old : q < h.count
      · rw [(added.old q old).2] at member
        exact absurd (linked.bounded q old above' _ member) (lt_irrefl _)
      · exact absurd (added.below q less (by omega) _ member) (lt_irrefl _)
    have linked₂ := insertChild_linked added.linked inside₁ above (by omega) free under
    obtain ⟨h', kids', ks, rest, addedKids, matchedAll⟩ :=
      vdevInitKids_new check cs complete.2 distinct.2.1 linked₂ inside₁ above (by
        intro g member q less
        rw [(insertChild_same h₁ p h.count q).guid]
        rcases added.known less with old | mine
        · rw [(added.old q old).1]
          exact unknown g (.inr member) q old
        · exact distinct.2.2 _ mine _ member) isNewer
    have list := addedKids.list
    rw [update_self, (added.old p inside).2, append_assoc, singleton_append] at list
    have count : h'.count = h₁.count + (Config.guidsAll cs).length := addedKids.count
    have same : ∀ q < h₁.count, SameVdev (h₁.vdev q) (h'.vdev q) := by
      intro q less
      exact (insertChild_same h₁ p h.count q).trans (addedKids.old q less)
    have kept : ∀ q < h₁.count, q ≠ p → kids' q = kids₁ q := by
      intro q less other
      rw [addedKids.others q less other, update_of_ne other]
    refine ⟨h', kids', h.count :: ks, ?_, ⟨addedKids.linked, ?_, list, ?_, ?_, ?_, ?_, ?_, ?_⟩, ?_, matchedAll⟩
    · rw [vdevInitKids, first]
      exact rest
    · rw [count, grown, Config.guidsAll, length_append, Nat.add_assoc]
    · intro q less
      rw [← (added.old q less).1]
      exact same q (by omega)
    · intro q less other
      rw [kept q (by omega) other, (added.old q less).2]
    · intro q less other notIn
      have away : q ∉ kids₁ p := by
        rw [(added.old p inside).2]
        exact notIn
      rw [addedKids.outside q (by change q < h₁.count; omega) other ?_,
        insertChild_other added.linked inside₁ above other (by omega) away, (added.old q less).1]
      rw [update_self, mem_append, mem_singleton, not_or]
      exact ⟨away, by omega⟩
    · intro i g found
      rw [Config.guidsAll] at found
      by_cases early : i < c.guids.length
      · rw [getElem?_append_left early] at found
        rw [(same (h.count + i) (by omega)).guid]
        exact added.guids i g found
      · rw [getElem?_append_right (by omega)] at found
        have := addedKids.guids _ g found
        rw [show (insertChild h₁ p h.count).count = h₁.count from rfl, grown] at this
        rwa [show h.count + c.guids.length + (i - c.guids.length) = h.count + i by omega] at this
    · intro q less from_ r member
      by_cases early : q < h₁.count
      · rw [kept q early (by omega)] at member
        exact (added.below q early from_ r member).le
      · have : h₁.count ≤ r := addedKids.below q less (not_lt.mp early) r member
        omega
    · intro k member
      rcases mem_cons.mp member with rfl | member
      · exact le_rfl
      · have : h₁.count ≤ k := addedKids.fresh k member
        omega
    · refine Matches.congr (by omega) c ?_ matched
      intro q less member
      refine ⟨(same q less).alike check, kept q less ?_⟩
      rintro rfl
      rw [(added.old q inside).1] at member
      exact unknown _ (.inl member) q inside rfl

end

end

mutual

def Config.flag (g : Nat) : Config → Option VdevState
  | .mk d _ kids => (flagAll g kids).or (if d.guid.getD 0 = g then d.flagged else none)

def flagAll (g : Nat) : List Config → Option VdevState
  | [] => none
  | c :: cs => (flagAll g cs).or (c.flag g)

end

def VdevT.setState (v : VdevT δ) (state : VdevState) : VdevT δ := { v with state }

def Vdevs.refresh (h : Vdevs δ) (flag : Nat → Option VdevState) : Vdevs δ where
  count := h.count
  vdev := fun q => (h.vdev q).setState (if q < h.count then (flag (h.vdev q).guid).getD (h.vdev q).state else (h.vdev q).state)

theorem refresh_none (h : Vdevs δ) : h.refresh (fun _ => none) = h := by
  simp [Vdevs.refresh, VdevT.setState]

theorem refresh_refresh (h : Vdevs δ) (first second : Nat → Option VdevState) :
    (h.refresh first).refresh second = h.refresh fun g => (second g).or (first g) := by
  simp only [Vdevs.refresh, Vdevs.mk.injEq, true_and]
  funext q
  by_cases inside : q < h.count
  · simp only [VdevT.setState, inside, if_true, VdevT.mk.injEq, true_and, and_true]
    cases second (h.vdev q).guid <;> simp
  · simp [VdevT.setState, inside]

variable {kids : Nat → List Nat} {h : Vdevs δ} {p : Nat}

theorem refresh_linked (linked : Linked 0 h kids) (flag : Nat → Option VdevState) :
    Linked 0 (h.refresh flag) kids where
  unique := linked.unique
  holds := linked.holds
  bounded := linked.bounded
  apart := linked.apart
  top := linked.top

private theorem refresh_matchesAll {ps : List Nat} {cs : List Config} (flag : Nat → Option VdevState)
    (matched : MatchesAll anyVdev h kids ps cs) :
    MatchesAll anyVdev (h.refresh flag) kids ps cs := by
  refine MatchesAll.congr (h := h) ?_ cs ?_ matched
  · exact le_rfl
  · exact fun q _ _ => ⟨⟨rfl, rfl, fun _ _ => trivial⟩, rfl⟩

theorem vdevFind_eq_some (linked : Linked 0 h kids) (inside : p < h.count) :
    vdevFind h (h.vdev p).guid = some p := by
  cases found : vdevFind h (h.vdev p).guid with
  | none => exact absurd rfl (vdevFind_eq_none.mp found p inside)
  | some q =>
    have less : q < h.count := mem_range.mp (mem_of_find?_eq_some found)
    have guid : (h.vdev q).guid = (h.vdev p).guid := by simpa using find?_some found
    rw [linked.unique q less p inside (Nat.zero_le _) (Nat.zero_le _) guid]

theorem vdevEnter_known {d : Details} (complete : d.Complete) (linked : Linked 0 h kids) (inside : p < h.count)
    (guid : (h.vdev p).guid = d.guid.getD 0) (pvdev : Option Nat) (isNewer : Bool) :
    vdevEnter d pvdev isNewer h =
      (0, p, false, h.refresh fun g => if isNewer ∧ d.guid.getD 0 = g then d.flagged else none) := by
  obtain ⟨g, _, _, _, _, hasGuid, hasId, hasType, supported, _⟩ := complete.exists
  rw [hasGuid, getD_some] at guid
  have found : vdevFind h g = some p := guid ▸ vdevFind_eq_some linked inside
  simp only [vdevEnter, hasGuid, hasId, hasType, supported, found, Prod.mk.injEq, true_and, getD_some]
  cases isNewer with
  | false => simp [refresh_none]
  | true =>
    simp only [if_true, vdevRefresh, Vdevs.modify, Vdevs.refresh, Vdevs.mk.injEq, true_and]
    funext q
    by_cases here : q = p
    · subst here
      simp [inside, guid, VdevT.setState]
    · by_cases less : q < h.count
      · have other : g ≠ (h.vdev q).guid := by
          intro same
          exact here (linked.unique q less p inside (Nat.zero_le _) (Nat.zero_le _) (same.symm.trans guid.symm))
        simp [here, other, VdevT.setState]
      · simp [here, less, VdevT.setState]

private theorem modify_nchildren {n : Int} (same : (h.vdev p).nchildren = n) :
    h.modify p ({ · with nchildren := n }) = h := by
  subst same
  exact congrArg (Vdevs.mk h.count) (update_eq_self p h.vdev)

mutual

/-- A tree that is already linked as the label has it: only states change, and only for a newer
label. -/
theorem vdevInit_known (c : Config) (complete : c.Complete) {h : Vdevs δ} {kids : Nat → List Nat}
    (linked : Linked 0 h kids) {p : Nat} (matched : Matches anyVdev h kids p c) (pvdev : Option Nat) (isNewer : Bool) :
    vdevInit c pvdev isNewer h = (0, p, h.refresh fun g => if isNewer then c.flag g else none) := by
  match c with
  | .mk d nkids cs =>
    obtain ⟨whole, counted, complete⟩ := complete
    obtain ⟨inside, guid, count, -, below⟩ := matched
    rw [vdevInit, vdevEnter_known whole linked inside guid]
    dsimp only
    generalize own : (fun g => if isNewer ∧ d.guid.getD 0 = g then d.flagged else none) = f
    have flags : (fun g => if isNewer then (Config.mk d nkids cs).flag g else none) =
        fun g => (if isNewer then flagAll g cs else none).or (f g) := by
      funext g
      subst own
      cases isNewer <;> simp [Config.flag]
    rw [flags, ← refresh_refresh]
    have ran := vdevInitKids_known cs complete (refresh_linked linked f) (refresh_matchesAll f below) p isNewer
    have count : ((h.refresh f).vdev p).nchildren = cs.length := count
    rcases counted with rfl | ⟨rfl, rfl⟩
    · dsimp only
      rw [modify_nchildren count, ran]
      rfl
    · simp only [flagAll, ite_self, refresh_none]
      exact congrArg (fun h => (0, p, h)) (modify_nchildren count)

theorem vdevInitKids_known (cs : List Config) (complete : AllComplete cs) {h : Vdevs δ} {kids : Nat → List Nat}
    (linked : Linked 0 h kids) {ps : List Nat} (matched : MatchesAll anyVdev h kids ps cs) (p : Nat)
    (isNewer : Bool) :
    vdevInitKids cs p false isNewer h = (0, h.refresh fun g => if isNewer then flagAll g cs else none) := by
  match ps, cs with
  | [], [] => simp [vdevInitKids, flagAll, refresh_none]
  | [], _ :: _ => simp [MatchesAll] at matched
  | _ :: _, [] => simp [MatchesAll] at matched
  | _ :: ps, c :: cs =>
    rw [vdevInitKids, vdevInit_known c complete.1 linked matched.1 (some p) isNewer]
    generalize own : (fun g => if isNewer then c.flag g else none) = f
    have flags : (fun g => if isNewer then flagAll g (c :: cs) else none) =
        fun g => (if isNewer then flagAll g cs else none).or (f g) := by
      funext g
      subst own
      cases isNewer <;> simp [flagAll]
    rw [flags, ← refresh_refresh]
    exact vdevInitKids_known cs complete.2 (refresh_linked linked f) (refresh_matchesAll f matched.2) p isNewer

end

end Pcbsd.Zfs
