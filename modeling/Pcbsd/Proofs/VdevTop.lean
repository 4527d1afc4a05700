import Pcbsd.Proofs.ProbeTraces

/-! Where v_top points. vdev_init_from_nvlist passes the vdev itself as the parent of its children, so that v_top of a
vdev that is created two or more levels below a top-level one is its parent. -/

namespace Pcbsd.Zfs
open Lib List Function
open Option hiding or_assoc

variable {δ : Type}

namespace Config

def entered : Config → List Config
  | mk _ none _ => []
  | mk _ (some _) kids => kids

mutual

def walked : Config → List Nat
  | mk d nkids kids => d.guid.getD 0 :: match nkids with
    | none => []
    | some _ => walkedAll kids

def walkedAll : List Config → List Nat
  | [] => []
  | c :: cs => walked c ++ walkedAll cs

end

theorem walked_eq (c : Config) : c.walked = c.guid :: walkedAll c.entered := by
  obtain ⟨_, nkids, _⟩ := c
  cases nkids <;> rfl

theorem entered_size (c : Config) : sizeOf c.entered < sizeOf c := by
  obtain ⟨_, nkids, _⟩ := c
  cases nkids with
  | none =>
    rw [entered, Config.mk.sizeOf_spec, List.nil.sizeOf_spec, Option.none.sizeOf_spec]
    omega
  | some _ =>
    rw [entered, Config.mk.sizeOf_spec]
    omega

theorem guid_mem_walkedAll {c : Config} {cs : List Config} (member : c ∈ cs) : ∀ g ∈ c.walked, g ∈ walkedAll cs := by
  induction cs with
  | nil => cases member
  | cons _ cs ih =>
    intro g named
    rw [walkedAll, mem_append]
    obtain _ | ⟨_, later⟩ := member
    · exact .inl named
    · exact .inr (ih later g named)

def deep (c : Config) : List Nat := c.entered.flatMap fun kid => walkedAll kid.entered

def ashift : Config → Nat
  | mk d _ _ => d.ashift.getD 0

end Config

open Config

theorem vdevFind_eq_some_iff {h : Vdevs δ} {g p : Nat} :
    vdevFind h g = some p ↔ p < h.count ∧ (h.vdev p).guid = g ∧ ∀ q < p, (h.vdev q).guid ≠ g := by
  rw [vdevFind, List.find?_range_eq_some]
  simp [and_left_comm]

/-- What vdev_init_from_nvlist and the lists it makes may do to vdevs, when the top-level vdev is `r` and the guids
are `gs`: the old ones keep what they are, the links of top-level vdevs are left alone, and the new ones point at
`r`. -/
structure Grows (gs : List Nat) (r : Nat) (h h' : Vdevs δ) : Prop where
  count : h.count ≤ h'.count
  guid : ∀ q < h.count, (h'.vdev q).guid = (h.vdev q).guid
  top : ∀ q < h.count, (h'.vdev q).top = (h.vdev q).top
  ashift : ∀ q < h.count, (h'.vdev q).ashift = (h.vdev q).ashift
  links : ∀ q < h.count, (h.vdev q).top = q → (h'.vdev q).childlink = (h.vdev q).childlink
  new : ∀ q < h'.count, h.count ≤ q → (h'.vdev q).top = r ∧ (h'.vdev q).guid ∈ gs

/-- No list of children ends in a top-level vdev, so that lengthening one does not touch the links of a top-level
vdev. -/
def Hung (h : Vdevs δ) : Prop := ∀ p < h.count, ∀ q ∈ (h.vdev p).children.last, q < h.count ∧ (h.vdev q).top ≠ q

section

variable {gs : List Nat} {r : Nat} {h h' h'' : Vdevs δ}

theorem Grows.refl (h : Vdevs δ) : Grows gs r h h := by
  refine ⟨le_rfl, fun _ _ => rfl, fun _ _ => rfl, fun _ _ => rfl, fun _ _ _ => rfl, fun q inside new => ?_⟩
  omega

theorem Grows.trans (first : Grows gs r h h') (second : Grows gs r h' h'') : Grows gs r h h'' := by
  have grown := first.count
  refine ⟨grown.trans second.count, ?_, ?_, ?_, ?_, ?_⟩
  · exact fun q inside => (second.guid q (by omega)).trans (first.guid q inside)
  · exact fun q inside => (second.top q (by omega)).trans (first.top q inside)
  · exact fun q inside => (second.ashift q (by omega)).trans (first.ashift q inside)
  · intro q inside root
    exact (second.links q (by omega) ((first.top q inside).trans root)).trans (first.links q inside root)
  · intro q inside new
    by_cases between : q < h'.count
    · rw [second.top q between, second.guid q between]
      exact first.new q between new
    · exact second.new q inside (by omega)

theorem Grows.find (grows : Grows gs r h h') {g p : Nat} (found : vdevFind h g = some p) : vdevFind h' g = some p := by
  rw [vdevFind_eq_some_iff] at found ⊢
  obtain ⟨inside, guid, first⟩ := found
  refine ⟨inside.trans_le grows.count, (grows.guid p inside).trans guid, fun q less => ?_⟩
  rw [grows.guid q (less.trans inside)]
  exact first q less

theorem Grows.find_old (grows : Grows gs r h h') {g p : Nat} (found : vdevFind h' g = some p) (old : p < h.count) :
    vdevFind h g = some p := by
  rw [vdevFind_eq_some_iff] at found ⊢
  obtain ⟨-, guid, first⟩ := found
  refine ⟨old, (grows.guid p old).symm.trans guid, fun q less => ?_⟩
  rw [← grows.guid q (less.trans old)]
  exact first q less

def Below (h : Vdevs δ) (r g : Nat) : Prop := ∀ q, vdevFind h g = some q → (h.vdev q).top = r ∧ q ≠ r

theorem Grows.below (grows : Grows gs r h h') (inside : r < h.count) {g : Nat} (below : Below h r g) : Below h' r g := by
  intro q found
  by_cases old : q < h.count
  · rw [grows.top q old]
    exact below q (grows.find_old found old)
  · exact ⟨(grows.new q (vdevFind_eq_some_iff.mp found).1 (not_lt.mp old)).1, by omega⟩

def KnownBelow (h : Vdevs δ) (r g : Nat) : Prop := ∃ q, vdevFind h g = some q ∧ (h.vdev q).top = r ∧ q ≠ r

theorem Grows.knownBelow (grows : Grows gs r h h') {g : Nat} (known : KnownBelow h r g) : KnownBelow h' r g := by
  obtain ⟨q, found, top, other⟩ := known
  refine ⟨q, grows.find found, ?_, other⟩
  rw [grows.top q (vdevFind_eq_some_iff.mp found).1, top]

theorem Hung.insertChild (hung : Hung h) {p k : Nat} (inside : p < h.count) (kid : k < h.count) (hangs : (h.vdev k).top ≠ k) :
    Grows gs r h (insertChild h p k) ∧ Hung (insertChild h p k) := by
  have same := insertChild_same h p k
  have links : ∀ q, (h.vdev q).top = q → ((Zfs.insertChild h p k).vdev q).childlink = (h.vdev q).childlink := by
    intro q root
    have notKid : q ≠ k := by
      rintro rfl
      exact hangs root
    have link : ((Zfs.insertChild h p k).vdev q).childlink = (Stailq.insertTail h.links (h.vdev p).children k).1 q :=
      congrFun (insertChild_links h p k) q
    rw [link, Stailq.insertTail]
    cases last : (h.vdev p).children.last with
    | none => exact update_of_ne notKid ..
    | some l =>
      have notLast : q ≠ l := by
        rintro rfl
        exact (hung p inside q last).2 root
      dsimp only
      rw [update_of_ne notLast, update_of_ne notKid]
      rfl
  refine ⟨⟨le_rfl, fun q _ => (same q).guid, fun q _ => (same q).top, fun q _ => (congrArg VdevT.ashift (same q)).symm,
    fun q _ => links q, fun q less new => ?_⟩, fun p' inside' l last => ?_⟩
  · exact absurd less (not_lt.mpr new)
  · rw [(same l).top]
    rw [insertChild_children] at last
    by_cases here : p' = p
    · rw [if_pos here, Stailq.insertTail] at last
      have new : l = k := by
        cases tail : (h.vdev p).children.last with
        | none =>
          rw [tail] at last
          exact (some.inj last).symm
        | some _ =>
          rw [tail] at last
          exact (some.inj last).symm
      rw [new]
      exact ⟨kid, hangs⟩
    · rw [if_neg here] at last
      exact hung p' inside' l last

end

structure Refreshed (h h' : Vdevs δ) : Prop where
  count : h'.count = h.count
  vdev : ∀ q, ∃ state nchildren, h'.vdev q = { h.vdev q with state, nchildren }

section

variable {gs : List Nat} {r : Nat} {h h' h'' : Vdevs δ}

theorem Refreshed.refl (h : Vdevs δ) : Refreshed h h := ⟨rfl, fun _ => ⟨_, _, rfl⟩⟩

theorem Refreshed.trans (first : Refreshed h h') (second : Refreshed h' h'') : Refreshed h h'' := by
  refine ⟨second.count.trans first.count, fun q => ?_⟩
  obtain ⟨_, _, same⟩ := first.vdev q
  obtain ⟨state, nchildren, same'⟩ := second.vdev q
  exact ⟨state, nchildren, by rw [same', same]⟩

theorem Refreshed.modify (h : Vdevs δ) (p : Nat) (f : VdevT δ → VdevState) (n : VdevT δ → Int) :
    Refreshed h (h.modify p fun v => { v with state := f v, nchildren := n v }) := by
  refine ⟨rfl, fun q => ?_⟩
  by_cases here : q = p
  · subst here
    exact ⟨_, _, update_self ..⟩
  · exact ⟨_, _, update_of_ne here ..⟩

theorem Refreshed.guid (same : Refreshed h h') (q : Nat) : (h'.vdev q).guid = (h.vdev q).guid := by
  obtain ⟨_, _, equal⟩ := same.vdev q
  rw [equal]

theorem Refreshed.top (same : Refreshed h h') (q : Nat) : (h'.vdev q).top = (h.vdev q).top := by
  obtain ⟨_, _, equal⟩ := same.vdev q
  rw [equal]

theorem Refreshed.find (same : Refreshed h h') (g : Nat) : vdevFind h' g = vdevFind h g :=
  vdevFind_congr same.count same.guid g

theorem Refreshed.grows (same : Refreshed h h') : Grows gs r h h' := by
  have equal : ∀ q, (h'.vdev q).ashift = (h.vdev q).ashift ∧ (h'.vdev q).childlink = (h.vdev q).childlink := by
    intro q
    obtain ⟨_, _, equal⟩ := same.vdev q
    rw [equal]
    exact ⟨rfl, rfl⟩
  refine ⟨same.count.ge, fun q _ => same.guid q, fun q _ => same.top q, fun q _ => (equal q).1,
    fun q _ _ => (equal q).2, fun q less new => ?_⟩
  rw [same.count] at less
  exact absurd less (not_lt.mpr new)

theorem Refreshed.hung (same : Refreshed h h') (hung : Hung h) : Hung h' := by
  intro p inside q last
  rw [same.count] at inside ⊢
  rw [same.top]
  obtain ⟨_, _, equal⟩ := same.vdev p
  rw [equal] at last
  exact hung p inside q last

end

theorem vdevEnter_ok {d : Details} {pvdev : Option Nat} {isNewer isNew : Bool} {h h' : Vdevs δ} {p : Nat}
    (entered : vdevEnter d pvdev isNewer h = (0, p, isNew, h')) :
    (vdevFind h (d.guid.getD 0) = some p ∧ isNew = false ∧ Refreshed h h') ∨
      (vdevFind h (d.guid.getD 0) = none ∧ isNew = true ∧ p = h.count ∧ h' = h.push (d.vdev pvdev h.count 0)) := by
  cases guid : d.guid with
  | none =>
    rw [vdevEnter, guid] at entered
    cases congrArg Prod.fst entered
  | some g =>
  rw [getD_some]
  cases found : vdevFind h g with
  | some q =>
    refine .inl ?_
    rw [vdevEnter, guid] at entered
    cases id : d.id with
    | none =>
      rw [id] at entered
      cases congrArg Prod.fst entered
    | some _ =>
    rw [id] at entered
    cases type : d.type with
    | none =>
      rw [type] at entered
      cases congrArg Prod.fst entered
    | some type' =>
    rw [type] at entered
    dsimp only at entered
    cases supported : vdevType type' with
    | none =>
      rw [supported] at entered
      cases congrArg Prod.fst entered
    | some _ =>
      rw [supported] at entered
      rw [found] at entered
      obtain ⟨-, same⟩ := Prod.mk.inj entered
      obtain ⟨here, same⟩ := Prod.mk.inj same
      obtain ⟨old, rfl⟩ := Prod.mk.inj same
      refine ⟨congrArg some here, old.symm, ?_⟩
      cases isNewer
      · exact .refl h
      · exact Refreshed.modify h q (fun v => d.flagged.getD v.state) fun v => v.nchildren
  | none =>
    have complete : d.Complete := by
      rw [vdevEnter, guid] at entered
      cases id : d.id with
      | none =>
        rw [id] at entered
        cases congrArg Prod.fst entered
      | some _ =>
      rw [id] at entered
      cases type : d.type with
      | none =>
        rw [type] at entered
        cases congrArg Prod.fst entered
      | some type' =>
      rw [type] at entered
      dsimp only at entered
      cases supported : vdevType type' with
      | none =>
        rw [supported] at entered
        cases congrArg Prod.fst entered
      | some _ =>
        rw [supported] at entered
        rw [found] at entered
        dsimp only at entered
        cases named : vdevName d type' (d.nparity.getD 0) with
        | none =>
          rw [vdevAdd, named] at entered
          cases congrArg Prod.fst entered
        | some _ => simp [Details.Complete, guid, id, type, supported, named]
    have unknown : ∀ q < h.count, (h.vdev q).guid ≠ d.guid.getD 0 := by
      rw [guid]
      exact vdevFind_eq_none.mp found
    rw [vdevEnter_new complete unknown] at entered
    obtain ⟨-, same⟩ := Prod.mk.inj entered
    obtain ⟨root, same⟩ := Prod.mk.inj same
    obtain ⟨new, pushed⟩ := Prod.mk.inj same
    exact .inr ⟨rfl, new.symm, root.symm, pushed.symm⟩

/-- A tree that is accepted: its root is entered, its number of children noted, and then come the children. -/
theorem vdevInit_ok {c : Config} {pvdev : Option Nat} {isNewer : Bool} {h h' : Vdevs δ} {p : Nat}
    (ran : vdevInit c pvdev isNewer h = (0, p, h')) :
    ∃ (d : Details) (isNew : Bool) (h₁ h₂ : Vdevs δ), c.guid = d.guid.getD 0 ∧ c.ashift = d.ashift.getD 0 ∧
      vdevEnter d pvdev isNewer h = (0, p, isNew, h₁) ∧ Refreshed h₁ h₂ ∧ vdevInitKids c.entered p isNew isNewer h₂ =
        (0, h') := by
  obtain ⟨d, nkids, kids⟩ := c
  rw [vdevInit] at ran
  generalize entered : vdevEnter d pvdev isNewer h = reply at ran
  obtain ⟨rc, q, isNew, h₁⟩ := reply
  dsimp only at ran
  by_cases failed : rc ≠ 0
  · rw [if_pos failed] at ran
    exact absurd (congrArg Prod.fst ran) failed
  obtain rfl := not_not.mp failed
  cases nkids with
  | none =>
    obtain ⟨-, same⟩ := Prod.mk.inj ran
    obtain ⟨rfl, rfl⟩ := Prod.mk.inj same
    exact ⟨d, isNew, h₁, _, rfl, rfl, entered, Refreshed.modify h₁ q (fun v => v.state) fun _ =>
      0, by rw [Config.entered, vdevInitKids]⟩
  | some n =>
    dsimp only at ran
    generalize below : vdevInitKids kids q isNew isNewer (h₁.modify q ({ · with nchildren := n })) = reply at ran
    obtain ⟨rc, h₂⟩ := reply
    by_cases stopped : rc ≠ 0
    · rw [if_pos stopped] at ran
      exact absurd (congrArg Prod.fst ran) stopped
    obtain rfl := not_not.mp stopped
    obtain ⟨-, same⟩ := Prod.mk.inj ran
    obtain ⟨rfl, rfl⟩ := Prod.mk.inj same
    exact ⟨d, isNew, h₁, _, rfl, rfl, entered, Refreshed.modify h₁ q (fun v => v.state) fun _ => n, below⟩

theorem vdevInitKids_ok {c : Config} {cs : List Config} {p : Nat} {isNew isNewer : Bool} {h h' : Vdevs δ}
    (ran : vdevInitKids (c :: cs) p isNew isNewer h = (0, h')) :
    ∃ kid h₁, vdevInit c (some p) isNewer h = (0, kid, h₁) ∧
      vdevInitKids cs p isNew isNewer (if isNew then insertChild h₁ p kid else h₁) = (0, h') := by
  rw [vdevInitKids] at ran
  generalize vdevInit c (some p) isNewer h = reply at ran ⊢
  obtain ⟨rc, kid, h₁⟩ := reply
  dsimp only at ran
  by_cases failed : rc ≠ 0
  · rw [if_pos failed] at ran
    exact absurd (congrArg Prod.fst ran) failed
  obtain rfl := not_not.mp failed
  exact ⟨kid, h₁, rfl, ran⟩

mutual

theorem vdevInit_refreshed (c : Config) {pvdev : Option Nat} {isNewer : Bool} {h h' : Vdevs δ} {p : Nat}
    (known : ∀ g ∈ c.walked, (vdevFind h g).isSome) (ran : vdevInit c pvdev isNewer h = (0, p, h')) :
    Refreshed h h' ∧ vdevFind h c.guid = some p := by
  obtain ⟨_, _, _, _, guid, -, entered, same, below⟩ := vdevInit_ok ran
  rw [walked_eq] at known
  obtain ⟨found, rfl, same'⟩ | ⟨missing, -⟩ := vdevEnter_ok entered
  · have all := same'.trans same
    have rest := vdevInitKids_refreshed c.entered
      (fun g member => by rw [all.find]; exact known g (mem_cons_of_mem _ member)) below
    exact ⟨all.trans rest, guid ▸ found⟩
  · have root := known c.guid mem_cons_self
    rw [guid, missing] at root
    cases root
termination_by sizeOf c
decreasing_by exact entered_size c

theorem vdevInitKids_refreshed (cs : List Config) {p : Nat} {isNewer : Bool} {h h' : Vdevs δ}
    (known : ∀ g ∈ walkedAll cs, (vdevFind h g).isSome) (ran : vdevInitKids cs p false isNewer h = (0, h')) :
    Refreshed h h' := by
  match cs with
  | [] =>
    obtain ⟨-, rfl⟩ := Prod.mk.inj ran
    exact .refl _
  | c :: cs =>
    obtain ⟨_, _, first, rest⟩ := vdevInitKids_ok ran
    have same := (vdevInit_refreshed c (fun g member => known g (mem_append_left _ member)) first).1
    exact same.trans (vdevInitKids_refreshed cs
      (fun g member => by rw [same.find]; exact known g (mem_append_right _ member)) rest)
termination_by sizeOf cs
decreasing_by
  all_goals
    rw [List.cons.sizeOf_spec]
    omega

end

section

variable {gs : List Nat} {r : Nat} {h h' : Vdevs δ}

theorem Grows.push {v : VdevT δ} (top : v.top = r) (named : v.guid ∈ gs) : Grows gs r h (h.push v) := by
  refine ⟨Nat.le_succ _, ?_, ?_, ?_, ?_, fun q less new => ?_⟩
  · exact fun q inside => by rw [push_old h v inside]
  · exact fun q inside => by rw [push_old h v inside]
  · exact fun q inside => by rw [push_old h v inside]
  · exact fun q inside _ => by rw [push_old h v inside]
  · rw [push_count] at less
    obtain rfl : q = h.count := by omega
    rw [push_last]
    exact ⟨top, named⟩

theorem Hung.push (hung : Hung h) {v : VdevT δ} (childless : v.children = Stailq.empty) : Hung (h.push v) := by
  intro p inside q last
  rw [push_count] at inside ⊢
  by_cases old : p < h.count
  · rw [push_old h v old] at last
    obtain ⟨less, hangs⟩ := hung p old q last
    rw [push_old h v less]
    exact ⟨less.trans (Nat.lt_succ_self _), hangs⟩
  · obtain rfl : p = h.count := by omega
    rw [push_last, childless] at last
    cases last

theorem vdevFind_push {g : Nat} {v : VdevT δ} (missing : vdevFind h g = none) (guid : v.guid = g) :
    vdevFind (h.push v) g = some h.count := by
  rw [vdevFind_eq_some_iff, push_last]
  refine ⟨Nat.lt_succ_self _, guid, fun q less => ?_⟩
  rw [push_old h v less]
  exact vdevFind_eq_none.mp missing q less

theorem vdevInitKids_known_below (cs : List Config) {p : Nat} {isNew isNewer : Bool} (hung : Hung h)
    (inside : p < h.count) (known : ∀ g ∈ walkedAll cs, KnownBelow h r g)
    (ran : vdevInitKids cs p isNew isNewer h = (0, h')) : Grows gs r h h' ∧ Hung h' := by
  induction cs generalizing h with
  | nil =>
    obtain ⟨-, rfl⟩ := Prod.mk.inj ran
    exact ⟨.refl _, hung⟩
  | cons c cs ih =>
    obtain ⟨kid, h₁, first, rest⟩ := vdevInitKids_ok ran
    have here : ∀ g ∈ c.walked, (vdevFind h g).isSome := by
      intro g member
      obtain ⟨q, found, -⟩ := known g (mem_append_left _ member)
      rw [found]
      rfl
    obtain ⟨same, found⟩ := vdevInit_refreshed c here first
    have grows : Grows gs r h h₁ := same.grows
    obtain ⟨q, found', top, other⟩ := known c.guid (mem_append_left _ (by rw [walked_eq]; exact mem_cons_self))
    obtain rfl := some.inj (found.symm.trans found')
    have hangs : (h₁.vdev kid).top ≠ kid := by
      rw [same.top, top]
      exact other.symm
    have later : ∀ g ∈ walkedAll cs, KnownBelow h₁ r g :=
      fun g member => grows.knownBelow (known g (mem_append_right _ member))
    have less : p < h₁.count := inside.trans_le grows.count
    cases isNew with
    | false =>
      obtain ⟨grows', hung'⟩ := ih (same.hung hung) less later rest
      exact ⟨grows.trans grows', hung'⟩
    | true =>
      obtain ⟨inserted, hung₁⟩ := @Hung.insertChild _ gs r h₁ (same.hung hung) p kid less
        ((vdevFind_eq_some_iff.mp found).1.trans_le grows.count) hangs
      obtain ⟨grows', hung'⟩ := ih hung₁ less (fun g member => inserted.knownBelow (later g member)) rest
      exact ⟨(grows.trans inserted).trans grows', hung'⟩

theorem vdevInit_kid {c : Config} {k : Nat} {isNewer : Bool} (hung : Hung h) (inside : r < h.count)
    (named : c.guid ∈ gs) (below : Below h r c.guid) (known : ∀ g ∈ walkedAll c.entered, KnownBelow h r g)
    (ran : vdevInit c (some r) isNewer h = (0, k, h')) :
    Grows gs r h h' ∧ Hung h' ∧ KnownBelow h' r c.guid ∧ vdevFind h' c.guid = some k := by
  obtain ⟨_, isNew, h₁, h₂, guid, -, entered, same, kids⟩ := vdevInit_ok ran
  obtain ⟨grows₁, hung₁, found₁⟩ : Grows gs r h h₁ ∧ Hung h₁ ∧ vdevFind h₁ c.guid = some k := by
    rw [guid] at named ⊢
    obtain ⟨found, -, same'⟩ | ⟨missing, -, rfl, rfl⟩ := vdevEnter_ok entered
    · exact ⟨same'.grows, same'.hung hung, (same'.find _).trans found⟩
    · exact ⟨.push rfl named, hung.push rfl, vdevFind_push missing rfl⟩
  have grows₂ : Grows gs r h h₂ := grows₁.trans same.grows
  have found₂ : vdevFind h₂ c.guid = some k := (same.find _).trans found₁
  obtain ⟨grows₃, hung₃⟩ := @vdevInitKids_known_below _ gs r h₂ h' c.entered k isNew isNewer (same.hung hung₁)
    (vdevFind_eq_some_iff.mp found₂).1 (fun g member => grows₂.knownBelow (known g member)) kids
  have grows := grows₂.trans grows₃
  have found := grows₃.find found₂
  exact ⟨grows, hung₃, ⟨k, found, grows.below inside below k found⟩, found⟩

theorem vdevInitKids_root (cs : List Config) {isNew isNewer : Bool} (hung : Hung h) (inside : r < h.count)
    (named : ∀ c ∈ cs, c.guid ∈ gs) (below : ∀ c ∈ cs, Below h r c.guid)
    (known : ∀ c ∈ cs, ∀ g ∈ walkedAll c.entered, KnownBelow h r g)
    (ran : vdevInitKids cs r isNew isNewer h = (0, h')) :
    Grows gs r h h' ∧ Hung h' ∧ ∀ g ∈ walkedAll cs, KnownBelow h' r g := by
  induction cs generalizing h with
  | nil =>
    obtain ⟨-, rfl⟩ := Prod.mk.inj ran
    exact ⟨.refl _, hung, fun g member => absurd member not_mem_nil⟩
  | cons c cs ih =>
    obtain ⟨kid, h₁, first, rest⟩ := vdevInitKids_ok ran
    obtain ⟨grows₁, hung₁, hangs, found⟩ := vdevInit_kid hung inside (named c mem_cons_self) (below c mem_cons_self)
      (known c mem_cons_self) first
    obtain ⟨grows₂, hung₂⟩ : Grows gs r h₁ (if isNew then insertChild h₁ r kid else h₁) ∧
      Hung (if isNew then insertChild h₁ r kid else h₁) := by
      cases isNew with
      | false => exact ⟨.refl _, hung₁⟩
      | true =>
        obtain ⟨_, found', top, other⟩ := hangs
        obtain rfl := some.inj (found.symm.trans found')
        exact hung₁.insertChild (inside.trans_le grows₁.count) (vdevFind_eq_some_iff.mp found).1
          (by rw [top]; exact other.symm)
    have grows := grows₁.trans grows₂
    obtain ⟨grows₃, hung₃, all⟩ :=
      ih hung₂ (inside.trans_le grows.count) (fun c member => named c (mem_cons_of_mem _ member))
      (fun c member => grows.below inside (below c (mem_cons_of_mem _ member)))
      (fun c member g walked => grows.knownBelow (known c (mem_cons_of_mem _ member) g walked)) rest
    refine ⟨grows.trans grows₃, hung₃, fun g member => ?_⟩
    rw [walkedAll, mem_append, walked_eq, mem_cons] at member
    obtain (rfl | deeper) | later := member
    · exact grows₃.knownBelow (grows₂.knownBelow hangs)
    · exact grows₃.knownBelow (grows.knownBelow (known c mem_cons_self g deeper))
    · exact all g later

/-- A tree whose known vdevs are below its root, and whose vdevs more than one level below the root are known. -/
theorem vdevInit_root {c : Config} {p : Nat} {isNewer : Bool} (hung : Hung h) (apart : c.guid ∉ walkedAll c.entered)
    (agrees : (∃ r, vdevFind h c.guid = some r ∧ (h.vdev r).top = r ∧ ∀ g ∈ walkedAll c.entered, Below h r g) ∨
      ∀ g ∈ c.walked, vdevFind h g = none) (deep : ∀ g ∈ c.deep, (vdevFind h g).isSome)
    (ran : vdevInit c none isNewer h = (0, p, h')) :
    Grows c.walked p h h' ∧ Hung h' ∧ vdevFind h' c.guid = some p ∧ (h'.vdev p).top = p ∧
      (∀ g ∈ walkedAll c.entered, KnownBelow h' p g) ∧
      (vdevFind h c.guid = some p ∨ h.count ≤ p ∧ (h'.vdev p).ashift = c.ashift) := by
  obtain ⟨d, isNew, h₁, h₂, guid, ashift, entered, same, kids⟩ := vdevInit_ok ran
  have walks : ∀ k ∈ c.entered, ∀ g ∈ k.walked, g ∈ walkedAll c.entered := fun k => guid_mem_walkedAll
  have root : ∀ k : Config, k.guid ∈ k.walked := fun k => by
    rw [walked_eq]
    exact mem_cons_self
  obtain ⟨grows₁, hung₁, found₁, top₁, below₁, deep₁, fresh⟩ : Grows c.walked p h h₁ ∧ Hung h₁ ∧
    vdevFind h₁ c.guid = some p ∧
      (h₁.vdev p).top = p ∧ (∀ g ∈ walkedAll c.entered, Below h₁ p g) ∧
        (∀ k ∈ c.entered, ∀ g ∈ walkedAll k.entered, KnownBelow h₁ p g) ∧
      (vdevFind h c.guid = some p ∨ h.count ≤ p ∧ (h₁.vdev p).ashift = c.ashift) := by
    obtain ⟨found, -, same'⟩ | ⟨missing, -, rfl, rfl⟩ := vdevEnter_ok entered
    · rw [← guid] at found
      obtain ⟨r, found', top, below⟩ | unknown := agrees
      · obtain rfl := some.inj (found.symm.trans found')
        have grows : Grows c.walked p h h₁ := same'.grows
        refine ⟨grows, same'.hung hung, grows.find found, (same'.top p).trans top,
          fun g member => ?_, fun k kid g member => ?_, .inl found⟩
        · exact grows.below (vdevFind_eq_some_iff.mp found).1 (below g member)
        · obtain ⟨q, there⟩ := isSome_iff_exists.mp (deep g (mem_flatMap.mpr ⟨k, kid, member⟩))
          exact grows.knownBelow ⟨q, there,
            below g (walks k kid g (by rw [walked_eq]; exact mem_cons_of_mem _ member)) q there⟩
      · rw [unknown c.guid (root c)] at found
        cases found
    · rw [← guid] at missing
      obtain ⟨r, found', -⟩ | unknown := agrees
      · rw [missing] at found'
        cases found'
      have mine : (d.vdev none h.count 0 : VdevT δ).guid = c.guid := guid.symm
      have grows : Grows c.walked h.count h (h.push (d.vdev none h.count 0)) := .push rfl (by rw [mine]; exact root c)
      refine ⟨grows, hung.push rfl, vdevFind_push missing guid.symm, by rw [push_last]; rfl, fun g member q found => ?_,
        fun k kid g member => ?_, .inr ⟨le_rfl, by rw [push_last]; exact ashift.symm⟩⟩
      · by_cases old : q < h.count
        · have found := grows.find_old found old
          rw [unknown g (by rw [walked_eq]; exact mem_cons_of_mem _ member)] at found
          cases found
        · obtain ⟨less, named, -⟩ := vdevFind_eq_some_iff.mp found
          rw [push_count] at less
          obtain rfl : q = h.count := by omega
          rw [push_last, mine] at named
          rw [← named] at member
          exact absurd member apart
      · have known := deep g (mem_flatMap.mpr ⟨k, kid, member⟩)
        rw [unknown g (by rw [walked_eq]; exact mem_cons_of_mem _ (walks k kid g
          (by rw [walked_eq]; exact mem_cons_of_mem _ member)))] at known
        cases known
  have inside : p < h₁.count := (vdevFind_eq_some_iff.mp found₁).1
  have grows₂ : Grows c.walked p h₁ h₂ := same.grows
  obtain ⟨grows₃, hung₃, all⟩ :=
    @vdevInitKids_root _ c.walked p h₂ h' c.entered isNew isNewer (same.hung hung₁) (inside.trans_le grows₂.count)
    (fun k kid => by rw [walked_eq]; exact mem_cons_of_mem _ (walks k kid k.guid (root k)))
    (fun k kid => grows₂.below inside (below₁ k.guid (walks k kid k.guid (root k))))
    (fun k kid g member => grows₂.knownBelow (deep₁ k kid g member)) kids
  have rest := grows₂.trans grows₃
  refine ⟨grows₁.trans rest, hung₃, rest.find found₁, (rest.top p inside).trans top₁, all, fresh.imp_right ?_⟩
  rintro ⟨new, noted⟩
  exact ⟨new, (rest.ashift p inside).trans noted⟩

end

structure TopLists (h : Vdevs δ) (heads : List (Stailq.Head Nat)) (tops : Nat → List Nat) : Prop where
  holds : ∀ i head, heads[i]? = some head → Stailq.Holds h.links head (tops i)
  roots : ∀ i < heads.length, ∀ r ∈ tops i, r < h.count ∧ (h.vdev r).top = r
  separate : ∀ i < heads.length, ∀ j < heads.length, i ≠ j → ∀ r ∈ tops i, r ∉ tops j

section

variable {gs : List Nat} {r : Nat} {h h' : Vdevs δ} {heads : List (Stailq.Head Nat)} {tops : Nat → List Nat}

theorem TopLists.chain (lists : TopLists h heads tops) {i : Nat} {head : Stailq.Head Nat} (found : heads[i]? = some head) :
    h.chain head = tops i := by
  have chain := (lists.holds i head found).chain
  have within : tops i ⊆ List.range h.count := by
    intro p member
    exact mem_range.mpr (lists.roots i (List.getElem?_eq_some_iff.mp found).1 p member).1
  have short := (chain.nodup.subperm within).length_le
  rw [length_range] at short
  exact chain.walk_eq short

theorem TopLists.grows (lists : TopLists h heads tops) (grows : Grows gs r h h') : TopLists h' heads tops := by
  refine ⟨fun i head found => ?_, fun i less q member => ?_, lists.separate⟩
  · refine (lists.holds i head found).congr fun q member => ?_
    obtain ⟨inside, root⟩ := lists.roots i (List.getElem?_eq_some_iff.mp found).1 q member
    exact grows.links q inside root
  · obtain ⟨inside, root⟩ := lists.roots i less q member
    exact ⟨inside.trans_le grows.count, (grows.top q inside).trans root⟩

theorem TopLists.create (lists : TopLists h heads tops) :
    TopLists h (heads ++ [Stailq.empty]) (update tops heads.length []) := by
  have old : ∀ i, ∀ r ∈ update tops heads.length [] i, i ≠ heads.length ∧ r ∈ tops i := by
    intro i r member
    by_cases here : i = heads.length
    · rw [here, update_self] at member
      cases member
    · rw [update_of_ne here] at member
      exact ⟨here, member⟩
  have length : (heads ++ [Stailq.empty (ι := Nat)]).length = heads.length + 1 := length_append
  refine ⟨fun i head found => ?_, fun i less q member => ?_, fun i less j less' differ q member member' => ?_⟩
  · by_cases here : i = heads.length
    · subst here
      rw [List.getElem?_append_right le_rfl, Nat.sub_self] at found
      cases found
      rw [update_self]
      exact Stailq.holds_empty
    · have less := (List.getElem?_eq_some_iff.mp found).1
      rw [List.getElem?_append_left (by omega)] at found
      rw [update_of_ne here]
      exact lists.holds i head found
  · obtain ⟨here, member⟩ := old i q member
    exact lists.roots i (by omega) q member
  · obtain ⟨here, member⟩ := old i q member
    obtain ⟨_, member'⟩ := old j q member'
    exact lists.separate i (by omega) j (by omega) differ q member member'

theorem TopLists.insert (lists : TopLists h heads tops) {i : Nat} {head : Stailq.Head Nat} (found : heads[i]? = some head)
    (inside : r < h.count) (root : (h.vdev r).top = r) (fresh : ∀ j < heads.length, r ∉ tops j) :
    TopLists (h.setLinks (Stailq.insertTail h.links head r).1) (heads.set i (Stailq.insertTail h.links head r).2)
      (update tops i (tops i ++ [r])) := by
  have less := (List.getElem?_eq_some_iff.mp found).1
  have here := lists.holds i head found
  have links : (h.setLinks (Stailq.insertTail h.links head r).1).links = (Stailq.insertTail h.links head r).1 := rfl
  have members : ∀ j q, q ∈ update tops i (tops i ++ [r]) j ↔ q ∈ tops j ∨ j = i ∧ q = r := by
    intro j q
    by_cases same : j = i
    · subst same
      simp
    · simp [same]
  refine ⟨fun j head' found' => ?_, fun j less' q member => ?_, fun j less' k less'' differ q member => ?_⟩
  · by_cases same : j = i
    · subst same
      rw [List.getElem?_set_self less, Option.some.injEq] at found'
      subst found'
      rw [update_self]
      exact here.insertTail (fresh j less)
    · rw [List.getElem?_set_ne (Ne.symm same)] at found'
      rw [update_of_ne same]
      have less' := (List.getElem?_eq_some_iff.mp found').1
      exact here.insertTail_other (lists.holds j head' found') (fresh j less') (lists.separate i less j less' (Ne.symm same))
  · rw [length_set] at less'
    obtain member | ⟨-, rfl⟩ := (members j q).mp member
    · exact lists.roots j less' q member
    · exact ⟨inside, root⟩
  · rw [length_set] at less' less''
    rw [members, not_or]
    obtain old | ⟨rfl, rfl⟩ := (members j q).mp member
    · refine ⟨lists.separate j less' k less'' differ q old, ?_⟩
      rintro ⟨-, rfl⟩
      exact fresh j less' old
    · exact ⟨fresh k less'', fun same => differ same.1.symm⟩

end

/-- The pool and the vdev tree in the label of a device that is not turned down before. -/
def labelTree (media : Media δ) (dev : δ) : Option (Nat × Config) :=
  (media.label dev).bind fun label => (label.pool media).bind fun pool => label.tree.map fun tree => (pool.2.1, tree)

/-- A label that agrees with the earlier ones: its root is not a vdev below itself, labels with a vdev in common have
the root, its ashift and the pool in common, and every vdev more than one level below the root is in an earlier
label. -/
def Agrees (seen : List (Nat × Config)) (e : Nat × Config) : Prop :=
  e.2.guid ∉ walkedAll e.2.entered ∧
    (∀ e' ∈ seen, (∃ g ∈ e.2.walked, g ∈ e'.2.walked) → e'.2.guid = e.2.guid ∧ e'.1 = e.1 ∧ e'.2.ashift = e.2.ashift) ∧
    ∀ g ∈ e.2.deep, ∃ e' ∈ seen, g ∈ e'.2.walked

instance (seen : List (Nat × Config)) (e : Nat × Config) : Decidable (Agrees seen e) :=
  inferInstanceAs (Decidable (_ ∧ _ ∧ _))

def Flat : List (Nat × Config) → List (Nat × Config) → Prop
  | _, [] => True
  | seen, e :: es => Agrees seen e ∧ Flat (e :: seen) es

instance decidableFlat : ∀ seen es, Decidable (Flat seen es)
  | _, [] => isTrue trivial
  | seen, e :: es =>
    have := decidableFlat (e :: seen) es
    inferInstanceAs (Decidable (Agrees seen e ∧ _))

/-- The vdevs of a tree point at its top-level vdev `r`, which has the tree's ashift. -/
structure PointsUp (h : Vdevs δ) (c : Config) (r : Nat) : Prop where
  root : vdevFind h c.guid = some r
  ashift : (h.vdev r).ashift = c.ashift
  top : ∀ g ∈ c.walked, ∃ q, vdevFind h g = some q ∧ (h.vdev q).top = r

structure Topped (st : ZfsState δ) (seen : List (Nat × Config)) (tops : Nat → List Nat) : Prop where
  hung : Hung st.vdevs
  lists : TopLists st.vdevs (st.pools.map (·.vdevs)) tops
  covered : ∀ p < st.vdevs.count, ∃ e ∈ seen, (st.vdevs.vdev p).guid ∈ e.2.walked
  placed : ∀ e ∈ seen, ∃ r, PointsUp st.vdevs e.2 r ∧ ∃ i, spaFindByGuid st.pools e.1 = some i ∧ r ∈ tops i

def sameAshift (v : VdevT δ) (d : Details) : Prop := v.ashift = d.ashift.getD 0

theorem sameAshift_static : Details.Static (sameAshift (δ := δ)) where
  new := fun _ _ _ _ => rfl
  stable := fun _ _ _ same equal => (congrArg VdevT.ashift same).symm.trans equal
  state := fun _ _ _ _ equal => equal

theorem SameShape.ashift {h h' : Vdevs δ} (same : SameShape sameAshift h h') (q : Nat) : (h'.vdev q).ashift = (h.vdev q).ashift :=
  same.good q ⟨none, none, none, 0, 0, 0, 0, 0, some (h.vdev q).ashift, none, none⟩ rfl

theorem SameShape.grows {gs : List Nat} {r : Nat} {h h' : Vdevs δ} (same : SameShape sameAshift h h') :
    Grows gs r h h' := by
  refine ⟨same.count.ge, fun q _ => same.guid q, fun q _ => same.top q, fun q _ => same.ashift q, fun q _ _ =>
    same.childlink q, fun q less new => ?_⟩
  rw [same.count] at less
  exact absurd less (not_lt.mpr new)

theorem PointsUp.grows {gs : List Nat} {r r' : Nat} {h h' : Vdevs δ} {c : Config} (points : PointsUp h c r)
    (grows : Grows gs r' h h') :
    PointsUp h' c r := by
  refine ⟨grows.find points.root, ?_, fun g member => ?_⟩
  · rw [grows.ashift r (vdevFind_eq_some_iff.mp points.root).1, points.ashift]
  · obtain ⟨q, found, top⟩ := points.top g member
    refine ⟨q, grows.find found, ?_⟩
    rw [grows.top q (vdevFind_eq_some_iff.mp found).1, top]

section

variable {st st' : ZfsState δ} {seen : List (Nat × Config)} {tops : Nat → List Nat}

theorem Topped.sameShape (topped : Topped st seen tops) (same : SameShape sameAshift st.vdevs st'.vdevs)
    (heads : st'.pools.map (·.vdevs) = st.pools.map (·.vdevs))
    (find : ∀ g i, spaFindByGuid st.pools g = some i → spaFindByGuid st'.pools g = some i) :
    Topped st' seen tops := by
  have grows : Grows [] 0 st.vdevs st'.vdevs := same.grows
  refine ⟨fun p inside q last => ?_, heads ▸ topped.lists.grows grows, fun p inside => ?_, fun e member => ?_⟩
  · rw [same.count] at inside ⊢
    rw [same.children] at last
    rw [same.top]
    exact topped.hung p inside q last
  · rw [same.count] at inside
    rw [same.guid]
    exact topped.covered p inside
  · obtain ⟨r, points, i, found, listed⟩ := topped.placed e member
    exact ⟨r, points.grows grows, i, find e.1 i found, listed⟩

variable {media : Media δ} {e : Nat × Config} {dev : δ} {i : Nat}

theorem spaFindByGuid_append {pools : List Spa} {g : Nat} (found : spaFindByGuid pools g = some i) (spa : Spa) :
    spaFindByGuid (pools ++ [spa]) g = some i := by
  rw [spaFindByGuid] at found ⊢
  rw [List.findIdx?_append, found, some_or]

theorem Topped.enter (topped : Topped st seen tops) (txg poolGuid : Nat) (name : Bytes) :
    ∃ tops', Topped { st with pools := (enterPool st.pools txg poolGuid name).2.2 } seen tops' := by
  have heads := (enterPool_heads st.pools txg poolGuid name).1
  have find : ∀ g i, spaFindByGuid (findOrCreateSpa st.pools poolGuid name).2 g = some i →
      spaFindByGuid (enterPool st.pools txg poolGuid name).2.2 g = some i := by
    intro g i found
    rw [enterPool]
    dsimp only
    split_ifs
    · have keeps : ∀ spa : Spa, ({ spa with txg } : Spa).guid = spa.guid := fun _ => rfl
      exact (spaFindByGuid_modify keeps).trans found
    · exact found
  rw [findOrCreateSpa] at heads find
  cases there : spaFindByGuid st.pools poolGuid with
  | some i =>
    rw [there] at heads find
    exact ⟨tops, topped.sameShape (.refl _) heads find⟩
  | none =>
    rw [there] at heads find
    refine ⟨update tops (st.pools.map (·.vdevs)).length [], topped.hung, ?_, topped.covered, fun e member => ?_⟩
    · rw [heads, map_append]
      exact topped.lists.create
    · obtain ⟨r, points, i, found, listed⟩ := topped.placed e member
      have inside : i < st.pools.length := (List.findIdx?_eq_some_iff_getElem.mp found).1
      refine ⟨r, points, i, find e.1 i (spaFindByGuid_append found _), ?_⟩
      rw [update_of_ne (by rw [length_map]; omega)]
      exact listed

theorem Topped.agrees (topped : Topped st seen tops) {e : Nat × Config} (agrees : Agrees seen e) :
    ((∃ r, vdevFind st.vdevs e.2.guid = some r ∧ (st.vdevs.vdev r).top = r ∧
        ∀ g ∈ walkedAll e.2.entered, Below st.vdevs r g) ∨ ∀ g ∈ e.2.walked, vdevFind st.vdevs g = none) ∧
      ∀ g ∈ e.2.deep, (vdevFind st.vdevs g).isSome := by
  obtain ⟨apart, same, deep⟩ := agrees
  refine ⟨?_, fun g member => ?_⟩
  · have shared : ∀ g ∈ e.2.walked, ∀ q, vdevFind st.vdevs g = some q → ∃ r, vdevFind st.vdevs e.2.guid = some r ∧
        (st.vdevs.vdev r).top = r ∧ (st.vdevs.vdev q).top = r := by
      intro g member q found
      obtain ⟨inside, guid, -⟩ := vdevFind_eq_some_iff.mp found
      obtain ⟨e', member', named⟩ := topped.covered q inside
      rw [guid] at named
      obtain ⟨r, points, -⟩ := topped.placed e' member'
      obtain ⟨q', found', top⟩ := points.top g named
      obtain rfl := some.inj (found.symm.trans found')
      have root := (same e' member' ⟨g, member, named⟩).1
      obtain ⟨r', found'', top'⟩ := points.top e'.2.guid (by rw [walked_eq]; exact mem_cons_self)
      obtain rfl := some.inj (points.root.symm.trans found'')
      exact ⟨r, root ▸ points.root, top', top⟩
    by_cases unknown : ∀ g ∈ e.2.walked, vdevFind st.vdevs g = none
    · exact .inr unknown
    · simp only [not_forall] at unknown
      obtain ⟨g, member, known⟩ := unknown
      obtain ⟨q, found⟩ := ne_none_iff_exists'.mp known
      obtain ⟨r, root, top, -⟩ := shared g member q found
      refine .inl ⟨r, root, top, fun g' below q' found' => ?_⟩
      obtain ⟨r', root', -, top'⟩ := shared g' (by rw [walked_eq]; exact mem_cons_of_mem _ below) q' found'
      obtain rfl := some.inj (root.symm.trans root')
      refine ⟨top', ?_⟩
      rintro rfl
      have guid := vdevFind_guid root
      rw [vdevFind_guid found'] at guid
      exact apart (guid ▸ below)
  · obtain ⟨e', member', named⟩ := deep g member
    obtain ⟨r, points, -⟩ := topped.placed e' member'
    obtain ⟨q, found, -⟩ := points.top g named
    rw [found]
    rfl

theorem Topped.attach (topped : Topped st seen tops) (agrees : Agrees seen e) {top : Nat} {isNewer : Bool}
    {h' : Vdevs δ} (pool : spaFindByGuid st.pools e.1 = some i)
    (ran : vdevInit e.2 none isNewer st.vdevs = (0, top, h')) :
    ∃ tops', Topped (addToplevel { st with vdevs := h' } i top) (e :: seen) tops' := by
  obtain ⟨spa, there, -⟩ := spaFindByGuid_eq_some pool
  have head : (st.pools.map (·.vdevs))[i]? = some spa.vdevs := by rw [List.getElem?_map, there, map_some]
  obtain ⟨known, deep⟩ := topped.agrees agrees
  obtain ⟨grows, hung, found, root, below, fresh⟩ := vdevInit_root topped.hung agrees.1 known deep ran
  have lists := topped.lists.grows grows
  have inside := (vdevFind_eq_some_iff.mp found).1
  have covered : ∀ p < h'.count, ∃ e' ∈ e :: seen, (h'.vdev p).guid ∈ e'.2.walked := by
    intro p less
    by_cases old : p < st.vdevs.count
    · rw [grows.guid p old]
      obtain ⟨e', member, named⟩ := topped.covered p old
      exact ⟨e', mem_cons_of_mem _ member, named⟩
    · exact ⟨e, mem_cons_self, (grows.new p less (not_lt.mp old)).2⟩
  have up : ∀ g ∈ e.2.walked, ∃ q, vdevFind h' g = some q ∧ (h'.vdev q).top = top := by
    intro g member
    rw [walked_eq] at member
    obtain _ | ⟨_, member⟩ := member
    · exact ⟨top, found, root⟩
    · obtain ⟨q, found', up, -⟩ := below g member
      exact ⟨q, found', up⟩
  have olds : ∀ e' ∈ seen, ∃ r, PointsUp h' e'.2 r ∧ ∃ j, spaFindByGuid st.pools e'.1 = some j ∧ r ∈ tops j := by
    intro e' member
    obtain ⟨r, points, j, position, listed⟩ := topped.placed e' member
    exact ⟨r, points.grows grows, j, position, listed⟩
  have find : ∀ g, spaFindByGuid (addToplevel { st with vdevs := h' } i top).pools g = spaFindByGuid st.pools g := by
    obtain ⟨_, keeps, pools⟩ := addToplevel_pools { st with vdevs := h' } i top
    intro g
    rw [pools]
    exact spaFindByGuid_modify fun spa => (keeps spa).1
  rw [addToplevel] at find ⊢
  rw [there] at find ⊢
  dsimp only at find ⊢
  rw [lists.chain head] at find ⊢
  by_cases listed : top ∈ tops i
  · rw [if_pos listed]
    have ashift : (h'.vdev top).ashift = e.2.ashift := by
      obtain old | ⟨-, new⟩ := fresh
      · obtain ⟨less, guid, -⟩ := vdevFind_eq_some_iff.mp old
        obtain ⟨e', member, named⟩ := topped.covered top less
        rw [guid] at named
        obtain ⟨sameRoot, -, sameAshift⟩ := agrees.2.1 e' member ⟨e.2.guid, by rw [walked_eq]; exact mem_cons_self, named⟩
        obtain ⟨r, points, -⟩ := olds e' member
        have same := points.root
        rw [sameRoot, found] at same
        rw [some.inj same, points.ashift, sameAshift]
      · exact new
    refine ⟨tops, hung, lists, covered, fun e' member => ?_⟩
    obtain _ | ⟨_, member⟩ := member
    · exact ⟨top, ⟨found, ashift, up⟩, i, pool, listed⟩
    · exact olds e' member
  rw [if_neg listed] at find ⊢
  obtain old | ⟨new, ashift⟩ := fresh
  · -- a known top-level vdev is already on the list of its pool
    obtain ⟨less, guid, -⟩ := vdevFind_eq_some_iff.mp old
    obtain ⟨e', member, named⟩ := topped.covered top less
    rw [guid] at named
    obtain ⟨sameRoot, samePool, -⟩ := agrees.2.1 e' member ⟨e.2.guid, by rw [walked_eq]; exact mem_cons_self, named⟩
    obtain ⟨r, points, j, position, there'⟩ := olds e' member
    have same := points.root
    rw [sameRoot, found] at same
    rw [samePool, pool] at position
    obtain rfl := some.inj position
    exact absurd (some.inj same ▸ there') listed
  have absent : ∀ j < (st.pools.map (·.vdevs)).length, top ∉ tops j := by
    intro j less member
    exact absurd (topped.lists.roots j less top member).1 (not_lt.mpr new)
  have inserted := lists.insert head inside root absent
  refine ⟨update tops i (tops i ++ [top]), hung, by rw [map_set]; exact inserted, covered, fun e' member => ?_⟩
  have kept : ∀ j r, r ∈ tops j → r ∈ update tops i (tops i ++ [top]) j := by
    intro j r member
    by_cases here : j = i
    · subst here
      rw [update_self]
      exact mem_append_left _ member
    · rw [update_of_ne here]
      exact member
  obtain _ | ⟨_, member⟩ := member
  · refine ⟨top, ⟨found, ashift, up⟩, i, (find e.1).trans pool, ?_⟩
    rw [update_self]
    exact mem_append_right _ mem_cons_self
  · obtain ⟨r, points, j, position, there'⟩ := olds e' member
    exact ⟨r, ⟨points.root, points.ashift, points.top⟩, j, (find e'.1).trans position, kept j r there'⟩

theorem vdevProbe_ok (ran : vdevProbe media st dev = (0, st')) :
    ∃ txg poolGuid name guid tree, labelTree media dev = some (poolGuid, tree) ∧
      attachVdev media dev (enterPool st.pools txg poolGuid name).1 guid (enterPool st.pools txg poolGuid name).2.1 tree
        { st with pools := (enterPool st.pools txg poolGuid name).2.2 } = (0, st') := by
  rw [vdevProbe] at ran
  rw [labelTree]
  cases read : media.label dev with
  | none =>
    rw [read] at ran
    cases congrArg Prod.fst ran
  | some label =>
  rw [read] at ran
  dsimp only at ran
  rw [probeLabel] at ran
  rw [bind_some]
  cases pool : label.pool media with
  | none =>
    rw [pool] at ran
    cases congrArg Prod.fst ran
  | some found =>
  obtain ⟨txg, poolGuid, name⟩ := found
  rw [pool] at ran
  cases guid : label.guid with
  | none =>
    rw [guid] at ran
    cases congrArg Prod.fst ran
  | some guid' =>
  rw [guid] at ran
  cases tree : label.tree with
  | none =>
    rw [tree] at ran
    cases congrArg Prod.fst ran
  | some c =>
    rw [tree] at ran
    dsimp only at ran
    by_cases inited : vdevInited st.vdevs guid'
    · rw [if_pos inited] at ran
      cases congrArg Prod.fst ran
    · rw [if_neg inited] at ran
      exact ⟨txg, poolGuid, name, guid', c, rfl, ran⟩

theorem attachVdev_ok {guid : Nat} {isNewer : Bool} {tree : Config}
    (ran : attachVdev media dev i guid isNewer tree st = (0, st')) :
    ∃ top h', vdevInit tree none isNewer st.vdevs = (0, top, h') ∧
      SameShape sameAshift (addToplevel { st with vdevs := h' } i top).vdevs st'.vdevs ∧
      st'.pools.map (·.vdevs) = (addToplevel { st with vdevs := h' } i top).pools.map (·.vdevs) ∧
      ∀ g, spaFindByGuid st'.pools g = spaFindByGuid (addToplevel { st with vdevs := h' } i top).pools g := by
  rw [attachVdev] at ran
  generalize vdevInit tree none isNewer st.vdevs = reply at ran ⊢
  obtain ⟨rc, top, h'⟩ := reply
  dsimp only at ran
  by_cases failed : rc ≠ 0
  · rw [if_pos failed] at ran
    exact absurd (congrArg Prod.fst ran) failed
  obtain rfl := not_not.mp failed
  refine ⟨top, h', rfl, ?_⟩
  generalize addToplevel { st with vdevs := h' } i top = placed at ran ⊢
  cases found : vdevFind placed.vdevs guid with
  | none =>
    rw [found] at ran
    cases congrArg Prod.fst ran
  | some vdev =>
    rw [found] at ran
    obtain ⟨-, rfl⟩ := Prod.mk.inj ran
    refine ⟨?_, map_modify_vdevs _ i fun pool => considerUberblock_vdevs _ pool, fun g => ?_⟩
    · exact SameShape.trans (.modify sameAshift_static _ vdev (fun _ => .healthy) fun _ => some dev)
        (.setState sameAshift_static _ top)
    · exact spaFindByGuid_modify fun pool => (considerUberblocks_kept pool _).2

theorem Topped.probe (topped : Topped st seen tops) (label : labelTree media dev = some e) (agrees : Agrees seen e)
    (ran : vdevProbe media st dev = (0, st')) : ∃ tops', Topped st' (e :: seen) tops' := by
  obtain ⟨txg, poolGuid, name, _, _, label', attached⟩ := vdevProbe_ok ran
  obtain rfl := some.inj (label.symm.trans label')
  obtain ⟨_, entered⟩ := topped.enter txg poolGuid name
  obtain ⟨_, _, inited, same, heads, find⟩ := attachVdev_ok attached
  obtain ⟨tops₂, placed⟩ := entered.attach agrees (enterPool_find st.pools txg poolGuid name).1 inited
  exact ⟨tops₂, placed.sameShape same heads fun g i found => (find g).trans found⟩

end

def AllSucceed (media : Media δ) : ZfsState δ → List δ → Prop
  | _, [] => True
  | st, dev :: devs => (vdevProbe media st dev).1 = 0 ∧ AllSucceed media (vdevProbe media st dev).2 devs

theorem probeRun_topped {media : Media δ} {devs : List δ} {st : ZfsState δ} {seen : List (Nat × Config)}
    {tops : Nat → List Nat} (topped : Topped st seen tops) (succeeds : AllSucceed media st devs)
    (flat : Flat seen (devs.filterMap (labelTree media))) :
    ∃ seen' tops', Topped (probeRun media st devs) seen' tops' ∧ ∀ e, e ∈ seen' ↔ e ∈ seen ∨
    e ∈ devs.filterMap (labelTree media) := by
  induction devs generalizing st seen tops with
  | nil => exact ⟨seen, tops, topped, fun e => by simp⟩
  | cons dev devs ih =>
    obtain ⟨ok, succeeds⟩ := succeeds
    have ran : vdevProbe media st dev = (0, (vdevProbe media st dev).2) := Prod.ext ok rfl
    obtain ⟨_, _, _, _, _, label, -⟩ := vdevProbe_ok ran
    rw [filterMap_cons_some label] at flat ⊢
    obtain ⟨agrees, flat⟩ := flat
    obtain ⟨_, next⟩ := topped.probe label agrees ran
    obtain ⟨seen', tops', last, same⟩ := ih next succeeds flat
    refine ⟨seen', tops', last, fun e => ?_⟩
    rw [same, mem_cons, mem_cons, or_assoc, or_left_comm]

/-- After any run of successful probes whose labels agree and show no new vdev more than one level below a top-level
one, v_top of every vdev is the top-level vdev above it, on the list of its pool and with the ashift of its labels,
which decides where uberblocks are read. -/
theorem probeRun_points_up (media : Media δ) (vdev : Nat → VdevT δ) (devs : List δ)
    (succeeds : AllSucceed media (noPools vdev) devs) (flat : Flat [] (devs.filterMap (labelTree media))) :
    let st := probeRun media (noPools vdev) devs
    (∀ p < st.vdevs.count, ∃ e ∈ devs.filterMap (labelTree media), (st.vdevs.vdev p).guid ∈ e.2.walked) ∧
      ∀ e ∈ devs.filterMap (labelTree media), ∃ r spa, PointsUp st.vdevs e.2 r ∧ poolWith st e.1 = some spa ∧
        r ∈ st.vdevs.chain spa.vdevs ∧
        ∀ dev, ∀ g ∈ e.2.walked, ring media st dev g = media.uberblocks dev e.2.ashift := by
  intro st
  have start : Topped (noPools vdev) [] fun _ => [] := by
    refine ⟨?_, ⟨?_, ?_, ?_⟩, ?_, ?_⟩
    all_goals simp [noPools, Hung]
  obtain ⟨_, _, topped, same⟩ := probeRun_topped start succeeds flat
  simp only [not_mem_nil, false_or] at same
  refine ⟨fun p inside => ?_, fun e member => ?_⟩
  · obtain ⟨e, member, named⟩ := topped.covered p inside
    exact ⟨e, (same e).mp member, named⟩
  · obtain ⟨r, points, i, found, listed⟩ := topped.placed e ((same e).mpr member)
    obtain ⟨spa, there, first⟩ := spaFindByGuid_eq_some found
    refine ⟨r, spa, points, first, ?_, fun dev g named => ?_⟩
    · have head : (st.pools.map (·.vdevs))[i]? = some spa.vdevs := by rw [List.getElem?_map, there, map_some]
      rw [topped.lists.chain head]
      exact listed
    · obtain ⟨_, found', top⟩ := points.top g named
      rw [ring, found']
      dsimp only
      rw [top, points.ashift]

/-! The disks of a mirror, and a disk that is being replaced in a raidz. -/

private def topMedia : Media Nat where
  label
    | 0 => some (sampleLabel 20 8
        (.mk { guid := 7, id := 0, read := .mirror, ashift := some 12 } [sampleDisk 8, sampleDisk 9]))
    | 1 => some (sampleLabel 20 9
        (.mk { guid := 7, id := 0, read := .mirror, ashift := some 12 } [sampleDisk 8, sampleDisk 9]))
    | 2 =>
      let replacing := VdevTree.mk { guid := 6, id := 0, read := .replacing } [sampleDisk 8, sampleDisk 9]
      some (sampleLabel 20 8 (.mk { guid := 7, id := 0, read := .raidz, ashift := some 12, nparity := some 1 }
        [replacing, sampleDisk 5]))
    | _ => none
  uberblocks := fun _ ashift => [some ⟨uberblockMagic, ashift, 0, []⟩]
  spaVersion := 28

private def topStart : ZfsState Nat :=
  noPools fun _ => ⟨0, 0, 0, 0, 0, [], .disk, none, .offline, 0, Stailq.empty, none⟩

theorem probeRun_points_up_mirror :
    let st := probeRun topMedia topStart [0, 1]
    (AllSucceed topMedia topStart [0, 1] ∧ Flat [] ([0, 1].filterMap (labelTree topMedia))) ∧
      ∀ e ∈ [0, 1].filterMap (labelTree topMedia), ∃ r spa, PointsUp st.vdevs e.2 r ∧ poolWith st e.1 = some spa ∧
        r ∈ st.vdevs.chain spa.vdevs ∧
        ∀ dev, ∀ g ∈ e.2.walked, ring topMedia st dev g = topMedia.uberblocks dev e.2.ashift :=
  have succeeds : AllSucceed topMedia topStart [0, 1] := ⟨by decide, by decide, trivial⟩
  have flat : Flat [] ([0, 1].filterMap (labelTree topMedia)) := by decide
  ⟨⟨succeeds, flat⟩, (probeRun_points_up topMedia
    (fun _ => ⟨0, 0, 0, 0, 0, [], .disk, none, .offline, 0, Stailq.empty, none⟩) [0, 1] succeeds flat).2⟩

/-- The disk is two levels below the raidz: its v_top is the replacing vdev, and its uberblocks are read with an
ashift of 0 although the label has 12. -/
theorem probeRun_points_at_parent :
    let st := probeRun topMedia topStart [2]
    AllSucceed topMedia topStart [2] ∧ ((labelTree topMedia 2).map fun e => (e.1, e.2.guid, e.2.ashift)) = some (1, 7, 12) ∧
      vdevFind st.vdevs 7 = some 0 ∧ vdevFind st.vdevs 8 = some 2 ∧ (st.pools.map fun spa => st.vdevs.chain spa.vdevs) = [[0]] ∧
      (st.vdevs.vdev 2).top ≠ 0 ∧ ring topMedia st 2 8 ≠ topMedia.uberblocks 2 12 :=
  ⟨⟨by decide, trivial⟩, by decide⟩

end Pcbsd.Zfs
