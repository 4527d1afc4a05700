import Mathlib.Data.List.Induction
import Pcbsd.Proofs.BestUberblock

/-! What a failed probe leaves behind. vdev_probe enters the pool and its transaction group, and the walk over the vdev
tree adds vdevs and notes numbers of children, before the checks that can still fail. -/

namespace Pcbsd.Zfs
open Lib List Option Function

variable {δ : Type}

mutual

/-- The guids a walk over a tree of known vdevs comes by, each with the number of children it notes there, up to the
first vdev that is turned down; and whether one is. -/
def Config.visited : Config → List (Nat × Int) × Bool
  | .mk d nkids kids =>
    match d.guid, d.id, d.type.bind vdevType with
    | some guid, some _, some _ =>
      match nkids with
      | none => ([(guid, 0)], false)
      | some n => ((guid, n) :: (visitedAll kids).1, (visitedAll kids).2)
    | _, _, _ => ([], true)

def visitedAll : List Config → List (Nat × Int) × Bool
  | [] => ([], false)
  | c :: cs => if c.visited.2 then c.visited else (c.visited.1 ++ (visitedAll cs).1, (visitedAll cs).2)

end

/-- A walk that notes nothing new: all vdevs are known, with the number of children that is noted last. -/
def Quiet (h : Vdevs δ) (visited : List (Nat × Int)) : Prop :=
  ∀ e ∈ visited, ∃ p, vdevFind h e.1 = some p ∧ (visited.reverse.find? (·.1 = e.1)).map Prod.snd =
    some (h.vdev p).nchildren

/-- A vdev that is on the list, or whose insertion changes nothing as the list is damaged: it is linked to itself. -/
def Listed (h : Vdevs δ) (head : Stailq.Head Nat) (top : Nat) : Prop :=
  top ∈ h.chain head ∨ head.last = some top ∧ h.links top = some top

/-- If the label gets as far as its tree, the walk is quiet and stops before the pool's list or finds its top-level
vdev there. -/
def QuietTree (st : ZfsState δ) (spa : Spa) (label : Label) : Prop :=
  ∀ guid tree, label.guid = some guid → label.tree = some tree → ¬vdevInited st.vdevs guid →
    Quiet st.vdevs tree.visited.1 ∧
      (tree.visited.2 ∨ ∀ top, vdevFind st.vdevs tree.guid = some top → Listed st.vdevs spa.vdevs top)

/-- When a failed probe leaves the state as it was: a label that gets as far as its pool finds it there and not
older. -/
def Untouched (media : Media δ) (dev : δ) (st : ZfsState δ) : Prop :=
  ∀ label txg poolGuid name, media.label dev = some label → label.pool media = some (txg, poolGuid, name) →
    ∃ spa, poolWith st poolGuid = some spa ∧ txg ≤ spa.txg ∧ QuietTree st spa label

def noteCount (h : Vdevs δ) (e : Nat × Int) : Vdevs δ :=
  match vdevFind h e.1 with
  | none => h
  | some p => h.modify p ({ · with nchildren := e.2 })

theorem vdevFind_guid {h : Vdevs δ} {guid p : Nat} (found : vdevFind h guid = some p) : (h.vdev p).guid = guid := by
  simpa using List.find?_some found

variable (h : Vdevs δ)

theorem noteCount_count (e : Nat × Int) : (noteCount h e).count = h.count := by
  rw [noteCount]
  cases vdevFind h e.1 <;> rfl

theorem noteCount_vdev (e : Nat × Int) (q : Nat) :
    (noteCount h e).vdev q = { h.vdev q with nchildren := if vdevFind h e.1 = some q then e.2 else (h.vdev q).nchildren } := by
  rw [noteCount]
  cases found : vdevFind h e.1 with
  | none => simp
  | some p =>
    by_cases here : q = p
    · subst here
      simp [Vdevs.modify]
    · simp [Vdevs.modify, here, Ne.symm here]

theorem noteCount_find (e : Nat × Int) (guid : Nat) : vdevFind (noteCount h e) guid = vdevFind h guid :=
  vdevFind_congr (noteCount_count h e) (fun q => by rw [noteCount_vdev]) guid

variable (visited : List (Nat × Int))

theorem noteCounts_find (guid : Nat) :
    vdevFind (visited.foldl noteCount h) guid = vdevFind h guid := by
  induction visited generalizing h with
  | nil => rfl
  | cons _ visited ih => rw [foldl_cons, ih, noteCount_find]

theorem noteCounts_count : (visited.foldl noteCount h).count = h.count := by
  induction visited generalizing h with
  | nil => rfl
  | cons _ visited ih => rw [foldl_cons, ih, noteCount_count]

theorem noteCounts_vdev (q : Nat) :
    (visited.foldl noteCount h).vdev q = { h.vdev q with
      nchildren := ((visited.reverse.find? fun e => vdevFind h e.1 = some q).map Prod.snd).getD (h.vdev q).nchildren } := by
  induction visited using List.reverseRecOn with
  | nil => rfl
  | append_singleton visited e ih =>
    rw [foldl_append, foldl_cons, foldl_nil, noteCount_vdev, ih, noteCounts_find, reverse_append,
      reverse_singleton, singleton_append, List.find?_cons]
    by_cases here : vdevFind h e.1 = some q
    · simp [here]
    · simp [here]

theorem noteCounts_eq_self_iff {h : Vdevs δ} {visited : List (Nat × Int)}
    (known : ∀ e ∈ visited, (vdevFind h e.1).isSome) :
    visited.foldl noteCount h = h ↔ Quiet h visited := by
  have same : ∀ e ∈ visited, ∀ p, vdevFind h e.1 = some p →
      visited.reverse.find? (fun e' => vdevFind h e'.1 = some p) = visited.reverse.find? (·.1 = e.1) := by
    intro e member p found
    refine List.find?_congr fun e' _ => ?_
    have iff : vdevFind h e'.1 = some p ↔ e'.1 = e.1 := by
      constructor
      · intro found'
        rw [← vdevFind_guid found, vdevFind_guid found']
      · intro guid
        rw [guid, found]
    simp [iff]
  constructor
  · intro stays e member
    obtain ⟨p, found⟩ := isSome_iff_exists.mp (known e member)
    refine ⟨p, found, ?_⟩
    have count := congrArg (fun h => (h.vdev p).nchildren) stays
    rw [noteCounts_vdev, same e member p found] at count
    obtain ⟨last, noted⟩ : ∃ last, visited.reverse.find? (·.1 = e.1) = some last := by
      rw [← isSome_iff_exists, List.find?_isSome]
      exact ⟨e, mem_reverse.mpr member, by simp⟩
    rw [noted] at count ⊢
    exact congrArg some count
  · intro quiet
    refine congrArg₂ Vdevs.mk (noteCounts_count h visited) (funext fun q => ?_)
    rw [noteCounts_vdev]
    cases noted : visited.reverse.find? fun e => vdevFind h e.1 = some q with
    | none => rfl
    | some last =>
      have member := mem_reverse.mp (mem_of_find?_eq_some noted)
      have found : vdevFind h last.1 = some q := by simpa using List.find?_some noted
      obtain ⟨p, found', count⟩ := quiet last member
      obtain rfl := some.inj (found.symm.trans found')
      rw [← same last member q found, noted] at count
      rw [map_some, getD_some, some.inj count]

section

variable {h : Vdevs δ}

variable {d : Details}

theorem vdevEnter_found {guid p : Nat} (named : d.guid = some guid) (hasId : d.id.isSome)
    (supported : (d.type.bind vdevType).isSome) (found : vdevFind h guid = some p) (pvdev : Option Nat) :
    vdevEnter d pvdev false h = (0, p, false, h) := by
  obtain ⟨id, hasId⟩ := isSome_iff_exists.mp hasId
  obtain ⟨_, supported⟩ := isSome_iff_exists.mp supported
  obtain ⟨type, hasType, supported⟩ := bind_eq_some_iff.mp supported
  rw [vdevEnter, named, hasId, hasType]
  dsimp only
  rw [supported, found]
  rfl

theorem vdevEnter_turned_down (missing : d.guid = none ∨ d.id = none ∨ d.type.bind vdevType = none)
    (pvdev : Option Nat) (isNewer : Bool) : ∃ rc, rc ≠ 0 ∧ vdevEnter d pvdev isNewer h = (rc, 0, false, h) := by
  rw [vdevEnter]
  cases named : d.guid with
  | none => exact ⟨enoent, by decide, rfl⟩
  | some guid =>
  cases hasId : d.id with
  | none => exact ⟨enoent, by decide, rfl⟩
  | some id =>
  cases hasType : d.type with
  | none => exact ⟨enoent, by decide, rfl⟩
  | some type =>
    have unsupported : vdevType type = none := by simpa [named, hasId, hasType] using missing
    dsimp only
    rw [unsupported]
    exact ⟨eio, by decide, rfl⟩

theorem noteCounts_known {visited visited' : List (Nat × Int)} (known : ∀ e ∈ visited', (vdevFind h e.1).isSome) :
    ∀ e ∈ visited', (vdevFind (visited.foldl noteCount h) e.1).isSome := by
  intro e member
  rw [noteCounts_find]
  exact known e member

theorem visited_mk {guid : Nat} (named : d.guid = some guid) (hasId : d.id.isSome)
    (supported : (d.type.bind vdevType).isSome) (nkids : Option Int) (kids : List Config) :
    (Config.mk d nkids kids).visited =
      nkids.elim ([(guid, 0)], false) fun n => ((guid, n) :: (visitedAll kids).1, (visitedAll kids).2) := by
  obtain ⟨id, hasId⟩ := isSome_iff_exists.mp hasId
  obtain ⟨_, supported⟩ := isSome_iff_exists.mp supported
  rw [Config.visited, named, hasId, supported]
  cases nkids <;> rfl

theorem visited_turned_down (missing : d.guid = none ∨ d.id = none ∨ d.type.bind vdevType = none) (nkids : Option Int)
    (kids : List Config) : (Config.mk d nkids kids).visited = ([], true) := by
  rw [Config.visited]
  cases named : d.guid with
  | none => rfl
  | some guid =>
  cases hasId : d.id with
  | none => rfl
  | some id =>
    have unsupported : d.type.bind vdevType = none := by simpa [named, hasId] using missing
    rw [unsupported]

theorem turned_down_or (d : Details) : (d.guid = none ∨ d.id = none ∨ d.type.bind vdevType = none) ∨
    ∃ guid, d.guid = some guid ∧ d.id.isSome ∧ (d.type.bind vdevType).isSome := by
  cases d.guid <;> cases d.id <;> cases d.type.bind vdevType <;> simp

mutual

theorem vdevInit_visited (c : Config) (pvdev : Option Nat) (h : Vdevs δ)
    (known : ∀ e ∈ c.visited.1, (vdevFind h e.1).isSome) :
    ∃ rc top, vdevInit c pvdev false h = (rc, top, c.visited.1.foldl noteCount h) ∧ (rc ≠ 0 ↔ c.visited.2 = true) ∧
      (rc = 0 → vdevFind h c.guid = some top) := by
  match c with
  | .mk d nkids kids =>
    rw [vdevInit]
    obtain missing | ⟨guid, named, hasId, supported⟩ := turned_down_or d
    · obtain ⟨rc, failed, entered⟩ := @vdevEnter_turned_down _ h _ missing pvdev false
      rw [entered, visited_turned_down missing]
      dsimp only
      rw [if_pos failed]
      exact ⟨rc, 0, rfl, by simp [failed], fun ok => absurd ok failed⟩
    rw [visited_mk named hasId supported] at known ⊢
    have root : vdevFind h (Config.mk d nkids kids).guid = vdevFind h guid := by rw [Config.guid, named, getD_some]
    obtain ⟨p, found⟩ : ∃ p, vdevFind h guid = some p := by
      rw [← isSome_iff_exists]
      cases nkids with
      | none => exact known _ mem_cons_self
      | some n => exact known (guid, n) mem_cons_self
    have noted : ∀ n, h.modify p ({ · with nchildren := n }) = noteCount h (guid, n) := by
      intro n
      rw [noteCount, found]
    rw [vdevEnter_found named hasId supported found, root, found]
    dsimp only
    rw [if_neg (not_not.mpr rfl)]
    cases nkids with
    | none =>
      rw [noted]
      exact ⟨0, p, rfl, by simp, fun _ => rfl⟩
    | some n =>
      dsimp only [Option.elim] at known ⊢
      rw [noted]
      obtain ⟨rc, ran, failed⟩ := vdevInitKids_visited kids p (noteCount h (guid, n)) fun e member =>
        (noteCount_find h (guid, n) e.1).symm ▸ known e (mem_cons_of_mem _ member)
      rw [ran]
      by_cases stopped : rc ≠ 0
      · rw [if_pos stopped]
        exact ⟨rc, 0, rfl, failed, fun ok => absurd ok stopped⟩
      · rw [if_neg stopped]
        have ok : rc = 0 := not_not.mp stopped
        exact ⟨0, p, rfl, ok ▸ failed, fun _ => rfl⟩

theorem vdevInitKids_visited (cs : List Config) (p : Nat) (h : Vdevs δ)
    (known : ∀ e ∈ (visitedAll cs).1, (vdevFind h e.1).isSome) :
    ∃ rc, vdevInitKids cs p false false h = (rc, (visitedAll cs).1.foldl noteCount h) ∧
    (rc ≠ 0 ↔ (visitedAll cs).2 = true) := by
  match cs with
  | [] =>
    rw [vdevInitKids, visitedAll]
    exact ⟨0, rfl, by simp⟩
  | c :: cs =>
    rw [visitedAll] at known ⊢
    rw [vdevInitKids]
    by_cases turned : c.visited.2 = true
    · rw [if_pos turned] at known ⊢
      obtain ⟨rc, top, ran, failed, -⟩ := vdevInit_visited c (some p) h known
      rw [ran]
      dsimp only
      rw [if_pos (failed.mpr turned)]
      exact ⟨rc, rfl, failed⟩
    · rw [if_neg turned] at known ⊢
      obtain ⟨rc, top, ran, failed, -⟩ := vdevInit_visited c (some p) h fun e member =>
        known e (mem_append_left _ member)
      rw [ran]
      dsimp only
      rw [if_neg (fun stopped => turned (failed.mp stopped)), foldl_append]
      exact vdevInitKids_visited cs p _ (noteCounts_known fun e member => known e (mem_append_right _ member))

end

structure Unclaimed (h h' : Vdevs δ) : Prop where
  count : h.count ≤ h'.count
  guid : ∀ q < h.count, (h'.vdev q).guid = (h.vdev q).guid
  phys : ∀ q < h.count, (h'.vdev q).phys = (h.vdev q).phys
  new : ∀ q < h'.count, h.count ≤ q → (h'.vdev q).phys = none

section

variable {h h' h'' : Vdevs δ}

theorem Unclaimed.refl (h : Vdevs δ) : Unclaimed h h :=
  ⟨le_rfl, fun _ _ => rfl, fun _ _ => rfl, fun _ inside new => absurd inside (Nat.not_lt.mpr new)⟩

theorem Unclaimed.trans (first : Unclaimed h h') (second : Unclaimed h' h'') : Unclaimed h h'' := by
  have grown := first.count
  refine ⟨grown.trans second.count, ?_, ?_, ?_⟩
  · exact fun q inside => (second.guid q (by omega)).trans (first.guid q inside)
  · exact fun q inside => (second.phys q (by omega)).trans (first.phys q inside)
  · intro q inside new
    by_cases between : q < h'.count
    · rw [second.phys q between]
      exact first.new q between new
    · exact second.new q inside (Nat.not_lt.mp between)

theorem Unclaimed.of_same (count : h'.count = h.count)
    (same : ∀ q, (h'.vdev q).guid = (h.vdev q).guid ∧ (h'.vdev q).phys = (h.vdev q).phys) :
    Unclaimed h h' := by
  refine ⟨count.ge, fun q _ => (same q).1, fun q _ => (same q).2, fun q inside new => ?_⟩
  rw [count] at inside
  exact absurd inside (Nat.not_lt.mpr new)

theorem Unclaimed.modify (h : Vdevs δ) (p : Nat) {f : VdevT δ → VdevT δ}
    (same : ∀ v, (f v).guid = v.guid ∧ (f v).phys = v.phys) :
    Unclaimed h (h.modify p f) := by
  have count : (h.modify p f).count = h.count := rfl
  refine Unclaimed.of_same count fun q => ?_
  by_cases here : q = p
  · subst here
    rw [Vdevs.modify]
    dsimp only
    rw [update_self]
    exact same _
  · rw [Vdevs.modify]
    dsimp only
    rw [update_of_ne here]
    exact ⟨rfl, rfl⟩

theorem Unclaimed.setLinks (h : Vdevs δ) (next : Nat → Option Nat) : Unclaimed h (h.setLinks next) :=
  have count : (h.setLinks next).count = h.count := rfl
  .of_same count fun _ => ⟨rfl, rfl⟩

theorem Unclaimed.create (h : Vdevs δ) (guid : Nat) (read : VdevRead) : Unclaimed h (vdevCreate h guid read) := by
  have old {q : Nat} (inside : q < h.count) : (vdevCreate h guid read).vdev q = h.vdev q :=
    update_of_ne (Nat.ne_of_lt inside) ..
  have grown : (vdevCreate h guid read).count = h.count + 1 := rfl
  refine ⟨grown ▸ Nat.le_succ h.count,
    fun q inside => by rw [old inside], fun q inside => by rw [old inside], fun q inside new => ?_⟩
  obtain rfl : q = h.count := by omega
  rw [vdevCreate]
  dsimp only
  rw [update_self]

theorem Unclaimed.refresh (h : Vdevs δ) (p : Nat) (d : Details) : Unclaimed h (vdevRefresh h p d) := by
  apply Unclaimed.modify
  exact fun _ => ⟨rfl, rfl⟩

theorem Unclaimed.insertChild (h : Vdevs δ) (p kid : Nat) : Unclaimed h (insertChild h p kid) := by
  refine (Unclaimed.setLinks h (Stailq.insertTail h.links (h.vdev p).children kid).1).trans ?_
  rw [Zfs.insertChild]
  apply Unclaimed.modify
  exact fun _ => ⟨rfl, rfl⟩

theorem Unclaimed.add (h : Vdevs δ) (guid id : Nat) (type : Bytes) (read : VdevRead) (d : Details)
    (pvdev : Option Nat) :
    Unclaimed h (vdevAdd h guid id type read d pvdev).2 := by
  rw [vdevAdd]
  cases vdevName d type (d.nparity.getD 0) with
  | none =>
    refine (Unclaimed.create h guid read).trans ?_
    dsimp only
    apply Unclaimed.modify
    exact fun _ => ⟨rfl, rfl⟩
  | some _ =>
    dsimp only
    refine ((Unclaimed.create h guid read).trans (Unclaimed.modify _ h.count ?_)).trans (Unclaimed.modify _ h.count ?_)
    · exact fun _ => ⟨rfl, rfl⟩
    · exact fun _ => ⟨rfl, rfl⟩

theorem vdevEnter_unclaimed (d : Details) (pvdev : Option Nat) (isNewer : Bool) (h : Vdevs δ) :
    Unclaimed h (vdevEnter d pvdev isNewer h).2.2.2 := by
  rw [vdevEnter]
  cases d.guid with
  | none => exact .refl h
  | some guid =>
  cases d.id with
  | none => exact .refl h
  | some id =>
  cases d.type with
  | none => exact .refl h
  | some type =>
  dsimp only
  cases vdevType type with
  | none => exact .refl h
  | some read =>
  cases vdevFind h guid with
  | some p =>
    cases isNewer with
    | false => exact .refl h
    | true => exact .refresh h p d
  | none =>
    have added := Unclaimed.add h guid id type read d pvdev
    dsimp only
    generalize vdevAdd h guid id type read d pvdev = reply at added ⊢
    split_ifs
    · exact added
    · exact added.trans (.refresh reply.2 h.count d)

mutual

theorem vdevInit_unclaimed (c : Config) (pvdev : Option Nat) (isNewer : Bool) (h : Vdevs δ) :
    Unclaimed h (vdevInit c pvdev isNewer h).2.2 := by
  match c with
  | .mk d nkids kids =>
    rw [vdevInit]
    have entered := vdevEnter_unclaimed d pvdev isNewer h
    generalize vdevEnter d pvdev isNewer h = reply at entered ⊢
    obtain ⟨rc, p, isNew, h'⟩ := reply
    dsimp only at entered ⊢
    by_cases failed : rc ≠ 0
    · rw [if_pos failed]
      exact entered
    rw [if_neg failed]
    cases nkids with
    | none =>
      refine entered.trans ?_
      dsimp only
      apply Unclaimed.modify
      exact fun _ => ⟨rfl, rfl⟩
    | some n =>
      have noted : Unclaimed h' (h'.modify p ({ · with nchildren := n })) := by
        apply Unclaimed.modify
        exact fun _ => ⟨rfl, rfl⟩
      have below := (entered.trans noted).trans
        (vdevInitKids_unclaimed kids p isNew isNewer (h'.modify p ({ · with nchildren := n })))
      dsimp only
      split_ifs
      all_goals exact below

theorem vdevInitKids_unclaimed (cs : List Config) (p : Nat) (isNew isNewer : Bool) (h : Vdevs δ) :
    Unclaimed h (vdevInitKids cs p isNew isNewer h).2 := by
  match cs with
  | [] =>
    exact .refl h
  | c :: cs =>
    rw [vdevInitKids]
    have first := vdevInit_unclaimed c (some p) isNewer h
    generalize vdevInit c (some p) isNewer h = reply at first ⊢
    obtain ⟨rc, kid, h'⟩ := reply
    dsimp only at first ⊢
    by_cases failed : rc ≠ 0
    · rw [if_pos failed]
      exact first
    rw [if_neg failed]
    refine (first.trans ?_).trans (vdevInitKids_unclaimed cs p isNew isNewer _)
    cases isNew with
    | false => exact .refl h'
    | true => exact .insertChild h' p kid

end

end

theorem vdevAdd_count (h : Vdevs δ) (guid id : Nat) (type : Bytes) (read : VdevRead) (d : Details)
    (pvdev : Option Nat) :
    (vdevAdd h guid id type read d pvdev).2.count = h.count + 1 := by
  rw [vdevAdd]
  cases vdevName d type (d.nparity.getD 0) <;> rfl

theorem vdevEnter_unknown {d : Details} {guid : Nat} (named : d.guid = some guid) (hasId : d.id.isSome)
    (supported : (d.type.bind vdevType).isSome) (missing : vdevFind h guid = none) (pvdev : Option Nat) :
    (vdevEnter d pvdev false h).2.2.2.count = h.count + 1 := by
  obtain ⟨id, hasId⟩ := isSome_iff_exists.mp hasId
  obtain ⟨read, supported⟩ := isSome_iff_exists.mp supported
  obtain ⟨type, hasType, supported⟩ := bind_eq_some_iff.mp supported
  rw [vdevEnter, named, hasId, hasType]
  dsimp only
  rw [supported, missing]
  dsimp only
  have count := vdevAdd_count h guid id type read d pvdev
  split_ifs
  · exact count
  · exact count

mutual

theorem vdevInit_grows (c : Config) (pvdev : Option Nat) (h : Vdevs δ)
    (unknown : ∃ e ∈ c.visited.1, vdevFind h e.1 = none) :
    h.count < (vdevInit c pvdev false h).2.2.count := by
  match c with
  | .mk d nkids kids =>
    rw [vdevInit]
    obtain missing | ⟨guid, named, hasId, supported⟩ := turned_down_or d
    · rw [visited_turned_down missing] at unknown
      simp at unknown
    rw [visited_mk named hasId supported] at unknown
    cases found : vdevFind h guid with
    | none =>
      have added := vdevEnter_unknown named hasId supported found pvdev
      generalize vdevEnter d pvdev false h = reply at added ⊢
      obtain ⟨rc, p, isNew, h'⟩ := reply
      dsimp only at added ⊢
      have less : h.count < h'.count := by omega
      by_cases failed : rc ≠ 0
      · rw [if_pos failed]
        exact less
      rw [if_neg failed]
      cases nkids with
      | none => exact less
      | some n =>
        have below := (vdevInitKids_unclaimed kids p isNew false (h'.modify p ({ · with nchildren := n }))).count
        dsimp only
        generalize vdevInitKids kids p isNew false (h'.modify p ({ · with nchildren := n })) = ran at below ⊢
        split_ifs
        all_goals exact less.trans_le below
    | some p =>
      rw [vdevEnter_found named hasId supported found]
      dsimp only
      rw [if_neg (not_not.mpr rfl)]
      cases nkids with
      | none => simp [found] at unknown
      | some n =>
        have noted : h.modify p ({ · with nchildren := n }) = noteCount h (guid, n) := by
          rw [noteCount, found]
        have below := vdevInitKids_grows kids p (noteCount h (guid, n)) (by simpa [found, noteCount_find] using unknown)
        dsimp only
        rw [noted]
        rw [noteCount_count] at below
        split_ifs
        all_goals exact below

theorem vdevInitKids_grows (cs : List Config) (p : Nat) (h : Vdevs δ)
    (unknown : ∃ e ∈ (visitedAll cs).1, vdevFind h e.1 = none) :
    h.count < (vdevInitKids cs p false false h).2.count := by
  match cs with
  | [] => simp [visitedAll] at unknown
  | c :: cs =>
    rw [vdevInitKids]
    by_cases here : ∃ e ∈ c.visited.1, vdevFind h e.1 = none
    · have first := vdevInit_grows c (some p) h here
      generalize vdevInit c (some p) false h = reply at first ⊢
      obtain ⟨rc, _, h'⟩ := reply
      dsimp only at first ⊢
      by_cases failed : rc ≠ 0
      · rw [if_pos failed]
        exact first
      · rw [if_neg failed]
        exact first.trans_le (vdevInitKids_unclaimed cs p false false h').count
    · have known : ∀ e ∈ c.visited.1, (vdevFind h e.1).isSome :=
        fun e member => isSome_iff_ne_none.mpr fun missing => here ⟨e, member, missing⟩
      obtain ⟨rc, _, ran, failed, -⟩ := vdevInit_visited c (some p) h known
      rw [visitedAll] at unknown
      by_cases turned : c.visited.2 = true
      · rw [if_pos turned] at unknown
        exact absurd unknown here
      rw [if_neg turned] at unknown
      rw [ran]
      dsimp only
      rw [if_neg (fun stopped => turned (failed.mp stopped))]
      obtain ⟨e, member, missing⟩ := unknown
      have later : e ∈ (visitedAll cs).1 := (mem_append.mp member).resolve_left fun first => here ⟨e, first, missing⟩
      have rest := vdevInitKids_grows cs p (c.visited.1.foldl noteCount h) ⟨e, later, by rw [noteCounts_find, missing]⟩
      rw [noteCounts_count] at rest
      exact rest

end

end

theorem addToplevel_eq_iff {st : ZfsState δ} {h' : Vdevs δ} {i top : Nat} {spa : Spa} (there : st.pools[i]? = some spa)
    (count : h'.count = st.vdevs.count) (links : h'.links = st.vdevs.links) :
    addToplevel { st with vdevs := h' } i top = st ↔ h' = st.vdevs ∧ Listed st.vdevs spa.vdevs top := by
  obtain ⟨h, pools⟩ := st
  have chain : h'.chain spa.vdevs = h.chain spa.vdevs := by rw [Vdevs.chain, Vdevs.chain, count, links]
  rw [addToplevel, there]
  dsimp only
  rw [chain, Listed]
  by_cases listed : top ∈ h.chain spa.vdevs
  · rw [if_pos listed]
    constructor
    · intro same
      exact ⟨congrArg ZfsState.vdevs same, .inl listed⟩
    · rintro ⟨rfl, -⟩
      rfl
  rw [if_neg listed, links, or_iff_right listed, ← Stailq.insertTail_eq_self_iff]
  generalize Stailq.insertTail h.links spa.vdevs top = inserted
  obtain ⟨next, head⟩ := inserted
  constructor
  · intro same
    have vdevs : h'.setLinks next = h := congrArg ZfsState.vdevs same
    have next : next = h.links := congrArg Vdevs.links vdevs
    have heads : some { spa with vdevs := head } = some spa := by
      rw [← there, ← congrArg (fun st => st.pools[i]?) same]
      obtain ⟨inside, -⟩ := List.getElem?_eq_some_iff.mp there
      exact (List.getElem?_set_self inside).symm
    refine ⟨?_, Prod.ext next (congrArg Spa.vdevs (some.inj heads))⟩
    rw [← vdevs, next, ← links]
    rfl
  · rintro ⟨rfl, same⟩
    obtain ⟨rfl, rfl⟩ := Prod.mk.inj same
    refine congrArg (ZfsState.mk h') (ext_getElem? fun j => ?_)
    rw [List.getElem?_set]
    split_ifs with here inside
    · rw [← here, there]
    · rw [List.getElem?_eq_none (by omega)]
    · rfl

theorem attachVdev_count (media : Media δ) (dev : δ) (i guid : Nat) (isNewer : Bool) (tree : Config) (st : ZfsState δ) :
    (vdevInit tree none isNewer st.vdevs).2.2.count ≤ (attachVdev media dev i guid isNewer tree st).2.vdevs.count := by
  rw [attachVdev]
  generalize vdevInit tree none isNewer st.vdevs = reply
  obtain ⟨rc, top, h'⟩ := reply
  dsimp only
  by_cases failed : rc ≠ 0
  · rw [if_pos failed]
  rw [if_neg failed]
  have same : h'.count = (addToplevel { st with vdevs := h' } i top).vdevs.count := by
    rw [addToplevel]
    cases st.pools[i]? with
    | none => rfl
    | some _ =>
      dsimp only
      split_ifs
      all_goals rfl
  generalize addToplevel { st with vdevs := h' } i top = placed at same ⊢
  cases vdevFind placed.vdevs guid with
  | none => exact same.le
  | some _ =>
    dsimp only
    rw [vdevSetState]
    split_ifs
    all_goals exact same.le

theorem attachVdev_eq_self_iff {media : Media δ} {dev : δ} {st : ZfsState δ} {i guid : Nat} {spa : Spa} {tree : Config}
    (there : st.pools[i]? = some spa) (failed : (attachVdev media dev i guid false tree st).1 ≠ 0) :
    (attachVdev media dev i guid false tree st).2 = st ↔ Quiet st.vdevs tree.visited.1 ∧
      (tree.visited.2 ∨ ∀ top, vdevFind st.vdevs tree.guid = some top → Listed st.vdevs spa.vdevs top) := by
  by_cases unknown : ∃ e ∈ tree.visited.1, vdevFind st.vdevs e.1 = none
  · have grows := (vdevInit_grows tree none st.vdevs unknown).trans_le (attachVdev_count media dev i guid false tree st)
    obtain ⟨e, member, missing⟩ := unknown
    constructor
    · intro same
      exact absurd (congrArg (fun st => st.vdevs.count) same) grows.ne'
    · rintro ⟨quiet, -⟩
      obtain ⟨p, found, -⟩ := quiet e member
      rw [missing] at found
      cases found
  have known : ∀ e ∈ tree.visited.1, (vdevFind st.vdevs e.1).isSome :=
    fun e member => isSome_iff_ne_none.mpr fun missing => unknown ⟨e, member, missing⟩
  obtain ⟨rc, top, ran, stopped, root⟩ := vdevInit_visited tree none st.vdevs known
  have quiet := noteCounts_eq_self_iff known
  have count := noteCounts_count st.vdevs tree.visited.1
  have links : (tree.visited.1.foldl noteCount st.vdevs).links = st.vdevs.links := by
    funext q
    rw [Vdevs.links, noteCounts_vdev]
    rfl
  rw [attachVdev, ran] at failed ⊢
  generalize tree.visited.1.foldl noteCount st.vdevs = h' at quiet count links failed ⊢
  dsimp only at failed ⊢
  by_cases turned : rc ≠ 0
  · rw [if_pos turned, ← quiet, and_iff_left (.inl (stopped.mp turned))]
    constructor
    · intro same
      exact congrArg ZfsState.vdevs same
    · rintro rfl
      rfl
  rw [if_neg turned] at failed ⊢
  have goes : ¬tree.visited.2 = true := fun stops => turned (stopped.mpr stops)
  have found := root (not_not.mp turned)
  rw [found]
  have iff := @addToplevel_eq_iff _ st h' i top spa there count links
  generalize addToplevel { st with vdevs := h' } i top = placed at iff failed ⊢
  cases missing : vdevFind placed.vdevs guid with
  | some p =>
    rw [missing] at failed
    exact absurd rfl failed
  | none =>
    rw [iff, quiet, or_iff_right goes]
    refine and_congr_right fun _ => ⟨?_, fun all => all top rfl⟩
    rintro listed _ ⟨⟩
    exact listed

theorem enterPool_current {pools : List Spa} {txg poolGuid : Nat} {spa : Spa}
    (found : pools.find? (·.guid = poolGuid) = some spa) (current : txg ≤ spa.txg) (name : Bytes) :
    ∃ i, pools[i]? = some spa ∧ enterPool pools txg poolGuid name = (i, false, pools) := by
  cases position : spaFindByGuid pools poolGuid with
  | none =>
    rw [spaFindByGuid_eq_none position] at found
    cases found
  | some i =>
    obtain ⟨_, there, first⟩ := spaFindByGuid_eq_some position
    obtain rfl := some.inj (found.symm.trans first)
    refine ⟨i, there, ?_⟩
    rw [enterPool, findOrCreateSpa, position]
    dsimp only
    rw [there, any_some, if_neg (by simpa using current)]

theorem pool_inj {media : Media δ} {label : Label} {txg txg' poolGuid poolGuid' : Nat} {name name' : Bytes}
    (pool : label.pool media = some (txg, poolGuid, name)) (pool' : label.pool media = some (txg', poolGuid', name')) :
    txg = txg' ∧ poolGuid = poolGuid' ∧ name = name' := by
  have same := some.inj (pool.symm.trans pool')
  exact ⟨congrArg Prod.fst same, congrArg (·.2.1) same, congrArg (·.2.2) same⟩

/-- A failed probe leaves the state as it was exactly when nothing is done before the check that fails. -/
theorem vdevProbe_untouched_iff (media : Media δ) (st : ZfsState δ) (dev : δ)
    (failed : (vdevProbe media st dev).1 ≠ 0) :
    (vdevProbe media st dev).2 = st ↔ Untouched media dev st := by
  cases read : media.label dev with
  | none =>
    refine iff_of_true (by rw [vdevProbe, read]) fun label _ _ _ read' => ?_
    rw [read] at read'
    cases read'
  | some label =>
  cases pool : label.pool media with
  | none =>
    refine iff_of_true (by rw [vdevProbe, read]; dsimp only; rw [probeLabel, pool]) fun label' _ _ _ read' pool' => ?_
    obtain rfl := some.inj (read.symm.trans read')
    rw [pool] at pool'
    cases pool'
  | some found =>
  obtain ⟨txg, poolGuid, name⟩ := found
  have only : Untouched media dev st ↔ ∃ spa, poolWith st poolGuid = some spa ∧ txg ≤ spa.txg ∧
    QuietTree st spa label := by
    refine ⟨fun untouched => untouched label txg poolGuid name read pool,
      fun all label' txg' poolGuid' name' read' pool' => ?_⟩
    obtain rfl := some.inj (read.symm.trans read')
    obtain ⟨rfl, rfl, rfl⟩ := pool_inj pool pool'
    exact all
  rw [only]
  by_cases entered : ∃ spa, poolWith st poolGuid = some spa ∧ txg ≤ spa.txg
  · obtain ⟨spa, first, current⟩ := entered
    obtain ⟨_, there, enters⟩ := enterPool_current first current name
    have unique : (∃ spa', poolWith st poolGuid = some spa' ∧ txg ≤ spa'.txg ∧ QuietTree st spa' label) ↔
      QuietTree st spa label := by
      refine ⟨?_, fun quiet => ⟨spa, first, current, quiet⟩⟩
      rintro ⟨spa', first', -, quiet⟩
      obtain rfl := some.inj (first.symm.trans first')
      exact quiet
    rw [unique, QuietTree]
    rw [vdevProbe, read] at failed ⊢
    dsimp only at failed ⊢
    rw [probeLabel, pool] at failed ⊢
    dsimp only at failed ⊢
    rw [enters] at failed ⊢
    cases guid : label.guid with
    | none =>
      refine iff_of_true rfl ?_
      rintro _ _ ⟨⟩
    | some guid' =>
    rw [guid] at failed
    cases tree : label.tree with
    | none =>
      refine iff_of_true rfl ?_
      rintro _ _ - ⟨⟩
    | some c =>
      rw [tree] at failed
      dsimp only at failed ⊢
      by_cases inited : vdevInited st.vdevs guid'
      · rw [if_pos inited]
        refine iff_of_true rfl ?_
        rintro _ _ ⟨⟩ ⟨⟩ absent
        exact absurd inited absent
      · rw [if_neg inited] at failed ⊢
        rw [attachVdev_eq_self_iff there failed]
        refine ⟨?_, fun all => all guid' c rfl rfl inited⟩
        rintro both _ _ ⟨⟩ ⟨⟩ -
        exact both
  · have absent : ¬∃ spa, poolWith st poolGuid = some spa ∧ txg ≤ spa.txg ∧ QuietTree st spa label := by
      rintro ⟨spa, first, current, -⟩
      exact entered ⟨spa, first, current⟩
    refine iff_of_false (fun same => entered ?_) absent
    generalize ran : vdevProbe media st dev = reply at same failed
    obtain ⟨_, st'⟩ := reply
    subst same
    obtain ⟨turned, -⟩ | ⟨label', txg', poolGuid', name', f, read', pool', keeps, pools⟩ := vdevProbe_pools ran
    · rw [read, bind_some, pool] at turned
      cases turned
    obtain rfl := some.inj (read.symm.trans read')
    obtain ⟨rfl, rfl, rfl⟩ := pool_inj pool pool'
    rw [if_neg failed] at pools
    obtain ⟨found, ⟨spa, first, txgs, -⟩, -⟩ := enterPool_find st'.pools txg poolGuid name
    have now := @find_modify (enterPool st'.pools txg poolGuid name).2.2 f
      (enterPool st'.pools txg poolGuid name).1 poolGuid fun spa => (keeps spa).1
    rw [if_pos found, first, map_some] at now
    have here : poolWith st' poolGuid = some (f spa) := by
      rw [poolWith, pools]
      exact now
    refine ⟨f spa, here, ?_⟩
    rw [(keeps spa).2.1, txgs]
    exact le_max_right ..

/-! A pool, a label of it whose guid is not in its tree, one without a tree, and one whose tree has a vdev of a type
that is not supported below a new one. -/

private def tracesMedia : Media Nat where
  label
    | 0 => some (sampleLabel 20 8 (.mk { guid := 7, id := 0, read := .mirror } [sampleDisk 8]))
    | 1 => some (sampleLabel 20 5 (.mk { guid := 7, id := 0, read := .mirror } [sampleDisk 8]))
    | 2 => some { sampleLabel 20 8 (sampleDisk 8) with poolGuid := some 2, tree := none }
    | 3 =>
      let file := Config.mk { guid := some 4, id := some 0, type := some (chars ['f', 'i', 'l', 'e']) } none []
      let mirror := Config.mk { guid := some 3, id := some 0, type := some typeMirror } (some 1) [file]
      some { sampleLabel 20 4 (sampleDisk 4) with tree := some mirror }
    | _ => none
  uberblocks := fun _ _ => []
  spaVersion := 28

private def tracesState : ZfsState Nat :=
  probeRun tracesMedia (noPools fun _ => ⟨0, 0, 0, 0, 0, [], .disk, none, .offline, 0, Stailq.empty, none⟩) [0]

theorem vdevProbe_untouched_mirror : (vdevProbe tracesMedia tracesState 1).1 ≠ 0 ∧
    ((vdevProbe tracesMedia tracesState 1).2 = tracesState ↔ Untouched tracesMedia 1 tracesState) :=
  ⟨by decide, vdevProbe_untouched_iff tracesMedia tracesState 1 (by decide)⟩

theorem vdevProbe_leaves_traces :
    ((vdevProbe tracesMedia tracesState 2).1 ≠ 0 ∧ (vdevProbe tracesMedia tracesState 2).2.pools.length ≠
      tracesState.pools.length) ∧
      (vdevProbe tracesMedia tracesState 3).1 ≠ 0 ∧ (vdevProbe tracesMedia tracesState 3).2.vdevs.count ≠
        tracesState.vdevs.count := by
  decide

end Pcbsd.Zfs
