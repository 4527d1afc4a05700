import Mathlib.Data.List.Nodup
import Mathlib.Data.List.Perm.Basic

/-! Trees side by side: subtrees that are added below an item or taken out, and what hangs below what. -/

namespace Pcbsd.Lib
open List Option

/-- Items in the order of a tree: the first one, those below it, and those behind it on its level. -/
inductive ItemTree (α : Type) where
  | nil
  | cons (item : α) (below behind : ItemTree α)

namespace ItemTree

variable {α κ : Type} (key : α → κ)

def items : ItemTree α → List α
  | nil => []
  | cons a below behind => a :: (items below ++ items behind)

def append : ItemTree α → ItemTree α → ItemTree α
  | nil, new => new
  | cons a below behind, new => cons a below (append behind new)

def links (up : Option κ) : ItemTree α → List (Option κ × α)
  | nil => []
  | cons a below behind => (up, a) :: (links (some (key a)) below ++ links up behind)

def keys (f : ItemTree α) : List κ := f.items.map key

section
variable [DecidableEq κ]

/-- Behind the items below the first item of a key, if there is one. -/
def addBelow (p : κ) (new : ItemTree α) : ItemTree α → Option (ItemTree α)
  | nil => none
  | cons a below behind =>
    if key a = p then some (cons a (append below new) behind)
    else (addBelow p new below).elim ((addBelow p new behind).map fun rest => cons a below rest) fun more =>
      some (cons a more behind)

/-- The first item of a key and what is below it, and what is left without them. -/
def take (c : κ) : ItemTree α → Option ((α × ItemTree α) × ItemTree α)
  | nil => none
  | cons a below behind =>
    if key a = c then some ((a, below), behind)
    else (take c below).elim ((take c behind).map fun t => (t.1, cons a below t.2)) fun t => some (t.1, cons a t.2 behind)

/-- The key of what is above the first item of a key; none on the highest level. -/
def above (c : κ) (f : ItemTree α) : Option κ := ((links key none f).find? fun link => key link.2 = c).bind Prod.fst

end

variable {key} {f g new rest below : ItemTree α} {a : α} {c p x y : κ} {up : Option κ}

theorem links_items (up : Option κ) (f : ItemTree α) : (links key up f).map Prod.snd = f.items := by
  induction f generalizing up with
  | nil => rfl
  | cons _ _ _ ihBelow ihBehind => rw [links, items, map_cons, map_append, ihBelow, ihBehind]

theorem links_keys (up : Option κ) (f : ItemTree α) : (links key up f).map (fun link => key link.2) = keys key f := by
  rw [keys, ← links_items up, List.map_map]
  rfl

theorem links_append (up : Option κ) (f g : ItemTree α) :
    links key up (append f g) = links key up f ++ links key up g := by
  induction f with
  | nil => rfl
  | cons _ _ _ _ ih => rw [append, links, links, ih, cons_append, append_assoc]

theorem mem_keys_of_link {link : Option κ × α} (member : link ∈ links key up f) : key link.2 ∈ keys key f := by
  rw [← links_keys up f]
  exact mem_map_of_mem member

theorem keys_nil : keys key (nil : ItemTree α) = [] := rfl

theorem keys_cons (a : α) (below behind : ItemTree α) :
    keys key (cons a below behind) = key a :: (keys key below ++ keys key behind) := by
  rw [keys, items, map_cons, map_append]
  rfl

theorem up_of_link {link : Option κ × α} (member : link ∈ links key up f) :
    link.1 = up ∨ ∃ y ∈ keys key f, link.1 = some y := by
  induction f generalizing up with
  | nil => exact absurd member not_mem_nil
  | cons a _ _ ihBelow ihBehind =>
    rw [keys_cons]
    rcases mem_cons.mp member with rfl | later
    · exact Or.inl rfl
    · rcases mem_append.mp later with lower | next
      · rcases ihBelow lower with here | ⟨y, inside, same⟩
        · exact Or.inr ⟨key a, mem_cons_self, here⟩
        · exact Or.inr ⟨y, mem_cons_of_mem _ (mem_append_left _ inside), same⟩
      · rcases ihBehind next with here | ⟨y, inside, same⟩
        · exact Or.inl here
        · exact Or.inr ⟨y, mem_cons_of_mem _ (mem_append_right _ inside), same⟩

section
variable [DecidableEq κ]

theorem above_eq (distinct : (keys key f).Nodup) (member : (up, a) ∈ links key none f) : above key (key a) f = up := by
  rw [← links_keys none f] at distinct
  rw [above]
  cases found : (links key none f).find? fun link => key link.2 = key a with
  | none => exact absurd (decide_eq_true rfl) (find?_eq_none.mp found (up, a) member)
  | some link =>
    have named := find?_some found
    have same := inj_on_of_nodup_map distinct (mem_of_find?_eq_some found) member (of_decide_eq_true named)
    rw [same, bind_some]

private theorem search_eq_none_iff {β γ δ : Type} {here : Prop} [Decidable here] {below : Option β}
    {behind : Option γ} (hit : δ) (found : β → δ) (later : γ → δ) :
    (if here then some hit else below.elim (behind.map later) fun b => some (found b)) = none ↔
      ¬here ∧ below = none ∧ behind = none := by
  split
  next same => exact ⟨fun wrong => (some_ne_none _ wrong).elim, fun both => absurd same both.1⟩
  next other =>
    cases below with
    | some b => exact ⟨fun wrong => (some_ne_none _ wrong).elim, fun both => (some_ne_none _ both.2.1).elim⟩
    | none =>
      rw [elim_none, map_eq_none_iff]
      exact ⟨fun none_ => ⟨other, rfl, none_⟩, fun both => both.2.2⟩

theorem take_eq_none_iff (c : κ) (f : ItemTree α) : take key c f = none ↔ c ∉ keys key f := by
  induction f with
  | nil => exact ⟨fun _ => not_mem_nil, fun _ => rfl⟩
  | cons a _ _ ihBelow ihBehind =>
    rw [take, keys_cons, mem_cons, mem_append, not_or, not_or, ← ihBelow, ← ihBehind, eq_comm (a := c)]
    apply search_eq_none_iff

theorem take_links (found : take key c f = some ((a, below), rest)) (up : Option κ) :
    key a = c ∧ ∃ above, (links key up f).Perm ((above, a) :: (links key (some c) below ++ links key up rest)) := by
  induction f generalizing up rest with
  | nil => cases found
  | cons b lower behind ihLower ihBehind =>
    rw [take] at found
    split at found
    next same =>
      cases found
      subst same
      exact ⟨rfl, up, List.Perm.refl _⟩
    next _ =>
      cases inside : take key c lower with
      | some t =>
        rw [inside, elim_some] at found
        obtain ⟨⟨a', below'⟩, rest'⟩ := t
        cases found
        obtain ⟨same, above, split⟩ := ihLower inside (some (key b))
        refine ⟨same, above, ?_⟩
        rw [links, links]
        have moved := ((split.append_right (links key up behind)).cons (up, b)).trans (List.Perm.swap _ _ _)
        refine moved.trans (List.Perm.cons _ ?_)
        have whole : (links key (some c) below ++ (up, b) :: (links key (some (key b)) rest' ++ links key up behind)).Perm
            ((up, b) :: (links key (some c) below ++ (links key (some (key b)) rest' ++ links key up behind))) := perm_middle
        rw [← append_assoc] at whole
        exact whole.symm
      | none =>
        rw [inside, elim_none] at found
        obtain ⟨t, behind_, pair⟩ := map_eq_some_iff.mp found
        obtain ⟨⟨a', below'⟩, rest'⟩ := t
        cases pair
        obtain ⟨same, above, split⟩ := ihBehind behind_ up
        refine ⟨same, above, ?_⟩
        rw [links, links]
        have moved := (split.append_left (links key (some (key b)) lower)).cons (up, b)
        refine moved.trans ?_
        have front : (((up, b) :: links key (some (key b)) lower) ++ ((above, a) :: (links key (some c) below ++ links key up rest'))).Perm
            ((above, a) :: (((up, b) :: links key (some (key b)) lower) ++ (links key (some c) below ++ links key up rest'))) :=
          perm_middle
        refine front.trans (List.Perm.cons _ ?_)
        have swapped : (((up, b) :: links key (some (key b)) lower) ++ links key (some c) below ++ links key up rest').Perm
            (links key (some c) below ++ ((up, b) :: links key (some (key b)) lower) ++ links key up rest') :=
          perm_append_comm.append_right _
        rw [append_assoc, append_assoc] at swapped
        exact swapped

theorem addBelow_eq_none_iff (p : κ) (new f : ItemTree α) : addBelow key p new f = none ↔ p ∉ keys key f := by
  induction f with
  | nil => exact ⟨fun _ => not_mem_nil, fun _ => rfl⟩
  | cons a _ _ ihBelow ihBehind =>
    rw [addBelow, keys_cons, mem_cons, mem_append, not_or, not_or, ← ihBelow, ← ihBehind, eq_comm (a := p)]
    apply search_eq_none_iff

theorem addBelow_links (found : addBelow key p new f = some g) (up : Option κ) :
    (links key up g).Perm (links key up f ++ links key (some p) new) := by
  induction f generalizing up g with
  | nil => cases found
  | cons _ below _ ihBelow ihBehind =>
    rw [addBelow] at found
    split at found
    next same =>
      cases found
      subst same
      rw [links, links, links_append, cons_append, append_assoc, append_assoc]
      exact (perm_append_comm.append_left _).cons _
    next _ =>
      cases inside : addBelow key p new below with
      | some more =>
        rw [inside, elim_some] at found
        cases found
        rw [links, links, cons_append, append_assoc]
        refine List.Perm.cons _ (((ihBelow inside _).append_right _).trans ?_)
        rw [append_assoc]
        exact perm_append_comm.append_left _
      | none =>
        rw [inside, elim_none] at found
        obtain ⟨more, behind_, same⟩ := map_eq_some_iff.mp found
        cases same
        rw [links, links, cons_append, append_assoc]
        exact ((ihBehind behind_ up).append_left _).cons _

end

/-- An item of the list hangs below another, directly or not, or is that item. -/
def Hangs (key : α → κ) (l : List (Option κ × α)) : κ → κ → Prop :=
  Relation.ReflTransGen fun y x => ∃ a, key a = x ∧ (some y, a) ∈ l

theorem Hangs.mono {l l' : List (Option κ × α)} (subset : ∀ link ∈ l, link ∈ l') (hangs : Hangs key l y x) :
    Hangs key l' y x :=
  Relation.ReflTransGen.mono (fun _ _ ⟨a, same, member⟩ => ⟨a, same, subset _ member⟩) y x hangs

theorem hangs_all (member : x ∈ keys key f) (c : κ) : Hangs key (links key (some c) f) c x := by
  induction f generalizing c with
  | nil => exact absurd member not_mem_nil
  | cons a _ behind ihBelow ihBehind =>
    rw [keys_cons] at member
    rcases mem_cons.mp member with rfl | later
    · exact Relation.ReflTransGen.single ⟨a, rfl, mem_cons_self⟩
    · rcases mem_append.mp later with lower | next
      · have deeper := (ihBelow lower (key a)).mono fun link member =>
          mem_cons_of_mem (some c, a) (mem_append_left (links key (some c) behind) member)
        exact Relation.ReflTransGen.head ⟨a, rfl, mem_cons_self⟩ deeper
      · exact (ihBehind next c).mono fun link member => mem_cons_of_mem _ (mem_append_right _ member)

theorem take_hangs [DecidableEq κ] (distinct : (keys key f).Nodup) (found : take key c f = some ((a, below), rest)) :
    x = c ∨ x ∈ keys key below ↔ Hangs key (links key none f) c x := by
  obtain ⟨named, _, split⟩ := take_links found none
  constructor
  · rintro (rfl | lower)
    · exact Relation.ReflTransGen.refl
    · exact (hangs_all lower c).mono fun link member => split.mem_iff.mpr (mem_cons_of_mem _ (mem_append_left _ member))
  · intro hangs
    have apart := (split.map fun link => key link.2).nodup_iff.mp (by rwa [links_keys])
    rw [map_cons, map_append, links_keys, links_keys, named, nodup_cons, nodup_append] at apart
    obtain ⟨first, -, -, both⟩ := apart
    induction hangs with
    | refl => exact Or.inl rfl
    | tail _ step ih =>
      obtain ⟨_, rfl, member⟩ := step
      rcases mem_cons.mp (split.mem_iff.mp member) with here | later
      · left
        rw [(Prod.mk.inj here).2, named]
      · rcases mem_append.mp later with lower | other
        · exact Or.inr (mem_keys_of_link lower)
        · rcases up_of_link other with wrong | ⟨_, inside, same⟩
          · cases wrong
          · cases some.inj same
            rcases ih with rfl | lower
            · exact absurd (mem_append_right _ inside) first
            · exact absurd rfl (both _ lower _ inside)

end ItemTree

end Pcbsd.Lib
