import Mathlib.Data.List.Induction
import Mathlib.Data.List.Nodup
import Pcbsd.ObjLoad

/-! Where the sections of a relocatable object are placed: the passes of obj_loadimage as one list of requests. -/

namespace Pcbsd.ObjLoad
open Lib Lib.Placement Elf Reloc List Option Function

variable (obj : Object)

/-- The room that a section asks for. Its label is the section whose sh_addr is set. -/
def Object.request (i : Nat) : Request (Option Nat) := ⟨some i, (obj.shdr i).addralign, (obj.shdr i).size⟩

def Object.chosen (p : Section → Bool) : List (Request (Option Nat)) :=
  ((range obj.shnum).filter fun i => p (obj.shdr i)).map obj.request

/-- All requests, in order. The room that the first loop over the symbol tables takes is given up. -/
def Object.requests (symtab : Nat) : List (Request (Option Nat)) :=
  obj.chosen Section.contents ++
    (⟨none, 1, (obj.shdr symtab).size⟩ :: obj.request symtab :: obj.request (obj.shdr symtab).link ::
      obj.request obj.shstrndx :: obj.chosen Section.relocations)

def Object.serve (r : Request (Option Nat)) (s : Layout) : Option Layout :=
  (obj.roundup s.last r.align).map fun last =>
    ⟨r.label.elim s.addr (update s.addr · last), (last + r.size) % obj.build.pointers⟩

def Object.serveAll : List (Request (Option Nat)) → Layout → Option Layout
  | [], s => some s
  | r :: rest, s => (obj.serve r s).bind (Object.serveAll rest)

def addrAfter (addr : Nat → Nat) (placed : List (Request (Option Nat) × Nat)) : Nat → Nat :=
  placed.foldl (fun addr place => place.1.label.elim addr (update addr · place.2)) addr

def Object.Assigned (symtab i : Nat) : Prop :=
  i < obj.shnum ∧ ((obj.shdr i).contents ∨ i = symtab ∨ i = (obj.shdr symtab).link ∨ i = obj.shstrndx ∨
    (obj.shdr i).relocations)

instance (symtab i : Nat) : Decidable (obj.Assigned symtab i) := inferInstanceAs (Decidable (_ ∧ _))

/-- Each section that gets an address has its own aligned room in the area. -/
structure LaidOut (symtab first : Nat) (s : Layout) : Prop where
  inside : ∀ i, obj.Assigned symtab i → first ≤ s.addr i ∧ s.addr i + (obj.shdr i).size ≤ s.last
  aligned : ∀ i, obj.Assigned symtab i → (obj.shdr i).addralign ∣ s.addr i
  apart : ∀ i j, obj.Assigned symtab i → obj.Assigned symtab j → i ≠ j →
    s.addr i + (obj.shdr i).size ≤ s.addr j ∨ s.addr j + (obj.shdr j).size ≤ s.addr i
  others : ∀ i, ¬obj.Assigned symtab i → s.addr i = 0

structure Links (symtab : Nat) : Prop where
  there : symtab < obj.shnum
  table : (obj.shdr symtab).type = shtSymtab
  only : ∀ i < obj.shnum, (obj.shdr i).type = shtSymtab → i = symtab
  strings : ¬obj.noStrings (obj.shdr symtab).link
  named : obj.shstrndx ≠ 0
  names : ¬obj.noStrings obj.shstrndx

variable {obj} {s s' : Layout} {symtab first : Nat} {requests front back : List (Request (Option Nat))}

theorem serveAll_append : obj.serveAll (front ++ back) s = (obj.serveAll front s).bind (obj.serveAll back) := by
  induction front generalizing s with
  | nil => rfl
  | cons _ _ ih =>
    rw [cons_append, Object.serveAll, Object.serveAll, bind_assoc]
    exact congrArg _ (funext fun s => ih)

theorem placeAll_eq (p : Section → Bool) (l : List Nat) (s : Layout) :
    obj.placeAll p l s = obj.serveAll ((l.filter fun i => p (obj.shdr i)).map obj.request) s := by
  induction l generalizing s with
  | nil => rfl
  | cons i _ ih =>
    rw [Object.placeAll]
    by_cases chosen : p (obj.shdr i)
    · rw [if_pos chosen, filter_cons, if_pos chosen, map_cons, Object.serveAll]
      exact congrArg _ (funext ih)
    · rw [if_neg chosen, filter_cons, if_neg chosen, ih]

theorem symbolLoop_none {l : List Nat} (none_ : ∀ i ∈ l, (obj.shdr i).type ≠ shtSymtab) (found : Nat × Nat)
    (s : Layout) :
    obj.symbolLoop l found s = (found, s) := by
  induction l generalizing found s with
  | nil => rfl
  | cons i _ ih =>
    rw [Object.symbolLoop, if_neg (none_ i mem_cons_self)]
    exact ih (fun j there => none_ j (mem_cons_of_mem _ there)) found s

theorem symbolLoop_append (front back : List Nat) (found : Nat × Nat) (s : Layout) :
    obj.symbolLoop (front ++ back) found s = obj.symbolLoop back (obj.symbolLoop front found s).1
      (obj.symbolLoop front found s).2 := by
  induction front generalizing found s with
  | nil => rfl
  | cons _ _ ih =>
    rw [cons_append, Object.symbolLoop, Object.symbolLoop]
    split
    · exact ih _ _
    · exact ih _ _

theorem symbolLoop_one (links : Links obj symtab) (s : Layout) :
    obj.symbolLoop (range obj.shnum) (0, 0) s = ((1, symtab), obj.reserve symtab s) := by
  obtain ⟨before, after, split⟩ := append_of_mem (mem_range.mpr links.there)
  have distinct := split ▸ nodup_range
  have apart := (nodup_cons.mp (nodup_middle.mp distinct)).1
  have inside : ∀ i ∈ before ++ after, (obj.shdr i).type ≠ shtSymtab := by
    intro i there same
    have small : i < obj.shnum := by
      refine mem_range.mp (split ▸ ?_)
      exact (perm_middle.mem_iff).mpr (mem_cons_of_mem _ there)
    exact apart (links.only i small same ▸ there)
  rw [split, symbolLoop_append, symbolLoop_none fun i there => inside i (mem_append_left _ there), Object.symbolLoop,
    if_pos links.table, symbolLoop_none fun i there => inside i (mem_append_right _ there)]

theorem serve_small (done : obj.serve r s = some s') : s'.last < obj.build.pointers := by
  obtain ⟨last, -, rfl⟩ := map_eq_some_iff.mp done
  refine Nat.mod_lt _ ?_
  rcases obj.build with _ | _ | _
  all_goals decide

theorem serveAll_small (small : s.last < obj.build.pointers) (done : obj.serveAll requests s = some s') :
    s'.last < obj.build.pointers := by
  induction requests generalizing s with
  | nil =>
    cases done
    exact small
  | cons _ _ ih =>
    obtain ⟨_, first, later⟩ := bind_eq_some_iff.mp done
    exact ih (serve_small first) later

theorem roundup_once {x : Nat} (small : x < obj.build.pointers) : obj.roundup x 1 = some x := by
  have wide : obj.build.pointers ≤ obj.build.values := by
    rcases obj.build with _ | _ | _
    all_goals decide
  rw [Object.roundup, if_neg Nat.one_ne_zero, Nat.sub_self, Nat.add_zero,
    Nat.mod_eq_of_lt (Nat.lt_of_lt_of_le small wide), Nat.div_one, Nat.mul_one, Nat.mod_eq_of_lt small]

theorem place_symtab (small : s.last < obj.build.pointers) :
    obj.place symtab (obj.reserve symtab s) = (obj.serve ⟨none, 1, (obj.shdr symtab).size⟩ s).bind
      (obj.serve (obj.request symtab)) := by
  rw [Object.serve, roundup_once small, map_some, bind_some, Object.place, Object.serve]
  refine map_congr fun last _ => ?_
  rw [Object.reserve, Object.reserve, update_idem]
  rfl

theorem layout_eq (links : Links obj symtab) (small : first < obj.build.pointers) :
    obj.layout first = (obj.serveAll (obj.requests symtab) ⟨fun _ => 0, first⟩).map some := by
  rw [Object.layout, placeAll_eq, Object.requests, serveAll_append, ← Object.chosen, map_bind]
  rcases coded : obj.serveAll (obj.chosen Section.contents) ⟨fun _ => 0, first⟩ with _ | s
  · rfl
  rw [bind_some, bind_some, symbolLoop_one links]
  dsimp only [comp]
  rw [if_neg (not_not.mpr rfl), place_symtab (serveAll_small small coded), bind_assoc, Object.serveAll, map_bind]
  refine congrArg _ (funext fun s => ?_)
  rw [comp, Object.serveAll, map_bind]
  refine congrArg _ (funext fun s => ?_)
  rw [if_neg links.strings, comp, Object.serveAll, map_bind]
  refine congrArg _ (funext fun s => ?_)
  rw [if_neg (not_or.mpr ⟨links.named, links.names⟩), comp, Object.serveAll, map_bind]
  refine congrArg _ (funext fun s => ?_)
  rw [placeAll_eq]
  rfl

section

theorem serveAll_zero (zero : ∃ r ∈ requests, r.align = 0) : obj.serveAll requests s = none := by
  induction requests generalizing s with
  | nil =>
    obtain ⟨r, there, -⟩ := zero
    exact absurd there not_mem_nil
  | cons r _ ih =>
    rw [Object.serveAll]
    obtain ⟨other, there, zero⟩ := zero
    rcases mem_cons.mp there with rfl | later
    · rw [Object.serve, Object.roundup, if_pos zero, map_none, bind_none]
    · rcases obj.serve r s with _ | _
      · rfl
      · exact ih ⟨other, later, zero⟩

theorem values_pow : ∃ m, obj.build.values = 2 ^ m := by
  rcases obj.build with _ | _ | _
  · exact ⟨32, by decide⟩
  · exact ⟨64, by decide⟩
  · exact ⟨64, by decide⟩

theorem pointers_le_values : obj.build.pointers ≤ obj.build.values := by
  rcases obj.build with _ | _ | _
  all_goals decide

theorem roundup_fits {x k : Nat} (positive : 0 < x) (fits : Records.roundup x (2 ^ k) < obj.build.pointers) :
    obj.roundup x (2 ^ k) = some (Records.roundup x (2 ^ k)) := by
  obtain ⟨m, values⟩ := @values_pow obj
  have below := Nat.lt_of_lt_of_le fits pointers_le_values
  have one : 0 < 2 ^ k := Nat.two_pow_pos k
  have up := Records.le_roundup x one
  have step := Nat.le_of_dvd (Nat.lt_of_lt_of_le positive up) (roundup_dvd _ _)
  have divides : 2 ^ k ∣ 2 ^ m := by
    refine Nat.pow_dvd_pow 2 (Nat.le_of_lt ((Nat.pow_lt_pow_iff_right (by decide : 1 < 2)).mp ?_))
    rw [← values]
    exact Nat.lt_of_le_of_lt step below
  rw [values] at below
  have room := Nat.le_of_dvd (Nat.sub_pos_of_lt below) (Nat.dvd_sub divides (roundup_dvd _ _))
  have sum : x + (2 ^ k - 1) < 2 ^ m := by
    have same : (x + (2 ^ k - 1)) / 2 ^ k * 2 ^ k = Records.roundup x (2 ^ k) := rfl
    omega
  have same : (x + (2 ^ k - 1)) / 2 ^ k * 2 ^ k = Records.roundup x (2 ^ k) := rfl
  rw [Object.roundup, if_neg (Nat.ne_of_gt one), values, Nat.mod_eq_of_lt sum, same, Nat.mod_eq_of_lt fits]

theorem serveAll_fits (aligned : ∀ r ∈ requests, ∃ k, r.align = 2 ^ k) (addr : Nat → Nat) (positive : 0 < first)
    (fits : finish first requests < obj.build.pointers) :
    obj.serveAll requests ⟨addr, first⟩ = some ⟨addrAfter addr (places first requests), finish first requests⟩ := by
  induction requests generalizing addr first with
  | nil => rfl
  | cons r rest ih =>
    obtain ⟨k, align⟩ := aligned r mem_cons_self
    have behind : ∀ other ∈ rest, ∃ k, other.align = 2 ^ k := fun other there => aligned other (mem_cons_of_mem _ there)
    have later : ∀ other ∈ rest, 0 < other.align := fun other there => by
      obtain ⟨k, align⟩ := behind other there
      exact align ▸ Nat.two_pow_pos k
    rw [finish, align] at fits
    have ends : Records.roundup first (2 ^ k) + r.size ≤ _ := le_finish later
    have up := Records.le_roundup first (Nat.two_pow_pos k)
    rw [Object.serveAll, Object.serve, align, roundup_fits positive (by omega), map_some, bind_some,
      Nat.mod_eq_of_lt (by omega), ih behind _ (by omega) fits, places, finish, align]
    rfl

theorem addrAfter_append (addr : Nat → Nat) (front back : List (Request (Option Nat) × Nat)) :
    addrAfter addr (front ++ back) = addrAfter (addrAfter addr front) back := foldl_append

variable {placed : List (Request (Option Nat) × Nat)} {i : Nat}

theorem addrAfter_mem (addr : Nat → Nat)
    (asks : ∃ place ∈ placed, place.1.label = some i) :
    ∃ place ∈ placed, place.1.label = some i ∧ addrAfter addr placed i = place.2 := by
  induction placed using reverseRecOn with
  | nil =>
    obtain ⟨place, there, -⟩ := asks
    exact absurd there not_mem_nil
  | append_singleton front last ih =>
    rw [addrAfter_append]
    by_cases label : last.1.label = some i
    · refine ⟨last, mem_append_right _ mem_cons_self, label, ?_⟩
      rw [addrAfter, foldl_cons, foldl_nil, label]
      exact update_self _ _ _
    · obtain ⟨place, there, same⟩ := asks
      have early : place ∈ front := by
        rcases mem_append.mp there with early | final
        · exact early
        · exact absurd same (mem_singleton.mp final ▸ label)
      obtain ⟨place, there, same, value⟩ := ih ⟨place, early, same⟩
      refine ⟨place, mem_append_left _ there, same, ?_⟩
      rw [← value, addrAfter, foldl_cons, foldl_nil]
      rcases other : last.1.label with _ | _
      · rfl
      · exact update_of_ne (fun equal => label (other.trans (congrArg some equal.symm))) _ _

theorem addrAfter_none {addr : Nat → Nat}
    (none_ : ∀ place ∈ placed, place.1.label ≠ some i) : addrAfter addr placed i = addr i := by
  induction placed generalizing addr with
  | nil => rfl
  | cons place _ ih =>
    rw [addrAfter, foldl_cons, ← addrAfter, ih fun other there => none_ other (mem_cons_of_mem _ there)]
    rcases label : place.1.label with _ | _
    · rfl
    · exact update_of_ne (fun equal => none_ place mem_cons_self (label.trans (congrArg some equal.symm))) _ _

variable {r : Request (Option Nat)}

theorem mem_chosen {p : Section → Bool} :
    r ∈ obj.chosen p ↔ ∃ i, (i < obj.shnum ∧ p (obj.shdr i)) ∧ obj.request i = r := by
  rw [Object.chosen, List.mem_map]
  simp only [mem_filter, mem_range]

theorem string_lt (string : ¬obj.noStrings i) : i < obj.shnum ∧ (obj.shdr i).type = shtStrtab := by
  rw [Object.noStrings, not_or, not_or, not_not] at string
  exact ⟨Nat.lt_of_not_le string.2.1, string.2.2⟩

theorem request_assigned (links : Links obj symtab) (there : r ∈ obj.requests symtab)
    (label : r.label = some i) : obj.Assigned symtab i ∧ r = obj.request i := by
  have same {j : Nat} (is : obj.request j = r) : j = i := by
    rw [← is] at label
    exact some.inj label
  rw [Object.requests, mem_append, mem_cons, mem_cons, mem_cons, mem_cons, mem_chosen, mem_chosen] at there
  rcases there with ⟨j, ⟨small, contents⟩, is⟩ | rfl | is | is | is | ⟨j, ⟨small, relocations⟩, is⟩
  · obtain rfl := same is
    exact ⟨⟨small, .inl contents⟩, is.symm⟩
  · cases label
  · obtain rfl := same is.symm
    exact ⟨⟨links.there, .inr (.inl rfl)⟩, is⟩
  · obtain rfl := same is.symm
    exact ⟨⟨(string_lt links.strings).1, .inr (.inr (.inl rfl))⟩, is⟩
  · obtain rfl := same is.symm
    exact ⟨⟨(string_lt links.names).1, .inr (.inr (.inr (.inl rfl)))⟩, is⟩
  · obtain rfl := same is
    exact ⟨⟨small, .inr (.inr (.inr (.inr relocations)))⟩, is.symm⟩

theorem request_unlabeled (there : r ∈ obj.requests symtab) (label : r.label = none) : r.align = 1 := by
  have labeled {j : Nat} (is : obj.request j = r) : r.align = 1 := by
    rw [← is] at label
    cases label
  rw [Object.requests, mem_append, mem_cons, mem_cons, mem_cons, mem_cons, mem_chosen, mem_chosen] at there
  rcases there with ⟨j, -, is⟩ | rfl | is | is | is | ⟨j, -, is⟩
  · exact labeled is
  · rfl
  · exact labeled is.symm
  · exact labeled is.symm
  · exact labeled is.symm
  · exact labeled is

theorem assigned_request (assigned : obj.Assigned symtab i) : obj.request i ∈ obj.requests symtab := by
  obtain ⟨small, kind⟩ := assigned
  rw [Object.requests, mem_append, mem_cons, mem_cons, mem_cons, mem_cons, mem_chosen, mem_chosen]
  rcases kind with contents | rfl | rfl | rfl | relocations
  · exact .inl ⟨i, ⟨small, contents⟩, rfl⟩
  · exact .inr (.inr (.inl rfl))
  · exact .inr (.inr (.inr (.inl rfl)))
  · exact .inr (.inr (.inr (.inr (.inl rfl))))
  · exact .inr (.inr (.inr (.inr (.inr ⟨i, ⟨small, relocations⟩, rfl⟩))))

theorem layout_zero (links : Links obj symtab) (small : first < obj.build.pointers) (assigned : obj.Assigned symtab i)
    (zero : (obj.shdr i).addralign = 0) : obj.layout first = none := by
  rw [layout_eq links small, serveAll_zero ⟨obj.request i, assigned_request assigned, zero⟩, map_none]

theorem layout_fits (links : Links obj symtab) (positive : 0 < first)
    (aligned : ∀ i, obj.Assigned symtab i → ∃ k, (obj.shdr i).addralign = 2 ^ k)
    (fits : finish first (obj.requests symtab) < obj.build.pointers) :
    ∃ s, obj.layout first = some (some s) ∧ s.last = finish first (obj.requests symtab) ∧ LaidOut obj symtab first s := by
  have powers : ∀ r ∈ obj.requests symtab, ∃ k, r.align = 2 ^ k := by
    intro r there
    rcases label : r.label with _ | i
    · exact ⟨0, request_unlabeled there label⟩
    · obtain ⟨assigned, rfl⟩ := request_assigned links there label
      exact aligned i assigned
  have up : ∀ r ∈ obj.requests symtab, 0 < r.align := fun r there => by
    obtain ⟨k, align⟩ := powers r there
    exact align ▸ Nat.two_pow_pos k
  have small : first < obj.build.pointers := Nat.lt_of_le_of_lt (le_finish up) fits
  refine ⟨_, by rw [layout_eq links small, serveAll_fits powers _ positive fits, map_some], rfl, ?_⟩
  have placed (i : Nat) (assigned : obj.Assigned symtab i) :
      (obj.request i, addrAfter (fun _ => 0) (places first (obj.requests symtab)) i) ∈ places first (obj.requests symtab) := by
    have asked : obj.request i ∈ (places first (obj.requests symtab)).map Prod.fst := by
      rw [places_map]
      exact assigned_request assigned
    obtain ⟨place, there, is⟩ := List.mem_map.mp asked
    obtain ⟨⟨r, _⟩, there, label, value⟩ := addrAfter_mem (fun _ => 0) ⟨place, there, by rw [is]; rfl⟩
    obtain ⟨-, rfl⟩ := request_assigned links (places_request there) label
    rwa [value]
  refine ⟨fun i assigned => ?_, fun i assigned => ?_, fun i j here there other => ?_, fun i none_ => ?_⟩
  · exact places_inside up (placed i assigned)
  · exact places_aligned (placed i assigned)
  · refine places_apart up (placed i here) (placed j there) fun same => other ?_
    exact some.inj (congrArg (fun place => place.1.label) same)
  · refine addrAfter_none fun place there label => none_ ?_
    exact (request_assigned links (places_request there) label).1

end

end Pcbsd.ObjLoad
