import Mathlib.Data.Finset.Card
import Mathlib.Data.Finset.Range
import Pcbsd.Proofs.ObjectLayout

/-! When obj_loadimage gives each section of a relocatable object its room and its contents. -/

namespace Pcbsd.ObjLoad
open Lib Lib.Placement Memory Elf Reloc List Option

variable (obj : Object) (addr : Nat → Nat)

def Object.contentsOf (i : Nat) : Bytes :=
  if (obj.shdr i).type = shtNobits then replicate (obj.shdr i).size 0
  else (obj.pread (obj.shdr i).size (obj.shdr i).offset).getD []

/-- The loop does not pass over the section because of its address or type. -/
def Candidate (i : Nat) : Prop := addr i ≠ 0 ∧ (obj.shdr i).type ≠ shtNobits

def Pool (lshdr : Option Nat) (i : Nat) : Prop :=
  Candidate obj addr i ∧ ∀ l, lshdr = some l → (obj.shdr l).offset < (obj.shdr i).offset

def First (i : Nat) : Prop := ∀ j < i, Candidate obj addr j → (obj.shdr j).offset ≠ (obj.shdr i).offset

def Smallest (lshdr : Option Nat) (n c : Nat) : Prop :=
  c < n ∧ Pool obj addr lshdr c ∧
    ∀ i < n, Pool obj addr lshdr i → (obj.shdr c).offset < (obj.shdr i).offset ∨ (obj.shdr c).offset = (obj.shdr i).offset ∧ c ≤ i

def Object.readAll (order : List Nat) (mem : Mem) : Mem :=
  order.foldl (fun mem i => write mem (addr i) (obj.contentsOf i)) mem

def Section.alignment (shdr : Section) : Nat := if shdr.addralign = 0 then 1 else shdr.addralign

def Object.Claimed (i : Nat) : Prop :=
  i < obj.shnum ∧ (obj.shdr i).size ≠ 0 ∧
    (obj.shdr i).type ∈ [shtProgbits, shtNobits, shtSymtab, shtStrtab, shtRel, shtRela]

structure Held (image : Image) (i : Nat) : Prop where
  low : image.faddr ≤ image.addr i
  high : image.addr i + (obj.shdr i).size ≤ image.faddr + image.fsize
  aligned : (obj.shdr i).alignment ∣ image.addr i
  contents : bytesAt image.mem (image.addr i) (obj.shdr i).size = obj.contentsOf i

structure Complete (image : Image) : Prop where
  held : ∀ i, obj.Claimed i → Held obj image i
  apart : ∀ i j, obj.Claimed i → obj.Claimed j → i ≠ j →
    image.addr i + (obj.shdr i).size ≤ image.addr j ∨ image.addr j + (obj.shdr j).size ≤ image.addr i

variable (off symtab : Nat)

def Object.Loads (mem : Mem) : Prop := ∃ image, obj.objLoadimage off mem = some (some image) ∧ Complete obj image

structure Premises : Prop where
  links : Links obj symtab
  aligns : ∀ i < obj.shnum, (obj.shdr i).addralign = 0 ∨ ∃ k, (obj.shdr i).addralign = 2 ^ k
  disjoint : ∀ i < obj.shnum, ∀ j < obj.shnum, i ≠ j → (obj.shdr i).size ≠ 0 → (obj.shdr j).size ≠ 0 →
    (obj.shdr i).type ≠ shtNobits → (obj.shdr j).type ≠ shtNobits →
      (obj.shdr i).offset + (obj.shdr i).size ≤ (obj.shdr j).offset ∨ (obj.shdr j).offset + (obj.shdr j).size ≤
        (obj.shdr i).offset
  positive : 0 < off
  page : pageSize ∣ off
  reads : ∀ i, obj.Assigned symtab i → (obj.shdr i).type ≠ shtNobits →
    (obj.pread (obj.shdr i).size (obj.shdr i).offset).isSome

def Object.area : Nat := finish off
    ((obj.requests symtab).map fun r => { r with align := if r.align = 0 then 1 else r.align })

/-- No address wraps around, and the size of the area fits into an int where a size_t is longer. -/
structure Fits : Prop where
  below : obj.area off symtab < obj.build.pointers
  size : obj.build.pointers = 2 ^ 32 ∨ obj.area off symtab - off < 2 ^ 31

/-- No alignment that is used is zero; only the two string tables have contents; and a section is not hidden by an empty
one before it with its offset, unless it is all zeros. -/
structure Plain : Prop where
  nonzero : ∀ i, obj.Assigned symtab i → (obj.shdr i).addralign ≠ 0
  strings : ∀ i < obj.shnum, (obj.shdr i).type = shtStrtab → (obj.shdr i).size ≠ 0 → i = (obj.shdr symtab).link ∨
    i = obj.shstrndx
  seen : ∀ i, obj.Assigned symtab i → (obj.shdr i).size ≠ 0 → (obj.shdr i).type ≠ shtNobits →
    (∃ j < i, obj.Assigned symtab j ∧ (obj.shdr j).size = 0 ∧ (obj.shdr j).offset = (obj.shdr i).offset) →
      obj.contentsOf i = replicate (obj.shdr i).size 0

variable {obj addr off symtab} {lshdr : Option Nat} {mem : Mem}

theorem nextLoop_append (front back : List Nat) (cshdr : Option Nat) :
    obj.nextLoop addr lshdr (front ++ back) cshdr = obj.nextLoop addr lshdr back (obj.nextLoop addr lshdr front cshdr) := by
  induction front generalizing cshdr with
  | nil => rfl
  | cons _ _ ih =>
    rw [cons_append, Object.nextLoop, Object.nextLoop]
    repeat' split
    all_goals exact ih _

theorem any_iff {i : Nat} : (lshdr.any fun l => (obj.shdr i).offset ≤ (obj.shdr l).offset) = true ↔
    ∃ l, lshdr = some l ∧ (obj.shdr i).offset ≤ (obj.shdr l).offset := by
  cases lshdr <;> simp

theorem next_pool {n : Nat} (pool : Pool obj addr lshdr n) (cshdr : Option Nat) : obj.nextLoop addr lshdr [n] cshdr =
    if cshdr = lshdr ∨ cshdr.any (fun c => (obj.shdr n).offset < (obj.shdr c).offset) then some n else cshdr := by
  obtain ⟨⟨placed, type⟩, above⟩ := pool
  have behind : ¬(lshdr.any fun l => (obj.shdr n).offset ≤ (obj.shdr l).offset) = true := by
    rw [any_iff]
    rintro ⟨l, same, low⟩
    exact Nat.not_lt.mpr low (above l same)
  rw [Object.nextLoop, if_neg (not_or.mpr ⟨placed, type⟩), if_neg behind]
  rfl

theorem next_other {n : Nat} (other : ¬Pool obj addr lshdr n) (cshdr : Option Nat) :
    obj.nextLoop addr lshdr [n] cshdr = cshdr := by
  rw [Object.nextLoop]
  split
  · rfl
  next candidate =>
    split
    · rfl
    next behind =>
      refine absurd ⟨not_or.mp candidate, fun l same => ?_⟩ other
      rw [any_iff] at behind
      exact Nat.lt_of_not_le fun low => behind ⟨l, same, low⟩

theorem nextLoop_smallest (n : Nat) :
    (obj.nextLoop addr lshdr (range n) lshdr = lshdr ∧ ∀ i < n, ¬Pool obj addr lshdr i) ∨
      ∃ c, obj.nextLoop addr lshdr (range n) lshdr = some c ∧ Smallest obj addr lshdr n c := by
  induction n with
  | zero => exact .inl ⟨rfl, fun _ small => absurd small (Nat.not_lt_zero _)⟩
  | succ n ih =>
    rw [range_succ, nextLoop_append]
    by_cases pool : Pool obj addr lshdr n
    · rw [next_pool pool]
      right
      rcases ih with ⟨same, none_⟩ | ⟨c, found, small, candidate, least⟩
      · rw [if_pos (.inl same)]
        refine ⟨n, rfl, Nat.lt_succ_self n, pool, fun i below here => ?_⟩
        rcases Nat.lt_succ_iff_lt_or_eq.mp below with before | rfl
        · exact absurd here (none_ i before)
        · exact .inr ⟨rfl, Nat.le_refl _⟩
      · have fresh : some c ≠ lshdr := fun same => Nat.lt_irrefl _ (candidate.2 c same.symm)
        rw [found]
        by_cases lower : (obj.shdr n).offset < (obj.shdr c).offset
        · rw [if_pos (.inr (decide_eq_true lower))]
          refine ⟨n, rfl, Nat.lt_succ_self n, pool, fun i below here => ?_⟩
          rcases Nat.lt_succ_iff_lt_or_eq.mp below with before | rfl
          · rcases least i before here with less | ⟨equal, -⟩
            · exact .inl (Nat.lt_trans lower less)
            · exact .inl (equal ▸ lower)
          · exact .inr ⟨rfl, Nat.le_refl _⟩
        · have kept : ¬(some c = lshdr ∨ (some c).any fun c => (obj.shdr n).offset < (obj.shdr c).offset) :=
            not_or.mpr ⟨fresh, by simpa using lower⟩
          rw [if_neg kept]
          refine ⟨c, rfl, Nat.lt_succ_of_lt small, candidate, fun i below here => ?_⟩
          rcases Nat.lt_succ_iff_lt_or_eq.mp below with before | rfl
          · exact least i before here
          · rcases Nat.lt_or_eq_of_le (Nat.le_of_not_lt lower) with less | equal
            · exact .inl less
            · exact .inr ⟨equal, Nat.le_of_lt small⟩
    · rw [next_other pool]
      have grown : ∀ i < n + 1, Pool obj addr lshdr i → i < n := by
        intro i below here
        rcases Nat.lt_succ_iff_lt_or_eq.mp below with before | rfl
        · exact before
        · exact absurd here pool
      rcases ih with ⟨same, none_⟩ | ⟨c, found, small, candidate, least⟩
      · exact .inl ⟨same, fun i below here => none_ i (grown i below here) here⟩
      · exact .inr ⟨c, found, Nat.lt_succ_of_lt small, candidate, fun i below here => least i (grown i below here) here⟩

theorem loads_step {n c : Nat} (smallest : Smallest obj addr lshdr n c) {i : Nat} (below : i < n) :
    (Pool obj addr lshdr i ∧ First obj addr i) ↔ i = c ∨ Pool obj addr (some c) i ∧ First obj addr i := by
  obtain ⟨small, candidate, least⟩ := smallest
  have first : First obj addr c := by
    intro j before here same
    have pool : Pool obj addr lshdr j := ⟨here, fun l found => same ▸ candidate.2 l found⟩
    rcases least j (Nat.lt_trans before small) pool with less | ⟨-, behind⟩
    · exact Nat.ne_of_gt less same
    · exact Nat.not_lt.mpr behind before
  constructor
  · rintro ⟨pool, only⟩
    rcases least i below pool with less | ⟨equal, behind⟩
    · exact .inr ⟨⟨pool.1, fun l found => some.inj found ▸ less⟩, only⟩
    · rcases Nat.lt_or_eq_of_le behind with before | same
      · exact absurd equal (only c before candidate.1)
      · exact .inl same.symm
  · rintro (rfl | ⟨pool, only⟩)
    · exact ⟨candidate, first⟩
    · exact ⟨⟨pool.1, fun l found => Nat.lt_trans (candidate.2 l found) (pool.2 c rfl)⟩, only⟩

open Classical in
theorem loadLoop_reads (fuel : Nat) (reads : ∀ i < obj.shnum, Candidate obj addr i →
      obj.pread ((obj.shdr i).size % obj.build.pointers) (obj.shdr i).offset = some (obj.contentsOf i)) (mem : Mem)
    (enough : ((Finset.range obj.shnum).filter (Pool obj addr lshdr)).card < fuel) :
    ∃ order, obj.loadLoop addr fuel lshdr mem = some (some (obj.readAll addr order mem)) ∧
      ∀ i, i ∈ order ↔ i < obj.shnum ∧ Pool obj addr lshdr i ∧ First obj addr i := by
  induction fuel generalizing lshdr mem with
  | zero => exact absurd enough (Nat.not_lt_zero _)
  | succ fuel ih =>
    rw [Object.loadLoop]
    rcases @nextLoop_smallest obj addr lshdr obj.shnum with ⟨same, none_⟩ | ⟨c, found, smallest⟩
    · refine ⟨[], ?_, fun i => ⟨fun there => absurd there not_mem_nil, fun ⟨small, pool, _⟩ => absurd pool (none_ i small)⟩⟩
      rw [same]
      cases lshdr with
      | none => rfl
      | some l => exact if_pos rfl
    · have fresh : some c ≠ lshdr := fun same => Nat.lt_irrefl _ (smallest.2.1.2 c same.symm)
      have fewer : ((Finset.range obj.shnum).filter (Pool obj addr (some c))).card < fuel := by
        refine Nat.lt_of_lt_of_le (Finset.card_lt_card ?_) (Nat.le_of_lt_succ enough)
        refine Finset.ssubset_iff_subset_ne.mpr ⟨fun i there => ?_, fun same => ?_⟩
        · obtain ⟨inside, pool⟩ := Finset.mem_filter.mp there
          exact Finset.mem_filter.mpr ⟨inside, pool.1, fun l found => Nat.lt_trans (smallest.2.1.2 l found) (pool.2 c rfl)⟩
        · have here := Finset.mem_filter.mpr ⟨Finset.mem_range.mpr smallest.1, smallest.2.1⟩
          rw [← same] at here
          exact Nat.lt_irrefl _ ((Finset.mem_filter.mp here).2.2 c rfl)
      obtain ⟨order, loaded, members⟩ := ih (write mem (addr c) (obj.contentsOf c)) fewer
      refine ⟨c :: order, ?_, fun i => ?_⟩
      · rw [found]
        dsimp only
        rw [if_neg fresh, reads c smallest.1 smallest.2.1.1]
        exact loaded
      · rw [mem_cons, members]
        constructor
        · rintro (rfl | ⟨small, there⟩)
          · exact ⟨smallest.1, (loads_step smallest smallest.1).mpr (.inl rfl)⟩
          · exact ⟨small, (loads_step smallest small).mpr (.inr there)⟩
        · rintro ⟨small, there⟩
          rcases (loads_step smallest small).mp there with rfl | later
          · exact .inl rfl
          · exact .inr ⟨small, later⟩

theorem readAll_other {order : List Nat} {at_ n : Nat}
    (apart : ∀ i ∈ order, at_ + n ≤ addr i ∨ addr i + (obj.contentsOf i).length ≤ at_) :
    bytesAt (obj.readAll addr order mem) at_ n = bytesAt mem at_ n := by
  induction order generalizing mem with
  | nil => rfl
  | cons i _ ih =>
    rw [Object.readAll, foldl_cons, ← Object.readAll, ih fun j there => apart j (mem_cons_of_mem _ there)]
    exact bytesAt_write_other (apart i mem_cons_self)

theorem readAll_inside {order : List Nat} {i : Nat} (there : i ∈ order)
    (apart : ∀ j ∈ order, j ≠ i → addr i + (obj.contentsOf i).length ≤ addr j ∨ addr j + (obj.contentsOf j).length ≤ addr i) :
    bytesAt (obj.readAll addr order mem) (addr i) (obj.contentsOf i).length = obj.contentsOf i := by
  induction order generalizing mem with
  | nil => exact absurd there not_mem_nil
  | cons _ rest ih =>
    rw [Object.readAll, foldl_cons, ← Object.readAll]
    by_cases later : i ∈ rest
    · exact ih later fun j there => apart j (mem_cons_of_mem _ there)
    · obtain rfl := (mem_cons.mp there).resolve_right later
      rw [readAll_other fun j there => apart j (mem_cons_of_mem _ there) fun same => later (same ▸ there)]
      exact bytesAt_write _ _ _

theorem bytesAt_cleared {start len at_ n : Nat} (low : start ≤ at_) (high : at_ + n ≤ start + len) :
    bytesAt (write mem start (replicate len 0)) at_ n = replicate n 0 := by
  obtain ⟨off, rfl⟩ := Nat.exists_eq_add_of_le low
  have whole := bytesAt_write mem start (replicate len 0)
  rw [length_replicate] at whole
  rw [← slice_range (by omega : off + n ≤ len), whole, slice, drop_replicate, take_replicate,
    Nat.min_eq_left (by omega)]

section

theorem area_eq (links : Links obj symtab) (nonzero : ∀ i, obj.Assigned symtab i → (obj.shdr i).addralign ≠ 0) :
    obj.area off symtab = finish off (obj.requests symtab) := by
  refine congrArg (finish off) ((map_congr_left fun r there => ?_).trans (map_id (obj.requests symtab)))
  have some_ : r.align ≠ 0 := by
    rcases label : r.label with _ | i
    · rw [request_unlabeled there label]
      exact Nat.one_ne_zero
    · obtain ⟨assigned, rfl⟩ := request_assigned links there label
      exact nonzero i assigned
  rw [if_neg some_]
  rfl

theorem off_le_area : off ≤ obj.area off symtab := by
  refine le_finish fun r there => ?_
  obtain ⟨_, -, rfl⟩ := List.mem_map.mp there
  split
  · exact Nat.one_pos
  · exact Nat.pos_of_ne_zero ‹_›

variable {i : Nat} {s : Layout} {n : Nat}

theorem bmod_emod_toNat {m p : Nat} (small : n < p) (fits : p = m ∨ 2 * n < m) : (Int.bmod n m % p).toNat = n := by
  have same : Int.bmod n m % p = n := by
    rcases fits with rfl | _
    · rw [Int.bmod_emod, Int.emod_eq_of_lt (by omega) (by omega)]
    · rw [Int.bmod_eq_of_le (by omega) (by omega), Int.emod_eq_of_lt (by omega) (by omega)]
  rw [same]
  exact Int.toNat_natCast n

theorem size_eq (small : n < obj.build.pointers) (fits : obj.build.pointers = 2 ^ 32 ∨ n < 2 ^ 31) : obj.size n = n :=
  bmod_emod_toNat small (fits.imp_right fun short => by omega)

theorem contentsOf_length
    (reads : (obj.shdr i).type ≠ shtNobits → (obj.pread (obj.shdr i).size (obj.shdr i).offset).isSome) :
    (obj.contentsOf i).length = (obj.shdr i).size := by
  rw [Object.contentsOf]
  split
  · exact length_replicate
  next stored =>
    obtain ⟨_, read⟩ := isSome_iff_exists.mp (reads stored)
    rw [read, getD_some]
    exact obj.whole _ _ _ read

theorem candidate_iff (positive : 0 < off) (laid : LaidOut obj symtab off s) (i : Nat) :
    Candidate obj s.addr i ↔ obj.Assigned symtab i ∧ (obj.shdr i).type ≠ shtNobits := by
  refine and_congr_left fun _ => ⟨fun placed => ?_, fun assigned => ?_⟩
  · by_contra none_
    exact placed (laid.others i none_)
  · have low := (laid.inside i assigned).1
    omega

open Classical in
theorem objLoadimage_image (premises : Premises obj off symtab) (fits : Fits obj off symtab)
    (accepted : obj.objLoadimage off mem ≠ some none)
    (nonzero : ∀ i, obj.Assigned symtab i → (obj.shdr i).addralign ≠ 0) :
    ∃ image, obj.objLoadimage off mem = some (some image) ∧ image.faddr = off ∧
      LaidOut obj symtab off ⟨image.addr, off + image.fsize⟩ ∧
      (∀ i, obj.Assigned symtab i → (obj.shdr i).type ≠ shtNobits ∧ First obj image.addr i →
        bytesAt image.mem (image.addr i) (obj.shdr i).size = obj.contentsOf i) ∧
      ∀ i, obj.Assigned symtab i → ¬((obj.shdr i).type ≠ shtNobits ∧ First obj image.addr i) →
        bytesAt image.mem (image.addr i) (obj.shdr i).size = replicate (obj.shdr i).size 0 := by
  have area := @area_eq obj off symtab premises.links nonzero
  have low := @off_le_area obj off symtab
  have below := fits.below
  have first := Nat.mod_eq_of_lt (Nat.lt_of_le_of_lt low below)
  have powers : ∀ i, obj.Assigned symtab i → ∃ k, (obj.shdr i).addralign = 2 ^ k := fun i assigned =>
    (premises.aligns i assigned.1).resolve_left (nonzero i assigned)
  obtain ⟨s, placed, last, laid⟩ := layout_fits premises.links premises.positive powers (area ▸ below)
  rw [← area] at last
  have len : (s.last + (obj.build.pointers - off)) % obj.build.pointers = obj.area off symtab - off := by
    have split : s.last + (obj.build.pointers - off) = (obj.area off symtab - off) + obj.build.pointers := by omega
    rw [split, Nat.add_mod_right, Nat.mod_eq_of_lt (by omega)]
  have reads : ∀ i < obj.shnum, Candidate obj s.addr i →
      obj.pread ((obj.shdr i).size % obj.build.pointers) (obj.shdr i).offset = some (obj.contentsOf i) := by
    intro i _ candidate
    obtain ⟨assigned, stored⟩ := (candidate_iff premises.positive laid i).mp candidate
    have high := (laid.inside i assigned).2
    obtain ⟨_, read⟩ := isSome_iff_exists.mp (premises.reads i assigned stored)
    rw [Nat.mod_eq_of_lt (by omega), Object.contentsOf, if_neg stored, read, getD_some]
  have few := Nat.lt_succ_of_le ((Finset.card_filter_le (Finset.range obj.shnum) (Pool obj s.addr none)).trans_eq
    (Finset.card_range _))
  obtain ⟨order, loaded, members⟩ :=
    loadLoop_reads _ reads (write mem off (replicate (obj.area off symtab - off) 0)) few
  generalize final : obj.readAll s.addr order (write mem off (replicate (obj.area off symtab - off) 0)) = mem' at loaded
  have result : obj.objLoadimage off mem =
      if obj.parseModmetadata mem' s.addr ≠ 0 then some none
        else some (some ⟨mem', s.addr, off, obj.size (obj.area off symtab - off)⟩) := by
    rw [Object.objLoadimage]
    dsimp only
    rw [first, placed, bind_some]
    dsimp only
    rw [len, loaded, bind_some]
  have parsed : ¬obj.parseModmetadata mem' s.addr ≠ 0 := by
    intro failed
    rw [result, if_pos failed] at accepted
    exact accepted rfl
  have short := fits.size
  rw [if_neg parsed, size_eq (by omega) short] at result
  have ends : off + (obj.area off symtab - off) = s.last := by omega
  have ordered {i : Nat} (there : i ∈ order) : obj.Assigned symtab i ∧ (obj.shdr i).type ≠ shtNobits :=
    (candidate_iff premises.positive laid i).mp ((members i).mp there).2.1.1
  have sized {i : Nat} (assigned : obj.Assigned symtab i) := @contentsOf_length obj i (premises.reads i assigned)
  refine ⟨_, result, rfl, ?_, fun i assigned here => ?_, fun i assigned other => ?_⟩
  · rw [ends]
    exact laid
  · have there : i ∈ order := by
      refine (members i).mpr ⟨assigned.1,
        ⟨(candidate_iff premises.positive laid i).mpr ⟨assigned, here.1⟩, fun l none_ => ?_⟩, here.2⟩
      cases none_
    rw [← sized assigned, ← final]
    refine readAll_inside there fun j inside other => ?_
    rw [sized assigned, sized (ordered inside).1]
    exact laid.apart i j assigned (ordered inside).1 other.symm
  · have area := laid.inside i assigned
    rw [← final, readAll_other fun j inside => ?_, bytesAt_cleared area.1 (by rw [ends]; exact area.2)]
    rw [sized (ordered inside).1]
    refine laid.apart i j assigned (ordered inside).1 fun same => other ?_
    subst same
    exact ⟨(ordered inside).2, ((members i).mp inside).2.2⟩

theorem contents_iff (i : Nat) : (obj.shdr i).contents ↔
    (obj.shdr i).size ≠ 0 ∧ ((obj.shdr i).type = shtProgbits ∨ (obj.shdr i).type = shtNobits) := by
  rw [Section.contents, decide_eq_true_iff]

theorem relocations_iff (i : Nat) :
    (obj.shdr i).relocations ↔ (obj.shdr i).type = shtRel ∨ (obj.shdr i).type = shtRela := by
  rw [Section.relocations, decide_eq_true_iff]

theorem assigned_type (links : Links obj symtab) (assigned : obj.Assigned symtab i) :
    (obj.shdr i).contents ∨ (obj.shdr i).type = shtSymtab ∨
      (obj.shdr i).type = shtStrtab ∧ (i = (obj.shdr symtab).link ∨ i = obj.shstrndx) ∨ (obj.shdr i).relocations := by
  rcases assigned.2 with contents | rfl | rfl | rfl | relocations
  · exact .inl contents
  · exact .inr (.inl links.table)
  · exact .inr (.inr (.inl ⟨(string_lt links.strings).2, .inl rfl⟩))
  · exact .inr (.inr (.inl ⟨(string_lt links.names).2, .inr rfl⟩))
  · exact .inr (.inr (.inr relocations))

theorem assigned_claimed (links : Links obj symtab) (assigned : obj.Assigned symtab i) (some_ : (obj.shdr i).size ≠ 0) :
    obj.Claimed i := by
  refine ⟨assigned.1, some_, ?_⟩
  rcases assigned_type links assigned with contents | table | ⟨strings, -⟩ | relocations
  · rcases ((contents_iff i).mp contents).2 with type | type
    all_goals simp [type]
  · simp [table]
  · simp [strings]
  · rcases (relocations_iff i).mp relocations with type | type
    all_goals simp [type]

theorem claimed_assigned (links : Links obj symtab) (claimed : obj.Claimed i)
    (strings : (obj.shdr i).type = shtStrtab → i = (obj.shdr symtab).link ∨ i = obj.shstrndx) :
    obj.Assigned symtab i := by
  obtain ⟨small, some_, type⟩ := claimed
  refine ⟨small, ?_⟩
  simp only [mem_cons, not_mem_nil, or_false] at type
  rcases type with type | type | type | type | type | type
  · exact .inl ((contents_iff i).mpr ⟨some_, .inl type⟩)
  · exact .inl ((contents_iff i).mpr ⟨some_, .inr type⟩)
  · exact .inr (.inl (links.only i small type))
  · exact .inr (.inr ((strings type).elim .inl fun name => .inr (.inl name)))
  · exact .inr (.inr (.inr (.inr ((relocations_iff i).mpr (.inl type)))))
  · exact .inr (.inr (.inr (.inr ((relocations_iff i).mpr (.inr type)))))

theorem empty_stored (links : Links obj symtab) {j : Nat} (assigned : obj.Assigned symtab j)
    (empty : (obj.shdr j).size = 0) :
    (obj.shdr j).type ≠ shtNobits := by
  rcases assigned_type links assigned with contents | table | ⟨strings, -⟩ | relocations
  · exact absurd empty ((contents_iff j).mp contents).1
  · rw [table]
    decide
  · rw [strings]
    decide
  · rcases (relocations_iff j).mp relocations with type | type
    all_goals
      rw [type]
      decide

theorem hidden_iff (premises : Premises obj off symtab) (laid : LaidOut obj symtab off s)
    (assigned : obj.Assigned symtab i) (some_ : (obj.shdr i).size ≠ 0) (stored : (obj.shdr i).type ≠ shtNobits) :
    ¬First obj s.addr i ↔ ∃ j < i, obj.Assigned symtab j ∧ (obj.shdr j).size = 0 ∧ (obj.shdr j).offset = (obj.shdr i).offset := by
  constructor
  · intro hidden
    by_contra none_
    refine hidden fun j before candidate same => none_ ⟨j, before, ?_⟩
    obtain ⟨there, type⟩ := (candidate_iff premises.positive laid j).mp candidate
    refine ⟨there, ?_, same⟩
    by_contra full
    have apart := premises.disjoint i assigned.1 j there.1 (Nat.ne_of_gt before) some_ full stored type
    omega
  · rintro ⟨j, before, there, empty, same⟩ first
    exact first j before ((candidate_iff premises.positive laid j).mpr ⟨there, empty_stored premises.links there empty⟩) same

end

/-- obj_loadimage loads all sections exactly if the file is plain, as long as nothing wraps around. -/
theorem objLoadimage_loads_iff (obj : Object) (off symtab : Nat) (mem : Mem) (premises : Premises obj off symtab)
    (accepted : obj.objLoadimage off mem ≠ some none) (fits : Fits obj off symtab) : obj.Loads off mem ↔ Plain obj symtab := by
  constructor
  · rintro ⟨image, ran, complete⟩
    have nonzero : ∀ i, obj.Assigned symtab i → (obj.shdr i).addralign ≠ 0 := by
      intro i assigned zero
      have small : off % obj.build.pointers < obj.build.pointers := by
        refine Nat.mod_lt _ ?_
        rcases obj.build with _ | _ | _
        all_goals decide
      rw [Object.objLoadimage] at ran
      rw [layout_zero premises.links small assigned zero] at ran
      cases ran
    obtain ⟨image', ran', start, laid, -, cleared⟩ := objLoadimage_image premises fits accepted nonzero
    obtain rfl : image = image' := some.inj (some.inj (ran.symm.trans ran'))
    refine ⟨nonzero, fun i small type some_ => ?_, fun i assigned some_ stored hidden => ?_⟩
    · by_contra other
      have none_ : ¬obj.Assigned symtab i := by
        intro assigned
        rcases assigned_type premises.links assigned with contents | table | ⟨-, linked⟩ | relocations
        · have types := ((contents_iff i).mp contents).2
          rw [type] at types
          revert types
          decide
        · rw [type] at table
          cases table
        · exact other linked
        · have types := (relocations_iff i).mp relocations
          rw [type] at types
          revert types
          decide
      have low := (complete.held i ⟨small, some_, by simp [type]⟩).low
      have zero : image.addr i = 0 := laid.others i none_
      have positive := premises.positive
      omega
    · have held := (complete.held i (assigned_claimed premises.links assigned some_)).contents
      rw [← held]
      exact cleared i assigned fun both => (hidden_iff premises laid assigned some_ stored).mpr hidden both.2
  · intro plain
    obtain ⟨image, ran, start, laid, read, cleared⟩ := objLoadimage_image premises fits accepted plain.nonzero
    have assigned {i : Nat} (claimed : obj.Claimed i) : obj.Assigned symtab i :=
      claimed_assigned premises.links claimed fun type => plain.strings i claimed.1 type claimed.2.1
    refine ⟨image, ran, fun i claimed => ⟨?_, ?_, ?_, ?_⟩, fun i j here there => laid.apart i j (assigned here) (assigned there)⟩
    · exact start ▸ (laid.inside i (assigned claimed)).1
    · exact start ▸ (laid.inside i (assigned claimed)).2
    · rw [Section.alignment, if_neg (plain.nonzero i (assigned claimed))]
      exact laid.aligned i (assigned claimed)
    · by_cases stored : (obj.shdr i).type = shtNobits
      · rw [Object.contentsOf, if_pos stored]
        exact cleared i (assigned claimed) fun both => both.1 stored
      · by_cases first : First obj image.addr i
        · exact read i (assigned claimed) ⟨stored, first⟩
        · have hidden := (hidden_iff premises laid (assigned claimed) claimed.2.1 stored).mp first
          rw [plain.seen i (assigned claimed) claimed.2.1 stored hidden]
          exact cleared i (assigned claimed) fun both => first both.2

/-- A read of two bytes of data, a symbol table and two string tables, which are behind the headers. -/
def storedAt (size offset : Nat) : Option Bytes :=
  if 64 ≤ offset ∧ offset + size ≤ 69 then some (slice (offset - 64) size [0xaa, 0xbb, 1, 2, 3]) else none

theorem storedAt_length (size offset : Nat) (bs : Bytes) (read : storedAt size offset = some bs) :
    bs.length = size := by
  rw [storedAt] at read
  split at read
  next _ =>
    cases read
    refine slice_length ?_
    show offset - 64 + size ≤ 5
    omega
  · cases read

/-- A file whose data is aligned to `addralign`, behind an empty relocation table. -/
def sample (addralign offset : Nat) : Object where
  build := .i386
  shdrs := [⟨0, 0, 0, 0, 0⟩, ⟨shtRel, offset, 0, 0, 4⟩, ⟨shtProgbits, 64, 2, 0, addralign⟩, ⟨shtSymtab, 66, 1, 4, 4⟩,
    ⟨shtStrtab, 67, 1, 0, 1⟩, ⟨shtStrtab, 68, 1, 0, 1⟩]
  shstrndx := 5
  pread := storedAt
  whole := storedAt_length
  parseModmetadata := fun _ _ => 0

theorem sample_sound {addralign offset : Nat} (kind : (addralign, offset) ∈ [(0, 65), (4, 64), (4, 65)]) :
    (∀ i < 6, ((sample addralign offset).shdr i).addralign ∈ [0, 2 ^ 0, 2 ^ 2]) ∧
      (∀ i < 6, ∀ j < 6, i = j ∨ ((sample addralign offset).shdr i).size = 0 ∨
        ((sample addralign offset).shdr j).size = 0 ∨
        ((sample addralign offset).shdr i).offset + ((sample addralign offset).shdr i).size ≤
          ((sample addralign offset).shdr j).offset ∨
        ((sample addralign offset).shdr j).offset + ((sample addralign offset).shdr j).size ≤
          ((sample addralign offset).shdr i).offset) ∧
      ∀ i < 6, (sample addralign offset).Assigned 3 i →
        ((sample addralign offset).pread ((sample addralign offset).shdr i).size
          ((sample addralign offset).shdr i).offset).isSome := by
  simp only [mem_cons, Prod.mk.injEq, not_mem_nil, or_false] at kind
  rcases kind with ⟨rfl, rfl⟩ | ⟨rfl, rfl⟩ | ⟨rfl, rfl⟩
  all_goals exact ⟨by decide, by decide, by decide⟩

theorem sample_links (addralign offset : Nat) : Links (sample addralign offset) 3 := by
  have strings : ∀ i, i = 4 ∨ i = 5 → ¬(sample addralign offset).noStrings i := by
    rintro i (rfl | rfl)
    all_goals exact not_or.mpr ⟨by decide, not_or.mpr ⟨Nat.not_le.mpr (by decide : _ < 6), fun other => other rfl⟩⟩
  refine ⟨(by decide : 3 < 6), rfl, fun i small type => ?_, strings 4 (.inl rfl), Nat.succ_ne_zero 4,
    strings 5 (.inr rfl)⟩
  have below : i < 6 := small
  have cases_ : i = 0 ∨ i = 1 ∨ i = 2 ∨ i = 3 ∨ i = 4 ∨ i = 5 := by omega
  rcases cases_ with rfl | rfl | rfl | rfl | rfl | rfl
  all_goals first | rfl | cases type

theorem sample_premises {addralign offset : Nat} (kind : (addralign, offset) ∈ [(0, 65), (4, 64), (4, 65)]) :
    Premises (sample addralign offset) 4096 3 := by
  obtain ⟨aligns, apart, reads⟩ := sample_sound kind
  refine ⟨sample_links addralign offset, fun i small => ?_, fun i small j small' other full full' _ _ =>
    ?_, by decide, ⟨1, rfl⟩, fun i assigned _ => reads i assigned.1 assigned⟩
  · have align := aligns i small
    simp only [mem_cons, not_mem_nil, or_false] at align
    rcases align with zero | one | four
    · exact .inl zero
    · exact .inr ⟨0, one⟩
    · exact .inr ⟨2, four⟩
  · exact (((apart i small j small').resolve_left other).resolve_left full).resolve_left full'

/-- An alignment of zero divides by zero; an empty table with the offset of the data leaves it zero. -/
theorem objLoadimage_fails : (Premises (sample 0 65) 4096 3 ∧ (sample 0 65).objLoadimage 4096 (fun _ => 7) = none) ∧
    Premises (sample 4 64) 4096 3 ∧ ∃ image, (sample 4 64).objLoadimage 4096 (fun _ => 7) = some (some image) ∧
      bytesAt image.mem (image.addr 2) 2 = [0, 0] ∧ (sample 4 64).contentsOf 2 = [0xaa, 0xbb] :=
  ⟨⟨sample_premises (by decide), rfl⟩, sample_premises (by decide), _, rfl, by decide, by decide⟩

theorem sample_loads : (sample 4 65).Loads 4096 fun _ => 7 := by
  have evaluated : ((sample 4 65).objLoadimage 4096 fun _ => 7).map isSome = some true := rfl
  have accepted : (sample 4 65).objLoadimage 4096 (fun _ => 7) ≠ some none := fun rejected => by
    rw [rejected] at evaluated
    cases evaluated
  have sound : ∀ i < 6, (sample 4 65).Assigned 3 i → ((sample 4 65).shdr i).addralign ≠ 0 ∧
      (((sample 4 65).shdr i).size = 0 → ((sample 4 65).shdr i).offset = 65) := by decide
  refine (objLoadimage_loads_iff (sample 4 65) 4096 3 (fun _ => 7) (sample_premises (by decide)) accepted
    ⟨by decide, .inl rfl⟩).mpr
    ⟨fun i assigned => (sound i assigned.1 assigned).1, by decide, fun i assigned some_ stored hidden => ?_⟩
  obtain ⟨j, _, there, empty, same⟩ := hidden
  have apart : ∀ i < 6, ((sample 4 65).shdr i).size ≠ 0 → ((sample 4 65).shdr i).offset ≠ 65 := by decide
  exact absurd (same.symm.trans ((sound j there.1 there).2 empty)) (apart i assigned.1 some_)

end Pcbsd.ObjLoad
