import Pcbsd.ElfAccess

/-! When the header fields of a file keep loadimage inside the first page and the buffer with the section headers. -/

namespace Pcbsd.ElfAccess
open Lib Elf Reloc List Option

variable (img : Image) (shdrs : Bytes) (segments : List Phdr) (i off len : Nat)

def Image.phend : Nat := img.ehdr.phoff + img.ehdr.phnum * img.phdrSize

def Wraps : Prop := img.build.values ≤ img.phend ∧ img.phend ≤ img.build.values + img.firstpage.length

def Image.segment : Phdr := phdrOf img.build.cls img.firstpage (img.ehdr.phoff + i * img.phdrSize)

def Image.phdrs : List Phdr := (range img.ehdr.phnum).map img.segment

def Image.Placed : Prop := (i * img.build.cls.shdrSize + off) % img.build.pointers + len ≤ shdrs.length

instance : Decidable (img.Placed shdrs i off len) := inferInstanceAs (Decidable (_ ≤ _))

def Image.valueOf : Nat := le len ((i * img.build.cls.shdrSize + off) % img.build.pointers) shdrs

def Image.typeOf : Nat := img.valueOf shdrs i 4 4
def Image.offsetOf : Nat := img.valueOf shdrs i (offsetOff img.build.cls) img.build.word
def Image.sizeOf : Nat := img.valueOf shdrs i (sizeOff img.build.cls) img.build.word
def Image.linkOf : Nat := img.valueOf shdrs i (linkOff img.build.cls) 4

def Covers (phdr : Phdr) : Prop :=
  phdr.type = ptLoad ∧ phdr.offset ≤ img.offsetOf shdrs i ∧
    (img.offsetOf shdrs i + img.sizeOf shdrs i) % img.build.values ≤ (phdr.offset + phdr.filesz) % img.build.values

instance (phdr : Phdr) : Decidable (Covers img shdrs i phdr) := inferInstanceAs (Decidable (_ ∧ _))

def Covered : Prop := ∃ phdr ∈ segments, Covers img shdrs i phdr

instance : Decidable (Covered img shdrs segments i) := inferInstanceAs (Decidable (∃ phdr ∈ segments, _))

def Kept : Prop :=
  img.typeOf shdrs i = shtSymtab ∧ ¬Covered img shdrs segments i ∧ img.offsetOf shdrs i ≠ 0 ∧ img.sizeOf shdrs i ≠ 0

instance : Decidable (Kept img shdrs segments i) := inferInstanceAs (Decidable (_ ∧ _))

/-- The members of shdr[i] that are looked at are in the buffer: the type; the offset of a symbol table; its size, if
the offset is not zero or a segment starts at zero; and sh_link, if the table is to be loaded. -/
structure HeaderInside : Prop where
  type : img.Placed shdrs i 4 4
  offset : img.typeOf shdrs i = shtSymtab → img.Placed shdrs i (offsetOff img.build.cls) img.build.word
  size : img.typeOf shdrs i = shtSymtab →
    (img.offsetOf shdrs i ≠ 0 ∨ ∃ phdr ∈ segments, phdr.type = ptLoad ∧ phdr.offset = 0) →
    img.Placed shdrs i (sizeOff img.build.cls) img.build.word
  link : Kept img shdrs segments i → img.Placed shdrs i (linkOff img.build.cls) 4

def lastKept (found : Option (Nat × Nat)) (l : List Nat) : Option (Nat × Nat) :=
  l.foldl (fun found i => if Kept img shdrs segments i then some (i, img.linkOf shdrs i) else found) found

def LastKept (symtab : Nat) : Prop :=
  symtab < img.ehdr.shnum ∧ Kept img shdrs segments symtab ∧ ∀ i < img.ehdr.shnum, symtab < i →
    ¬Kept img shdrs segments i

structure Reads : Prop where
  accepted : img.phend % img.build.values ≤ img.firstpage.length
  loaded : ∀ i < img.ehdr.phnum, (img.segment i).type = ptLoad →
    img.firstpage.length - (img.segment i).offset < (img.segment i).filesz → img.kernPread i
  chunk : img.chunk ≠ 0
  shoff : img.ehdr.shoff ≠ 0
  read : img.allocPread img.ehdr.shoff img.chunk = some shdrs

def LinkInside (link : Nat) : Prop :=
  img.Placed shdrs link (sizeOff img.build.cls) img.build.word ∧
    img.Placed shdrs link (offsetOff img.build.cls) img.build.word

structure Inside : Prop where
  phdrs : ¬Wraps img
  headers : ∀ shdrs, Reads img shdrs → ∀ i < img.ehdr.shnum, HeaderInside img shdrs img.phdrs i
  link : ∀ shdrs, Reads img shdrs → ∀ symtab, LastKept img shdrs img.phdrs symtab → img.linkOf shdrs symtab < 2 ^ 31 →
    img.readSymbols (img.offsetOf shdrs symtab) (img.sizeOf shdrs symtab) → LinkInside img shdrs (img.linkOf shdrs symtab)

variable {img shdrs segments i off len}

theorem member_placed (placed : img.Placed shdrs i off len) :
    img.member shdrs i off len = some (img.valueOf shdrs i off len) :=
    if_pos placed

theorem member_outside (outside : ¬img.Placed shdrs i off len) : img.member shdrs i off len = none := if_neg outside

theorem coveredLoop_offset (placed : img.Placed shdrs i (offsetOff img.build.cls) img.build.word) :
    ((∀ phdr ∈ segments, phdr.type = ptLoad → img.offsetOf shdrs i < phdr.offset) →
      coveredLoop img shdrs i segments = some false) ∧ (¬img.Placed shdrs i (sizeOff img.build.cls) img.build.word →
        (∃ phdr ∈ segments, phdr.type = ptLoad ∧ phdr.offset ≤ img.offsetOf shdrs i) →
        coveredLoop img shdrs i segments = none) := by
  induction segments with
  | nil => exact ⟨fun _ => rfl, fun _ ⟨_, inside, _⟩ => absurd inside not_mem_nil⟩
  | cons phdr _ ih =>
    have read : img.shOffset shdrs i = some (img.offsetOf shdrs i) := member_placed placed
    rw [coveredLoop, read, bind_some]
    by_cases load : phdr.type = ptLoad
    · rw [if_neg (not_not.mpr load)]
      by_cases behind : img.offsetOf shdrs i < phdr.offset
      · rw [if_pos behind]
        refine ⟨fun all => ih.1 fun other inside => all other (mem_cons_of_mem _ inside),
          fun outside ⟨other, inside, found⟩ => ?_⟩
        rcases mem_cons.mp inside with rfl | later
        · omega
        · exact ih.2 outside ⟨other, later, found⟩
      · rw [if_neg behind]
        refine ⟨fun all => absurd (all phdr mem_cons_self load) behind, fun outside _ => ?_⟩
        rw [Image.shSize, member_outside outside, bind_none]
    · rw [if_pos load]
      refine ⟨fun all => ih.1 fun other inside => all other (mem_cons_of_mem _ inside),
        fun outside ⟨other, inside, found⟩ => ?_⟩
      rcases mem_cons.mp inside with rfl | later
      · exact absurd found.1 load
      · exact ih.2 outside ⟨other, later, found⟩

theorem coveredLoop_placed (offset : img.Placed shdrs i (offsetOff img.build.cls) img.build.word)
    (size : img.Placed shdrs i (sizeOff img.build.cls) img.build.word) :
    coveredLoop img shdrs i segments = some (decide (Covered img shdrs segments i)) := by
  induction segments with
  | nil => rfl
  | cons phdr rest ih =>
    have covered : Covered img shdrs (phdr :: rest) i ↔ Covers img shdrs i phdr ∨ Covered img shdrs rest i := by
      simp only [Covered, mem_cons, exists_eq_or_imp]
    have read : img.shOffset shdrs i = some (img.offsetOf shdrs i) := member_placed offset
    have read' : img.shSize shdrs i = some (img.sizeOf shdrs i) := member_placed size
    rw [coveredLoop, read, bind_some, read', bind_some]
    by_cases covers : Covers img shdrs i phdr
    · rw [if_neg (not_not.mpr covers.1), if_neg (Nat.not_lt.mpr covers.2.1), if_pos covers.2.2,
        decide_eq_true (covered.mpr (.inl covers))]
    · rw [decide_eq_decide.mpr (covered.trans (or_iff_right covers)), ← ih]
      split
      · rfl
      next load =>
        split
        · rfl
        next before =>
          split
          next ends => exact absurd ⟨not_not.mp load, Nat.not_lt.mp before, ends⟩ covers
          · rfl

theorem coveredLoop_outside (outside : ¬img.Placed shdrs i (offsetOff img.build.cls) img.build.word) :
    coveredLoop img shdrs i segments ≠ some true := by
  induction segments with
  | nil => exact fun same => by cases same
  | cons _ _ ih =>
    rw [coveredLoop]
    split
    · exact ih
    · rw [Image.shOffset, member_outside outside, bind_none]
      exact (some_ne_none true).symm

theorem headerStep_inside (inside : HeaderInside img shdrs segments i) :
    headerStep img shdrs segments i = some (if Kept img shdrs segments i then some (img.linkOf shdrs i) else none) := by
  have read : img.shType shdrs i = some (img.typeOf shdrs i) := member_placed inside.type
  rw [headerStep, read, bind_some]
  by_cases symtab : img.typeOf shdrs i = shtSymtab
  · have placed := inside.offset symtab
    have offset : img.shOffset shdrs i = some (img.offsetOf shdrs i) := member_placed placed
    rw [if_neg (not_not.mpr symtab)]
    by_cases sized : img.Placed shdrs i (sizeOff img.build.cls) img.build.word
    · have size : img.shSize shdrs i = some (img.sizeOf shdrs i) := member_placed sized
      rw [coveredLoop_placed placed sized, bind_some, offset, bind_some, size, bind_some]
      by_cases kept : Kept img shdrs segments i
      · have link : img.shLink shdrs i = some (img.linkOf shdrs i) := member_placed (inside.link kept)
        rw [if_pos kept, if_neg (by simpa using kept.2.1), if_neg kept.2.2.1, if_neg kept.2.2.2, link, map_some]
      · split
        · rfl
        next uncovered =>
          split
          · rfl
          next there =>
            split
            · rfl
            next some_ => exact absurd ⟨symtab, by simpa using uncovered, there, some_⟩ kept
    · have unsized := mt (inside.size symtab) sized
      rw [not_or, not_not] at unsized
      obtain ⟨zero, behind⟩ := unsized
      have uncovered : coveredLoop img shdrs i segments = some false := by
        refine (coveredLoop_offset placed).1 fun phdr there load => ?_
        rw [zero]
        exact Nat.pos_of_ne_zero fun start => behind ⟨phdr, there, load, start⟩
      have unkept : ¬Kept img shdrs segments i := fun kept => kept.2.2.1 zero
      rw [uncovered, bind_some, offset, bind_some, if_neg Bool.false_ne_true, if_pos zero, if_neg unkept]
  · rw [if_pos symtab, if_neg fun kept => symtab kept.1]

theorem headerStep_isSome : (headerStep img shdrs segments i).isSome ↔ HeaderInside img shdrs segments i := by
  constructor
  · intro read
    rw [headerStep] at read
    have typed : img.Placed shdrs i 4 4 := by
      by_contra outside
      rw [Image.shType, member_outside outside] at read
      cases read
    have type : img.shType shdrs i = some (img.typeOf shdrs i) := member_placed typed
    rw [type, bind_some] at read
    by_cases symtab : img.typeOf shdrs i = shtSymtab
    · rw [if_neg (not_not.mpr symtab)] at read
      have placed : img.Placed shdrs i (offsetOff img.build.cls) img.build.word := by
        by_contra outside
        have uncovered := @coveredLoop_outside img shdrs segments i outside
        rw [Image.shOffset, member_outside outside] at read
        rcases looked : coveredLoop img shdrs i segments with _ | covered
        · rw [looked] at read
          cases read
        · rw [looked, bind_some] at read
          cases covered with
          | false => cases read
          | true => exact uncovered looked
      have offset : img.shOffset shdrs i = some (img.offsetOf shdrs i) := member_placed placed
      have sized (needed : img.offsetOf shdrs i ≠ 0 ∨ ∃ phdr ∈ segments, phdr.type = ptLoad ∧ phdr.offset = 0) :
          img.Placed shdrs i (sizeOff img.build.cls) img.build.word := by
        by_contra unsized
        obtain ⟨before, behind⟩ := @coveredLoop_offset img shdrs segments i placed
        by_cases start : ∃ phdr ∈ segments, phdr.type = ptLoad ∧ phdr.offset ≤ img.offsetOf shdrs i
        · rw [behind unsized start] at read
          cases read
        · have uncovered := before fun phdr there load => by
            by_contra ahead
            exact start ⟨phdr, there, load, Nat.le_of_not_lt ahead⟩
          have nonzero : img.offsetOf shdrs i ≠ 0 := by
            rcases needed with nonzero | ⟨phdr, there, load, zero⟩
            · exact nonzero
            · exact absurd ⟨phdr, there, load, zero ▸ Nat.zero_le _⟩ start
          rw [uncovered, bind_some, offset, bind_some, if_neg Bool.false_ne_true, if_neg nonzero, Image.shSize,
            member_outside unsized] at read
          cases read
      refine ⟨typed, fun _ => placed, fun _ => sized, fun kept => ?_⟩
      by_contra unlinked
      have there := sized (.inl kept.2.2.1)
      have size : img.shSize shdrs i = some (img.sizeOf shdrs i) := member_placed there
      rw [coveredLoop_placed placed there, bind_some, offset, bind_some, size, bind_some,
        if_neg (by simpa using kept.2.1), if_neg kept.2.2.1, if_neg kept.2.2.2, Image.shLink, member_outside unlinked] at read
      cases read
    · exact ⟨typed, fun same => absurd same symtab, fun same => absurd same symtab, fun kept => absurd kept.1 symtab⟩
  · intro inside
    rw [headerStep_inside inside]
    rfl

theorem headerLoop_inside {l : List Nat} (inside : ∀ i ∈ l, HeaderInside img shdrs segments i) (found : Option (Nat × Nat)) :
    headerLoop img shdrs segments l found = some (lastKept img shdrs segments found l) := by
  induction l generalizing found with
  | nil => rfl
  | cons i _ ih =>
    have step := headerStep_inside (inside i mem_cons_self)
    rw [headerLoop, step, bind_some, ih fun j there => inside j (mem_cons_of_mem _ there), lastKept, lastKept, foldl_cons]
    congr 2
    split <;> rfl

theorem headerLoop_isSome {l : List Nat} (found : Option (Nat × Nat)) :
    (headerLoop img shdrs segments l found).isSome ↔ ∀ i ∈ l, HeaderInside img shdrs segments i := by
  refine ⟨fun read => ?_, fun inside => by rw [headerLoop_inside inside]; rfl⟩
  induction l generalizing found with
  | nil => exact fun _ there => absurd there not_mem_nil
  | cons i _ ih =>
    rw [headerLoop] at read
    rcases step : headerStep img shdrs segments i with _ | _
    · rw [step] at read
      cases read
    · rw [step, bind_some] at read
      refine forall_mem_cons.mpr ⟨headerStep_isSome.mp ?_, ih _ read⟩
      rw [step]
      rfl

theorem lastKept_iff {n symtab link : Nat} : lastKept img shdrs segments none (range n) = some (symtab, link) ↔
    (symtab < n ∧ Kept img shdrs segments symtab ∧ ∀ i < n, symtab < i → ¬Kept img shdrs segments i) ∧
    link = img.linkOf shdrs symtab := by
  induction n with
  | zero => exact ⟨fun found => (by cases found), fun found => absurd found.1.1 (Nat.not_lt_zero _)⟩
  | succ n ih =>
    have step : lastKept img shdrs segments none (range (n + 1)) =
        if Kept img shdrs segments n then some (n, img.linkOf shdrs n)
          else lastKept img shdrs segments none (range n) := by
      rw [lastKept, range_succ, foldl_append]
      rfl
    rw [step]
    split
    next kept =>
      rw [Option.some.injEq, Prod.mk.injEq]
      constructor
      · rintro ⟨rfl, rfl⟩
        exact ⟨⟨Nat.lt_succ_self _, kept, fun i small later => absurd small (by omega)⟩, rfl⟩
      · rintro ⟨⟨small, -, last⟩, rfl⟩
        have same : n = symtab := by
          by_contra other
          exact last n (Nat.lt_succ_self n) (by omega) kept
        exact ⟨same, same ▸ rfl⟩
    next unkept =>
      rw [ih]
      refine and_congr_left fun _ => ⟨?_, ?_⟩
      · rintro ⟨small, kept, last⟩
        refine ⟨Nat.lt_succ_of_lt small, kept, fun i within later => ?_⟩
        rcases Nat.lt_succ_iff_lt_or_eq.mp within with before | rfl
        · exact last i before later
        · exact unkept
      · rintro ⟨small, kept, last⟩
        refine ⟨?_, kept, fun i within later => last i (Nat.lt_succ_of_lt within) later⟩
        rcases Nat.lt_succ_iff_lt_or_eq.mp small with before | rfl
        · exact before
        · exact absurd kept unkept

theorem section_isSome : (img.section_ shdrs i).isSome ↔ LinkInside img shdrs i := by
  rw [Image.section_]
  by_cases sized : img.Placed shdrs i (sizeOff img.build.cls) img.build.word
  · have size : img.shSize shdrs i = some (img.sizeOf shdrs i) := member_placed sized
    rw [size, bind_some, isSome_map]
    by_cases placed : img.Placed shdrs i (offsetOff img.build.cls) img.build.word
    · have offset : img.shOffset shdrs i = some (img.offsetOf shdrs i) := member_placed placed
      rw [offset]
      exact ⟨fun _ => ⟨sized, placed⟩, fun _ => rfl⟩
    · rw [Image.shOffset, member_outside placed]
      exact ⟨(fun read => by cases read), fun inside => absurd inside.2 placed⟩
  · rw [Image.shSize, member_outside sized, bind_none]
    exact ⟨(fun read => by cases read), fun inside => absurd inside.1 sized⟩

theorem section_inside (inside : LinkInside img shdrs i) :
    img.section_ shdrs i = some (img.offsetOf shdrs i, img.sizeOf shdrs i) := by
  have size : img.shSize shdrs i = some (img.sizeOf shdrs i) := member_placed inside.1
  have offset : img.shOffset shdrs i = some (img.offsetOf shdrs i) := member_placed inside.2
  rw [Image.section_, size, bind_some, offset, map_some]

theorem symbolLoop_isSome {symtab link : Nat} (inside : LinkInside img shdrs symtab) :
    (symbolLoop img shdrs symtab link).isSome ↔
      (link < 2 ^ 31 → img.readSymbols (img.offsetOf shdrs symtab) (img.sizeOf shdrs symtab) → LinkInside img shdrs link) := by
  rw [symbolLoop]
  split
  next negative => exact ⟨fun _ small => absurd negative (Nat.not_le.mpr small), fun _ => rfl⟩
  next index =>
    rw [section_inside inside, bind_some]
    dsimp only
    split
    next done =>
      rw [isSome_map, section_isSome]
      exact ⟨fun there _ _ => there, fun needed => needed (Nat.not_le.mp index) done⟩
    next failed => exact ⟨fun _ _ done => absurd done failed, fun _ => rfl⟩

theorem phend_lt : img.ehdr.phoff < img.build.values ∧ img.ehdr.phnum < 2 ^ 16 := by
  rw [Image.ehdr]
  constructor
  all_goals
    rcases img.build with _ | _ | _
    all_goals exact le_lt _ _ _

theorem sizes :
    img.phdrSize ≤ 56 ∧ 0 < img.phdrSize ∧ 2 ^ 32 ≤ img.build.pointers ∧
    ∃ m, img.build.values = m * img.build.pointers := by
  rw [Image.phdrSize]
  rcases img.build with _ | _ | _
  · exact ⟨by decide, by decide, by decide, 1, by decide⟩
  · exact ⟨by decide, by decide, by decide, 2 ^ 32, by decide⟩
  · exact ⟨by decide, by decide, by decide, 1, by decide⟩

theorem headers_small : img.ehdr.phnum * img.phdrSize < 2 ^ 22 := by
  obtain ⟨size, -, -, -⟩ := @sizes img
  calc img.ehdr.phnum * img.phdrSize ≤ img.ehdr.phnum * 56 := Nat.mul_le_mul_left _ size
    _ < 2 ^ 22 := by
      have count := (@phend_lt img).2
      omega

theorem pointers_le : img.build.pointers ≤ img.build.values := by
  rcases img.build with _ | _ | _
  all_goals decide

theorem phend_le (inside : ¬Wraps img) (accepted : img.phend % img.build.values ≤ img.firstpage.length) :
    img.phend ≤ img.firstpage.length := by
  have start := (@phend_lt img).1
  have small := @headers_small img
  have wide := Nat.le_trans (@sizes img).2.2.1 (@pointers_le img)
  rcases Nat.lt_or_ge img.phend img.build.values with under | above
  · rwa [Nat.mod_eq_of_lt under] at accepted
  · have once : img.phend < img.build.values + img.build.values := by
      rw [Image.phend]
      omega
    rw [Nat.mod_eq_sub_mod above, Nat.mod_eq_of_lt (by omega)] at accepted
    exact absurd ⟨above, by omega⟩ inside

theorem phdr_placed (inside : img.phend ≤ img.firstpage.length) (small : i < img.ehdr.phnum) :
    img.phdr i = some (img.segment i) := by
  have page := img.small
  have wide := (@sizes img).2.2.1
  have ends : img.ehdr.phoff + i * img.phdrSize + img.phdrSize ≤ img.phend := by
    rw [Image.phend, Nat.add_assoc, ← Nat.succ_mul]
    exact Nat.add_le_add_left (Nat.mul_le_mul_right _ small) _
  have paged : pageSize = 4096 := rfl
  have exact_ : (img.ehdr.phoff + i * img.phdrSize) % img.build.pointers = img.ehdr.phoff + i * img.phdrSize :=
    Nat.mod_eq_of_lt (by omega)
  rw [Image.phdr, exact_]
  exact if_pos (Nat.le_trans ends inside)

theorem phdr_wraps (wraps : Wraps img) : 0 < img.ehdr.phnum ∧ img.phdr 0 = none := by
  have start := (@phend_lt img).1
  have small := @headers_small img
  obtain ⟨_, positive, _, m, values⟩ := @sizes img
  have page := img.small
  have paged : pageSize = 4096 := rfl
  have above := wraps.1
  rw [Image.phend] at above
  have count : 0 < img.ehdr.phnum := by
    rcases Nat.eq_zero_or_pos img.ehdr.phnum with zero | positive
    · rw [zero, Nat.zero_mul] at above
      omega
    · exact positive
  refine ⟨count, if_neg ?_⟩
  have first : img.ehdr.phoff + 0 * img.phdrSize = img.ehdr.phoff := by rw [Nat.zero_mul, Nat.add_zero]
  have back : img.build.pointers - 2 ^ 22 ≤ img.ehdr.phoff % img.build.pointers := by
    obtain ⟨m, rfl⟩ : ∃ k, m = k + 1 := by
      refine Nat.exists_eq_succ_of_ne_zero fun zero => ?_
      rw [zero, Nat.zero_mul] at values
      omega
    rw [Nat.succ_mul] at values
    have split : img.ehdr.phoff = (img.ehdr.phoff - m * img.build.pointers) + m * img.build.pointers := by omega
    rw [split, Nat.add_mul_mod_self_right, Nat.mod_eq_of_lt (by omega)]
    omega
  rw [first]
  omega

theorem segmentLoop_inside {l : List Nat} (inside : ∀ i ∈ l, img.phdr i = some (img.segment i)) :
    ∃ loaded, segmentLoop img l = some loaded ∧ (loaded = true ↔ ∀ i ∈ l, (img.segment i).type = ptLoad →
      img.firstpage.length - (img.segment i).offset < (img.segment i).filesz → img.kernPread i) := by
  induction l with
  | nil => exact ⟨true, rfl, fun _ _ there => absurd there not_mem_nil, fun _ => rfl⟩
  | cons i rest ih =>
    obtain ⟨loaded, looped, meaning⟩ := ih fun j there => inside j (mem_cons_of_mem _ there)
    rw [segmentLoop, inside i mem_cons_self, bind_some]
    simp only [forall_mem_cons]
    by_cases load : (img.segment i).type = ptLoad
    · rw [if_neg (not_not.mpr load)]
      have whole : (if img.firstpage.length - (img.segment i).offset < (img.segment i).filesz ∧
        img.kernPread i = false then some false
          else segmentLoop img rest) =
          some (decide (img.firstpage.length - (img.segment i).offset < (img.segment i).filesz →
            img.kernPread i) && loaded) := by
        split
        next failed => simp [failed.1, failed.2]
        next fine =>
          have fetched : img.firstpage.length - (img.segment i).offset < (img.segment i).filesz → img.kernPread i :=
            fun missing => by simpa [missing] using fine
          rw [looped, decide_eq_true fetched, Bool.true_and]
      refine ⟨decide (img.firstpage.length - (img.segment i).offset < (img.segment i).filesz → img.kernPread i) &&
        loaded, ?_, ?_⟩
      swap
      · rw [Bool.and_eq_true, decide_eq_true_iff, meaning, forall_prop_of_true load]
      rw [← whole]
      split
      next _ =>
        have copied : img.copyin (img.segment i).offset (img.firstpage.length - (img.segment i).offset) =
            some (slice (img.segment i).offset (img.firstpage.length - (img.segment i).offset) img.firstpage) :=
              if_pos (by omega)
        rw [copied, bind_some]
      next behind => rw [Nat.sub_eq_zero_of_le (Nat.not_lt.mp behind)]
    · rw [if_pos load]
      exact ⟨loaded, looped, meaning.trans (and_iff_right fun same => absurd same load).symm⟩

theorem phdrs_read (inside : img.phend ≤ img.firstpage.length) :
    (range img.ehdr.phnum).mapM img.phdr = some img.phdrs := by
  have each : ∀ l : List Nat, (∀ i ∈ l, i < img.ehdr.phnum) →
      l.mapM img.phdr = some (l.map img.segment) := by
    intro l small
    induction l with
    | nil => rfl
    | cons i _ ih =>
      rw [mapM_cons, phdr_placed inside (small i mem_cons_self), ih fun j there => small j (mem_cons_of_mem _ there)]
      rfl
  exact each _ fun i there => mem_range.mp there

variable (img shdrs segments) in
def SymbolsInside : Prop :=
  (∀ i < img.ehdr.shnum, HeaderInside img shdrs segments i) ∧
    ∀ symtab, LastKept img shdrs segments symtab → img.linkOf shdrs symtab < 2 ^ 31 →
      img.readSymbols (img.offsetOf shdrs symtab) (img.sizeOf shdrs symtab) → LinkInside img shdrs (img.linkOf shdrs symtab)

theorem symbols_isSome : (symbols img segments).isSome ↔
    (img.chunk ≠ 0 → img.ehdr.shoff ≠ 0 → ∀ shdrs, img.allocPread img.ehdr.shoff img.chunk = some shdrs →
      SymbolsInside img shdrs segments) := by
  rw [symbols]
  split
  next none_ => exact ⟨fun _ chunk shoff => absurd none_ (not_or.mpr ⟨chunk, shoff⟩), fun _ => rfl⟩
  next there =>
    obtain ⟨chunk, shoff⟩ := not_or.mp there
    rcases read : img.allocPread img.ehdr.shoff img.chunk with _ | shdrs
    · exact ⟨fun _ _ _ _ same => (by cases same), fun _ => rfl⟩
    · dsimp only
      by_cases inside : ∀ i < img.ehdr.shnum, HeaderInside img shdrs segments i
      · rw [headerLoop_inside (fun i there => inside i (mem_range.mp there)), bind_some]
        rcases last : lastKept img shdrs segments none (range img.ehdr.shnum) with _ | ⟨symtab, _⟩
        · refine ⟨fun _ _ _ other same => ?_, fun _ => rfl⟩
          cases same
          refine ⟨inside, fun symtab kept => ?_⟩
          have found := lastKept_iff.mpr ⟨kept, rfl⟩
          rw [last] at found
          cases found
        · obtain ⟨kept, rfl⟩ := lastKept_iff.mp last
          have placed := inside symtab kept.1
          have there : LinkInside img shdrs symtab := ⟨placed.size kept.2.1.1 (.inl kept.2.1.2.2.1), placed.offset kept.2.1.1⟩
          rw [symbolLoop_isSome there]
          refine ⟨fun linked _ _ other same => ?_, fun all => (all chunk shoff shdrs rfl).2 symtab kept⟩
          cases same
          refine ⟨inside, fun other found => ?_⟩
          have same := lastKept_iff.mpr ⟨found, rfl⟩
          rw [last] at same
          cases same
          exact linked
      · refine ⟨fun read => ?_, fun all => absurd (all chunk shoff shdrs rfl).1 inside⟩
        have outside : headerLoop img shdrs segments (range img.ehdr.shnum) none = none := by
          rw [← not_isSome_iff_eq_none, headerLoop_isSome]
          exact fun all => inside fun i small => all i (mem_range.mpr small)
        rw [outside] at read
        cases read

/-- loadimage stays inside the first page and the buffer exactly if the header fields keep it there. -/
theorem loadimage_inside_iff (img : Image) : (loadimage img).isSome ↔ Inside img := by
  have ends : img.ehdr.phoff + img.ehdr.phnum * img.phdrSize = img.phend := rfl
  rw [loadimage, ends]
  split
  next rejected =>
    refine ⟨fun _ => ⟨fun wraps => ?_, fun shdrs reads => ?_, fun shdrs reads => ?_⟩, fun _ => rfl⟩
    · have page := img.small
      have paged : pageSize = 4096 := rfl
      have wide := Nat.le_trans (@sizes img).2.2.1 (@pointers_le img)
      obtain ⟨above, _⟩ := wraps
      rw [Nat.mod_eq_sub_mod above, Nat.mod_eq_of_lt (by omega)] at rejected
      omega
    · exact absurd reads.accepted (Nat.not_le.mpr rejected)
    · exact absurd reads.accepted (Nat.not_le.mpr rejected)
  next accepted =>
    rw [Nat.not_lt] at accepted
    by_cases wraps : Wraps img
    · obtain ⟨count, outside⟩ := phdr_wraps wraps
      obtain ⟨_, count⟩ := Nat.exists_eq_succ_of_ne_zero (Nat.ne_of_gt count)
      rw [count, range_succ_eq_map, segmentLoop, outside, bind_none, bind_none]
      exact ⟨fun read => (by cases read), fun inside => absurd wraps inside.phdrs⟩
    · have page := phend_le wraps accepted
      obtain ⟨loaded, read, meaning⟩ := @segmentLoop_inside img (range img.ehdr.phnum) fun i there =>
        phdr_placed page (mem_range.mp there)
      simp only [mem_range] at meaning
      rw [read, bind_some]
      cases loaded with
      | false =>
        refine ⟨fun _ => ⟨wraps, fun shdrs reads => ?_, fun shdrs reads => ?_⟩, fun _ => rfl⟩
        all_goals exact absurd (meaning.mpr reads.loaded) Bool.false_ne_true
      | true =>
        rw [if_pos rfl, phdrs_read page, bind_some, symbols_isSome]
        constructor
        · intro all
          exact ⟨wraps, fun shdrs reads => (all reads.chunk reads.shoff shdrs reads.read).1,
            fun shdrs reads => (all reads.chunk reads.shoff shdrs reads.read).2⟩
        · intro inside chunk shoff shdrs there
          have reads : Reads img shdrs := ⟨accepted, meaning.mp rfl, chunk, shoff, there⟩
          exact ⟨inside.headers shdrs reads, inside.link shdrs reads⟩

def readAt (file : Bytes) (off chunk : Nat) : Option Bytes :=
  if off + chunk ≤ file.length then some (slice off chunk file) else none

theorem readAt_length (file : Bytes) (off chunk : Nat) (buf : Bytes) (read : readAt file off chunk = some buf) :
    buf.length = chunk := by
  rw [readAt] at read
  split at read
  next inside =>
    cases read
    exact slice_length inside
  · cases read

def imageOf (file : Bytes) : Image where
  build := .amd64
  firstpage := file.take pageSize
  small := length_take_le pageSize file
  allocPread := readAt file
  whole := readAt_length file
  kernPread := fun _ => true
  readSymbols := fun off size => off + size ≤ file.length

def moduleHeader (phoff phnum shoff shentsize shnum : Nat) : Bytes :=
  [0x7f, 0x45, 0x4c, 0x46, 2, 1, 1, 9, 0, 0, 0, 0, 0, 0, 0, 0] ++ toLe 2 3 ++ toLe 2 62 ++ toLe 4 1 ++ toLe 8 0 ++
    toLe 8 phoff ++
    toLe 8 shoff ++ toLe 4 0 ++ toLe 2 64 ++ toLe 2 56 ++ toLe 2 phnum ++ toLe 2 shentsize ++ toLe 2 shnum ++ toLe 2 0

def symtabHeader (offset size link : Nat) : Bytes :=
  toLe 4 0 ++ toLe 4 shtSymtab ++ toLe 8 0 ++ toLe 8 0 ++ toLe 8 offset ++ toLe 8 size ++ toLe 4 link ++ toLe 4 0 ++
    toLe 8 8 ++ toLe 8 24

set_option maxRecDepth 4000 in
/-- The end of the program headers wraps around to zero; the headers are smaller than an Elf64_Shdr; sh_link is past
them. -/
theorem loadimage_outside :
    loadimage (imageOf (moduleHeader (2 ^ 64 - 56) 1 0 0 0 ++ replicate 192 0)) = none ∧
      loadimage (imageOf (moduleHeader 0 0 64 1 2 ++ replicate 192 0)) = none ∧
      loadimage (imageOf (moduleHeader 0 0 64 64 1 ++ symtabHeader 128 24 5 ++ replicate 128 0)) = none := by
  refine ⟨by decide, by decide, by decide⟩

end Pcbsd.ElfAccess
