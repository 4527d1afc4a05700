import Pcbsd.Reloc

/-! When reloc stays inside the data that it is given. -/

namespace Pcbsd.Reloc
open Lib Memory Elf

variable {build : Build} {symaddr : Nat → Nat} {reltype : RelType} {e : Entry} {relbase dataaddr at_ i val : Nat}
    {data : Bytes}

/-- How far the word of a relocation is behind the start of the data, as pointers count. -/
def distance (build : Build) (e : Entry) (relbase dataaddr : Nat) : Nat :=
  (relbase + e.offset + (build.values - dataaddr % build.values)) % build.pointers

def Straddles (build : Build) (e : Entry) (relbase dataaddr len : Nat) : Prop :=
  distance build e relbase dataaddr < len ∧ len < distance build e relbase dataaddr + build.word

/-- The relocation looks at its word: it has its addend there, or it is one that is applied. -/
def Touches (build : Build) (symaddr : Nat → Nat) (reltype : RelType) (e : Entry) : Prop :=
  reltype = .rel ∨ reltype = .rela ∧
    (build.rtype e.info = rRelative ∨ build.rtype e.info = rAbsolute ∧ symaddr (build.symidx e.info) ≠ 0)

theorem pointers_pos (build : Build) : 0 < build.pointers := by
  cases build <;> decide

theorem place_cases (build : Build) (e : Entry) (relbase dataaddr : Nat) {len : Nat} (room : at_ + len < build.pointers) :
    (distance build e relbase dataaddr < len ∧ place build e relbase dataaddr at_ = at_ + distance build e relbase dataaddr) ∨
      (len ≤ distance build e relbase dataaddr ∧
        (place build e relbase dataaddr at_ < at_ ∨ (at_ + len) % build.pointers ≤ place build e relbase dataaddr at_)) := by
  have positive := pointers_pos build
  have sum : place build e relbase dataaddr at_ = (at_ + distance build e relbase dataaddr) % build.pointers := by
    rw [place, distance, Nat.add_mod_mod, Nat.add_assoc at_, Nat.add_assoc at_]
  have small : distance build e relbase dataaddr < build.pointers := Nat.mod_lt _ positive
  rw [sum, Nat.mod_eq_of_lt room]
  generalize distance build e relbase dataaddr = d at small ⊢
  rcases Nat.lt_or_ge d len with inside | outside
  · exact .inl ⟨inside, Nat.mod_eq_of_lt (by omega)⟩
  · refine .inr ⟨outside, ?_⟩
    rcases Nat.lt_or_ge (at_ + d) build.pointers with below | above
    · rw [Nat.mod_eq_of_lt below]
      omega
    · rw [Nat.mod_eq_sub_mod above, Nat.mod_eq_of_lt (by omega)]
      omega

theorem reloc_outside (room : at_ + data.length < build.pointers)
    (outside : data.length ≤ distance build e relbase dataaddr) (known : reltype ≠ .other) :
    reloc build symaddr reltype e relbase dataaddr at_ data = some (0, data) := by
  rw [reloc, if_neg known]
  rcases place_cases build e relbase dataaddr room with ⟨_, -⟩ | ⟨-, away⟩
  · omega
  · exact if_pos away

theorem reloc_inside (room : at_ + data.length < build.pointers)
    (inside : distance build e relbase dataaddr < data.length) (known : reltype ≠ .other) :
    reloc build symaddr reltype e relbase dataaddr at_ data =
      (if reltype = .rel then readWord build (distance build e relbase dataaddr) data else some e.addend).bind
        fun addend => if (patched build symaddr e relbase addend).1 = 0 then
          (writeWord build (distance build e relbase dataaddr) (patched build symaddr e relbase addend).2 data).map
            fun data => (0, data)
        else some ((patched build symaddr e relbase addend).1, data) := by
  rw [reloc, if_neg known]
  rcases place_cases build e relbase dataaddr room with ⟨-, here⟩ | ⟨_, -⟩
  · have tested : ¬(place build e relbase dataaddr at_ < at_ ∨ (at_ + data.length) % build.pointers ≤
      place build e relbase dataaddr at_) := by
      rw [here, Nat.mod_eq_of_lt room]
      omega
    rw [if_neg tested, here, Nat.add_sub_cancel_left]
    congr 1
    funext addend
    generalize patched build symaddr e relbase addend = result
    obtain ⟨error, _⟩ := result
    cases error <;> rfl
  · omega

theorem patched_fst (addend : Nat) :
    (patched build symaddr e relbase addend).1 = 0 ↔
      build.rtype e.info = rRelative ∨ build.rtype e.info = rAbsolute ∧ symaddr (build.symidx e.info) ≠ 0 := by
  rw [patched]
  by_cases absolute : build.rtype e.info = rAbsolute
  · have other : build.rtype e.info ≠ rRelative := by
      rw [absolute]
      decide
    rw [if_pos absolute]
    dsimp only
    split
    next unknown => exact iff_of_false (by decide) (by simp [other, unknown])
    next known => exact iff_of_true rfl (.inr ⟨absolute, known⟩)
  · rw [if_neg absolute]
    split
    next relative => exact iff_of_true rfl (.inl relative)
    next other => exact iff_of_false (by decide) (by simp [other, absolute])

/-- reloc leaves the data exactly if it looks at a word that does not end in them. -/
theorem reloc_isSome_iff (build : Build) (symaddr : Nat → Nat) (reltype : RelType) (e : Entry) (relbase dataaddr : Nat)
    (room : at_ + data.length < build.pointers) :
    (reloc build symaddr reltype e relbase dataaddr at_ data).isSome ↔
      ¬(Straddles build e relbase dataaddr data.length ∧ Touches build symaddr reltype e) := by
  by_cases known : reltype = .other
  · rw [reloc, if_pos known]
    refine iff_of_true rfl fun both => ?_
    rcases both.2 with rel | ⟨rela, -⟩
    · rw [known] at rel
      cases rel
    · rw [known] at rela
      cases rela
  rcases Nat.lt_or_ge (distance build e relbase dataaddr) data.length with inside | outside
  · rw [reloc_inside room inside known, Straddles]
    by_cases fits : distance build e relbase dataaddr + build.word ≤ data.length
    · refine iff_of_true ?_ fun both => by omega
      have read (i : Option Nat) (some_ : ∃ addend, i = some addend) : (i.bind fun addend =>
          if (patched build symaddr e relbase addend).1 = 0 then
            (writeWord build (distance build e relbase dataaddr) (patched build symaddr e relbase addend).2 data).map
            fun data => (0, data)
          else some ((patched build symaddr e relbase addend).1, data)).isSome := by
        obtain ⟨addend, rfl⟩ := some_
        rw [Option.bind_some, writeWord, if_pos fits]
        split <;> rfl
      apply read
      split
      · exact ⟨_, if_pos fits⟩
      · exact ⟨_, rfl⟩
    · have straddles : distance build e relbase dataaddr < data.length ∧
        data.length < distance build e relbase dataaddr + build.word := by
        omega
      rw [and_iff_right straddles, Touches]
      by_cases rel : reltype = .rel
      · rw [if_pos rel, readWord, if_neg fits]
        exact iff_of_false Bool.false_ne_true fun no => no (.inl rel)
      · have rela : reltype = .rela := by
          cases reltype with
          | rel => exact absurd rfl rel
          | rela => rfl
          | other => exact absurd rfl known
        rw [if_neg rel, Option.bind_some, writeWord, if_neg fits, Option.map_none, or_iff_right rel,
          and_iff_right rela, ← patched_fst e.addend]
        split
        next applied => exact iff_of_false Bool.false_ne_true fun no => no applied
        next refused => exact iff_of_true rfl refused
  · rw [reloc_outside room outside known]
    exact iff_of_true rfl fun both => by
      rw [Straddles] at both
      omega

/-- Eight bytes at 0x1000, and a relative relocation of the word that they are. -/
theorem reloc_word_whole :
    (reloc .amd64 (fun _ => 0) .rela ⟨0, rRelative, 0⟩ 0 0 0x1000 (List.replicate 8 0)).isSome ↔
      ¬(Straddles .amd64 ⟨0, rRelative, 0⟩ 0 0 (List.replicate 8 (0 : UInt8)).length ∧
        Touches .amd64 (fun _ => 0) .rela ⟨0, rRelative, 0⟩) :=
  reloc_isSome_iff .amd64 (fun _ => 0) .rela ⟨0, rRelative, 0⟩ 0 0 (by decide)

/-- The word that starts with the fifth of them. -/
theorem reloc_word_straddles :
    reloc .amd64 (fun _ => 0) .rela ⟨4, rRelative, 0⟩ 0 0 0x1000 (List.replicate 8 0) = none := by
  decide

end Pcbsd.Reloc

/-! That a relocated copy is a copy of the relocated image. -/

namespace Pcbsd.Reloc
open Lib Memory Elf List Option

structure Fix where
  reltype : RelType
  base : Nat
  entry : Entry

variable {build : Build} {symaddr : Nat → Nat} {fix other : Fix} {mem : Mem} {p at_ len : Nat} {fixes : List Fix}

def Fix.place (build : Build) (fix : Fix) : Nat := (fix.base + fix.entry.offset) % build.pointers

def Supported (build : Build) (symaddr : Nat → Nat) (fix : Fix) : Prop :=
  build.rtype fix.entry.info = rRelative ∨
    build.rtype fix.entry.info = rAbsolute ∧ symaddr (build.symidx fix.entry.info) ≠ 0

instance : Decidable (Supported build symaddr fix) := inferInstanceAs (Decidable (_ ∨ _))

/-- What the image gets for the word `old`: B + A or S + A, with the addend of a REL table in the word. -/
def Fix.value (build : Build) (symaddr : Nat → Nat) (fix : Fix) (old : Nat) : Nat :=
  let addend := if fix.reltype = .rel then old else fix.entry.addend
  let addr := if build.rtype fix.entry.info = rRelative then fix.base else symaddr (build.symidx fix.entry.info)
  (addr + addend) % build.values

def Fix.patch (build : Build) (symaddr : Nat → Nat) (fix : Fix) (mem : Mem) : Bytes :=
  toLe build.word (fix.value build symaddr (leNat (bytesAt mem (fix.place build) build.word)))

def Fix.apply (build : Build) (symaddr : Nat → Nat) (mem : Mem) (fix : Fix) : Mem :=
  if Supported build symaddr fix then write mem (fix.place build) (fix.patch build symaddr mem) else mem

def applyAll (build : Build) (symaddr : Nat → Nat) (fixes : List Fix) (mem : Mem) : Mem :=
  fixes.foldl (Fix.apply build symaddr) mem

def Apart (build : Build) (fix other : Fix) : Prop :=
  fix.place build + build.word ≤ other.place build ∨ other.place build + build.word ≤ fix.place build

instance : DecidableRel (Apart build) := fun _ _ => inferInstanceAs (Decidable (_ ∨ _))

def Inside (build : Build) (p len : Nat) (fix : Fix) : Prop :=
  p ≤ fix.place build ∧ fix.place build + build.word ≤ p + len

def Outside (build : Build) (p len : Nat) (fix : Fix) : Prop :=
  fix.place build + build.word ≤ p ∨ p + len ≤ fix.place build

instance : DecidablePred (Inside build p len) := fun _ => inferInstanceAs (Decidable (_ ∧ _))

instance : DecidablePred (Outside build p len) := fun _ => inferInstanceAs (Decidable (_ ∨ _))

structure Ready (build : Build) (symaddr : Nat → Nat) (fixes : List Fix) (p at_ len : Nat) : Prop where
  range : p + len < build.pointers
  copy : at_ + len < build.pointers
  apart : fixes.Pairwise (Apart build)
  whole : ∀ fix ∈ fixes, Inside build p len fix ∨ Outside build p len fix
  handled : ∀ fix ∈ fixes, Inside build p len fix → Supported build symaddr fix

@[simp] theorem length_patch (fix : Fix) (mem : Mem) : (fix.patch build symaddr mem).length = build.word :=
  length_toLe ..

theorem patch_write {bs : Bytes} {addr : Nat}
    (apart : fix.place build + build.word ≤ addr ∨ addr + bs.length ≤ fix.place build) :
    fix.patch build symaddr (write mem addr bs) = fix.patch build symaddr mem := by
  rw [Fix.patch, bytesAt_write_other apart, Fix.patch]

theorem apply_supported (supported : Supported build symaddr fix) :
    fix.apply build symaddr mem = write mem (fix.place build) (fix.patch build symaddr mem) :=
  if_pos supported

theorem apply_unsupported (unsupported : ¬Supported build symaddr fix) : fix.apply build symaddr mem = mem :=
  if_neg unsupported

instance : Std.Symm (Apart build) := ⟨fun _ _ apart => apart.symm⟩

theorem apply_apart (apart : Apart build fix other) (mem : Mem) :
    other.apply build symaddr (fix.apply build symaddr mem) = fix.apply build symaddr (other.apply build symaddr mem) := by
  by_cases first : Supported build symaddr fix
  · by_cases second : Supported build symaddr other
    · have away : fix.place build + (fix.patch build symaddr mem).length ≤ other.place build ∨
          other.place build + (other.patch build symaddr mem).length ≤ fix.place build := by
        rw [length_patch, length_patch]
        exact apart
      have before : other.patch build symaddr (write mem (fix.place build) (fix.patch build symaddr mem)) =
        other.patch build symaddr mem := by
        apply patch_write
        rw [length_patch]
        exact apart.symm
      have behind : fix.patch build symaddr (write mem (other.place build) (other.patch build symaddr mem)) =
        fix.patch build symaddr mem := by
        apply patch_write
        rw [length_patch]
        exact apart
      rw [apply_supported first, apply_supported second, apply_supported second, apply_supported first, before, behind]
      exact write_comm away
    · rw [apply_unsupported second, apply_unsupported second]
  · rw [apply_unsupported first, apply_unsupported first]

theorem applyAll_perm {order : List Fix} (apart : fixes.Pairwise (Apart build)) (perm : fixes.Perm order) (mem : Mem) :
    applyAll build symaddr fixes mem = applyAll build symaddr order mem := by
  have distinct : ∀ fix ∈ fixes, ∀ other ∈ fixes, ∀ mem : Mem,
      other.apply build symaddr (fix.apply build symaddr mem) = fix.apply build symaddr (other.apply build symaddr mem) := by
    intro fix inside other there mem
    by_cases same : fix = other
    · rw [same]
    · exact apply_apart (apart.forall inside there same) mem
  exact perm.foldl_eq' (fun fix inside other there mem => distinct fix inside other there mem) mem

theorem bytesAt_apply_outside (outside : Outside build p len fix) :
    bytesAt (fix.apply build symaddr mem) p len = bytesAt mem p len := by
  by_cases supported : Supported build symaddr fix
  · rw [apply_supported supported]
    apply bytesAt_write_other
    rw [length_patch]
    exact outside.symm
  · rw [apply_unsupported supported]

theorem bytesAt_apply_inside (inside : Inside build p len fix) (supported : Supported build symaddr fix) :
    bytesAt (fix.apply build symaddr mem) p len =
      put (fix.place build - p) (fix.patch build symaddr mem) (bytesAt mem p len) := by
  rw [apply_supported supported]
  apply bytesAt_write_range inside.1
  rw [length_patch]
  exact inside.2

theorem bytesAt_apply_congr {mem' : Mem} (inside : Inside build p len fix)
    (same : bytesAt mem p len = bytesAt mem' p len) :
    bytesAt (fix.apply build symaddr mem) p len = bytesAt (fix.apply build symaddr mem') p len := by
  by_cases supported : Supported build symaddr fix
  · have word (mem : Mem) :
      bytesAt mem (fix.place build) build.word = slice (fix.place build - p) build.word (bytesAt mem p len) := by
      have low := inside.1
      rw [slice_range (by have high := inside.2; omega), Nat.add_sub_cancel' low]
    rw [bytesAt_apply_inside inside supported, bytesAt_apply_inside inside supported, same, Fix.patch, Fix.patch,
      word, word, same]
  · rw [apply_unsupported supported, apply_unsupported supported, same]

theorem bytesAt_applyAll_filter (whole : ∀ fix ∈ fixes, Inside build p len fix ∨ Outside build p len fix) :
    ∀ {mem mem' : Mem}, bytesAt mem p len = bytesAt mem' p len →
      bytesAt (applyAll build symaddr fixes mem) p len =
        bytesAt (applyAll build symaddr (fixes.filter (Inside build p len)) mem') p len := by
  induction fixes with
  | nil => exact fun same => same
  | cons fix rest ih =>
    intro mem mem' same
    have later : ∀ fix ∈ rest, Inside build p len fix ∨ Outside build p len fix := fun fix inside =>
      whole fix (mem_cons_of_mem _ inside)
    by_cases inside : Inside build p len fix
    · rw [filter_cons_of_pos]
      · exact ih later (bytesAt_apply_congr inside same)
      · exact decide_eq_true inside
    · have outside := (whole fix mem_cons_self).resolve_left inside
      rw [filter_cons_of_neg]
      · exact ih later ((bytesAt_apply_outside outside).trans same)
      · exact fun kept => inside (of_decide_eq_true kept)

theorem not_inside (outside : Outside build p len fix) : ¬Inside build p len fix := by
  have word_pos : 0 < build.word := by cases build <;> decide
  rintro ⟨_, _⟩
  rcases outside with before | behind <;> omega

theorem bytesAt_applyAll_outside (outside : ∀ fix ∈ fixes, Outside build p len fix) (mem : Mem) :
    bytesAt (applyAll build symaddr fixes mem) p len = bytesAt mem p len := by
  have none_inside := filter_eq_nil_iff.mpr fun fix there kept => not_inside (outside fix there) (of_decide_eq_true
    kept)
  rw [bytesAt_applyAll_filter (fun fix there => .inr (outside fix there)) rfl, none_inside]
  rfl

theorem Supported.patched (supported : Supported build symaddr fix) (mem : Mem) (addend : Nat)
    (known : addend = if fix.reltype = .rel then leNat (bytesAt mem (fix.place build) build.word) else fix.entry.addend) :
    patched build symaddr fix.entry fix.base addend =
      (0, fix.value build symaddr (leNat (bytesAt mem (fix.place build) build.word))) := by
  rw [Fix.value, ← known, Reloc.patched]
  rcases supported with relative | ⟨absolute, address⟩
  · have other : build.rtype fix.entry.info ≠ rAbsolute := by
      rw [relative]
      decide
    rw [if_neg other, if_pos relative, if_pos relative, Nat.add_comm]
  · have other : build.rtype fix.entry.info ≠ rRelative := by
      rw [absolute]
      decide
    rw [if_pos absolute, if_neg other]
    exact if_neg address

theorem distance_eq (fix : Fix) (small : p < build.pointers) :
    distance build fix.entry fix.base p = (fix.place build + (build.pointers - p)) % build.pointers := by
  rw [distance, Fix.place]
  cases build
  all_goals
    simp only [Build.pointers, Build.values, Build.word, Build.cls, ElfClass.word] at small ⊢
    omega

theorem reloc_copy (fix : Fix) (range : p + len < build.pointers) (copy : at_ + len < build.pointers)
    (known : fix.reltype ≠ .other) (whole : Inside build p len fix ∨ Outside build p len fix)
    (handled : Inside build p len fix → Supported build symaddr fix) :
    reloc build symaddr fix.reltype fix.entry fix.base p at_ (bytesAt mem p len) =
      some (0, bytesAt (fix.apply build symaddr mem) p len) := by
  have room : at_ + (bytesAt mem p len).length < build.pointers := by
    rw [length_bytesAt]
    exact copy
  have word_pos : 0 < build.word := by cases build <;> decide
  have small : fix.place build < build.pointers := Nat.mod_lt _ (pointers_pos build)
  have counted := distance_eq fix (show p < build.pointers by omega)
  rcases whole with inside | outside
  · have supported := handled inside
    obtain ⟨low, _⟩ := id inside
    have there : distance build fix.entry fix.base p = fix.place build - p := by
      rw [counted, Nat.mod_eq_sub_mod (by omega), Nat.mod_eq_of_lt (by omega)]
      omega
    have fits : fix.place build - p + build.word ≤ (bytesAt mem p len).length := by
      rw [length_bytesAt]
      omega
    have word : le build.word (fix.place build - p) (bytesAt mem p len) =
      leNat (bytesAt mem (fix.place build) build.word) := by
      rw [le, slice_range (by omega), Nat.add_sub_cancel' low]
    have addend : (if fix.reltype = .rel then readWord build (fix.place build - p) (bytesAt mem p len)
      else some fix.entry.addend) =
        some (if fix.reltype = .rel then leNat (bytesAt mem (fix.place build) build.word) else fix.entry.addend) := by
      rw [readWord, if_pos fits, word]
      split <;> rfl
    rw [reloc_inside room (by rw [there]; omega) known, there, addend, bind_some, supported.patched mem _ rfl]
    rw [if_pos rfl, writeWord, if_pos fits, map_some, bytesAt_apply_inside inside supported, Fix.patch]
  · have away : (bytesAt mem p len).length ≤ distance build fix.entry fix.base p := by
      rw [length_bytesAt, counted]
      rcases outside with _ | _
      · rw [Nat.mod_eq_of_lt (by omega)]
        omega
      · rw [Nat.mod_eq_sub_mod (by omega), Nat.mod_eq_of_lt (by omega)]
        omega
    rw [reloc_outside room away known, bytesAt_apply_outside outside]

def fixesOf (reltype : RelType) (base : Nat) (table : List Entry) : List Fix := table.map (Fix.mk reltype base)

theorem relocAll_copy {reltype : RelType} {base : Nat} (range : p + len < build.pointers)
    (copy : at_ + len < build.pointers) (known : reltype ≠ .other) {table : List Entry} :
    ∀ (mem : Mem), (∀ fix ∈ fixesOf reltype base table, Inside build p len fix ∨ Outside build p len fix) →
      (∀ fix ∈ fixesOf reltype base table, Inside build p len fix → Supported build symaddr fix) →
        relocAll build symaddr reltype base p at_ table (bytesAt mem p len) =
          some (0, bytesAt (applyAll build symaddr (fixesOf reltype base table) mem) p len) := by
  induction table with
  | nil => exact fun _ _ _ => rfl
  | cons e _ ih =>
    intro mem whole handled
    have first : reloc build symaddr reltype e base p at_ (bytesAt mem p len) = some
      (0, bytesAt (Fix.apply build symaddr mem ⟨reltype, base, e⟩) p len) :=
      reloc_copy ⟨reltype, base, e⟩ range copy known (whole _ mem_cons_self) (handled _ mem_cons_self)
    rw [relocAll, first, bind_some]
    exact ih _ (fun fix inside => whole fix (mem_cons_of_mem _ inside)) fun fix inside =>
      handled fix (mem_cons_of_mem _ inside)

theorem applyAll_append (fixes others : List Fix) (mem : Mem) :
    applyAll build symaddr (fixes ++ others) mem = applyAll build symaddr others (applyAll build symaddr fixes mem) :=
  foldl_append

def imageFixes (build : Build) (ef : ElfFile) (mem : Mem) : List Fix :=
  fixesOf .rel ef.off (entries build .rel mem ef.rel (ef.relsz / build.entrySize .rel)) ++
    fixesOf .rela ef.off (entries build .rela mem ef.rela (ef.relasz / build.entrySize .rela))

theorem relocPtr_copy {ef : ElfFile} (module : ef.kernel = false)
    (ready : Ready build Reloc.symaddr (imageFixes build ef mem) p at_ len) :
    relocPtr build ef mem p at_ (bytesAt mem p len) =
      some (0, bytesAt (applyAll build Reloc.symaddr (imageFixes build ef mem) mem) p len) := by
  have whole := ready.whole
  have handled := ready.handled
  rw [imageFixes] at whole handled ⊢
  have rels := relocAll_copy ready.range ready.copy (show RelType.rel ≠ .other from RelType.noConfusion) mem
    (fun fix inside => whole fix (mem_append_left _ inside)) fun fix inside => handled fix (mem_append_left _ inside)
  rw [relocPtr, module, if_neg Bool.false_ne_true]
  dsimp only
  rw [rels, bind_some, applyAll_append]
  exact relocAll_copy ready.range ready.copy RelType.noConfusion _
    (fun fix inside => whole fix (mem_append_right _ inside)) fun fix inside => handled fix (mem_append_right _ inside)

section

variable {ef : ObjFile} {shdr target : Shdr} {mem' : Mem}

/-- The relocations in the table of a section. A section without an address is not in the image. -/
def Shdr.relocations (build : Build) (ef : ObjFile) (mem : Mem) (shdr : Shdr) : List Fix :=
  match shdr.reltype, ef.shdrs[shdr.info]? with
  | some reltype, some target =>
    if target.addr = 0 ∨ shdr.addr = 0 then []
    else fixesOf reltype target.addr (entries build reltype mem shdr.addr (shdr.size / build.entrySize reltype))
  | _, _ => []

def objFixes (build : Build) (ef : ObjFile) (mem : Mem) : List Fix := ef.shdrs.flatMap (Shdr.relocations build ef mem)

/-- The sections of an object module in memory: their tables name sections, the sections with an address do not share
bytes, and the relocations of a table are in the section that it names. -/
structure Loaded (build : Build) (ef : ObjFile) (mem : Mem) : Prop where
  linked : ∀ shdr ∈ ef.shdrs, shdr.reltype ≠ none → shdr.info < ef.shdrs.length
  sized : ∀ shdr ∈ ef.shdrs, shdr.addr ≠ 0 → shdr.size < 2 ^ 31 ∧ shdr.addr + shdr.size < build.pointers
  disjoint : ∀ shdr ∈ ef.shdrs, ∀ other ∈ ef.shdrs, shdr.addr ≠ 0 → other.addr ≠ 0 →
    shdr.addr = other.addr ∧ shdr.size = other.size ∨ shdr.addr + shdr.size ≤ other.addr ∨ other.addr + other.size ≤ shdr.addr
  words : ∀ shdr ∈ ef.shdrs, ∀ fix ∈ shdr.relocations build ef mem, ∀ target ∈ ef.shdrs[shdr.info]?,
    Inside build target.addr target.size fix

theorem intCount_small {n : Nat} (small : n < 2 ^ 31) : intCount n = n := by
  have same : Int.bmod n (2 ^ 32) = n := by
    apply Int.bmod_eq_of_le
    · omega
    · omega
  exact (congrArg Int.toNat same).trans (Int.toNat_natCast n)

theorem Shdr.relocations_none (unrelated : shdr.reltype = none) : shdr.relocations build ef mem = [] := by
  rw [Shdr.relocations, unrelated]

theorem Shdr.relocations_some (build : Build) (mem : Mem) {reltype : RelType} (table : shdr.reltype = some reltype)
    (found : ef.shdrs[shdr.info]? = some target) :
    shdr.relocations build ef mem =
      if target.addr = 0 ∨ shdr.addr = 0 then []
      else fixesOf reltype target.addr (entries build reltype mem shdr.addr (shdr.size / build.entrySize reltype)) := by
  rw [Shdr.relocations, table, found]

theorem Shdr.reltype_known {reltype : RelType} (table : shdr.reltype = some reltype) : reltype ≠ .other := by
  rintro rfl
  rw [Shdr.reltype] at table
  split at table
  · cases table
  · split at table <;> cases table

def InSection (ef : ObjFile) (p len : Nat) : Prop :=
  ∃ shdr ∈ ef.shdrs, shdr.addr ≠ 0 ∧ shdr.addr ≤ p ∧ p + len ≤ shdr.addr + shdr.size

theorem Loaded.outside (loaded : Loaded build ef mem) (placed : InSection ef p len) (inside : shdr ∈ ef.shdrs)
    (found : ef.shdrs[shdr.info]? = some target) (there : target.addr ≠ 0)
    (away : p < target.addr ∨ target.addr + target.size < p + len) :
    ∀ fix ∈ shdr.relocations build ef mem, Outside build p len fix := by
  intro fix patched
  obtain ⟨section_, known, address, _, _⟩ := placed
  obtain ⟨_, _⟩ := loaded.words shdr inside fix patched target found
  have named : target ∈ ef.shdrs := mem_of_getElem? found
  rcases loaded.disjoint section_ known target named address there with ⟨_, size⟩ | _ | _
  · omega
  · right
    omega
  · left
    omega

theorem values_le (build : Build) : build.pointers ≤ build.values := by
  cases build <;> decide

theorem objRelocLoop_copy (loaded : Loaded build ef mem) (placed : InSection ef p len)
    (ready : Ready build (objSymaddr build ef mem) (objFixes build ef mem) p at_ len) {rest : List Shdr} :
    ∀ {mem' : Mem}, rest ⊆ ef.shdrs →
      objRelocLoop build ef mem p at_ rest (bytesAt mem' p len) =
        some (0, bytesAt (applyAll build (objSymaddr build ef mem) (rest.flatMap (Shdr.relocations build ef mem)) mem') p len) := by
  induction rest with
  | nil => exact fun _ => rfl
  | cons shdr rest ih =>
    intro mem' part
    have known : shdr ∈ ef.shdrs := part mem_cons_self
    have later : rest ⊆ ef.shdrs := fun _ inside => part (mem_cons_of_mem _ inside)
    have listed : ∀ fix ∈ shdr.relocations build ef mem, fix ∈ objFixes build ef mem := fun fix inside =>
      mem_flatMap.mpr ⟨shdr, known, inside⟩
    have skipped (outside : ∀ fix ∈ shdr.relocations build ef mem, Outside build p len fix) :
        objRelocLoop build ef mem p at_ rest (bytesAt mem' p len) =
          some (0, bytesAt
            (applyAll build (objSymaddr build ef mem) ((shdr :: rest).flatMap (Shdr.relocations build ef mem)) mem') p len) := by
      rw [flatMap_cons, applyAll_append, ← ih later, bytesAt_applyAll_outside outside]
    rw [objRelocLoop]
    rcases table : shdr.reltype with _ | reltype
    · apply skipped
      rw [Shdr.relocations_none table]
      exact fun _ inside => nomatch inside
    · have within := loaded.linked shdr known (by rw [table]; exact some_ne_none _)
      have found := getElem?_eq_getElem within
      generalize ef.shdrs[shdr.info] = target at found
      have fixes := Shdr.relocations_some build mem table found
      rw [found]
      dsimp only
      split
      next unloaded =>
        apply skipped
        rw [fixes, if_pos unloaded]
        exact fun _ inside => nomatch inside
      next present =>
        obtain ⟨there, address⟩ := not_or.mp present
        rw [if_neg present] at fixes
        have target_sized := loaded.sized target (mem_of_getElem? found) there
        have own_sized := loaded.sized shdr known address
        have pointers := values_le build
        have range := ready.range
        rw [length_bytesAt, Nat.mod_eq_of_lt (show target.addr + target.size < build.values by omega),
          Nat.mod_eq_of_lt (show p + len < build.values by omega)]
        split
        next away => exact skipped (loaded.outside placed known found there away)
        next =>
          have count : shdr.size / build.entrySize reltype < 2 ^ 31 := Nat.lt_of_le_of_lt (Nat.div_le_self ..) own_sized.1
          have table_copy := relocAll_copy range ready.copy
            (Shdr.reltype_known table) mem' (fun fix inside => ready.whole fix (listed fix (fixes ▸ inside)))
            fun fix inside => ready.handled fix (listed fix (fixes ▸ inside))
          rw [intCount_small count, table_copy, bind_some, flatMap_cons, applyAll_append, fixes]
          exact ih later

end

/-- The copy is relocated like the image, whatever the order of the relocations, and by those inside the range alone. -/
def Copied (build : Build) (symaddr : Nat → Nat) (fixes : List Fix) (mem : Mem) (p len : Nat)
    (result : Option (Nat × Bytes)) : Prop :=
  ∀ order : List Fix, fixes.Perm order →
    result = some (0, bytesAt (applyAll build symaddr order mem) p len) ∧
      result = some (0, bytesAt (applyAll build symaddr (order.filter (Inside build p len)) mem) p len)

theorem Ready.copied {result : Option (Nat × Bytes)} (ready : Ready build symaddr fixes p at_ len)
    (copy : result = some (0, bytesAt (applyAll build symaddr fixes mem) p len)) :
    Copied build symaddr fixes mem p len result := by
  intro order perm
  have whole : ∀ fix ∈ order, Inside build p len fix ∨ Outside build p len fix := fun fix inside => ready.whole fix
    (perm.mem_iff.mpr inside)
  rw [copy, applyAll_perm ready.apart perm]
  exact ⟨rfl, by rw [bytesAt_applyAll_filter whole rfl]⟩

/-- Relocating a copy of a range of an image is relocating the image, for images with one base and for object
modules. -/
theorem relocated_copy (build : Build) (mem : Mem) :
    (∀ (ef : ElfFile) (p at_ len : Nat), ef.kernel = false →
      Ready build Reloc.symaddr (imageFixes build ef mem) p at_ len →
      Copied build Reloc.symaddr (imageFixes build ef mem) mem p len
        (relocPtr build ef mem p at_ (bytesAt mem p len))) ∧
    ∀ (ef : ObjFile) (p at_ len : Nat), Loaded build ef mem → InSection ef p len →
      Ready build (objSymaddr build ef mem) (objFixes build ef mem) p at_ len →
        Copied build (objSymaddr build ef mem) (objFixes build ef mem) mem p len
          (objRelocPtr build ef mem p at_ (bytesAt mem p len)) := by
  constructor
  · intro ef p at_ len module ready
    exact ready.copied (relocPtr_copy module ready)
  · intro ef p at_ len loaded placed ready
    exact ready.copied (objRelocLoop_copy loaded placed ready fun _ inside => inside)

def tableAt (addr : Nat) (table : List Entry) : Mem :=
  write (fun _ => 0) addr (table.flatMap fun e => toLe 8 e.offset ++ toLe 8 e.info ++ toLe 8 e.addend)

/-- An image at 0x1000 with a table of two relocations, of which the first is in the first sixteen bytes of the
image. -/
def twoFixes : Mem := tableAt 0x1040 [⟨8, rRelative, 5⟩, ⟨32, rRelative, 7⟩]

def twoFixesFile : ElfFile := ⟨false, 0x1000, 0, 0, 0x1040, 48⟩

/-- An object module whose second section relocates the first one by the symbol in its third. -/
def symbolFix : Mem := tableAt 0x2000 [⟨8, rAbsolute, 5⟩, ⟨0x0001000000000000, 4, 0⟩]

def symbolFixFile : ObjFile := ⟨[⟨1, 0x1000, 16, 0⟩, ⟨shtRela, 0x2000, 24, 0⟩, ⟨2, 0x2018, 24, 0⟩], 2⟩

theorem relocated_copy_first :
    Copied .amd64 Reloc.symaddr (imageFixes .amd64 twoFixesFile twoFixes) twoFixes 0x1000 16
        (relocPtr .amd64 twoFixesFile twoFixes 0x1000 0x8000 (bytesAt twoFixes 0x1000 16)) ∧
      Copied .amd64 (objSymaddr .amd64 symbolFixFile symbolFix)
        (objFixes .amd64 symbolFixFile symbolFix) symbolFix 0x1000 16
        (objRelocPtr .amd64 symbolFixFile symbolFix 0x1000 0x8000 (bytesAt symbolFix 0x1000 16)) :=
  ⟨(relocated_copy .amd64 _).1 _ 0x1000 0x8000 16 rfl ⟨by decide, by decide, by decide, by decide, by decide⟩,
    (relocated_copy .amd64 _).2 _ 0x1000 0x8000 16 ⟨by decide, by decide, by decide, by decide⟩
    (by unfold InSection; decide) ⟨by decide, by decide, by decide, by decide, by decide⟩⟩

/-- An image whose table asks for a symbol. The word is in the range and of a type that reloc knows. -/
def symbolImage : Mem := tableAt 0x1040 [⟨8, 0x100000000 + rAbsolute, 5⟩]

def symbolImageFile : ElfFile := ⟨false, 0x1000, 0, 0, 0x1040, 24⟩

/-- reloc_ptr looks up no symbols. -/
theorem relocPtr_symbol :
    (∀ fix ∈ imageFixes .amd64 symbolImageFile symbolImage,
      Inside .amd64 0x1000 16 fix ∧ Build.amd64.rtype fix.entry.info = rAbsolute) ∧
      relocPtr .amd64 symbolImageFile symbolImage 0x1000 0x8000 (bytesAt symbolImage 0x1000 16) =
        some (esrch, bytesAt symbolImage 0x1000 16) := by
  decide

end Pcbsd.Reloc
