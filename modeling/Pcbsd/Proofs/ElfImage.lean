import Pcbsd.Elf

/-! What is in memory behind loadimage: the segments, with what the copies of the first page spill over
repaired by the segments that follow, and the symbols behind them. -/

namespace Pcbsd.Elf
open Lib Memory Records I386Copy List Option

def ElfFile.loads (ef : ElfFile) : List Phdr := ef.phdrs.filter (·.type = ptLoad)

/-- An image that can be loaded at `off`: sections and headers are where the format has them, and the segments are
given in the order of their addresses and do not overlap. -/
structure Valid (ef : ElfFile) (off : Nat) : Prop where
  headers : ef.ehdr.phoff + ef.ehdr.phnum * ef.cls.phdrSize ≤ ef.firstlen
  sizes : ∀ phdr ∈ ef.loads, phdr.filesz ≤ phdr.memsz
  ordered : ef.loads.Pairwise fun phdr next => phdr.addr (ef.off off) + phdr.memsz ≤ next.addr (ef.off off)
  unwrapped : ∀ phdr ∈ ef.loads, phdr.addr (ef.off off) + phdr.memsz < 2 ^ 32
  sections : ef.ehdr.shnum ≠ 0 → ef.ehdr.shentsize = ef.cls.shdrSize
  linked : ∀ shdrs, ef.shdrs = some shdrs → ∀ symtab ∈ shdrs, symtab.type = shtSymtab →
    ∃ symstr, shdrs[symtab.link]? = some symstr ∧ symstr.type ≠ shtSymtab

structure Placed (ef : ElfFile) (off : Nat) (mem : Mem) (phdr : Phdr) : Prop where
  data : bytesAt mem (phdr.addr off) phdr.filesz = slice phdr.offset phdr.filesz ef.file.bytes
  bss : bytesAt mem (phdr.addr off + phdr.filesz) (phdr.memsz - phdr.filesz) = replicate (phdr.memsz - phdr.filesz) 0

structure SectionAt (ef : ElfFile) (mem : Mem) (addr : Nat) (shdr : Shdr) (stop : Nat) : Prop where
  size : bytesAt mem addr ef.cls.word = toLe ef.cls.word shdr.size
  data : bytesAt mem (addr + ef.cls.word) shdr.size = slice shdr.offset shdr.size ef.file.bytes
  ends : stop = roundup (addr + ef.cls.word + shdr.size) ef.cls.word

structure Faithful (ef : ElfFile) (off : Nat) (mem : Mem) (image : Loaded) : Prop where
  segments : ∀ phdr ∈ ef.loads, Placed ef (ef.off off) image.mem phdr
  lowest : ∀ phdr ∈ ef.loads, image.addr ≤ phdr.addr (ef.off off)
  first : ef.loads ≠ [] → ∃ phdr ∈ ef.loads, image.addr = phdr.addr (ef.off off)
  below : ∀ a < image.addr, image.mem a = mem a
  symbols : ∀ ssym esym, image.syms = some (ssym, esym) →
    (∀ phdr ∈ ef.loads, phdr.addr (ef.off off) + phdr.memsz ≤ ssym) ∧
    ∃ shdrs symtab symstr middle, ef.shdrs = some shdrs ∧ symtab ∈ shdrs ∧ symtab.type = shtSymtab ∧
      shdrs[symtab.link]? = some symstr ∧
      SectionAt ef image.mem ssym symtab middle ∧ SectionAt ef image.mem middle symstr esym

section

variable {machine : Machine} {ef : ElfFile} {off : Nat}

variable {phdr : Phdr} {loads : List Phdr} {s' s : Segments} {dest len resid start : Nat}

theorem bzeroLoop_outside (fuel : Nat) {mem : Mem} {a : Nat} (outside : a < dest ∨ dest + resid ≤ a) :
    bzeroLoop machine fuel mem dest resid a = mem a := by
  induction fuel generalizing mem dest resid with
  | zero => rfl
  | succ fuel ih =>
    rw [bzeroLoop]
    split
    next => rfl
    next => rw [ih (by omega), copyin_outside (by rw [length_replicate]; omega)]

theorem bzeroLoop_fits {fuel : Nat} {mem : Mem} (enough : resid ≤ fuel) (fits : dest + resid < machine.memtop) :
    bzeroLoop machine fuel mem dest resid = write mem dest (replicate resid 0) := by
  induction fuel generalizing mem dest resid with
  | zero =>
    rw [Nat.le_zero.mp enough]
    exact (write_same rfl).symm
  | succ fuel ih =>
    rw [bzeroLoop]
    split
    next none =>
      rw [none]
      exact (write_same rfl).symm
    next =>
      have parts : resid = min 256 resid + (resid - min 256 resid) := by omega
      have there := write_append mem dest (replicate (min 256 resid) (0 : UInt8)) (replicate (resid - min 256 resid) 0)
      rw [length_replicate, replicate_append_replicate, ← parts] at there
      rw [ih (by omega) (by omega), copyin_fits mem (by rw [length_replicate]; omega), there]

theorem firstpage_slice (inside : start + len ≤ ef.firstlen) :
    slice start len ef.firstpage = slice start len ef.file.bytes := by
  rw [slice, slice, ElfFile.firstpage, drop_take, take_take, Nat.min_eq_left (by omega)]

theorem firstpage_drop_length (ef : ElfFile) (start : Nat) :
    (ef.firstpage.drop start).length = ef.firstlen - start := by
  rw [length_drop, ElfFile.firstpage, length_take, Nat.min_eq_left ef.first]

def pageCopied (machine : Machine) (ef : ElfFile) (off : Nat) (mem : Mem) (phdr : Phdr) : Mem :=
  if ef.firstlen > phdr.offset then copyin machine.memtop mem (ef.firstpage.drop phdr.offset) (phdr.addr off) else mem

theorem pageCopied_below {mem : Mem} {a : Nat}
    (below : a < phdr.addr off) : pageCopied machine ef off mem phdr a = mem a := by
  rw [pageCopied]
  split
  next => exact copyin_outside (Or.inl below)
  next => rfl

theorem pageCopied_data {mem : Mem} (fits : 0 < len → phdr.addr off + (ef.firstlen - phdr.offset) < machine.memtop)
    (inside : len ≤ ef.firstlen - phdr.offset) :
    bytesAt (pageCopied machine ef off mem phdr) (phdr.addr off) len = slice phdr.offset len ef.file.bytes := by
  have length := firstpage_drop_length ef phdr.offset
  rcases Nat.eq_zero_or_pos len with rfl | positive
  · rw [slice, take_zero]
    rfl
  · have parts : (ef.firstpage.drop phdr.offset).length = len + (ef.firstlen - phdr.offset - len) := by omega
    have copied := bytesAt_write mem (phdr.addr off) (ef.firstpage.drop phdr.offset)
    rw [parts, bytesAt_append] at copied
    have front := congrArg (take len) copied
    rw [take_left' (length_bytesAt _ _ _)] at front
    rw [pageCopied, if_pos (by omega), copyin_fits mem (by rw [length]; exact fits positive), front]
    exact firstpage_slice (by omega)

theorem kernPread_some {mem mem' : Mem} (read : kernPread machine ef mem dest len start = some mem') :
    mem' = write mem dest (slice start len ef.file.bytes) ∧ dest + len < machine.memtop ∧
    start + len ≤ ef.file.bytes.length := by
  rw [kernPread] at read
  split at read
  next =>
    dsimp only at read
    split at read
    next whole =>
      cases read
      exact i386Readin_whole whole
    next => cases read
  next => cases read

theorem read_segment {mem mem' : Mem}
    (read : (if phdr.filesz > ef.firstlen - phdr.offset then kernPread machine ef (pageCopied machine ef off mem phdr)
      (phdr.addr off + (ef.firstlen - phdr.offset)) (phdr.filesz - (ef.firstlen - phdr.offset))
      (phdr.offset + (ef.firstlen - phdr.offset)) else some (pageCopied machine ef off mem phdr)) = some mem') :
    (∀ a < phdr.addr off, mem' a = mem a) ∧
    ((0 < phdr.filesz → phdr.offset < ef.firstlen → phdr.addr off + (ef.firstlen - phdr.offset) < machine.memtop) →
      bytesAt mem' (phdr.addr off) phdr.filesz = slice phdr.offset phdr.filesz ef.file.bytes) := by
  split at read
  next _ =>
    obtain ⟨written, fits, inside⟩ := kernPread_some read
    rw [written]
    refine ⟨fun a low => ?_, fun _ => ?_⟩
    · rw [write_outside (Or.inl (by omega)), pageCopied_below low]
    · have parts : phdr.filesz = (ef.firstlen - phdr.offset) + (phdr.filesz - (ef.firstlen - phdr.offset)) := by omega
      have length := slice_length inside
      have behind := bytesAt_write (pageCopied machine ef off mem phdr) (phdr.addr off + (ef.firstlen - phdr.offset))
        (slice (phdr.offset + (ef.firstlen - phdr.offset)) (phdr.filesz - (ef.firstlen - phdr.offset)) ef.file.bytes)
      rw [length] at behind
      have joined : bytesAt (write (pageCopied machine ef off mem phdr) (phdr.addr off + (ef.firstlen - phdr.offset))
          (slice (phdr.offset + (ef.firstlen - phdr.offset)) (phdr.filesz - (ef.firstlen - phdr.offset)) ef.file.bytes))
          (phdr.addr off)
          ((ef.firstlen - phdr.offset) + (phdr.filesz - (ef.firstlen - phdr.offset))) =
          slice phdr.offset ((ef.firstlen - phdr.offset) + (phdr.filesz - (ef.firstlen - phdr.offset)))
            ef.file.bytes := by
        rw [bytesAt_append, slice_append, behind, bytesAt_write_other (Or.inl (Nat.le_refl _)),
          pageCopied_data (fun _ => by omega) (Nat.le_refl _)]
      rw [← parts] at joined
      exact joined
  next all =>
    cases read
    refine ⟨fun a low => pageCopied_below low, fun fits => ?_⟩
    rcases Nat.eq_zero_or_pos phdr.filesz with empty | positive
    · rw [empty, slice, take_zero]
      rfl
    · exact pageCopied_data (fun _ => fits positive (by omega)) (Nat.le_of_not_lt all)

/-- The copy from the first page and the clearing fit below the top of the memory. -/
def Phdr.Fits (machine : Machine) (ef : ElfFile) (off : Nat) (phdr : Phdr) : Prop :=
  (0 < phdr.filesz → phdr.offset < ef.firstlen → phdr.addr off + (ef.firstlen - phdr.offset) < machine.memtop) ∧
    (phdr.filesz < phdr.memsz → phdr.addr off + phdr.memsz < machine.memtop)

theorem loadSegment_some (load : phdr.type = ptLoad) (sizes : phdr.filesz ≤ phdr.memsz)
    (loaded : loadSegment machine ef off s phdr = some s') :
    (∀ a < phdr.addr off, s'.mem a = s.mem a) ∧
    s'.firstaddr = (if s.firstaddr = 0 ∨ s.firstaddr > phdr.addr off then phdr.addr off else s.firstaddr) ∧
    s'.lastaddr = (if s.lastaddr = 0 ∨ s.lastaddr < phdr.addr off + phdr.memsz then phdr.addr off + phdr.memsz
      else s.lastaddr) ∧
    (phdr.Fits machine ef off → Placed ef off s'.mem phdr) := by
  have fpcopy : (if ef.firstlen > phdr.offset then ef.firstlen - phdr.offset else 0) = ef.firstlen - phdr.offset := by
    split <;> omega
  have page : (if ef.firstlen > phdr.offset then copyin machine.memtop s.mem (ef.firstpage.drop phdr.offset)
    (phdr.addr off) else s.mem) = pageCopied machine ef off s.mem phdr := rfl
  rw [loadSegment, if_neg (not_not_intro load)] at loaded
  dsimp only at loaded
  rw [fpcopy, page] at loaded
  obtain ⟨mem, read, rfl⟩ := map_eq_some_iff.mp loaded
  obtain ⟨below, data⟩ := read_segment read
  dsimp only
  have cleared (a : Nat) (outside : a < phdr.addr off + phdr.filesz ∨ phdr.addr off + phdr.memsz ≤ a) :
      (if phdr.filesz < phdr.memsz then kernBzero machine mem (phdr.addr off + phdr.filesz) (phdr.memsz - phdr.filesz)
        else mem) a = mem a := by
    split
    next => exact bzeroLoop_outside _ (by omega)
    next => rfl
  refine ⟨fun a low => ?_, rfl, rfl, fun fits => ⟨?_, ?_⟩⟩
  · rw [cleared a (Or.inl (by omega)), below a low]
  · rw [← data fits.1]
    exact bytesAt_congr fun a _ high => cleared a (Or.inl high)
  · split
    next more =>
      rw [kernBzero, bzeroLoop_fits (Nat.le_refl _) (by have top := fits.2 more; omega)]
      have zeros := bytesAt_write mem (phdr.addr off + phdr.filesz) (replicate (phdr.memsz - phdr.filesz) (0 : UInt8))
      rw [length_replicate] at zeros
      exact zeros
    next _ =>
      have empty : phdr.memsz - phdr.filesz = 0 := by omega
      rw [empty]
      rfl

theorem Placed.congr {mem mem' : Mem} (sizes : phdr.filesz ≤ phdr.memsz) (placed : Placed ef off mem phdr)
    (same : ∀ a < phdr.addr off + phdr.memsz, mem' a = mem a) : Placed ef off mem' phdr := by
  refine ⟨?_, ?_⟩
  · rw [← placed.data]
    exact bytesAt_congr fun a _ high => same a (by omega)
  · rw [← placed.bss]
    exact bytesAt_congr fun a _ high => same a (by omega)

theorem foldlM_loads (phdrs : List Phdr) (s : Segments) :
    phdrs.foldlM (loadSegment machine ef off) s = (phdrs.filter (·.type = ptLoad)).foldlM (loadSegment machine ef off) s := by
  induction phdrs generalizing s with
  | nil => rfl
  | cons phdr phdrs ih =>
    by_cases load : phdr.type = ptLoad
    · rw [filter_cons_of_pos (by simpa using load), foldlM_cons, foldlM_cons]
      exact congrArg _ (funext ih)
    · have skipped : loadSegment machine ef off s phdr = some s := by rw [loadSegment, if_pos load]
      rw [filter_cons_of_neg (by simpa using load), foldlM_cons, skipped]
      exact ih s

variable (load : ∀ phdr ∈ loads, phdr.type = ptLoad)

include load

theorem loadSegments_some (sizes : ∀ phdr ∈ loads, phdr.filesz ≤ phdr.memsz)
    (ordered : loads.Pairwise fun phdr next => phdr.addr off + phdr.memsz ≤ next.addr off)
    (loaded : loads.foldlM (loadSegment machine ef off) s = some s') :
    (∀ a, (∀ phdr ∈ loads, a < phdr.addr off) → s'.mem a = s.mem a) ∧
    ((∀ phdr ∈ loads, phdr.Fits machine ef off) → ∀ phdr ∈ loads, Placed ef off s'.mem phdr) ∧
    (s.lastaddr ≤ s'.lastaddr ∧ ∀ phdr ∈ loads, phdr.addr off + phdr.memsz ≤ s'.lastaddr) := by
  induction loads generalizing s with
  | nil =>
    cases loaded
    exact ⟨fun _ _ => rfl, by simp, Nat.le_refl _, by simp⟩
  | cons phdr loads ih =>
    obtain ⟨t, first, rest⟩ := bind_eq_some_iff.mp loaded
    obtain ⟨ahead, tail⟩ := pairwise_cons.mp ordered
    obtain ⟨below, _, last, placed⟩ := loadSegment_some (load phdr mem_cons_self) (sizes phdr mem_cons_self) first
    obtain ⟨restBelow, restPlaced, _, restEnds⟩ := ih (fun other member => load other (mem_cons_of_mem phdr member))
      (fun other member => sizes other (mem_cons_of_mem phdr member)) tail rest
    have reached : s.lastaddr ≤ t.lastaddr ∧ phdr.addr off + phdr.memsz ≤ t.lastaddr := by
      rw [last]
      split <;> omega
    refine ⟨fun a low => ?_, fun fits other member => ?_, by omega, fun other member => ?_⟩
    · rw [restBelow a fun other member => low other (mem_cons_of_mem phdr member), below a (low phdr mem_cons_self)]
    · rcases mem_cons.mp member with rfl | member
      · exact (placed (fits _ mem_cons_self)).congr (sizes _ mem_cons_self) fun a low =>
          restBelow a fun next inside => Nat.lt_of_lt_of_le low (ahead next inside)
      · exact restPlaced (fun next inside => fits next (mem_cons_of_mem phdr inside)) other member
    · rcases mem_cons.mp member with rfl | member
      · omega
      · exact restEnds other member

theorem firstaddr_kept (sizes : ∀ phdr ∈ loads, phdr.filesz ≤ phdr.memsz)
    (loaded : loads.foldlM (loadSegment machine ef off) s = some s') (set : s.firstaddr ≠ 0)
    (low : ∀ phdr ∈ loads, s.firstaddr ≤ phdr.addr off) : s'.firstaddr = s.firstaddr := by
  induction loads generalizing s with
  | nil => cases loaded; rfl
  | cons phdr loads ih =>
    obtain ⟨_, first, rest⟩ := bind_eq_some_iff.mp loaded
    obtain ⟨_, start, _⟩ := loadSegment_some (load phdr mem_cons_self) (sizes phdr mem_cons_self) first
    have under := low phdr mem_cons_self
    rw [if_neg (by omega)] at start
    rw [← start]
    exact ih (fun other member => load other (mem_cons_of_mem phdr member))
      (fun other member => sizes other (mem_cons_of_mem phdr member)) rest (start ▸ set)
      fun other member => start ▸ low other (mem_cons_of_mem phdr member)

theorem firstaddr_found (sizes : ∀ phdr ∈ loads, phdr.filesz ≤ phdr.memsz)
    (ordered : loads.Pairwise fun phdr next => phdr.addr off + phdr.memsz ≤ next.addr off)
    (loaded : loads.foldlM (loadSegment machine ef off) s = some s') (unset : s.firstaddr = 0) :
    s'.firstaddr = ((loads.map (Phdr.addr off)).find? (· ≠ 0)).getD 0 := by
  induction loads generalizing s with
  | nil =>
    cases loaded
    exact unset
  | cons phdr loads ih =>
    obtain ⟨_, first, rest⟩ := bind_eq_some_iff.mp loaded
    obtain ⟨ahead, tail⟩ := pairwise_cons.mp ordered
    obtain ⟨_, start, _⟩ := loadSegment_some (load phdr mem_cons_self) (sizes phdr mem_cons_self) first
    rw [if_pos (Or.inl unset)] at start
    have loadRest : ∀ other ∈ loads, other.type = ptLoad := fun other member => load other (mem_cons_of_mem phdr member)
    have sizesRest : ∀ other ∈ loads, other.filesz ≤ other.memsz := fun other member => sizes other (mem_cons_of_mem phdr member)
    by_cases zero : phdr.addr off = 0
    · rw [map_cons, find?_cons_of_neg (by simpa using zero)]
      exact ih loadRest sizesRest tail rest (start.trans zero)
    · rw [map_cons, find?_cons_of_pos (by simpa using zero), getD_some, ← start]
      refine firstaddr_kept loadRest sizesRest rest (start ▸ zero) fun other member => ?_
      have later := ahead other member
      omega

omit load

theorem i386Readin_below (machine : Machine) (file : File) (mem : Mem) (start len : Nat) {dest a : Nat}
    (below : a < dest) :
    (i386Readin machine file mem start dest len).2 a = mem a := by
  rw [i386Readin]
  split
  next => rfl
  next => exact write_outside (Or.inl below)

theorem loadSection_below {mem : Mem} {lastaddr a : Nat} (shdr : Shdr) (below : a < lastaddr) :
    match loadSection machine ef mem lastaddr shdr with
    | .error mem' => mem' a = mem a
    | .ok (mem', _) => mem' a = mem a := by
  have size : copyin machine.memtop mem (toLe ef.cls.word shdr.size) lastaddr a = mem a := copyin_outside (Or.inl below)
  have read := i386Readin_below machine ef.file (copyin machine.memtop mem (toLe ef.cls.word shdr.size) lastaddr)
    shdr.offset shdr.size (Nat.lt_add_right ef.cls.word below)
  rw [loadSection]
  dsimp only
  split
  next mem' result =>
    split at result
    next => cases result; exact size
    next =>
      split at result
      next => cases result; exact read.trans size
      next => cases result
  next mem' _ result =>
    split at result
    next => cases result
    next =>
      split at result
      next => cases result
      next => cases result; exact read.trans size

theorem loadSection_ok {mem mem' : Mem} {lastaddr stop : Nat} {shdr : Shdr}
    (loaded : loadSection machine ef mem lastaddr shdr = .ok (mem', stop)) :
    SectionAt ef mem' lastaddr shdr stop ∧ lastaddr + ef.cls.word + shdr.size ≤ stop := by
  have positive : 0 < ef.cls.word := by cases ef.cls <;> decide
  rw [loadSection] at loaded
  dsimp only at loaded
  split at loaded
  next => cases loaded
  next =>
    split at loaded
    next => cases loaded
    next whole =>
      obtain ⟨written, _, inside⟩ := i386Readin_whole (Decidable.not_not.mp whole)
      cases loaded
      have length := slice_length inside
      have data := bytesAt_write (copyin machine.memtop mem (toLe ef.cls.word shdr.size) lastaddr)
        (lastaddr + ef.cls.word) (slice shdr.offset shdr.size ef.file.bytes)
      rw [length] at data
      rw [written]
      refine ⟨⟨?_, data, rfl⟩, le_roundup _ positive⟩
      rw [bytesAt_write_other (Or.inl (Nat.le_refl _)), copyin_fits mem (by rw [length_toLe]; omega)]
      have size := bytesAt_write mem lastaddr (toLe ef.cls.word shdr.size)
      rw [length_toLe] at size
      exact size

theorem SectionAt.congr {mem mem' : Mem} {addr stop : Nat} {shdr : Shdr} (there : SectionAt ef mem addr shdr stop)
    (same : ∀ a < addr + ef.cls.word + shdr.size, mem' a = mem a) : SectionAt ef mem' addr shdr stop := by
  refine ⟨?_, ?_, there.ends⟩
  · rw [← there.size]
    exact bytesAt_congr fun a _ high => same a (by omega)
  · rw [← there.data]
    exact bytesAt_congr fun a _ high => same a high

theorem clearLoaded_kept {phdrs : List Phdr} {shdr : Shdr}
    (kept : shdr.type ≠ shtSymtab ∨ (clearLoaded phdrs shdr).offset ≠ 0) :
    clearLoaded phdrs shdr = shdr := by
  rw [clearLoaded] at kept ⊢
  split
  next gone =>
    rw [if_pos gone] at kept
    rcases kept with other | nonzero
    · exact absurd gone.1 other
    · exact absurd rfl nonzero
  next => rfl

theorem symtabIndex_some {shdrs : List Shdr} {i : Nat} (found : symtabIndex shdrs = some i) :
    ∃ shdr, shdrs[i]? = some shdr ∧ shdr.type = shtSymtab ∧ shdr.offset ≠ 0 := by
  have search (pairs : List (Shdr × Nat)) (inside : ∀ pair ∈ pairs, shdrs[pair.2]? = some pair.1) (start : Option Nat)
      (begun : ∀ i, start = some i → ∃ shdr, shdrs[i]? = some shdr ∧ shdr.type = shtSymtab ∧ shdr.offset ≠ 0) (i : Nat)
      (result : pairs.foldl (fun found pair =>
        if pair.1.type ≠ shtSymtab ∨ pair.1.offset = 0 ∨ pair.1.size = 0 then found else some pair.2) start = some i) :
        ∃ shdr, shdrs[i]? = some shdr ∧ shdr.type = shtSymtab ∧ shdr.offset ≠ 0 := by
    induction pairs generalizing start with
    | nil => exact begun i result
    | cons pair pairs ih =>
      obtain ⟨shdr, k⟩ := pair
      refine ih (fun other member => inside other (mem_cons_of_mem _ member)) _ (fun j next => ?_) result
      dsimp only at next
      split at next
      next => exact begun j next
      next table =>
        rw [not_or, not_or, Decidable.not_not] at table
        cases next
        exact ⟨shdr, inside (shdr, k) mem_cons_self, table.1, table.2.1⟩
  refine search shdrs.zipIdx (fun pair member => ?_) none (fun _ absurd => by simp at absurd) i found
  exact mk_mem_zipIdx_iff_getElem?.mp member

theorem loadSymbols_spec (linked : ∀ shdrs, ef.shdrs = some shdrs → ∀ symtab ∈ shdrs, symtab.type = shtSymtab →
      ∃ symstr, shdrs[symtab.link]? = some symstr ∧ symstr.type ≠ shtSymtab) (mem : Mem) (lastaddr : Nat) :
    (∀ a < lastaddr, (loadSymbols machine ef mem lastaddr).1 a = mem a) ∧
    ∀ esym, (loadSymbols machine ef mem lastaddr).2 = some esym → ∃ shdrs symtab symstr middle, ef.shdrs = some shdrs ∧ symtab ∈ shdrs ∧
      symtab.type = shtSymtab ∧ shdrs[symtab.link]? = some symstr ∧ SectionAt ef (loadSymbols machine ef mem lastaddr).1 lastaddr symtab middle ∧
      SectionAt ef (loadSymbols machine ef mem lastaddr).1 middle symstr esym := by
  rw [loadSymbols]
  cases headers : ef.shdrs with
  | none => exact ⟨fun _ _ => rfl, fun _ absurd => (some_ne_none _ absurd.symm).elim⟩
  | some shdrs =>
    dsimp only
    cases index : (symtabIndex (shdrs.map (clearLoaded ef.phdrs))).bind ((shdrs.map (clearLoaded ef.phdrs))[·]?) with
    | none => exact ⟨fun _ _ => rfl, fun _ absurd => (some_ne_none _ absurd.symm).elim⟩
    | some symtab =>
      dsimp only
      cases link : (shdrs.map (clearLoaded ef.phdrs))[symtab.link]? with
      | none => exact ⟨fun _ _ => rfl, fun _ absurd => (some_ne_none _ absurd.symm).elim⟩
      | some symstr =>
        have first (a : Nat) (low : a < lastaddr) := @loadSection_below machine ef mem lastaddr a symtab low
        cases table : loadSection machine ef mem lastaddr symtab with
        | error mem' =>
          rw [table] at first
          exact ⟨first, fun _ absurd => (some_ne_none _ absurd.symm).elim⟩
        | ok middle =>
          rw [table] at first
          obtain ⟨symtabAt, space⟩ := loadSection_ok table
          have second (a : Nat) (low : a < middle.2) := @loadSection_below machine ef middle.1 middle.2 a symstr low
          dsimp only [Except.bind]
          cases strings : loadSection machine ef middle.1 middle.2 symstr with
          | error mem' =>
            rw [strings] at second
            exact ⟨fun a low => (second a (by omega)).trans (first a low), fun _ absurd => (some_ne_none _ absurd.symm).elim⟩
          | ok _ =>
            rw [strings] at second
            obtain ⟨symstrAt, _⟩ := loadSection_ok strings
            refine ⟨fun a low => (second a (by omega)).trans (first a low), fun esym result => ?_⟩
            cases result
            obtain ⟨_, found, its⟩ := bind_eq_some_iff.mp index
            obtain ⟨_, there, type, nonzero⟩ := symtabIndex_some found
            rw [there] at its
            cases its
            rw [getElem?_map] at there link
            obtain ⟨original, present, rfl⟩ := map_eq_some_iff.mp there
            have whole := clearLoaded_kept (Or.inr nonzero)
            rw [whole] at type symtabAt link space
            have member := mem_of_getElem? present
            obtain ⟨_, linkedTo, other⟩ := linked shdrs headers original member type
            rw [linkedTo, map_some, clearLoaded_kept (Or.inl other)] at link
            cases link
            exact ⟨shdrs, original, symstr, middle.2, rfl, member, type, linkedTo, symtabAt.congr fun a low => second a (by omega), symstrAt⟩

/-- A segment at address zero is not noticed by the search for the lowest one: there is none, or nothing else. -/
def AddrSet (ef : ElfFile) (off : Nat) : Prop :=
  (∃ phdr ∈ ef.loads, phdr.addr (ef.off off) = 0) → ∀ phdr ∈ ef.loads, phdr.addr (ef.off off) = 0

instance : Decidable (AddrSet ef off) :=
  inferInstanceAs (Decidable ((∃ phdr ∈ ef.loads, phdr.addr (ef.off off) = 0) →
    ∀ phdr ∈ ef.loads, phdr.addr (ef.off off) = 0))

theorem lowest_found {loads : List Phdr} {off : Nat}
    (ordered : loads.Pairwise fun phdr next => phdr.addr off + phdr.memsz ≤ next.addr off)
    (set : (∃ phdr ∈ loads, phdr.addr off = 0) → ∀ phdr ∈ loads, phdr.addr off = 0) :
    (∀ phdr ∈ loads, ((loads.map (Phdr.addr off)).find? (· ≠ 0)).getD 0 ≤ phdr.addr off) ∧
      (loads ≠ [] → ∃ phdr ∈ loads, ((loads.map (Phdr.addr off)).find? (· ≠ 0)).getD 0 = phdr.addr off) := by
  cases loads with
  | nil => exact ⟨fun _ member => (nomatch member), fun none => absurd rfl none⟩
  | cons phdr loads =>
    by_cases zero : phdr.addr off = 0
    · have all := set ⟨phdr, mem_cons_self, zero⟩
      have none : ((phdr :: loads).map (Phdr.addr off)).find? (· ≠ 0) = none := by
        rw [find?_eq_none]
        intro a member
        obtain ⟨other, inside, rfl⟩ := List.mem_map.mp member
        simpa using all other inside
      rw [none]
      exact ⟨fun _ _ => Nat.zero_le _, fun _ => ⟨phdr, mem_cons_self, zero.symm⟩⟩
    · rw [map_cons, find?_cons_of_pos (by simpa using zero), getD_some]
      refine ⟨fun other member => ?_, fun _ => ⟨phdr, mem_cons_self, rfl⟩⟩
      rcases mem_cons.mp member with rfl | member
      · exact Nat.le_refl _
      · have later := (pairwise_cons.mp ordered).1 other member
        omega

variable {image : Loaded}

theorem loadimage_some (valid : Valid ef off) {mem : Mem} (loaded : loadimage machine ef off mem = some image) :
    ∃ s, ef.loads.foldlM (loadSegment machine ef (ef.off off)) ⟨mem, 0, 0⟩ = some s ∧
      image.mem = (loadSymbols machine ef s.mem (roundup s.lastaddr 4)).1 ∧ image.addr = s.firstaddr ∧
      image.syms = (loadSymbols machine ef s.mem (roundup s.lastaddr 4)).2.map fun esym => (roundup s.lastaddr 4, esym) := by
  rw [loadimage, if_neg (Nat.not_lt_of_le valid.headers), foldlM_loads] at loaded
  obtain ⟨s, segments, rfl⟩ := map_eq_some_iff.mp loaded
  exact ⟨s, segments, rfl, rfl, rfl⟩

theorem loads_load (ef : ElfFile) : ∀ phdr ∈ ef.loads, phdr.type = ptLoad := fun phdr member => by
  simpa using (mem_filter.mp member).2

theorem loadimage_addr (valid : Valid ef off) {mem : Mem} (loaded : loadimage machine ef off mem = some image) :
    image.addr = ((ef.loads.map (Phdr.addr (ef.off off))).find? (· ≠ 0)).getD 0 := by
  obtain ⟨_, segments, _, addr, _⟩ := loadimage_some valid loaded
  rw [addr]
  exact firstaddr_found (loads_load ef) valid.sizes valid.ordered segments rfl

theorem faithful_of_fits (valid : Valid ef off) (fits : ∀ phdr ∈ ef.loads, phdr.Fits machine ef (ef.off off))
    (set : AddrSet ef off) {mem : Mem} (loaded : loadimage machine ef off mem = some image) :
    Faithful ef off mem image := by
  obtain ⟨s, segments, memory, _, syms⟩ := loadimage_some valid loaded
  obtain ⟨below, placed, _, ends⟩ := loadSegments_some (loads_load ef) valid.sizes valid.ordered segments
  obtain ⟨kept, symbols⟩ := @loadSymbols_spec machine ef valid.linked s.mem (roundup s.lastaddr 4)
  have space : s.lastaddr ≤ roundup s.lastaddr 4 := le_roundup _ (by decide)
  obtain ⟨lowest, first⟩ := lowest_found valid.ordered set
  rw [← loadimage_addr valid loaded] at lowest first
  refine ⟨fun phdr member => ?_, lowest, first, fun a low => ?_, fun ssym esym found => ?_⟩
  · have last := ends phdr member
    rw [memory]
    exact (placed fits phdr member).congr (valid.sizes phdr member) fun a low => kept a (by omega)
  · have under : ∀ phdr ∈ ef.loads, a < phdr.addr (ef.off off) := fun phdr member => Nat.lt_of_lt_of_le low (lowest phdr member)
    have before : a < s.lastaddr := by
      by_cases none : ef.loads = []
      · rw [loadimage_addr valid loaded, none] at low
        cases low
      · obtain ⟨phdr, member, _⟩ := first none
        have end_ := ends phdr member
        omega
    rw [memory, kept a (by omega), below a under]
  · rw [syms] at found
    obtain ⟨_, result, pair⟩ := map_eq_some_iff.mp found
    cases pair
    refine ⟨fun phdr member => Nat.le_trans (ends phdr member) space, ?_⟩
    rw [memory]
    exact symbols esym result

theorem addrSet_of_faithful (valid : Valid ef off)
    (all : ∀ mem, ∃ image, loadimage machine ef off mem = some image ∧ Faithful ef off mem image) : AddrSet ef off := by
  rintro ⟨phdr, member, _⟩ _ inside
  obtain ⟨image, loaded, faithful⟩ := all fun _ => 0
  have low := faithful.lowest phdr member
  have search : ((ef.loads.map (Phdr.addr (ef.off off))).find? (· ≠ 0)).getD 0 = 0 := by
    rw [← loadimage_addr valid loaded]
    omega
  by_contra nonzero
  cases found : (ef.loads.map (Phdr.addr (ef.off off))).find? (· ≠ 0) with
  | none => exact absurd (find?_eq_none.mp found _ (mem_map_of_mem inside)) (by simpa using nonzero)
  | some _ =>
    rw [found, getD_some] at search
    have set := find?_some found
    rw [search] at set
    exact absurd set (by decide)

/-- When no read fails, an image whose copies fit into the memory is loaded faithfully exactly when no segment but all
of them are at address zero. Of an image with a segment at zero and others elsewhere, f_addr is never the lowest
address. -/
theorem image_faithful (machine : Machine) (ef : ElfFile) (off : Nat) (valid : Valid ef off)
    (reads : ∀ mem, (loadimage machine ef off mem).isSome) :
    ((∀ phdr ∈ ef.loads, phdr.Fits machine ef (ef.off off)) →
      ((∀ mem, ∃ image, loadimage machine ef off mem = some image ∧ Faithful ef off mem image) ↔ AddrSet ef off)) ∧
    ((∀ mem, ∃ image, loadimage machine ef off mem = some image ∧ Faithful ef off mem image) → AddrSet ef off) := by
  refine ⟨fun fits => ⟨addrSet_of_faithful valid, fun set mem => ?_⟩, addrSet_of_faithful valid⟩
  obtain ⟨image, loaded⟩ := isSome_iff_exists.mp (reads mem)
  exact ⟨image, loaded, faithful_of_fits valid fits set loaded⟩

theorem loadimage_isSome (valid : Valid ef off) (page : ∀ phdr ∈ ef.loads, phdr.filesz ≤ ef.firstlen - phdr.offset)
    (mem : Mem) :
    (loadimage machine ef off mem).isSome := by
  have run (loads : List Phdr) (load : ∀ phdr ∈ loads, phdr.type = ptLoad) (page : ∀ phdr ∈ loads, phdr.filesz ≤
    ef.firstlen - phdr.offset) (s : Segments) : (loads.foldlM (loadSegment machine ef (ef.off off)) s).isSome := by
    induction loads generalizing s with
    | nil => rfl
    | cons phdr loads ih =>
      have fpcopy : (if ef.firstlen > phdr.offset then ef.firstlen - phdr.offset else 0) =
        ef.firstlen - phdr.offset := by split <;> omega
      have one : ∃ t, loadSegment machine ef (ef.off off) s phdr = some t := by
        rw [loadSegment, if_neg (not_not_intro (load phdr mem_cons_self))]
        dsimp only
        rw [fpcopy, if_neg (Nat.not_lt_of_le (page phdr mem_cons_self))]
        exact ⟨_, rfl⟩
      obtain ⟨t, first⟩ := one
      rw [foldlM_cons, first]
      exact ih (fun other member => load other (mem_cons_of_mem phdr member))
        (fun other member => page other (mem_cons_of_mem phdr member)) t
  rw [loadimage, if_neg (Nat.not_lt_of_le valid.headers), foldlM_loads, isSome_map]
  exact run ef.loads (loads_load ef) page _

def regularFile (bytes : Bytes) : File where
  bytes
  read off len := if off + len ≤ bytes.length then (len, slice off len bytes) else (-1, [])
  whole off len result := by
    split at result
    next inside => rw [if_pos inside]; exact ⟨rfl, inside⟩
    next => cases result

/-- The header of a kernel that is entered at 0xc0100000, with a segment at 0xc0000000 and one at 0xc0100000. -/
def highBytes : Bytes :=
  [0x7f, 0x45, 0x4c, 0x46, 1, 1, 1, 9, 0, 0, 0, 0, 0, 0, 0, 0] ++ toLe 2 2 ++ toLe 2 3 ++ toLe 4 1 ++
    toLe 4 0xc0100000 ++ toLe 4 52 ++
    toLe 4 0 ++ toLe 4 0 ++ toLe 2 52 ++ toLe 2 32 ++ toLe 2 2 ++ toLe 2 40 ++ toLe 2 0 ++ toLe 2 0 ++
    toLe 4 1 ++ toLe 4 0 ++ toLe 4 0xc0000000 ++ toLe 4 0 ++ toLe 4 116 ++ toLe 4 4096 ++ toLe 4 5 ++ toLe 4 4096 ++
    toLe 4 1 ++ toLe 4 0 ++ toLe 4 0xc0100000 ++ toLe 4 0x100000 ++ toLe 4 64 ++ toLe 4 8192 ++ toLe 4 6 ++ toLe 4 4096

theorem highBytes_length : 116 ≤ highBytes.length := by decide

def highKernel : ElfFile where
  cls := .elf32
  file := regularFile highBytes
  seek _ := true
  kernel := true
  firstlen := 116
  first := highBytes_length

def machine64M : Machine := ⟨0x4000000, 0x4000000, Nat.le_refl _⟩

theorem highKernel_valid : Valid highKernel 0xc0100000 where
  headers := by decide
  sizes := by decide
  ordered := by decide
  unwrapped := by decide
  sections none := absurd (show highKernel.ehdr.shnum = 0 by decide) none
  linked shdrs headers := by
    have none : highKernel.shdrs.isNone = true := by decide
    rw [headers] at none
    cases none

theorem highKernel_fits : ∀ phdr ∈ highKernel.loads, phdr.Fits machine64M highKernel (highKernel.off 0xc0100000) := by
  have all : ∀ phdr ∈ highKernel.loads, phdr.addr (highKernel.off 0xc0100000) + 116 < machine64M.memtop ∧
      phdr.addr (highKernel.off 0xc0100000) + phdr.memsz < machine64M.memtop := by decide
  intro phdr member
  have low := all phdr member
  refine ⟨fun _ _ => ?_, fun _ => low.2⟩
  have page : highKernel.firstlen = 116 := rfl
  omega

theorem highKernel_faithful_iff :
    (∀ mem, ∃ image, loadimage machine64M highKernel 0xc0100000 mem = some image ∧
      Faithful highKernel 0xc0100000 mem image) ↔ AddrSet highKernel 0xc0100000 :=
  (image_faithful machine64M highKernel 0xc0100000 highKernel_valid (loadimage_isSome highKernel_valid (by decide))).1
    highKernel_fits

/-- It is loaded, and f_addr is where the second segment is. -/
theorem highKernel_misplaced : (∀ mem, (loadimage machine64M highKernel 0xc0100000 mem).isSome) ∧
    ¬∀ mem, ∃ image, loadimage machine64M highKernel 0xc0100000 mem = some image ∧
    Faithful highKernel 0xc0100000 mem image :=
  ⟨loadimage_isSome highKernel_valid (by decide),
    fun all => absurd (addrSet_of_faithful highKernel_valid all) (by decide)⟩

end

end Pcbsd.Elf
