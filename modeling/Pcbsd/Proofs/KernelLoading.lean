import Pcbsd.KernelLoad
import Pcbsd.Lib.Records
import Mathlib.Data.List.Basic

/-! When load brings an ELF kernel into memory, and nothing else. -/

namespace Pcbsd.KernelLoad
open Lib Memory Records List Option

section

variable (content : Bytes)

def headers : List Bytes :=
  (range (ePhnum content)).map fun i => slice (ePhoff content + sizeofPhdr * i) sizeofPhdr content

def isLoad (header : Bytes) : Bool := (phdrOf header).type == ptLoad

def loads : List Phdr := ((headers content).filter isLoad).map phdrOf

def behind : List Bytes := ((headers content).dropWhile (!isLoad ·)).tail

def symbolSection (i : Nat) : Shdr :=
  shdrOf (slice (eShoff content + sizeofShdr * (eShstrndx content + 1)) (2 * sizeofShdr) content) i

def sizedSection (shdr : Shdr) : Bytes := toLe 4 shdr.size ++ slice shdr.offset shdr.size content

def symbols : Bytes :=
  if eShnum content = eShstrndx content + 3 then
    sizedSection content (symbolSection content 0) ++ sizedSection content (symbolSection content 1)
  else []

/-- An ELF32 file with one or two segments, apart and in the order of their places. -/
structure Kernel : Prop where
  elf : isElf content = true
  header : sizeofHdr ≤ content.length
  table : ePhoff content + sizeofPhdr * ePhnum content ≤ content.length ∧
    ePhoff content + sizeofPhdr * ePhnum content ≤ 2 ^ 32
  count : (loads content).length = 1 ∨ (loads content).length = 2
  inside : ∀ ph ∈ loads content, ph.offset + ph.filesz ≤ content.length
  sizes : ∀ ph ∈ loads content, ph.filesz ≤ ph.memsz
  ascending : (loads content).Pairwise fun ph ph' => ph.place + ph.memsz ≤ ph'.place
  sections : eShnum content = eShstrndx content + 3 →
    eShoff content + sizeofShdr * (eShstrndx content + 3) ≤ content.length ∧ eShoff content + sizeofShdr *
      (eShstrndx content + 3) ≤ 2 ^ 32 ∧
      ∀ i < 2, (symbolSection content i).offset + (symbolSection content i).size ≤ content.length

end

def Reads (file : Source) (content : Bytes) : Prop :=
  ∀ off n, off + n ≤ content.length → file.get off n = some (slice off n content)

def Written (stores : List Store) (a : Nat) : Prop := ∃ store ∈ stores, store.1 ≤ a ∧ a < store.1 + store.2.length

/-- The kernel is in memory with its symbols behind it, and nothing else was written. -/
structure Loaded (content : Bytes) (exec : Exec) (symtab esymtab : Nat) : Prop where
  entry : exec.addr = eEntry content &&& 0xffffff
  segments : ∀ ph ∈ loads content, ∀ mem, bytesAt (stored mem exec.stores) ph.place ph.filesz =
    slice ph.offset ph.filesz content
  above : ∀ ph ∈ loads content, ph.place + ph.memsz ≤ symtab
  nothingElse : ∀ a, Written exec.stores a → (∃ ph ∈ loads content, ph.place ≤ a ∧ a < ph.place + ph.filesz) ∨
    (symtab ≤ a ∧ a < esymtab)
  length : esymtab = symtab + (symbols content).length
  symbols : ∀ mem, bytesAt (stored mem exec.stores) symtab (symbols content).length = symbols content

def SameOutcome (exec exec' : Exec) : Prop :=
  exec.addr = exec'.addr ∧ exec.symbols = exec'.symbols ∧ ∀ mem, stored mem exec.stores = stored mem exec'.stores

def LoadsKernel (loader : Loader) (file : Source) (content : Bytes) (ep : Ep) : Prop :=
  ∃ exec symtab esymtab, (load loader file ep).1 = some exec ∧ exec.symbols = some (symtab, esymtab) ∧
    Loaded content exec symtab esymtab ∧ ∃ exec', (load loader file Ep.zero).1 = some exec' ∧ SameOutcome exec exec'

def fillAll : List Bytes → Nat → Ep → Ep
  | [], _, ep => ep
  | h :: hs, j, ep => if 2 ≤ j then ep else fillAll hs (if (phdrOf h).type = ptLoad then j + 1 else j) (ep.fill j h)

variable {content : Bytes} {file : Source} {loader : Loader}

theorem offMod_large (loader : Loader) : 2 ^ 32 ≤ loader.offMod := by
  cases loader <;> decide

theorem xfsread_of_reads (reads : Reads file content) {off n : Nat} (inside : off + n ≤ content.length) :
    file.xfsread off n = (true, slice off n content) := by
  have got := reads off n inside
  rw [Source.get] at got
  split at got
  next ok => exact Prod.ext ok (some.inj got)
  next => cases got

theorem readPhdrs_fillAll (loader : Loader) (reads : Reads file content) (phoff left : Nat) :
    ∀ i j off ep, (0 < left → off = phoff + sizeofPhdr * i) →
    phoff + sizeofPhdr * (i + left) ≤ content.length → phoff + sizeofPhdr * (i + left) ≤ 2 ^ 32 →
    readPhdrs loader file left j off ep =
      (true, fillAll ((range' i left).map fun i => slice (phoff + sizeofPhdr * i) sizeofPhdr content) j ep) := by
  induction left with
  | zero => exact fun _ _ _ _ _ _ _ => rfl
  | succ left ih =>
    intro i j off ep here inside small
    have large := offMod_large loader
    rw [here (Nat.succ_pos left), readPhdrs, range'_succ, map_cons, fillAll]
    split
    next => rfl
    next =>
      rw [sizeofPhdr] at inside small ⊢
      rw [xfsread_of_reads reads (by omega)]
      refine ih (i + 1) _ _ _ (fun more => ?_) (by rw [sizeofPhdr]; omega) (by rw [sizeofPhdr]; omega)
      rw [Loader.past, Nat.mod_eq_of_lt (by omega), sizeofPhdr]
      omega

theorem phdrOf_put {h old : Bytes} (sized : h.length = sizeofPhdr) : phdrOf (put 0 h old) = phdrOf h := by
  have field : ∀ off, off + 4 ≤ sizeofPhdr → le 4 off (put 0 h old) = le 4 off h := by
    intro off fits
    obtain ⟨_, whole⟩ := prefix_put h old
    have same : (put 0 h old).take sizeofPhdr = h := by rw [← whole, take_left' sized]
    rw [le, le, ← slice_take (put 0 h old) fits, same]
  rw [phdrOf, phdrOf, field 0 (by decide), field 4 (by decide), field 12 (by decide), field 16 (by decide),
    field 20 (by decide)]

theorem fillAll_second (hs : List Bytes) : ∀ ep, (∀ h ∈ hs, h.length = sizeofPhdr) →
    (fillAll hs 1 ep).first = ep.first ∧
      phdrOf (fillAll hs 1 ep).second = (((hs.find? isLoad).or hs.getLast?).map phdrOf).getD (phdrOf ep.second) := by
  induction hs with
  | nil => exact fun _ _ => ⟨rfl, rfl⟩
  | cons h hs ih =>
    intro ep sized
    have here : phdrOf (ep.fill 1 h).second = phdrOf h := phdrOf_put (sized h mem_cons_self)
    rw [fillAll, if_neg (by decide), find?_cons]
    by_cases load : (phdrOf h).type = ptLoad
    · have found : isLoad h = true := beq_iff_eq.mpr load
      rw [if_pos load, found]
      cases hs with
      | nil => exact ⟨rfl, here⟩
      | cons => exact ⟨rfl, here⟩
    · have other : isLoad h = false := beq_eq_false_iff_ne.mpr load
      obtain ⟨first, second⟩ := ih (ep.fill 1 h) fun h inside => sized h (mem_cons_of_mem _ inside)
      rw [if_neg load, other, first, second, here]
      refine ⟨rfl, ?_⟩
      cases hs.find? isLoad with
      | some _ => rfl
      | none =>
        rw [none_or, none_or, getLast?_cons]
        cases hs.getLast? with
        | some _ => rfl
        | none => rfl

theorem fillAll_first (hs : List Bytes) : ∀ ep {h : Bytes} {post : List Bytes}, (∀ h ∈ hs, h.length = sizeofPhdr) →
    hs.dropWhile (!isLoad ·) = h :: post →
    ∃ first, phdrOf first = phdrOf h ∧ fillAll hs 0 ep = fillAll post 1 ⟨first, ep.second⟩ := by
  induction hs with
  | nil =>
    intro ep h post _ none
    cases none
  | cons g hs ih =>
    intro ep h post sized dropped
    rw [fillAll, if_neg (by decide)]
    by_cases load : (phdrOf g).type = ptLoad
    · have found : isLoad g = true := beq_iff_eq.mpr load
      rw [dropWhile_cons, found] at dropped
      obtain ⟨rfl, rfl⟩ := List.cons.inj dropped
      rw [if_pos load]
      exact ⟨put 0 g ep.first, phdrOf_put (sized g mem_cons_self), rfl⟩
    · have other : isLoad g = false := beq_eq_false_iff_ne.mpr load
      rw [dropWhile_cons, other] at dropped
      rw [if_neg load]
      exact ih (ep.fill 0 g) (fun h inside => sized h (mem_cons_of_mem _ inside)) dropped

theorem headers_sized (kernel : Kernel content) : ∀ h ∈ headers content, h.length = sizeofPhdr := by
  intro h inside
  obtain ⟨_, less, rfl⟩ := List.mem_map.mp inside
  have table := kernel.table.1
  have less := mem_range.mp less
  apply slice_length
  rw [sizeofPhdr] at table ⊢
  omega

def secondOf (content : Bytes) (ep : Ep) : Phdr :=
  ((((behind content).find? isLoad).or (behind content).getLast?).map phdrOf).getD (phdrOf ep.second)

theorem filter_dropWhile (l : List Bytes) : (l.dropWhile (!isLoad ·)).filter isLoad = l.filter isLoad := by
  induction l with
  | nil => rfl
  | cons h l ih =>
    rw [dropWhile_cons]
    cases load : isLoad h with
    | true => rfl
    | false =>
      rw [filter_cons, load]
      exact ih

theorem loads_cons (kernel : Kernel content) : ∃ h, (headers content).dropWhile (!isLoad ·) = h :: behind content ∧
    loads content = phdrOf h :: ((behind content).filter isLoad).map phdrOf := by
  have count := kernel.count
  rw [loads, ← filter_dropWhile, length_map] at count
  cases from_first : (headers content).dropWhile (!isLoad ·) with
  | nil =>
    rw [from_first] at count
    rcases count with none | none
    · cases none
    · cases none
  | cons h post =>
    have rest : behind content = post := by rw [behind, from_first, tail_cons]
    have load : isLoad h = true := by
      have stops := head?_dropWhile_not (!isLoad ·) (headers content)
      rw [from_first] at stops
      exact Bool.not_eq_false' .. ▸ stops
    rw [rest]
    refine ⟨h, rfl, ?_⟩
    rw [loads, ← filter_dropWhile, from_first, filter_cons, if_pos load, map_cons]

def symbolStores (content : Bytes) (p : Nat) : List Store :=
  if eShnum content = eShstrndx content + 3 then
    let first := symbolSection content 0
    let second := symbolSection content 1
    [(p, toLe 4 first.size), (ahead p 4, slice first.offset first.size content),
      (ahead (ahead p 4) first.size, toLe 4 second.size),
      (ahead (ahead (ahead p 4) first.size) 4, slice second.offset second.size content)]
  else []

theorem ahead_ahead (p n m : Nat) : ahead (ahead p n) m = ahead p (n + m) := by
  rw [ahead, ahead, ahead, Nat.mod_add_mod, Nat.add_assoc]

theorem length_sizedSection {shdr : Shdr} (inside : shdr.offset + shdr.size ≤ content.length) :
    (sizedSection content shdr).length = 4 + shdr.size := by
  rw [sizedSection, length_append, length_toLe, slice_length inside]

theorem loadSection_reads (reads : Reads file content) {shdr : Shdr}
    (inside : shdr.offset + shdr.size ≤ content.length) (p : Nat) :
    loadSection file shdr p =
      some ([(p, toLe 4 shdr.size), (ahead p 4, slice shdr.offset shdr.size content)],
        ahead (ahead p 4) shdr.size) := by
  rw [loadSection, reads _ _ inside, map_some]

theorem loadSections_reads (kernel : Kernel content) (reads : Reads file content) {p : Nat} (small : p < 2 ^ 32) :
    loadSections file content p = some (symbolStores content p, ahead p (symbols content).length) := by
  rw [loadSections, symbolStores, symbols]
  split
  next there =>
    obtain ⟨inside, fits, sections⟩ := kernel.sections there
    have first := sections 0 (by decide)
    have second := sections 1 (by decide)
    rw [sizeofShdr] at inside fits
    have one := fun q => loadSection_reads reads first q
    have two := fun q => loadSection_reads reads second q
    rw [symbolSection] at one two
    rw [Nat.mod_eq_of_lt (by rw [sizeofShdr]; omega), reads _ _ (by rw [sizeofShdr]; omega), bind_eq_bind, bind_some]
    rw [bind_eq_bind, one, bind_some]
    dsimp only
    rw [two, bind_some, length_append, length_sizedSection first, length_sizedSection second]
    simp only [ahead_ahead]
    refine congrArg some (Prod.ext rfl (congrArg (ahead p) ?_))
    simp only [symbolSection]
    omega
  next => rw [length_nil, ahead, Nat.add_zero, Nat.mod_eq_of_lt small]; rfl

theorem loadElf_reads (kernel : Kernel content) (reads : Reads file content) {ep : Ep}
    (segment : phdrOf ep.first ∈ loads content) :
    loadElf file content ep = (file.get (phdrOf ep.second).offset (phdrOf ep.second).filesz).map fun bytes =>
      ⟨eEntry content &&& 0xffffff,
        some ((phdrOf ep.second).stop, ahead (phdrOf ep.second).stop (symbols content).length),
        ((phdrOf ep.first).place, slice (phdrOf ep.first).offset (phdrOf ep.first).filesz content) ::
          ((phdrOf ep.second).place, bytes) :: symbolStores content (phdrOf ep.second).stop⟩ := by
  rw [loadElf, loadSegment, reads _ _ (kernel.inside _ segment), map_some, bind_eq_bind, bind_some, loadSegment]
  cases file.get (phdrOf ep.second).offset (phdrOf ep.second).filesz with
  | none => rfl
  | some bytes =>
    have small : (phdrOf ep.second).stop < 2 ^ 32 := Nat.mod_lt _ (by decide)
    rw [map_some, bind_eq_bind, bind_some]
    dsimp only
    rw [loadSections_reads kernel reads small]
    rfl

section

variable (content)

theorem phnum_hdr : ePhnum (slice 0 sizeofHdr content) = ePhnum content :=
  congrArg leNat (slice_slice content (by decide))
theorem phoff_hdr : ePhoff (slice 0 sizeofHdr content) = ePhoff content :=
  congrArg leNat (slice_slice content (by decide))
theorem isElf_hdr : isElf (slice 0 sizeofHdr content) = isElf content :=
  congrArg (· == _) (slice_slice content (by decide))

theorem loadElf_hdr (file : Source) (ep : Ep) :
    loadElf file (slice 0 sizeofHdr content) ep = loadElf file content ep := by
  have entry : eEntry (slice 0 sizeofHdr content) = eEntry content := congrArg leNat (slice_slice content (by decide))
  have shoff : eShoff (slice 0 sizeofHdr content) = eShoff content := congrArg leNat (slice_slice content (by decide))
  have shnum : eShnum (slice 0 sizeofHdr content) = eShnum content := congrArg leNat (slice_slice content (by decide))
  have shstrndx : eShstrndx (slice 0 sizeofHdr content) = eShstrndx content :=
    congrArg leNat (slice_slice content (by decide))
  simp only [loadElf, loadSections, entry, shoff, shnum, shstrndx]

end

theorem not_zmagic (elf : isElf content = true) : le 2 0 content ≠ zmagic := by
  have magic := beq_iff_eq.mp elf
  have low : slice 0 2 content = [0x7f, 0x45] := by rw [← slice_slice content (by decide : 0 + 2 ≤ 4), magic]; rfl
  rw [le, low]
  decide

def allStores (content : Bytes) (ph other : Phdr) (bytes : Bytes) : List Store :=
  (ph.place, slice ph.offset ph.filesz content) :: (other.place, bytes) :: symbolStores content other.stop

theorem load_kernel (kernel : Kernel content) (reads : Reads file content) {ph : Phdr} {rest : List Phdr}
    (segments : loads content = ph :: rest) (loader : Loader) (ep : Ep) : (load loader file ep).1 =
      (file.get (secondOf content ep).offset (secondOf content ep).filesz).map fun bytes =>
        ⟨eEntry content &&& 0xffffff,
          some ((secondOf content ep).stop, ahead (secondOf content ep).stop (symbols content).length),
          allStores content ph (secondOf content ep) bytes⟩ := by
  obtain ⟨h, from_first, others⟩ := loads_cons kernel
  obtain rfl : ph = phdrOf h := (List.cons.inj (segments.symm.trans others)).1
  have table := kernel.table
  have all := readPhdrs_fillAll loader reads (ePhoff content) (ePhnum content) 0 0 (ePhoff content) ep (fun _ => rfl)
    (by rw [Nat.zero_add]; exact table.1) (by rw [Nat.zero_add]; exact table.2)
  rw [← range_eq_range'] at all
  change _ = (true, fillAll (headers content) 0 ep) at all
  obtain ⟨first, same, filled⟩ := fillAll_first (headers content) ep (headers_sized kernel) from_first
  have sized : ∀ g ∈ behind content, g.length = sizeofPhdr := fun g inside => headers_sized kernel g
    ((dropWhile_suffix _).subset (from_first ▸ mem_cons_of_mem _ inside))
  obtain ⟨kept, second⟩ := fillAll_second (behind content) ⟨first, ep.second⟩ sized
  have magic := not_zmagic ((isElf_hdr content).trans kernel.elf)
  have segment : phdrOf (fillAll (behind content) 1 ⟨first, ep.second⟩).first ∈ loads content := by
    rw [kept, same, segments]
    exact mem_cons_self
  have loaded := loadElf_reads kernel reads segment
  rw [kept, same, second] at loaded
  rw [load, reads 0 sizeofHdr (by rw [Nat.zero_add]; exact kernel.header)]
  dsimp only
  rw [if_neg magic, isElf_hdr, if_pos kernel.elf, phnum_hdr, phoff_hdr, all, filled, if_pos rfl, loadElf_hdr, loaded]
  rfl

variable {mem : Mem} {p : Nat}

theorem ahead_small {n : Nat} (small : p + n < 2 ^ 32) : ahead p n = p + n := Nat.mod_eq_of_lt small

theorem length_symbols (kernel : Kernel content) (there : eShnum content = eShstrndx content + 3) :
    (symbols content).length = 4 + (symbolSection content 0).size + (4 + (symbolSection content 1).size) := by
  have inside := (kernel.sections there).2.2
  rw [symbols, if_pos there, length_append, length_sizedSection (inside 0 (by decide)),
    length_sizedSection (inside 1 (by decide))]

theorem stored_symbolStores (kernel : Kernel content) (room : p + (symbols content).length < 2 ^ 32) (mem : Mem) :
    stored mem (symbolStores content p) = write mem p (symbols content) := by
  by_cases there : eShnum content = eShstrndx content + 3
  · have inside := (kernel.sections there).2.2
    have first := length_sizedSection (inside 0 (by decide))
    have length := length_symbols kernel there
    rw [symbolStores, symbols, if_pos there, if_pos there, ← write_append, first, sizedSection,
      sizedSection, ← write_append, ← write_append,
      length_toLe, length_toLe]
    simp only [ahead_ahead]
    rw [ahead_small (by omega), ahead_small (by omega), ahead_small (by omega), Nat.add_assoc p (4 + _) 4]
    rfl
  · rw [symbolStores, symbols, if_neg there, if_neg there]
    exact (write_same rfl).symm

theorem written_symbolStores (kernel : Kernel content) (room : p + (symbols content).length < 2 ^ 32) {a : Nat}
    (written : Written (symbolStores content p) a) : p ≤ a ∧ a < p + (symbols content).length := by
  obtain ⟨_, inside, _, high⟩ := written
  rw [symbolStores] at inside
  split at inside
  next there =>
    have sections := (kernel.sections there).2.2
    have length := length_symbols kernel there
    simp only [ahead_ahead] at inside
    rw [ahead_small (by omega), ahead_small (by omega), ahead_small (by omega)] at inside
    simp only [mem_cons, not_mem_nil, or_false] at inside
    rcases inside with rfl | rfl | rfl | rfl
    · rw [length_toLe] at high
      omega
    · rw [slice_length (sections 0 (by decide))] at high
      omega
    · rw [length_toLe] at high
      omega
    · rw [slice_length (sections 1 (by decide))] at high
      omega
  next => cases inside

theorem written_cons {store : Store} {stores : List Store} {a : Nat} :
    Written (store :: stores) a ↔ (store.1 ≤ a ∧ a < store.1 + store.2.length) ∨ Written stores a := by
  simp only [Written, mem_cons, or_and_right, exists_or, exists_eq_left]

theorem bytesAt_eq_slice {addr n off : Nat} (inside : off + n ≤ content.length) :
    bytesAt mem addr n = slice off n content ↔ ∀ i < n, mem (addr + i) = content.getD (off + i) 0 := by
  constructor
  · intro same i less
    have byte := congrArg (·[i]?) same
    rw [getElem?_bytesAt, getElem?_slice, if_pos less, if_pos less] at byte
    rw [getD_eq_getElem?_getD, ← byte, getD_some]
  · intro bytes
    apply ext_getElem?
    intro i
    rw [getElem?_bytesAt, getElem?_slice]
    split
    next less => rw [bytes i less, getD_eq_getElem?_getD, getElem?_eq_getElem (by omega), getD_some]
    next => rfl

theorem write_at {addr i : Nat} {bytes : Bytes} (less : i < bytes.length) :
    write mem addr bytes (addr + i) = bytes.getD i 0 := by
  rw [write_inside less, getD_eq_getElem?_getD, getElem?_eq_getElem less, getD_some]

section

variable {ph other : Phdr} {bytes : Bytes}

variable (kernel : Kernel content)

include kernel

theorem stored_allStores (room : other.stop + (symbols content).length < 2 ^ 32) (mem : Mem) :
    stored mem (allStores content ph other bytes) =
      write (write (write mem ph.place (slice ph.offset ph.filesz content)) other.place bytes) other.stop (symbols content) :=
  stored_symbolStores kernel room _

theorem stored_low (room : other.stop + (symbols content).length < 2 ^ 32) {a : Nat} (low : a < other.stop)
    (mem : Mem) : stored mem (allStores content ph other bytes) a =
      write (write mem ph.place (slice ph.offset ph.filesz content)) other.place bytes a := by
  rw [stored_allStores kernel room, write_outside (Or.inl low)]

theorem written_allStores (segment : ph ∈ loads content) (room : other.stop + (symbols content).length < 2 ^ 32)
    {a : Nat} (written : Written (allStores content ph other bytes) a) : (ph.place ≤ a ∧ a < ph.place + ph.filesz) ∨
      (other.place ≤ a ∧ a < other.place + bytes.length) ∨ (other.stop ≤ a ∧ a < other.stop + (symbols content).length) := by
  rw [allStores, written_cons, written_cons, slice_length (kernel.inside ph segment)] at written
  exact written.imp id (Or.imp id (written_symbolStores kernel room))

theorem loaded_of_stores (segment : ph ∈ loads content) (room : other.stop + (symbols content).length < 2 ^ 32)
    (above : ∀ ph ∈ loads content, ph.place + ph.memsz ≤ other.stop)
    (segments : ∀ seg ∈ loads content, ∀ mem, ∀ i < seg.filesz,
      write (write mem ph.place (slice ph.offset ph.filesz content)) other.place bytes (seg.place + i) =
      content.getD (seg.offset + i) 0)
    (lands : ∀ i < bytes.length, (∃ seg ∈ loads content, seg.place ≤ other.place + i ∧ other.place + i < seg.place +
      seg.filesz) ∨ (other.stop ≤ other.place + i ∧ other.place + i < other.stop + (symbols content).length)) :
    Loaded content ⟨eEntry content &&& 0xffffff, some (other.stop, other.stop + (symbols content).length),
      allStores content ph other bytes⟩ other.stop (other.stop + (symbols content).length) where
  entry := rfl
  segments seg there mem := by
    rw [bytesAt_eq_slice (kernel.inside seg there)]
    intro i less
    have end_low := above seg there
    have sizes := kernel.sizes seg there
    rw [stored_low kernel room (by omega)]
    exact segments seg there mem i less
  above := above
  nothingElse a written := by
    rcases written_allStores kernel segment room written with first | ⟨low, _⟩ | last
    · exact Or.inl ⟨ph, segment, first⟩
    · have place := lands (a - other.place) (by omega)
      rwa [Nat.add_sub_cancel' low] at place
    · exact Or.inr last
  length := rfl
  symbols mem := by
    rw [stored_allStores kernel room]
    exact bytesAt_write _ _ _

end

variable {ph : Phdr} {bytes : Bytes} {ph' : Phdr}

theorem stop_of_room (room : ph.place + roundup ph.memsz pageSize < 2 ^ 32) : ph.stop =
    ph.place + roundup ph.memsz pageSize := by
  rw [roundup, pageSize] at room ⊢
  rw [Phdr.stop, ahead, roundup2, pageSize]
  omega

theorem room_of_stop (above : ph.place + ph.memsz ≤ ph.stop) : ph.place + roundup ph.memsz pageSize < 2 ^ 32 := by
  rw [Phdr.stop, ahead, roundup2, pageSize] at above
  rw [roundup, pageSize]
  omega

theorem le_roundup (n : Nat) : n ≤ roundup n pageSize := by
  rw [roundup, pageSize]
  omega

theorem ahead_lt (p n : Nat) : ahead p n < 2 ^ 32 := Nat.mod_lt _ (by decide)

theorem secondOf_two (kernel : Kernel content) (two : loads content = [ph, ph'])
    (ep : Ep) : secondOf content ep = ph' := by
  obtain ⟨_, _, segments⟩ := loads_cons kernel
  have second := (List.cons.inj (two.symm.trans segments)).2
  obtain ⟨_, _, inside, same, _⟩ := map_eq_cons_iff.mp second.symm
  rw [secondOf, ← head?_filter, inside]
  exact same

theorem get_length {off n : Nat} (got : file.get off n = some bytes) : bytes.length = n := by
  rw [Source.get] at got
  split at got
  next ok => exact some.inj got ▸ file.whole off n ok
  next => cases got

theorem two_segments_iff (kernel : Kernel content) (reads : Reads file content) (two : loads content = [ph, ph'])
    (loader : Loader) (ep : Ep) :
    LoadsKernel loader file content ep ↔
    ph'.place + roundup ph'.memsz pageSize + (symbols content).length < 2 ^ 32 := by
  have first : ph ∈ loads content := two ▸ mem_cons_self
  have last : ph' ∈ loads content := two ▸ mem_cons_of_mem _ mem_cons_self
  have inside := reads _ _ (kernel.inside ph' last)
  have runs : ∀ ep, (load loader file ep).1 = some ⟨eEntry content &&& 0xffffff,
      some (ph'.stop, ahead ph'.stop (symbols content).length),
      allStores content ph ph' (slice ph'.offset ph'.filesz content)⟩ := by
    intro ep
    rw [load_kernel kernel reads two loader ep, secondOf_two kernel two ep, inside, map_some]
  constructor
  · rintro ⟨_, _, _, run, same, loaded, _⟩
    obtain rfl := some.inj ((runs ep).symm.trans run)
    obtain ⟨rfl, rfl⟩ := Prod.mk.inj (some.inj same)
    have room := room_of_stop (loaded.above ph' last)
    have stops := stop_of_room room
    have length := loaded.length
    have small := ahead_lt ph'.stop (symbols content).length
    omega
  · intro room
    have stops := stop_of_room (Nat.lt_of_le_of_lt (Nat.le_add_right _ _) room)
    rw [← stops] at room
    have large := le_roundup ph'.memsz
    have apart : ph.place + ph.memsz ≤ ph'.place := by
      have ascending := kernel.ascending
      rw [two] at ascending
      exact (pairwise_cons.mp ascending).1 ph' mem_cons_self
    have sizes := kernel.sizes ph first
    have length := slice_length (kernel.inside ph' last)
    have found := runs ep
    rw [ahead_small room] at found
    refine ⟨_, _, _, found, rfl, loaded_of_stores kernel first room ?_ ?_ ?_, _, runs Ep.zero, ?_⟩
    · rw [two, stops]
      intro seg there
      rcases mem_cons.mp there with rfl | there
      · omega
      · obtain rfl := mem_singleton.mp there
        omega
    · rw [two]
      intro seg there mem i less
      rcases mem_cons.mp there with rfl | there
      · rw [write_outside (by omega), write_at (by rw [slice_length (kernel.inside seg first)]; exact less),
          getD_eq_getElem?_getD, getElem?_slice, if_pos less, getD_eq_getElem?_getD]
      · obtain rfl := mem_singleton.mp there
        rw [write_at (by rw [length]; exact less), getD_eq_getElem?_getD, getElem?_slice, if_pos less,
          getD_eq_getElem?_getD]
    · intro i less
      exact Or.inl ⟨ph', last, Nat.le_add_right _ _, Nat.add_lt_add_left (length ▸ less) _⟩
    · rw [ahead_small room]
      exact ⟨rfl, rfl, fun _ => rfl⟩

/-- What is in ep[1] then: the last header, if it is behind the PT_LOAD, or else what an earlier call has left there. -/
def other (content : Bytes) (ep : Ep) : Phdr := ((behind content).getLast?.map phdrOf).getD (phdrOf ep.second)

theorem secondOf_one (kernel : Kernel content) (one : loads content = [ph]) (ep : Ep) :
    secondOf content ep = other content ep := by
  obtain ⟨_, _, segments⟩ := loads_cons kernel
  have none := (List.cons.inj (one.symm.trans segments)).2
  rw [secondOf, ← head?_filter, map_eq_nil_iff.mp none.symm, head?_nil, none_or]
  rfl

/-- What is copied for the other header is in the segment already or goes where the symbols go, and its last page ends
behind the segment. -/
structure Harmless (file : Source) (content : Bytes) (ph other : Phdr) : Prop where
  copied : ∃ bytes, file.get other.offset other.filesz = some bytes ∧ ∀ i < other.filesz,
    (ph.place ≤ other.place + i ∧ other.place + i < ph.place + ph.filesz ∧
      bytes.getD i 0 = content.getD (ph.offset + (other.place + i - ph.place)) 0) ∨
    (other.stop ≤ other.place + i ∧ other.place + i < other.stop + (symbols content).length)
  above : ph.place + ph.memsz ≤ other.stop
  room : other.stop + (symbols content).length < 2 ^ 32

theorem write_nil (mem : Mem) (a : Nat) : write mem a [] = mem := write_same rfl

theorem write_covered {new : Bytes} {a b : Nat} (covered : ∀ i < bytes.length, b ≤ a + i ∧ a + i < b + new.length)
    (mem : Mem) :
    write (write mem a bytes) b new = write mem b new := by
  funext c
  by_cases inside : b ≤ c ∧ c < b + new.length
  · have here : c = b + (c - b) := by omega
    rw [here, write_at (by omega), write_at (by omega)]
  · have apart : c < a ∨ a + bytes.length ≤ c := by
      by_contra within
      have := covered (c - a) (by omega)
      omega
    rw [write_outside (by omega), write_outside apart, write_outside (by omega)]

section

variable {ph : Phdr}

theorem one_runs (kernel : Kernel content) (reads : Reads file content) (one : loads content = [ph]) (loader : Loader) (ep : Ep) :
    (load loader file ep).1 = (file.get (other content ep).offset (other content ep).filesz).map fun bytes =>
      ⟨eEntry content &&& 0xffffff, some ((other content ep).stop, ahead (other content ep).stop (symbols content).length),
        allStores content ph (other content ep) bytes⟩ := by
  rw [load_kernel kernel reads one loader ep, secondOf_one kernel one]

theorem zero_get (reads : Reads file content) :
    file.get (phdrOf Ep.zero.second).offset (phdrOf Ep.zero.second).filesz = some [] :=
  reads 0 0 (Nat.zero_le _)

theorem other_of_none (none : behind content = []) (ep : Ep) : other content ep = phdrOf ep.second := by
  rw [other, none]
  rfl

theorem other_of_some (some : behind content ≠ []) (ep ep' : Ep) : other content ep = other content ep' := by
  rw [other, other, getLast?_eq_some_getLast some]
  rfl

theorem one_segment_only_if (kernel : Kernel content) (reads : Reads file content) (one : loads content = [ph])
    {ep : Ep} (works : LoadsKernel loader file content ep) :
    Harmless file content ph (other content ep) ∧ (behind content = [] → (other content ep).stop = 0) := by
  have segment : ph ∈ loads content := one ▸ mem_cons_self
  obtain ⟨_, _, _, run, same, loaded, _, first_run, outcome⟩ := works
  rw [one_runs kernel reads one] at run first_run
  obtain ⟨bytes, got, rfl⟩ := map_eq_some_iff.mp run
  obtain ⟨rfl, rfl⟩ := Prod.mk.inj (some.inj same)
  have room := loaded.length ▸ ahead_lt _ _
  refine ⟨⟨⟨bytes, got, fun i less => ?_⟩, loaded.above ph segment, room⟩, fun none => ?_⟩
  · have length := get_length got
    have written : Written (allStores content ph (other content ep) bytes) ((other content ep).place + i) :=
      written_cons.mpr (Or.inr (written_cons.mpr
        (Or.inl ⟨Nat.le_add_right _ _, Nat.add_lt_add_left (length ▸ less) _⟩)))
    rcases loaded.nothingElse _ written with ⟨seg, there, low, high⟩ | last
    · rw [one] at there
      obtain rfl := mem_singleton.mp there
      refine Or.inl ⟨low, high, ?_⟩
      have byte := (bytesAt_eq_slice (kernel.inside seg segment)).mp (loaded.segments seg segment fun _ => 0)
        ((other content ep).place + i - seg.place)
        (by omega)
      have end_low := loaded.above seg segment
      have sizes := kernel.sizes seg segment
      rw [Nat.add_sub_cancel' low, stored_low kernel room (by omega), write_at (length ▸ less)] at byte
      exact byte
    · rw [loaded.length] at last
      exact Or.inr last
  · obtain ⟨_, _, rfl⟩ := map_eq_some_iff.mp first_run
    have tables := (Prod.mk.inj (some.inj outcome.2.1)).1
    rw [tables, other_of_none none]
    decide

theorem one_segment_if (kernel : Kernel content) (reads : Reads file content) (one : loads content = [ph]) {ep : Ep}
    (harmless : Harmless file content ph (other content ep))
    (settled : behind content = [] → (other content ep).stop = 0) :
    LoadsKernel loader file content ep := by
  have segment : ph ∈ loads content := one ▸ mem_cons_self
  obtain ⟨bytes, got, copied⟩ := harmless.copied
  have length := get_length got
  have above := harmless.above
  have sizes := kernel.sizes ph segment
  have run := one_runs kernel reads one loader ep
  rw [got, map_some, ahead_small harmless.room] at run
  refine ⟨_, _, _, run, rfl, loaded_of_stores kernel segment harmless.room ?_ ?_ ?_, ?_⟩
  · rw [one]
    exact forall_mem_singleton.mpr above
  · rw [one]
    refine forall_mem_singleton.mpr fun mem i less => ?_
    by_cases again : (other content ep).place ≤ ph.place + i ∧ ph.place + i < (other content ep).place + bytes.length
    · -- the copy for the other header has put the same byte here
      have here : ph.place + i = (other content ep).place + (ph.place + i - (other content ep).place) := by omega
      rcases copied (ph.place + i - (other content ep).place) (by omega) with ⟨_, _, byte⟩ | ⟨high, _⟩
      · rw [← here, Nat.add_sub_cancel_left] at byte
        rw [here, write_at (by omega)]
        exact byte
      · omega
    · rw [write_outside (by omega), write_at (by rw [slice_length (kernel.inside ph segment)]; exact less),
        getD_eq_getElem?_getD, getElem?_slice, if_pos less, getD_eq_getElem?_getD]
  · intro i less
    rcases copied i (length ▸ less) with ⟨low, high, _⟩ | last
    · exact Or.inl ⟨ph, segment, low, high⟩
    · exact Or.inr last
  · by_cases none : behind content = []
    · -- the segment is empty, and the symbols are stored over all that is copied
      have zero := settled none
      have first_zero : (other content Ep.zero).stop = 0 := by
        rw [other_of_none none]
        decide
      have first := one_runs kernel reads one loader Ep.zero
      rw [first_zero, other_of_none none, zero_get reads, map_some] at first
      refine ⟨_, first, rfl, ?_, fun mem => ?_⟩
      · rw [zero, ahead_small (by rw [← zero]; exact harmless.room)]
      · have empty : slice ph.offset ph.filesz content = [] := eq_nil_of_length_eq_zero (by
          rw [slice_length (kernel.inside ph segment)]
          omega)
        have first_room : (phdrOf Ep.zero.second).stop + (symbols content).length < 2 ^ 32 := by
          rw [← other_of_none none, first_zero, ← zero]
          exact harmless.room
        rw [stored_allStores kernel harmless.room, stored_allStores kernel first_room, empty, write_nil,
          write_nil, zero, ← other_of_none none Ep.zero, first_zero]
        refine write_covered (fun i less => ?_) mem
        rcases copied i (length ▸ less) with ⟨low, high, _⟩ | last
        · omega
        · rw [zero] at last
          exact last
    · have first := one_runs kernel reads one loader Ep.zero
      rw [other_of_some none Ep.zero ep, got, map_some, ahead_small harmless.room] at first
      exact ⟨_, first, rfl, rfl, fun _ => rfl⟩

end

/-- The second slot of ep gets a segment, and its pages and the symbols are below 4 GiB; or what it gets instead does
no harm, and is no leftover that ends elsewhere than the zeros of the first call. -/
def Sound (file : Source) (content : Bytes) (ep : Ep) : Prop :=
  (∃ ph ph', loads content = [ph, ph'] ∧ ph'.place + roundup ph'.memsz pageSize + (symbols content).length < 2 ^ 32) ∨
    ∃ ph, loads content = [ph] ∧ Harmless file content ph (other content ep) ∧ (behind content = [] → (other content ep).stop = 0)

/-- With one PT_LOAD the loader also copies what ep[1] holds: another header, or what an earlier call left there. -/
theorem loads_kernel_iff (loader : Loader) (file : Source) (content : Bytes) (kernel : Kernel content)
    (reads : Reads file content) (earlier : List Source) :
    LoadsKernel loader file content (session loader earlier) ↔ Sound file content (session loader earlier) := by
  rcases kernel.count with count | count
  · obtain ⟨ph, one⟩ := length_eq_one_iff.mp count
    constructor
    · exact fun works => Or.inr ⟨ph, one, one_segment_only_if kernel reads one works⟩
    · rintro (⟨ph, ph', two, _⟩ | ⟨ph, one, harmless, settled⟩)
      · rw [one] at two
        cases two
      · exact one_segment_if kernel reads one harmless settled
  · obtain ⟨ph, ph', two⟩ := length_eq_two.mp count
    rw [two_segments_iff kernel reads two]
    constructor
    · exact fun room => Or.inl ⟨ph, ph', two, room⟩
    · rintro (⟨_, _, same, room⟩ | ⟨_, one, _⟩)
      · rw [two] at same
        cases same
        exact room
      · rw [two] at one
        cases one

def plainFile (bytes : Bytes) : Source where
  xfsread off n := (decide (off + n ≤ bytes.length), slice off n bytes)
  short _ _ := length_take_le _ _
  whole _ _ inside := slice_length (of_decide_eq_true inside)

theorem plainFile_reads (bytes : Bytes) : Reads (plainFile bytes) bytes :=
  fun _ _ inside => if_pos (decide_eq_true inside)

def fourBytes : Bytes :=
  [0x7f, 0x45, 0x4c, 0x46] ++ replicate 20 0 ++ toLe 4 0x100000 ++ toLe 4 52 ++ replicate 12 0 ++ toLe 2 1 ++
    replicate 6 0 ++ toLe 4 1 ++ toLe 4 84 ++ toLe 4 0 ++ toLe 4 0x100000 ++ toLe 4 4 ++ toLe 4 4 ++ toLe 4 5 ++
      toLe 4 4096 ++ [1, 2, 3, 4]

theorem fourBytes_loads : loads fourBytes = [⟨1, 84, 0x100000, 4, 4⟩] := by decide

theorem fourBytes_kernel : Kernel fourBytes where
  elf := by decide
  header := by decide
  table := by decide
  count := by rw [fourBytes_loads]; decide
  inside := by rw [fourBytes_loads]; decide
  sizes := by rw [fourBytes_loads]; decide
  ascending := by rw [fourBytes_loads]; decide
  sections there := absurd there (by decide)

theorem fourBytes_loads_iff :
    Kernel fourBytes ∧ Reads (plainFile fourBytes) fourBytes ∧
      (LoadsKernel .gptboot (plainFile fourBytes) fourBytes (session .gptboot []) ↔
        Sound (plainFile fourBytes) fourBytes (session .gptboot [])) :=
  ⟨fourBytes_kernel, plainFile_reads _,
    loads_kernel_iff .gptboot (plainFile fourBytes) fourBytes fourBytes_kernel (plainFile_reads _) []⟩

/-- ep[1] is still zero in the first call, so bi_symtab is 0 and below the segment. -/
theorem fourBytes_symtab_low :
    ¬ ∀ (loader : Loader) (file : Source) (content : Bytes), Kernel content → Reads file content →
    ∀ earlier, LoadsKernel loader file content (session loader earlier) := by
  intro all
  have works := all .gptboot (plainFile fourBytes) fourBytes fourBytes_kernel (plainFile_reads _) []
  obtain ⟨harmless, _⟩ := one_segment_only_if fourBytes_kernel (plainFile_reads _) fourBytes_loads works
  have above := harmless.above
  exact absurd above (by decide)

end Pcbsd.KernelLoad
