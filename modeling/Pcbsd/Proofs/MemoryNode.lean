import Pcbsd.FdtMemory

/-! The regions of memory in the device tree: what fixup_memory writes, and which values fdt_reg_valid takes for
valid. -/

namespace Pcbsd.Proofs.MemoryNode
open Lib FdtMemory List Option

def tupleBytes (a s : Nat) (region : Nat × Nat) : Bytes := toBe (4 * a) region.1 ++ toBe (4 * s) region.2

def tupleAt (a s : Nat) (reg : Bytes) (i : Nat) : Nat × Nat :=
  (beNat (slice (4 * (a + s) * i) (4 * a) reg), beNat (slice (4 * (a + s) * i + 4 * a) (4 * s) reg))

def decode (a s : Nat) (reg : Bytes) : List (Nat × Nat) := (range (reg.length / ((a + s) * 4))).map (tupleAt a s reg)

def Valid (a s : Nat) (reg : Bytes) : Prop := decode a s reg ≠ [] ∧ ∀ region ∈ decode a s reg, region.2 ≠ 0

/-- What the validator takes for a size: with two cells of size nothing on a little-endian machine, else the low cell
of the size behind one cell of address and the high one behind two; with one cell of size the low cell of the address
if that has two. -/
def LooksEmpty (big : Bool) (a s : Nat) (region : Nat × Nat) : Prop :=
  if s = 2 then big = true → if a = 2 then region.2 / 2 ^ 32 = 0 else region.2 % 2 ^ 32 = 0
  else if a = 2 then region.1 % 2 ^ 32 = 0
  else region.2 = 0

/-- There is a region that looks empty when and only when there is one that is empty. -/
def Agrees (big : Bool) (a s : Nat) (reg : Bytes) : Prop :=
  (∃ region ∈ decode a s reg, LooksEmpty big a s region) ↔ ∃ region ∈ decode a s reg, region.2 = 0

def pair (region : MemRegion) : Nat × Nat := (region.start, region.size)

def sized (si : SysInfo) : List (Nat × Nat) := (si.mr.filter fun region => region.size ≠ 0).map pair

/-- fixup_memory stays inside of its buffer, and the value that it sets is that of the regions, with zero tuples for
those that have a start alone. -/
def SetsRegions (big : Bool) (tree : Tree) (si : SysInfo) (a s : Nat) : Prop :=
  ∃ value, fixupMemory big {} tree si = some ({ tree with memory := some (some value) }, none) ∧
    decode a s value = sized si ++ replicate (realmrno si - (sized si).length) (0, 0)

def Cells (n : Nat) : Prop := n = 1 ∨ n = 2

variable {big : Bool} {a s i n : Nat} {reg buf new : Bytes} {regions : List (Nat × Nat)} {si : SysInfo} {tree : Tree}

theorem length_tupleBytes (a s : Nat) (region : Nat × Nat) : (tupleBytes a s region).length = 4 * (a + s) := by
  rw [tupleBytes, length_append, length_toBe, length_toBe, Nat.mul_add]

theorem length_tuples (a s : Nat) (regions : List (Nat × Nat)) :
    (regions.flatMap (tupleBytes a s)).length = regions.length *
    (4 * (a + s)) :=
  length_flatMap_of_sized (length_tupleBytes a s) regions

theorem tupleAt_flatMap (small : ∀ region ∈ regions, region.1 < 256 ^ (4 * a) ∧ region.2 < 256 ^ (4 * s))
    (less : i < regions.length) :
    tupleAt a s (regions.flatMap (tupleBytes a s)) i = regions[i] := by
  have whole := slice_flatMap (length_tupleBytes a s) [] less
  have bounds := small regions[i] (getElem_mem less)
  have room : 4 * (a + s) * i + 4 * a ≤ (regions.flatMap (tupleBytes a s)).length := by
    rw [length_tuples]
    have next : 4 * (a + s) * (i + 1) ≤ 4 * (a + s) * regions.length := Nat.mul_le_mul_left _ less
    rw [Nat.mul_succ] at next
    rw [Nat.mul_comm regions.length]
    omega
  rw [append_nil, Nat.mul_add 4 a s, slice_append, ← Nat.mul_add] at whole
  obtain ⟨start, size⟩ := append_inj whole (by rw [slice_length room, length_toBe])
  rw [tupleAt, start, size, beNat_toBe bounds.1, beNat_toBe bounds.2]

theorem decode_flatMap (positive : 0 < a + s)
    (small : ∀ region ∈ regions, region.1 < 256 ^ (4 * a) ∧ region.2 < 256 ^ (4 * s)) :
    decode a s (regions.flatMap (tupleBytes a s)) = regions := by
  have count : (regions.flatMap (tupleBytes a s)).length / ((a + s) * 4) = regions.length := by
    rw [length_tuples, Nat.mul_comm (a + s) 4]
    exact Nat.mul_div_cancel _ (by omega)
  apply ext_getElem
  · rw [decode, length_map, length_range, count]
  · intro i inside less
    simp only [decode, getElem_map, getElem_range]
    exact tupleAt_flatMap small less

theorem cellBytes_eq {cells v : Nat} (some_ : Cells cells) (small : v < 256 ^ (4 * cells)) (big : Bool) :
    cellBytes big cells v = toBe (4 * cells) v := by
  rcases some_ with rfl | rfl
  · rw [cellBytes, if_neg (by decide), toNative_swapBe]
    exact congrArg (toBe 4) (Nat.mod_eq_of_lt small)
  · rw [cellBytes, if_pos rfl, toNative_swapBe]
    exact congrArg (toBe 8) (Nat.mod_eq_of_lt small)

theorem store_next (front new : Bytes) (room : new.length ≤ n) :
    store front.length new (front ++ replicate n 0) = some (front ++ new ++ replicate (n - new.length) 0) := by
  rw [store, if_pos (by rw [length_append, length_replicate]; omega), put, take_left, drop_append,
    drop_of_length_le (by omega), nil_append, drop_replicate, Nat.add_sub_cancel_left]

def filled (a s : Nat) (done : List (Nat × Nat)) (room : Nat) : Bytes := done.flatMap (tupleBytes a s) ++ replicate
    (room * (4 * (a + s))) 0

theorem putRegion_sized {curmr : MemRegion} {done : List (Nat × Nat)} {room : Nat} (cells : Cells a ∧ Cells s)
    (small : curmr.start < 256 ^ (4 * a) ∧ curmr.size < 256 ^ (4 * s)) (some_ : curmr.size ≠ 0) :
    putRegion big a s (filled a s done (room + 1), done.length * (4 * (a + s))) curmr =
      some (filled a s (done ++ [pair curmr]) room, (done ++ [pair curmr]).length * (4 * (a + s))) := by
  have front := length_tuples a s done
  have enough : (room + 1) * (4 * (a + s)) = room * (4 * (a + s)) + 4 * a + 4 * s := by
    rw [Nat.succ_mul, Nat.mul_add 4, Nat.add_assoc]
  have first := store_next (done.flatMap (tupleBytes a s)) (toBe (4 * a) curmr.start)
    (show _ ≤ (room + 1) * (4 * (a + s)) by rw [length_toBe]; omega)
  have second := store_next (done.flatMap (tupleBytes a s) ++ toBe (4 * a) curmr.start) (toBe (4 * s) curmr.size)
    (show _ ≤ room * (4 * (a + s)) + 4 * s by rw [length_toBe]; omega)
  rw [front, length_toBe, enough, Nat.add_right_comm, Nat.add_sub_cancel] at first
  rw [length_append, front, length_toBe, length_toBe, Nat.add_sub_cancel] at second
  rw [putRegion, if_pos some_, cellBytes_eq cells.1 small.1, cellBytes_eq cells.2 small.2, filled, enough]
  have next : done.length * (4 * (a + s)) + 4 * a + 4 * s = (done.length + 1) * (4 * (a + s)) := by
    rw [Nat.succ_mul done.length, Nat.mul_add 4 a s, Nat.add_assoc]
  rw [Nat.add_right_comm _ (4 * a) (4 * s), first, bind_some, second, map_some, next, filled, flatMap_append,
    flatMap_singleton, length_append, length_singleton, tupleBytes, ← append_assoc]
  rfl

theorem foldlM_putRegion {regions : List MemRegion} {done : List (Nat × Nat)} {room : Nat} (cells : Cells a ∧ Cells s)
    (small : ∀ region ∈ regions, region.start < 256 ^ (4 * a) ∧ region.size < 256 ^ (4 * s))
    (enough : (regions.filter fun region => region.size ≠ 0).length ≤ room) :
    (regions.foldlM (putRegion big a s) (filled a s done room, done.length * (4 * (a + s)))).map Prod.fst =
      some (filled a s (done ++ (regions.filter fun region => region.size ≠ 0).map pair)
        (room - (regions.filter fun region => region.size ≠ 0).length)) := by
  induction regions generalizing done room with
  | nil => simp
  | cons region rest ih =>
    have behind : ∀ other ∈ rest, _ := fun other member => small other (mem_cons_of_mem _ member)
    rw [foldlM_cons]
    by_cases some_ : region.size ≠ 0
    · rw [filter_cons_of_pos (by simpa using some_)] at enough ⊢
      obtain ⟨_, rfl⟩ := Nat.exists_eq_succ_of_ne_zero (Nat.ne_of_gt (Nat.zero_lt_of_lt enough))
      rw [Nat.succ_eq_add_one, putRegion_sized cells (small region mem_cons_self) some_]
      refine (ih behind (Nat.le_of_succ_le_succ enough)).trans ?_
      rw [map_cons, append_assoc, singleton_append, length_cons,
        Nat.add_sub_add_right]
    · rw [filter_cons_of_neg (by simpa using some_)] at enough ⊢
      rw [putRegion, if_neg some_]
      exact ih behind enough

theorem flatMap_zeros (a s k : Nat) :
    (replicate k (0, 0)).flatMap (tupleBytes a s) = replicate (k * (4 * (a + s))) 0 := by
  induction k with
  | zero => rw [Nat.zero_mul]; rfl
  | succ k ih =>
    rw [replicate_succ, flatMap_cons, ih, tupleBytes, toBe_zero, toBe_zero, replicate_append_replicate,
      replicate_append_replicate, Nat.succ_mul k, ← Nat.mul_add 4 a s, Nat.add_comm]

theorem length_sized_le (si : SysInfo) : (sized si).length ≤ realmrno si := by
  rw [sized, length_map, ← countP_eq_length_filter, realmrno]
  apply countP_mono_left
  intro region _ some_
  simp only [decide_eq_true_eq] at some_ ⊢
  exact fun both => some_ both.2

theorem setRegions_eq (cells : Cells a ∧ Cells s)
    (small : ∀ region ∈ si.mr, region.start < 256 ^ (4 * a) ∧ region.size < 256 ^ (4 * s)) :
    setRegions big {} tree si a s = some ({ tree with memory := some (some
      ((sized si ++ replicate (realmrno si - (sized si).length) (0, 0)).flatMap (tupleBytes a s))) }, none) := by
  have enough : (si.mr.filter fun region => region.size ≠ 0).length ≤ realmrno si := by
    have most := length_sized_le si
    rwa [sized, length_map] at most
  have loop := @foldlM_putRegion big a s si.mr [] (realmrno si) cells small enough
  have begun : replicate ((a + s) * realmrno si * 4) (0 : UInt8) = filled a s [] (realmrno si) := by
    rw [filled, flatMap_nil, nil_append, Nat.mul_comm (a + s), Nat.mul_assoc, Nat.mul_comm (a + s)]
  rw [length_nil, Nat.zero_mul, nil_append] at loop
  obtain ⟨_, run, value⟩ := map_eq_some_iff.mp loop
  rw [filled, ← flatMap_zeros, ← flatMap_append] at value
  rw [setRegions, if_pos rfl]
  dsimp only
  rw [begun, run, map_some, if_pos rfl, value, sized, length_map]

theorem beNat_slice_two {off : Nat} (room : off + 8 ≤ reg.length) :
    beNat (slice off (4 * 2) reg) = beNat (slice off 4 reg) * 2 ^ 32 + beNat (slice (off + 4) 4 reg) ∧
      beNat (slice off 4 reg) < 2 ^ 32 ∧ beNat (slice (off + 4) 4 reg) < 2 ^ 32 := by
  have low := beNat_lt (slice (off + 4) 4 reg)
  have high := beNat_lt (slice off 4 reg)
  have length : (slice (off + 4) 4 reg).length = 4 := slice_length (by omega)
  have whole := beNat_append (slice off 4 reg) (slice (off + 4) 4 reg)
  rw [← slice_append, length] at whole
  rw [length] at low
  rw [slice_length (by omega)] at high
  exact ⟨whole, high, low⟩

theorem swapBe_regCell (off : Nat) (room : 4 * i + 4 ≤ reg.length) (place : off = 4 * i) :
    swapBe big 4 (regCell big reg i) = beNat
    (slice off 4 reg) := by
  have whole := swapBe_ofNative big (slice (4 * i) 4 reg)
  rw [slice_length room] at whole
  rw [regCell, place, whole]

theorem swapBe_regCell_wide (off : Nat) (room : 4 * i + 4 ≤ reg.length) (place : off = 4 * i) :
    swapBe big 8 (regCell big reg i) % 2 ^ 32 = if big then beNat (slice off 4 reg) else 0 := by
  have length := slice_length room
  have pow : 256 ^ 4 = 2 ^ 32 := by decide
  cases big with
  | true =>
    have below := beNat_lt (slice (4 * i) 4 reg)
    rw [length, pow] at below
    rw [place, if_pos rfl]
    exact Nat.mod_eq_of_lt below
  | false =>
    have below := leNat_lt (slice (4 * i) 4 reg)
    rw [length] at below
    have wide := @swapBe_wide 4 4 _ below
    exact wide

theorem curSize_eq_zero_iff (cells : Cells a ∧ Cells s) (inside : i < reg.length / ((a + s) * 4)) :
    curSize big reg a s i = 0 ↔ LooksEmpty big a s (tupleAt a s reg i) := by
  have positive : 0 < (a + s) * 4 := by
    obtain ⟨rfl | rfl, rfl | rfl⟩ := cells <;> decide
  obtain ⟨rfl | rfl, rfl | rfl⟩ := cells
  · rw [curSize, if_neg (by decide), LooksEmpty, if_neg (by decide), if_neg (by decide), tupleAt,
      swapBe_regCell (4 * (1 + 1) * i + 4 * 1) (by omega) (by omega)]
  · have parts := @beNat_slice_two reg (4 * (1 + 2) * i + 4 * 1) (by omega)
    rw [curSize, if_pos rfl, LooksEmpty, if_pos rfl, if_neg (by decide), tupleAt,
      swapBe_regCell_wide (4 * (1 + 2) * i + 4 * 1 + 4) (by omega) (by omega)]
    cases big with
    | true => simp only [if_true, true_implies]; omega
    | false => simp
  · have parts := @beNat_slice_two reg (4 * (2 + 1) * i) (by omega)
    rw [curSize, if_neg (by decide), LooksEmpty, if_neg (by decide), if_pos rfl, tupleAt,
      swapBe_regCell (4 * (2 + 1) * i + 4) (by omega) (by omega)]
    omega
  · have parts := @beNat_slice_two reg (4 * (2 + 2) * i + 4 * 2) (by omega)
    rw [curSize, if_pos rfl, LooksEmpty, if_pos rfl, if_pos rfl, tupleAt,
      swapBe_regCell_wide (4 * (2 + 2) * i + 4 * 2) (by omega) (by omega)]
    cases big with
    | true => simp only [if_true, true_implies]; omega
    | false => simp

theorem fdtRegValid_eq_zero_iff (cells : Cells a ∧ Cells s) :
    fdtRegValid big reg a s = 0 ↔ decode a s reg ≠ [] ∧ ∀ region ∈ decode a s reg, ¬ LooksEmpty big a s region := by
  have none : decode a s reg = [] ↔ reg.length / ((a + s) * 4) = 0 := by
    rw [decode, map_eq_nil_iff, range_eq_nil]
  rw [fdtRegValid]
  split <;> rename_i empty
  · exact ⟨fun wrong => absurd wrong (by decide), fun both => absurd (none.mpr empty) both.1⟩
  · split <;> rename_i zero
    · refine ⟨fun wrong => absurd wrong (by decide), fun both => ?_⟩
      obtain ⟨i, member, size⟩ := List.any_eq_true.mp zero
      have inside := mem_range.mp member
      have looks := (curSize_eq_zero_iff cells inside).mp (of_decide_eq_true size)
      exact absurd looks (both.2 _ (mem_map_of_mem member))
    · refine ⟨fun _ => ⟨fun nil => empty (none.mp nil), fun region member looks => zero ?_⟩, fun _ => rfl⟩
      obtain ⟨i, there, rfl⟩ := List.mem_map.mp member
      refine List.any_eq_true.mpr ⟨i, there, decide_eq_true ?_⟩
      exact (curSize_eq_zero_iff cells (mem_range.mp there)).mpr looks

theorem fdtRegValid_right_iff (cells : Cells a ∧ Cells s) :
    (fdtRegValid big reg a s = 0 ↔ Valid a s reg) ↔ Agrees big a s reg := by
  rw [fdtRegValid_eq_zero_iff cells, Valid, Agrees]
  by_cases none : decode a s reg = []
  · simp [none]
  · rw [← not_iff_not (a := ∃ region ∈ decode a s reg, LooksEmpty big a s region)]
    simp only [ne_eq, none, not_false_eq_true, true_and, not_exists, not_and]

theorem looksEmpty_zero (big : Bool) (a s : Nat) : LooksEmpty big a s (0, 0) := by
  rw [LooksEmpty]
  split
  · intro _
    split <;> rfl
  · split <;> rfl

theorem fixupMemory_accepted (addressCells : tree.addressCells = some a) (sizeCells : tree.sizeCells = some s)
    (counted : realmrno si ≠ 0) (there : tree.memory = some (some reg)) (accepted : fdtRegValid big reg a s = 0) :
    fixupMemory big {} tree si = some (tree, none) := by
  obtain ⟨_, _, _⟩ := tree
  cases addressCells
  cases sizeCells
  cases there
  simp only [fixupMemory, fixupNode, counted, accepted, if_true, if_false, any_some, decide_true]

theorem fixupMemory_rejected (addressCells : tree.addressCells = some a) (sizeCells : tree.sizeCells = some s)
    (counted : realmrno si ≠ 0) (rejected : ∀ reg, tree.memory = some (some reg) → fdtRegValid big reg a s ≠ 0) :
    fixupMemory big {} tree si = setRegions big {} { tree with memory := some (tree.memory.getD none) } si a s := by
  obtain ⟨_, _, memory⟩ := tree
  cases addressCells
  cases sizeCells
  cases memory with
  | none => simp only [fixupMemory, fixupNode, counted, if_true, if_false, any_none, Bool.false_eq_true, getD_none]
  | some reg =>
    cases reg with
    | none => simp only [fixupMemory, fixupNode, counted, if_true, if_false, any_none, Bool.false_eq_true, getD_some]
    | some old =>
      have other : fdtRegValid big old a s ≠ 0 := rejected old rfl
      simp only [fixupMemory, fixupNode, counted, other, if_true, if_false, any_some, decide_false, Bool.false_eq_true,
        getD_some]

theorem setsRegions_iff (cells : Cells a ∧ Cells s) (addressCells : tree.addressCells = some a)
    (sizeCells : tree.sizeCells = some s) (some_ : ∃ region ∈ si.mr, region.size ≠ 0)
    (small : ∀ region ∈ si.mr, region.start < 256 ^ (4 * a) ∧ region.size < 256 ^ (4 * s))
    (invalid : ∀ value, tree.memory = some (some value) → ¬ Valid a s value) :
    SetsRegions big tree si a s ↔ ∀ value, tree.memory = some (some value) → Agrees big a s value := by
  have filled : sized si ≠ [] := by
    obtain ⟨region, member, size⟩ := some_
    have there : pair region ∈ sized si := mem_map_of_mem (mem_filter.mpr ⟨member, by simpa using size⟩)
    exact ne_nil_of_mem there
  have counted : realmrno si ≠ 0 := by
    have most := length_sized_le si
    have positive := length_pos_iff.mpr filled
    omega
  have sizes : ∀ region ∈ sized si, region.2 ≠ 0 := by
    intro region member
    obtain ⟨mr, there, rfl⟩ := List.mem_map.mp member
    simpa [pair] using (mem_filter.mp there).2
  have positive : 0 < a + s := by
    obtain ⟨rfl | rfl, rfl | rfl⟩ := cells <;> decide
  constructor
  · rintro ⟨value, set, decoded⟩ old there
    rw [← fdtRegValid_right_iff cells]
    refine ⟨fun accepted => ?_, fun valid => absurd valid (invalid old there)⟩
    rw [fixupMemory_accepted addressCells sizeCells counted there accepted] at set
    have kept := congrArg (fun result => result.1.memory) (some.inj set)
    cases there.symm.trans kept
    obtain ⟨nonempty, looks⟩ := (fdtRegValid_eq_zero_iff cells).mp accepted
    refine ⟨nonempty, fun region member => ?_⟩
    rw [decoded] at member looks
    rcases mem_append.mp member with early | zero
    · exact sizes region early
    · obtain rfl := (mem_replicate.mp zero).2
      exact absurd (looksEmpty_zero big a s) (looks _ member)
  · intro agrees
    have rejected : ∀ reg, tree.memory = some (some reg) → fdtRegValid big reg a s ≠ 0 := fun reg there accepted =>
      invalid reg there (((fdtRegValid_right_iff cells).mpr (agrees reg there)).mp accepted)
    have same := fixupMemory_rejected addressCells sizeCells counted rejected
    rw [setRegions_eq cells small] at same
    refine ⟨_, same, decode_flatMap positive fun region member => ?_⟩
    rcases mem_append.mp member with early | zero
    · obtain ⟨mr, there, rfl⟩ := List.mem_map.mp early
      exact small mr (mem_filter.mp there).1
    · obtain rfl := (mem_replicate.mp zero).2
      exact ⟨Nat.pow_pos (by decide), Nat.pow_pos (by decide)⟩

/-- Writer and validator agree with the tree when and only when the validator is right about the value that is there
and the one asked for. -/
theorem memory_node_iff (big : Bool) (tree : Tree) (si : SysInfo) (a s : Nat) (value : Bytes)
    (cells : Cells a ∧ Cells s) (addressCells : tree.addressCells = some a) (sizeCells : tree.sizeCells = some s)
    (some_ : ∃ region ∈ si.mr, region.size ≠ 0)
    (small : ∀ region ∈ si.mr, region.start < 256 ^ (4 * a) ∧ region.size < 256 ^ (4 * s))
    (invalid : ∀ value, tree.memory = some (some value) → ¬ Valid a s value) :
    (SetsRegions big tree si a s ∧ (fdtRegValid big value a s = 0 ↔ Valid a s value)) ↔
      (∀ old, tree.memory = some (some old) → Agrees big a s old) ∧ Agrees big a s value := by
  rw [setsRegions_iff cells addressCells sizeCells some_ small invalid, fdtRegValid_right_iff cells]

def oneRegion : SysInfo := ⟨[⟨0x40000000, 0x20000000⟩, ⟨0, 0⟩], by decide⟩

theorem oneRegion_one_cell : SetsRegions false ⟨some 1, some 1, none⟩ oneRegion 1 1 ∧
    (fdtRegValid false (tupleBytes 1 1 (0x40000000, 0x20000000)) 1 1 = 0 ↔
      Valid 1 1 (tupleBytes 1 1 (0x40000000, 0x20000000))) := by
  apply (memory_node_iff false ⟨some 1, some 1, none⟩ oneRegion 1 1 _ ⟨Or.inl rfl, Or.inl rfl⟩ rfl rfl
    ⟨_, mem_cons_self, by decide⟩ (by decide) (fun value there => by cases there)).mpr
  refine ⟨fun old there => ?_, Iff.rfl⟩
  cases there

/-- With two cells of size a little-endian machine does not accept its own value. -/
theorem two_cells_rejected :
    ¬ ∀ (big : Bool) (tree : Tree) (si : SysInfo) (a s : Nat) (value : Bytes), Cells a ∧ Cells s →
    tree.addressCells = some a → tree.sizeCells = some s → (∃ region ∈ si.mr, region.size ≠ 0) →
      (∀ region ∈ si.mr, region.start < 256 ^ (4 * a) ∧ region.size < 256 ^ (4 * s)) →
        (∀ value, tree.memory = some (some value) → ¬ Valid a s value) →
          SetsRegions big tree si a s ∧ (fdtRegValid big value a s = 0 ↔ Valid a s value) := by
  intro claim
  have both := claim false ⟨some 1, some 2, none⟩ oneRegion 1 2 (tupleBytes 1 2 (0x40000000, 0x20000000)) ⟨Or.inl rfl,
    Or.inr rfl⟩ rfl rfl ⟨_, mem_cons_self, by decide⟩ (by decide) fun value there => by cases there
  have regions : decode 1 2 (tupleBytes 1 2 (0x40000000, 0x20000000)) = [(0x40000000, 0x20000000)] := by decide
  have valid : Valid 1 2 (tupleBytes 1 2 (0x40000000, 0x20000000)) := by
    rw [Valid, regions]
    decide
  exact absurd (both.2.mpr valid) (by decide)

end Pcbsd.Proofs.MemoryNode
