import Pcbsd.Lib.Orbit
import Pcbsd.DiskMbr

/-! The logical partitions of an extended partition. The link in an EBR is relative to the extended partition, and
the scan adds the start of the EBR that holds it: the two agree in the first EBR alone. -/

namespace Pcbsd.DiskMbr
open Lib Gpt DiskGpt List Option

variable {read : UInt32 → Option Sector} {nextdospart : Nat} {base : UInt32} {entries slicetab : List DosPartition}
  {dp : DosPartition} {slicenum depth : Nat} {buf : Sector}

def DosPartition.inUse (dp : DosPartition) : Bool := dp.size != 0

def DosPartition.Extended (dp : DosPartition) : Prop := dp.size ≠ 0 ∧ dp.typ = dosptypExt

def DosPartition.shifted (base : UInt32) (dp : DosPartition) : DosPartition := { dp with start := dp.start + base }

theorem DosPartition.inUse_iff : dp.inUse = true ↔ dp.size ≠ 0 := bne_iff_ne

theorem addSlices_skip (empty : dp.size = 0) :
    addSlices nextdospart base (dp :: entries) slicetab = addSlices nextdospart base entries slicetab := by
  rw [addSlices, if_pos empty]

theorem addSlices_add (used : dp.size ≠ 0) (room : slicetab.length < nextdospart) :
    addSlices nextdospart base (dp :: entries) slicetab = addSlices nextdospart base entries (slicetab ++ [dp.shifted base]) := by
  rw [addSlices, if_neg used, if_neg (by omega), DosPartition.shifted]

theorem addSlices_room (room : slicetab.length + (entries.filter DosPartition.inUse).length ≤ nextdospart) :
    addSlices nextdospart base entries slicetab =
      (slicetab ++ (entries.filter DosPartition.inUse).map (.shifted base), false) := by
  induction entries generalizing slicetab with
  | nil => rw [addSlices_nil, filter_nil, map_nil, append_nil]
  | cons dp entries ih =>
    by_cases empty : dp.size = 0
    · have skipped : dp.inUse = false := by rw [DosPartition.inUse, empty]; rfl
      rw [filter_cons_of_neg (by rw [skipped]; exact Bool.false_ne_true)] at room ⊢
      rw [addSlices_skip empty, ih room]
    · rw [filter_cons_of_pos (DosPartition.inUse_iff.mpr empty)] at room ⊢
      rw [length_cons] at room
      rw [addSlices_add empty (by omega), ih (by rw [length_append, length_singleton]; omega), map_cons, append_assoc,
        singleton_append]

theorem addSlices_grows : slicetab <+: (addSlices nextdospart base entries slicetab).1 := by
  induction entries generalizing slicetab with
  | nil => exact prefix_refl _
  | cons _ entries ih =>
    rw [addSlices]
    split
    · exact ih
    · split
      · exact prefix_refl _
      · exact (prefix_append _ _).trans ih

theorem addSlices_first {rest : List DosPartition} (first : entries.filter DosPartition.inUse = dp :: rest)
    (room : slicetab.length < nextdospart) :
    slicetab ++ [dp.shifted base] <+: (addSlices nextdospart base entries slicetab).1 := by
  induction entries with
  | nil => cases first
  | cons other entries ih =>
    by_cases empty : other.size = 0
    · have skipped : other.inUse = false := by rw [DosPartition.inUse, empty]; rfl
      rw [filter_cons_of_neg (by rw [skipped]; exact Bool.false_ne_true)] at first
      rw [addSlices_skip empty]
      exact ih first
    · rw [filter_cons_of_pos (DosPartition.inUse_iff.mpr empty)] at first
      obtain ⟨same, _⟩ := List.cons.inj first
      rw [addSlices_add empty room, same]
      exact addSlices_grows

theorem addSlices_all {P : DosPartition → Prop} (good : ∀ dp ∈ slicetab, P dp)
    (new : ∀ dp ∈ entries, dp.size ≠ 0 → P (dp.shifted base)) :
    ∀ dp ∈ (addSlices nextdospart base entries slicetab).1, P dp := by
  induction entries generalizing slicetab with
  | nil => exact good
  | cons dp entries ih =>
    have later := fun other inside => new other (mem_cons_of_mem dp inside)
    rw [addSlices]
    split
    next => exact ih good later
    next used =>
      split
      · exact good
      · refine ih ?_ later
        intro other inside
        rcases mem_append.mp inside with old | added
        · exact good other old
        · rw [mem_singleton] at added
          exact added ▸ new dp mem_cons_self used

theorem checkExtended_plain (found : slicetab[slicenum]? = some dp) (plain : ¬ dp.Extended) :
    checkExtended read nextdospart depth slicetab slicenum = slicetab := by
  cases depth with
  | zero => exact checkExtended_zero _ _ _ _
  | succ depth =>
    rw [checkExtended, found]
    by_cases empty : dp.size = 0
    · exact if_pos empty
    · have other : dp.typ ≠ dosptypExt := fun same => plain ⟨empty, same⟩
      exact (if_neg empty).trans (if_pos other)

theorem checkExtended_full {added : List DosPartition} (found : slicetab[slicenum]? = some dp) (extended : dp.Extended)
    (here : read dp.start = some buf) (valid : magic buf = true)
    (full : addSlices nextdospart dp.start (dosParts buf) slicetab = (added, true)) :
    checkExtended read nextdospart (depth + 1) slicetab slicenum = added := by
  rw [checkExtended, found]
  simp only [extended.1, extended.2, here, valid, full, ne_eq, not_true_eq_false, if_false, Bool.true_eq_false]

theorem checkExtended_down {added : List DosPartition} (found : slicetab[slicenum]? = some dp) (extended : dp.Extended)
    (here : read dp.start = some buf) (valid : magic buf = true)
    (room : addSlices nextdospart dp.start (dosParts buf) slicetab = (added, false)) :
    checkExtended read nextdospart (depth + 1) slicetab slicenum =
      (range' slicetab.length (added.length - slicetab.length)).foldl (checkExtended read nextdospart depth) added := by
  rw [checkExtended, found]
  simp only [extended.1, extended.2, here, valid, room, ne_eq, not_true_eq_false, if_false, Bool.true_eq_false]

/-- What the look at a slice comes to: nothing, the entries of its table, or what they lead to as well. -/
theorem checkExtended_cases (depth : Nat) (slicetab : List DosPartition) (slicenum : Nat) :
    checkExtended read nextdospart (depth + 1) slicetab slicenum = slicetab ∨
    ∃ dp buf, slicetab[slicenum]? = some dp ∧ dp.Extended ∧ read dp.start = some buf ∧ magic buf = true ∧
      ((addSlices nextdospart dp.start (dosParts buf) slicetab).2 = true ∧
          checkExtended read nextdospart (depth + 1) slicetab slicenum = (addSlices nextdospart dp.start (dosParts buf) slicetab).1 ∨
        (addSlices nextdospart dp.start (dosParts buf) slicetab).2 = false ∧
          checkExtended read nextdospart (depth + 1) slicetab slicenum =
            (range' slicetab.length ((addSlices nextdospart dp.start (dosParts buf) slicetab).1.length - slicetab.length)).foldl
              (checkExtended read nextdospart depth) (addSlices nextdospart dp.start (dosParts buf) slicetab).1) := by
  cases found : slicetab[slicenum]? with
  | none => left; rw [checkExtended, found]
  | some dp =>
    by_cases extended : dp.Extended
    · cases here : read dp.start with
      | none => left; rw [checkExtended, found]; simp only [extended.1, extended.2, here, ne_eq, not_true_eq_false, if_false]
      | some buf =>
        cases valid : magic buf with
        | false => left; rw [checkExtended, found]; simp only
          [extended.1, extended.2, here, valid, ne_eq, not_true_eq_false, if_false, if_true]
        | true =>
          right
          refine ⟨dp, buf, rfl, extended, here, valid, ?_⟩
          cases sum : addSlices nextdospart dp.start (dosParts buf) slicetab with
          | mk _ full =>
            cases full with
            | true => exact Or.inl ⟨rfl, checkExtended_full found extended here valid sum⟩
            | false => exact Or.inr ⟨rfl, checkExtended_down found extended here valid sum⟩
    · left; exact checkExtended_plain found extended

theorem checkExtended_keeps {P : List DosPartition → Prop}
    (step : ∀ slicetab dp buf, dp ∈ slicetab → dp.Extended → read dp.start = some buf → magic buf = true → P slicetab →
      P (addSlices nextdospart dp.start (dosParts buf) slicetab).1)
    (depth : Nat) (slicetab : List DosPartition) (slicenum : Nat) (good : P slicetab) :
    P (checkExtended read nextdospart depth slicetab slicenum) := by
  induction depth generalizing slicetab slicenum with
  | zero => exact good
  | succ depth ih =>
    rcases checkExtended_cases depth slicetab slicenum with same | ⟨dp, buf, found, extended, here, valid, result⟩
    · rw [same]; exact good
    · have more := step slicetab dp buf (mem_of_getElem? found) extended here valid good
      rcases result with ⟨_, full⟩ | ⟨_, down⟩
      · rw [full]; exact more
      · rw [down]
        exact foldlRecOn _ _ more fun table kept i _ => ih table i kept

theorem checkExtended_grows (depth : Nat) (slicetab : List DosPartition) (slicenum : Nat) :
    slicetab <+: checkExtended read nextdospart depth slicetab slicenum :=
  checkExtended_keeps (P := fun table => slicetab <+: table)
    (fun _ _ _ _ _ _ _ grown => grown.trans addSlices_grows) depth slicetab slicenum
    (prefix_refl _)

theorem foldl_checkExtended_grows (depth : Nat) (slices : List Nat) (slicetab : List DosPartition) :
    slicetab <+: slices.foldl (checkExtended read nextdospart depth) slicetab :=
  foldlRecOn slices _ (motive := fun table => slicetab <+: table) (prefix_refl _)
    fun table grown i _ => grown.trans (checkExtended_grows depth table i)

theorem checkExtended_added (depth : Nat) (found : slicetab[slicenum]? = some dp) (extended : dp.Extended)
    (here : read dp.start = some buf) (valid : magic buf = true) :
    (addSlices nextdospart dp.start (dosParts buf) slicetab).1 <+: checkExtended read nextdospart
      (depth + 1) slicetab slicenum := by
  cases sum : addSlices nextdospart dp.start (dosParts buf) slicetab with
  | mk added full =>
    cases full with
    | true => rw [checkExtended_full found extended here valid sum]
    | false =>
      rw [checkExtended_down found extended here valid sum]
      exact foldl_checkExtended_grows depth _ added

/-- An extended table: the entry of its logical partition, relative to the table, and the link to the next table. -/
structure Ebr where
  start : UInt32
  logical : DosPartition
  link : Option DosPartition
  deriving DecidableEq

def Ebr.partition (e : Ebr) : DosPartition := e.logical.shifted e.start

def Ebr.table (e : Ebr) : List DosPartition := e.logical :: e.link.toList

/-- Each link leads to the next table, from the start `first` of the extended partition on. -/
def Linked (first : UInt32) : List Ebr → Prop
  | [] => True
  | [e] => e.link = none
  | e :: next :: rest => (∃ dp, e.link = some dp ∧ dp.Extended ∧ dp.start.toNat + first.toNat = next.start.toNat) ∧ Linked first
    (next :: rest)

structure Chain (first : UInt32) (ebrs : List Ebr) : Prop where
  head : ebrs.head?.map Ebr.start = some first
  linked : Linked first ebrs
  logical : ∀ e ∈ ebrs, e.logical.size ≠ 0 ∧ e.logical.typ ≠ dosptypExt ∧ e.logical.start.toNat + e.start.toNat < 2 ^ 32
  tables : (0 :: ebrs.map Ebr.start).Nodup
  partitions : (ebrs.map Ebr.partition).Nodup

/-- A disk with one extended partition, at `first`, that holds the chain. -/
structure Holds (read : UInt32 → Option Sector) (first : UInt32) (ebrs : List Ebr) : Prop where
  mbr : ∃ buf front dp back, read 0 = some buf ∧ magic buf = true ∧ dosParts buf = front ++ dp :: back ∧ dp.Extended ∧
    dp.start = first ∧ ∀ other ∈ front ++ back, ¬ other.Extended
  ebr : ∀ e ∈ ebrs, ∃ buf, read e.start = some buf ∧ magic buf = true ∧
    (dosParts buf).filter DosPartition.inUse = e.table

/-- The table whose start is that of the link plus that of the table that holds the link. -/
def nextRead (ebrs : List Ebr) (e : Ebr) : Option Ebr :=
  e.link.bind fun dp => ebrs.find? fun next => next.start == dp.start + e.start

/-- The tables that are come upon when each link is taken as relative to the table that holds it. -/
def ComeUpon (ebrs : List Ebr) (e : Ebr) : Prop :=
  ∃ head n, ebrs.head? = some head ∧ after (nextRead ebrs) n head = some e

variable {first : UInt32} {ebrs : List Ebr} {e : Ebr}

theorem nextRead_eq_some {next : Ebr} (found : nextRead ebrs e = some next) :
    ∃ dp, e.link = some dp ∧ next ∈ ebrs ∧ next.start = dp.start + e.start := by
  obtain ⟨dp, link, located⟩ := bind_eq_some_iff.mp found
  have same := find?_some located
  exact ⟨dp, link, mem_of_find?_eq_some located, eq_of_beq same⟩

theorem Linked.extended (linked : Linked first ebrs) (inside : e ∈ ebrs) (link : e.link = some dp) : dp.Extended := by
  induction ebrs with
  | nil => cases inside
  | cons _ rest ih =>
    cases rest with
    | nil =>
      obtain rfl := mem_singleton.mp inside
      have none : e.link = none := linked
      rw [none] at link
      cases link
    | cons next rest =>
      obtain ⟨⟨_, there, extended, _⟩, later⟩ := linked
      rcases mem_cons.mp inside with same | behind
      · rw [same, there] at link
        exact some.inj link ▸ extended
      · exact ih later behind

/-- The links that the scan follows as the chain means them are recorded, the partition of the last of the tables
too. -/
theorem recorded_along (linked : Linked first ebrs) (holds : Holds read first ebrs)
    (plain : ∀ e ∈ ebrs, ¬ e.logical.Extended) {last : Ebr} (n : Nat) (inside : e ∈ ebrs)
    (reached : after (nextRead ebrs) n e = some last) (found : slicetab[slicenum]? = some dp) (extended : dp.Extended)
    (here : dp.start = e.start) (room : slicetab.length + (2 * n + 1) ≤ nextdospart) (deep : n < depth) :
    last.partition ∈ checkExtended read nextdospart depth slicetab slicenum := by
  induction n generalizing e dp slicetab slicenum depth with
  | zero =>
    obtain ⟨depth, rfl⟩ := Nat.exists_eq_succ_of_ne_zero (Nat.ne_of_gt deep)
    obtain ⟨buf, there, valid, used⟩ := holds.ebr e inside
    obtain rfl : e = last := some.inj reached
    have first : slicetab ++ [e.logical.shifted dp.start] <+:
      (addSlices nextdospart dp.start (dosParts buf) slicetab).1 :=
      addSlices_first used (by omega)
    apply ((first.trans (checkExtended_added depth found extended (here ▸ there) valid)).subset)
    rw [mem_append, mem_singleton, here]
    exact Or.inr rfl
  | succ n ih =>
    obtain ⟨depth, rfl⟩ := Nat.exists_eq_succ_of_ne_zero (Nat.ne_of_gt (Nat.lt_of_le_of_lt (Nat.zero_le _) deep))
    obtain ⟨buf, there, valid, used⟩ := holds.ebr e inside
    obtain ⟨_, stepped, onward⟩ := bind_eq_some_iff.mp reached
    obtain ⟨link, linkThere, nextInside, nextStart⟩ := nextRead_eq_some stepped
    rw [Ebr.table, linkThere, toList_some] at used
    have sum : addSlices nextdospart dp.start (dosParts buf) slicetab =
        (slicetab ++ [e.logical, link].map (DosPartition.shifted dp.start), false) := by
      rw [addSlices_room (by rw [used, length_cons, length_singleton]; omega), used]
    rw [checkExtended_down found extended (here ▸ there) valid sum]
    have two : (slicetab ++ [e.logical, link].map (DosPartition.shifted dp.start)).length - slicetab.length = 2 := by
      rw [length_append, length_map, Nat.add_sub_cancel_left]; rfl
    rw [two, range'_succ, range'_one, foldl_cons, foldl_cons, foldl_nil]
    have logicalThere : (slicetab ++ [e.logical, link].map (DosPartition.shifted dp.start))[slicetab.length]? = some
      (e.logical.shifted dp.start) := by
      rw [getElem?_append_right (Nat.le_refl _), Nat.sub_self]; rfl
    have linkFound : (slicetab ++ [e.logical, link].map (DosPartition.shifted dp.start))[slicetab.length + 1]? = some
      (link.shifted dp.start) := by
      rw [getElem?_append_right (by omega), Nat.add_sub_cancel_left]; rfl
    rw [checkExtended_plain logicalThere (plain e inside)]
    have link_extended : link.Extended := linked.extended inside linkThere
    apply ih nextInside onward linkFound link_extended
    · rw [nextStart, ← here]; rfl
    · rw [length_append, length_map]
      simp only [length_cons, length_nil]
      omega
    · omega

theorem foldl_checkExtended_plain (slices : List Nat)
    (plain : ∀ i ∈ slices, ∃ dp, slicetab[i]? = some dp ∧ ¬ dp.Extended) :
    slices.foldl (checkExtended read nextdospart depth) slicetab = slicetab := by
  induction slices with
  | nil => rfl
  | cons i slices ih =>
    obtain ⟨dp, found, other⟩ := plain i mem_cons_self
    rw [foldl_cons, checkExtended_plain found other]
    exact ih fun j inside => plain j (mem_cons_of_mem i inside)

theorem scanMbr_extended {front back : List DosPartition} (table : dosParts buf = front ++ dp :: back)
    (others : ∀ other ∈ front ++ back, ¬ other.Extended) :
    checkExtended read nextdospart (nextdospart + 1) (dosParts buf) front.length <+: scanMbr read nextdospart buf := by
  have size := length_dosParts buf
  rw [table, length_append, length_cons] at size
  have split : range ndospart = range front.length ++ front.length :: range' (front.length + 1) back.length := by
    rw [← size, range_eq_range', range_eq_range', ← range'_append, Nat.one_mul, Nat.zero_add, range'_succ]
  rw [scanMbr, split, foldl_append, foldl_cons, foldl_checkExtended_plain (range front.length) ?_]
  · exact foldl_checkExtended_grows _ _ _
  · intro i inside
    rw [mem_range] at inside
    refine ⟨front[i], ?_, others _ (mem_append_left back (getElem_mem inside))⟩
    rw [table, getElem?_append_left inside, getElem?_eq_getElem inside]

theorem nextRead_mem {e : Ebr} (next : Ebr) (found : nextRead ebrs e = some next) : next ∈ ebrs := by
  obtain ⟨_, _, member, _⟩ := nextRead_eq_some found
  exact member

theorem Chain.plain (chain : Chain first ebrs) (e : Ebr) (inside : e ∈ ebrs) : ¬ e.logical.Extended :=
  fun extended => (chain.logical e inside).2.1 extended.2

/-- Where the table has room for the chain, the partitions of the tables that are come upon are recorded. -/
theorem recorded_of_comeUpon (chain : Chain first ebrs) (room : ndospart + (2 * ebrs.length - 1) ≤ nextdospart)
    (holds : Holds read first ebrs)
    (there : read 0 = some buf) (come : ComeUpon ebrs e) : e.partition ∈ scanMbr read nextdospart buf := by
  obtain ⟨other, front, dp, _, same, _, table, extended, atFirst, others⟩ := holds.mbr
  obtain rfl : buf = other := some.inj (there.symm.trans same)
  obtain ⟨head, n, isHead, reached⟩ := come
  have inside : head ∈ ebrs := mem_of_mem_head? isHead
  obtain ⟨m, _, short⟩ := after_within (fun _ _ next found => nextRead_mem next found) inside ⟨n, reached⟩
  have headStart : head.start = first := by
    have at_head := chain.head
    rw [isHead, map_some] at at_head
    exact some.inj at_head
  have found : (dosParts buf)[front.length]? = some dp := by
    rw [table, getElem?_append_right (Nat.le_refl _), Nat.sub_self]; rfl
  apply (scanMbr_extended table others).subset
  apply recorded_along chain.linked holds chain.plain m inside short found extended (atFirst.trans headStart.symm)
  · rw [length_dosParts]; omega
  · omega

def DosPartition.bytes (dp : DosPartition) : Bytes :=
  [dp.flag, dp.shd, dp.ssect, dp.scyl, dp.typ, dp.ehd, dp.esect, dp.ecyl] ++
    (toLe 4 dp.start.toNat ++ toLe 4 dp.size.toNat)

def noPartition : DosPartition := ⟨0, 0, 0, 0, 0, 0, 0, 0, 0, 0⟩

theorem DosPartition.length_bytes (dp : DosPartition) : dp.bytes.length = 16 := by
  simp only [DosPartition.bytes, length_append, length_cons, length_nil, length_toLe]

theorem DosPartition.ofBytes_bytes (dp : DosPartition) : DosPartition.ofBytes dp.bytes = dp := by
  have start : le 4 8 dp.bytes = dp.start.toNat := leNat_toLe 4 _ dp.start.toNat_lt
  have size : le 4 12 dp.bytes = dp.size.toNat := leNat_toLe 4 _ dp.size.toNat_lt
  rw [DosPartition.ofBytes, start, size, UInt32.ofNat_toNat, UInt32.ofNat_toNat]
  rfl

def sectorOf (entries : List DosPartition) : Sector where
  bytes := replicate dospartoff 0 ++ ((entries.takeD ndospart noPartition).flatMap DosPartition.bytes ++ [0x55, 0xaa])
  size := by
    rw [length_append, length_append, length_flatMap_of_sized DosPartition.length_bytes, takeD_length, length_replicate]
    rfl

def zeros : Sector := ⟨replicate 512 0, length_replicate ..⟩

theorem magic_zeros : magic zeros = false := by
  have low : zeros.bytes.getD 0x1fe 0 = 0 := getD_replicate 0 (by decide : 0x1fe < 512)
  rw [magic, low]
  rfl

theorem getD_behind (k i : Nat) (bs : Bytes) : (replicate k 0 ++ bs).getD (k + i) 0 = bs.getD i 0 := by
  rw [getD_eq_getElem?_getD, getD_eq_getElem?_getD, getElem?_append_right (by rw [length_replicate]; omega),
    length_replicate, Nat.add_sub_cancel_left]

theorem magic_sectorOf (entries : List DosPartition) : magic (sectorOf entries) = true := by
  have size : ((entries.takeD ndospart noPartition).flatMap DosPartition.bytes).length = 64 := by
    rw [length_flatMap_of_sized DosPartition.length_bytes, takeD_length]; rfl
  have low : (sectorOf entries).bytes.getD 0x1fe 0 = 0x55 := by
    apply (getD_behind dospartoff 64 _).trans
    rw [getD_eq_getElem?_getD, getElem?_append_right (by omega), size]
    rfl
  have high : (sectorOf entries).bytes.getD 0x1ff 0 = 0xaa := by
    apply (getD_behind dospartoff 65 _).trans
    rw [getD_eq_getElem?_getD, getElem?_append_right (by omega), size]
    rfl
  rw [magic, low, high]
  rfl

theorem dosParts_sectorOf (entries : List DosPartition) : dosParts (sectorOf entries) = entries.takeD ndospart noPartition := by
  apply ext_getElem
  · rw [length_dosParts, takeD_length]
  · intro i _ inside
    have piece : slice (dospartoff + 16 * i) 16 (sectorOf entries).bytes = (entries.takeD ndospart noPartition)[i].bytes := by
      rw [← slice_flatMap DosPartition.length_bytes [0x55, 0xaa] inside, slice, slice, sectorOf, ← drop_drop,
        drop_left' (length_replicate ..)]
    simp only [dosParts, getElem_map, getElem_range, piece, DosPartition.ofBytes_bytes]

theorem filter_takeD (n : Nat) {entries : List DosPartition} (few : entries.length ≤ n)
    (used : ∀ dp ∈ entries, dp.size ≠ 0) :
    (entries.takeD n noPartition).filter DosPartition.inUse = entries := by
  induction n generalizing entries with
  | zero => rw [length_eq_zero_iff.mp (Nat.le_zero.mp few)]; rfl
  | succ n ih =>
    cases entries with
    | nil =>
      have rest := @ih [] (Nat.zero_le n) used
      rw [takeD_succ, filter_cons_of_neg (by decide)]
      exact rest
    | cons dp entries =>
      rw [takeD_succ, head?_cons, getD_some,
        filter_cons_of_pos (DosPartition.inUse_iff.mpr (used dp mem_cons_self))]
      rw [tail_cons, ih (Nat.le_of_succ_le_succ few) fun other inside => used other (mem_cons_of_mem dp inside)]

theorem filter_dosParts_sectorOf {entries : List DosPartition} (few : entries.length ≤ ndospart)
    (used : ∀ dp ∈ entries, dp.size ≠ 0) :
    (dosParts (sectorOf entries)).filter DosPartition.inUse = entries := by
  rw [dosParts_sectorOf, filter_takeD ndospart few used]

def extendedAt (first : UInt32) : DosPartition := { noPartition with typ := dosptypExt, start := first, size := 1 }

def blank (first : UInt32) (ebrs : List Ebr) (lba : UInt32) : Option Sector :=
  some (if lba = 0 then sectorOf [extendedAt first]
    else match ebrs.find? fun e => e.start == lba with
      | some e => sectorOf e.table
      | none => zeros)

theorem extended_extendedAt (first : UInt32) : (extendedAt first).Extended := ⟨(by decide : (1 : UInt32) ≠ 0), rfl⟩

theorem filter_extendedAt (first : UInt32) :
    (dosParts (sectorOf [extendedAt first])).filter DosPartition.inUse = [extendedAt first] := by
  apply filter_dosParts_sectorOf
  · exact (Nat.le_add_left 1 3 : 1 ≤ ndospart)
  · intro dp inside
    rw [mem_singleton.mp inside]
    exact (extended_extendedAt first).1

theorem blank_mbr : blank first ebrs 0 = some (sectorOf [extendedAt first]) := by rw [blank, if_pos rfl]

theorem Chain.find (chain : Chain first ebrs) (inside : e ∈ ebrs) :
    (ebrs.find? fun other => other.start == e.start) = some e := by
  cases found : ebrs.find? fun other => other.start == e.start with
  | none => exact absurd (beq_self_eq_true e.start) (find?_eq_none.mp found e inside)
  | some other =>
    have same := find?_some found
    rw [inj_on_of_nodup_map (nodup_cons.mp chain.tables).2 (mem_of_find?_eq_some found) inside (eq_of_beq same)]

theorem Chain.blank_ebr (chain : Chain first ebrs) (inside : e ∈ ebrs) :
    blank first ebrs e.start = some (sectorOf e.table) := by
  have apart : e.start ≠ 0 := fun zero => (nodup_cons.mp chain.tables).1 (zero ▸ mem_map_of_mem inside)
  rw [blank, if_neg apart, chain.find inside]

theorem Chain.used (chain : Chain first ebrs) (inside : e ∈ ebrs) : ∀ dp ∈ e.table, dp.size ≠ 0 := by
  intro dp member
  rcases mem_cons.mp member with logical | link
  · rw [logical]; exact (chain.logical e inside).1
  · exact (chain.linked.extended inside (mem_toList.mp link)).1

theorem Ebr.length_table (e : Ebr) : e.table.length ≤ ndospart := by
  rw [Ebr.table, length_cons, ndospart]
  cases e.link with
  | none => exact Nat.le_add_left 1 3
  | some _ => exact Nat.le_add_left 2 2

theorem Chain.holds_blank (chain : Chain first ebrs) : Holds (blank first ebrs) first ebrs where
  mbr := by
    refine ⟨_, [], extendedAt first, [noPartition, noPartition, noPartition], blank_mbr, magic_sectorOf _,
      dosParts_sectorOf _, extended_extendedAt first, rfl, ?_⟩
    intro other inside extended
    rw [eq_of_mem_replicate (n := 3) inside] at extended
    exact extended.1 rfl
  ebr e inside := ⟨_, chain.blank_ebr inside, magic_sectorOf _,
    filter_dosParts_sectorOf e.length_table (chain.used inside)⟩

/-- What the scan of that disk records: nothing, a link, or a partition of a table that is come upon. -/
def Recorded (ebrs : List Ebr) (dp : DosPartition) : Prop :=
  dp.size = 0 ∨ (dp.typ = dosptypExt ∧ ∀ e ∈ ebrs, e.start = dp.start → ComeUpon ebrs e) ∨ ∃ e ∈ ebrs, ComeUpon ebrs e ∧
    dp = e.partition

theorem ComeUpon.next {next : Ebr} (come : ComeUpon ebrs e) (found : nextRead ebrs e = some next) :
    ComeUpon ebrs next := by
  obtain ⟨head, n, isHead, reached⟩ := come
  exact ⟨head, n + 1, isHead, after_trans reached (after_one.trans found)⟩

variable (chain : Chain first ebrs)

include chain

theorem Chain.head_comeUpon (inside : e ∈ ebrs) (atFirst : e.start = first) : ComeUpon ebrs e := by
  obtain ⟨head, isHead, headStart⟩ := map_eq_some_iff.mp chain.head
  have same : head = e := inj_on_of_nodup_map (nodup_cons.mp chain.tables).2 (mem_of_mem_head? isHead) inside
    (headStart.trans atFirst.symm)
  exact ⟨head, 0, isHead, congrArg some same⟩

theorem Chain.recorded_extendedAt {lba : UInt32} (zero : lba = 0) : Recorded ebrs
    ((extendedAt first).shifted lba) := by
  refine Or.inr (Or.inl ⟨rfl, fun e inside atStart => ?_⟩)
  apply chain.head_comeUpon inside
  rw [atStart, zero]
  exact UInt32.add_zero first

theorem Chain.recorded_table (inside : e ∈ ebrs) (come : ComeUpon ebrs e) :
    ∀ dp ∈ e.table, Recorded ebrs (dp.shifted e.start) := by
  intro dp member
  rcases mem_cons.mp member with logical | link
  · exact Or.inr (Or.inr ⟨e, inside, come, by rw [logical, Ebr.partition]⟩)
  · have there : e.link = some dp := mem_toList.mp link
    refine Or.inr (Or.inl ⟨(chain.linked.extended inside there).2, fun next nextInside atStart => ?_⟩)
    apply come.next
    rw [nextRead, there, bind_some, show dp.start + e.start = next.start from atStart.symm]
    exact chain.find nextInside

theorem Chain.recorded_step (good : Recorded ebrs dp) (extended : dp.Extended)
    (there : blank first ebrs dp.start = some buf) (valid : magic buf = true) :
    ∀ other ∈ dosParts buf, other.size ≠ 0 → Recorded ebrs (other.shifted dp.start) := by
  intro other inside used
  have member := mem_filter.mpr ⟨inside, DosPartition.inUse_iff.mpr used⟩
  by_cases zero : dp.start = 0
  · rw [zero, blank_mbr] at there
    rw [← some.inj there, filter_extendedAt] at member
    rw [mem_singleton.mp member]
    exact chain.recorded_extendedAt zero
  · cases found : ebrs.find? fun e => e.start == dp.start with
    | none =>
      rw [blank, if_neg zero, found] at there
      rw [← some.inj there, magic_zeros] at valid
      cases valid
    | some e =>
      have eInside : e ∈ ebrs := mem_of_find?_eq_some found
      have same := find?_some found
      have start : e.start = dp.start := eq_of_beq same
      rw [← start, chain.blank_ebr eInside] at there
      rw [← some.inj there, filter_dosParts_sectorOf e.length_table (chain.used eInside)] at member
      rw [← start]
      apply chain.recorded_table eInside _ other member
      rcases good with empty | ⟨_, follow⟩ | ⟨another, anotherInside, _, same⟩
      · exact absurd empty extended.1
      · exact follow e eInside start
      · rw [same] at extended
        exact absurd extended.2 (chain.logical another anotherInside).2.1

theorem Chain.recorded_scan :
    ∀ dp ∈ scanMbr (blank first ebrs) nextdospart (sectorOf [extendedAt first]), Recorded ebrs dp := by
  refine foldlRecOn _ _ (motive := fun table => ∀ dp ∈ table, Recorded ebrs dp) ?_ ?_
  · intro dp inside
    rw [dosParts_sectorOf] at inside
    rcases mem_cons.mp inside with same | other
    · have shifted := chain.recorded_extendedAt rfl
      rw [same]
      rwa [DosPartition.shifted, UInt32.add_zero] at shifted
    · exact Or.inl (by rw [eq_of_mem_replicate (n := 3) other]; rfl)
  · intro table good i _
    apply checkExtended_keeps (P := fun table => ∀ dp ∈ table, Recorded ebrs dp) ?_ _ table i good
    intro slicetab dp buf inside extended there valid kept
    exact addSlices_all kept (chain.recorded_step (kept dp inside) extended there valid)

theorem Chain.comeUpon_of_recorded (inside : e ∈ ebrs)
    (recorded : e.partition ∈ scanMbr (blank first ebrs) nextdospart (sectorOf [extendedAt first])) :
    ComeUpon ebrs e := by
  rcases chain.recorded_scan e.partition recorded with empty | ⟨extended, _⟩ | ⟨_, otherInside, _, same⟩
  · exact absurd empty (chain.logical e inside).1
  · exact absurd extended (chain.logical e inside).2.1
  · rwa [inj_on_of_nodup_map chain.partitions inside otherInside same]

omit chain

def RecordsAll (ebrs : List Ebr) (scanned : Except Errno (Option (List DosPartition))) : Prop :=
  ∃ slicetab, scanned = .ok (some slicetab) ∧ ∀ e ∈ ebrs, e.partition ∈ slicetab

def strategyOf (read : UInt32 → Option Sector) (lba : UInt32) : Except Errno Sector := (read lba).elim (.error .eio) .ok

theorem toOption_strategyOf (read : UInt32 → Option Sector) : (fun lba => (strategyOf read lba).toOption) = read := by
  funext lba
  rw [strategyOf]
  cases read lba <;> rfl

theorem bdOpenMbr_sliced (slice : Int) (there : read 0 = some buf) (valid : magic buf = true) :
    bdOpenMbr read nextdospart slice = .ok (some (scanMbr read nextdospart buf)) := by
  rw [bdOpenMbr, there]
  simp only [valid, Bool.true_eq_false, if_false]

theorem diskReadslicetab_sliced {strategy : UInt32 → Except Errno Sector} (there : (strategy 0).toOption = some buf)
    (valid : magic buf = true) :
    diskReadslicetab strategy nextdospart = .ok (some (scanMbr (fun lba => (strategy lba).toOption) nextdospart buf)) := by
  rw [diskReadslicetab]
  cases result : strategy 0 with
  | error _ => rw [result] at there; cases there
  | ok sec =>
    rw [result] at there
    obtain rfl : sec = buf := some.inj there
    simp only [valid, Bool.true_eq_false, if_false]

theorem recordsAll_iff {table : List DosPartition} :
    RecordsAll ebrs (.ok (some table)) ↔ ∀ e ∈ ebrs, e.partition ∈ table := by
  constructor
  · rintro ⟨_, same, all⟩
    rwa [some.inj (Except.ok.inj same)]
  · exact fun all => ⟨table, rfl, all⟩

/-- Every table that is come upon is recorded on every disk; on the disk with the tables alone nothing else is. -/
theorem Chain.scan_iff (chain : Chain first ebrs) (room : ndospart + (2 * ebrs.length - 1) ≤ nextdospart) :
    (∀ e ∈ ebrs, ComeUpon ebrs e) ↔ ∀ read buf, Holds read first ebrs → read 0 = some buf → ∀ e ∈ ebrs,
    e.partition ∈ scanMbr read nextdospart buf := by
  constructor
  · exact fun all read buf holds there e inside => recorded_of_comeUpon chain room holds there (all e inside)
  · exact fun recorded e inside => chain.comeUpon_of_recorded inside (recorded _ _ chain.holds_blank blank_mbr e inside)

/-- The loader's slice table has all logical partitions of a chain, on every disk with the chain, exactly where each
table of the chain is come upon. -/
theorem logical_partitions_recorded_iff (nextdospart : Nat) (first : UInt32) (ebrs : List Ebr)
    (chain : Chain first ebrs) (room : ndospart + (2 * ebrs.length - 1) ≤ nextdospart) :
    ((∀ strategy : UInt32 → Except Errno Sector, Holds (fun lba => (strategy lba).toOption) first ebrs →
      RecordsAll ebrs (diskReadslicetab strategy nextdospart)) ↔ ∀ e ∈ ebrs, ComeUpon ebrs e) ∧
    ∀ slice, (∀ bdRead, Holds bdRead first ebrs → RecordsAll ebrs (bdOpenMbr bdRead nextdospart slice)) ↔
    ∀ e ∈ ebrs, ComeUpon ebrs e := by
  rw [chain.scan_iff room]
  refine ⟨⟨fun all read buf holds there => ?_, fun all strategy holds => ?_⟩,
    fun slice => ⟨fun all read buf holds there => ?_, fun all read holds => ?_⟩⟩
  · obtain ⟨sec, _, _, _, present, valid, _⟩ := holds.mbr
    obtain rfl : buf = sec := some.inj (there.symm.trans present)
    have recorded := all (strategyOf read) (by rw [toOption_strategyOf]; exact holds)
    rw [diskReadslicetab_sliced (by rw [congrFun (toOption_strategyOf read) 0]; exact there) valid,
      toOption_strategyOf] at recorded
    exact recordsAll_iff.mp recorded
  · obtain ⟨sec, _, _, _, present, valid, _⟩ := holds.mbr
    rw [diskReadslicetab_sliced present valid]
    exact recordsAll_iff.mpr (all _ sec holds present)
  · obtain ⟨sec, _, _, _, present, valid, _⟩ := holds.mbr
    obtain rfl : buf = sec := some.inj (there.symm.trans present)
    have recorded := all read holds
    rw [bdOpenMbr_sliced slice there valid] at recorded
    exact recordsAll_iff.mp recorded
  · obtain ⟨sec, _, _, _, present, valid, _⟩ := holds.mbr
    rw [bdOpenMbr_sliced slice present valid]
    exact recordsAll_iff.mpr (all read sec holds present)

theorem Chain.comeUpon_of_short (chain : Chain first ebrs) (short : ebrs.length ≤ 2) : ∀ e ∈ ebrs, ComeUpon ebrs e := by
  intro e inside
  obtain ⟨head, isHead, headStart⟩ := map_eq_some_iff.mp chain.head
  obtain ⟨rest, rfl⟩ := head?_eq_some_iff.mp isHead
  rcases mem_cons.mp inside with same | behind
  · exact ⟨head, 0, isHead, congrArg some same.symm⟩
  · cases rest with
    | nil => cases behind
    | cons next rest =>
      obtain rfl : rest = [] := length_eq_zero_iff.mp (by simp only [length_cons] at short; omega)
      obtain rfl := mem_singleton.mp behind
      obtain ⟨⟨dp, link, _, start⟩, _⟩ := chain.linked
      refine ⟨head, 1, isHead, ?_⟩
      have at_next : dp.start + head.start = e.start := by
        apply UInt32.toNat_inj.mp
        rw [UInt32.toNat_add, headStart, start, Nat.mod_eq_of_lt e.start.toNat_lt]
      rw [after_one, nextRead, link, bind_some, at_next]
      exact chain.find inside

/-- Behind the second table the sum of link and table is beyond the third one, where it does not wrap around. -/
theorem Chain.third_not_comeUpon {head second third : Ebr} {rest : List Ebr}
    (chain : Chain first (head :: second :: third :: rest)) (ascending : first.toNat < second.start.toNat)
    (small : ∀ e ∈ head :: second :: third :: rest, ∀ dp, e.link = some dp → dp.start.toNat + e.start.toNat < 2 ^ 32) :
    ¬ ComeUpon (head :: second :: third :: rest) third := by
  obtain ⟨⟨dp, link, _, toSecond⟩, ⟨dp', link', _, _⟩, _⟩ := chain.linked
  have distinct : [head.start, second.start, third.start].Nodup := by
    apply List.Nodup.sublist _ (nodup_cons.mp chain.tables).2
    exact (((nil_sublist _).cons_cons _).cons_cons _).cons_cons _
  have atFirst : head.start = first := some.inj chain.head
  have keeps : ∀ e, (e ∈ head :: second :: third :: rest ∧
    (e = head ∨ e = second ∨ third.start.toNat < e.start.toNat)) →
      ∀ next, nextRead (head :: second :: third :: rest) e = some next →
        next ∈ head :: second :: third :: rest ∧
          (next = head ∨ next = second ∨ third.start.toNat < next.start.toNat) := by
    rintro e ⟨inside, place⟩ next found
    obtain ⟨other, there, nextInside, start⟩ := nextRead_eq_some found
    have sum : next.start.toNat = other.start.toNat + e.start.toNat := by
      rw [start, UInt32.toNat_add, Nat.mod_eq_of_lt (small e inside other there)]
    refine ⟨nextInside, ?_⟩
    rcases place with same | same | beyond
    · rw [same, link] at there
      have same_link : dp = other := some.inj there
      have start_second : next.start = second.start := by
        apply UInt32.toNat_inj.mp
        rw [sum, same, atFirst, ← same_link, toSecond]
      exact Or.inr (Or.inl (inj_on_of_nodup_map (nodup_cons.mp chain.tables).2 nextInside
        (mem_cons_of_mem _ mem_cons_self) start_second))
    · rw [same, link'] at there
      have same_link : dp' = other := some.inj there
      rw [same, ← same_link] at sum
      exact Or.inr (Or.inr (by omega))
    · exact Or.inr (Or.inr (by omega))
  rintro ⟨start, _, isHead, reached⟩
  have atHead : start = head := (some.inj isHead).symm
  rw [atHead] at reached
  obtain ⟨_, same | same | beyond⟩ := after_keeps keeps ⟨mem_cons_self, Or.inl rfl⟩ reached
  · rw [same] at distinct
    exact (nodup_cons.mp distinct).1 (mem_cons_of_mem _ mem_cons_self)
  · rw [same] at distinct
    exact (nodup_cons.mp (nodup_cons.mp distinct).2).1 mem_cons_self
  · exact Nat.lt_irrefl _ beyond

def threeTables : List Ebr :=
  let logical : DosPartition := { noPartition with typ := 0x83, start := 1, size := 40 }
  [⟨100, logical, some { extendedAt 50 with size := 50 }⟩, ⟨150, logical, some { extendedAt 100 with size := 50 }⟩,
    ⟨200, logical, none⟩]

theorem chain_threeTables : Chain 100 threeTables where
  head := rfl
  linked := ⟨⟨_, rfl, ⟨by decide, rfl⟩, by decide⟩, ⟨_, rfl, ⟨by decide, rfl⟩, by decide⟩, rfl⟩
  logical := by decide
  tables := by decide
  partitions := by decide

/-- The link to the third table is at sector 150 and of 100 sectors: sector 250 is read for it, not sector 200. -/
theorem third_logical_lost :
    Chain 100 threeTables ∧ ndospart + (2 * threeTables.length - 1) ≤ 32 ∧
    Holds (blank 100 threeTables) 100 threeTables ∧
    ¬ RecordsAll threeTables (diskReadslicetab (strategyOf (blank 100 threeTables)) 32) ∧
    ∀ slice, ¬ RecordsAll threeTables (bdOpenMbr (blank 100 threeTables) 32 slice) := by
  have lost : ∀ third ∈ threeTables.getLast?, ¬ third.partition ∈
    scanMbr (blank 100 threeTables) 32 (sectorOf [extendedAt 100]) := by
    intro third last recorded
    have come := chain_threeTables.comeUpon_of_recorded (mem_of_mem_getLast? last) recorded
    rw [← some.inj last] at come
    exact chain_threeTables.third_not_comeUpon (by decide) (by decide) come
  have inside : ∃ third ∈ threeTables.getLast?, third ∈ threeTables := ⟨_, rfl, by decide⟩
  obtain ⟨third, last, inside⟩ := inside
  refine ⟨chain_threeTables, by decide, chain_threeTables.holds_blank, ?_, fun slice => ?_⟩
  · rw [diskReadslicetab_sliced (by rw [congrFun (toOption_strategyOf _) 0]; exact blank_mbr) (magic_sectorOf _),
      toOption_strategyOf,
    recordsAll_iff]
    exact fun all => lost third last (all third inside)
  · rw [bdOpenMbr_sliced slice blank_mbr (magic_sectorOf _), recordsAll_iff]
    exact fun all => lost third last (all third inside)

def twoTables : List Ebr :=
  let logical : DosPartition := { noPartition with typ := 0x83, start := 1, size := 40 }
  [⟨100, logical, some { extendedAt 50 with size := 50 }⟩, ⟨150, logical, none⟩]

theorem two_logicals_recorded : RecordsAll twoTables (diskReadslicetab (strategyOf (blank 100 twoTables)) 32) := by
  have chain : Chain 100 twoTables :=
    ⟨rfl, ⟨⟨_, rfl, ⟨by decide, rfl⟩, by decide⟩, rfl⟩, by decide, by decide, by decide⟩
  have holds : Holds (fun lba => (strategyOf (blank 100 twoTables) lba).toOption) 100 twoTables := by
    exact chain.holds_blank
  exact (logical_partitions_recorded_iff 32 100 twoTables chain (by decide)).1.mpr
    (chain.comeUpon_of_short (by decide)) _ holds

end Pcbsd.DiskMbr
