import Mathlib.Data.List.Nodup
import Mathlib.Data.List.Forall2
import Mathlib.Data.List.Pairwise
import Pcbsd.Proofs.GeomLines

/-! The tree that pc-zmanager builds from the listings of the disks and of their partitions, against
the disks and partitions that were listed. -/

namespace Pcbsd.Zmanager
open Lib Text Numeral List
open Option hiding or_assoc

/-- What is listed: disks, and partition tables of the disks and of slices on them, a disk's before those of its
slices. A provider has the name of its geom with something behind it, and no two have the same name. -/
structure Listing where
  geoms : List ListedGeom
  tables : List ListedTable
  names : (geoms.map ListedGeom.name ++ tables.flatMap fun table => table.parts.map ListedPart.name).Nodup
  once : (tables.map ListedTable.name).Nodup
  named : ∀ table ∈ tables, ∀ part ∈ table.parts, ∃ suffix, suffix ≠ [] ∧ part.name = table.name ++ suffix
  placed : ∀ front table back, tables = front ++ table :: back → table.name ∈ geoms.map ListedGeom.name ∨
    ∃ disk ∈ front, disk.name ∈ geoms.map ListedGeom.name ∧ table.name ∈ disk.parts.map ListedPart.name

def Listing.disks (listing : Listing) : List Vdev :=
  readGeoms (listing.geoms.flatMap ListedGeom.lines) (listing.tables.flatMap ListedTable.lines)

def tableOf (tables : List ListedTable) (name : Bytes) : Option ListedTable := tables.find? (·.name = name)

def partsOf (tables : List ListedTable) (name : Bytes) : List ListedPart :=
  ((tableOf tables name).map ListedTable.parts).getD []

def Holds (entry : ListedPart → Vdev → Prop) (parts : List ListedPart) (vdevs : List Vdev) : Prop :=
  (∃ order : List ListedPart, order.Perm parts ∧ Forall₂ entry order vdevs) ∧
    vdevs.Pairwise fun v w => v.sectorStart ≤ w.sectorStart

/-- A partition or slice as it is listed; the type is only asked for under a name that `typed` takes. -/
structure IsPart (typed : Bytes → Prop) (level : Nat) (part : ListedPart) (v : Vdev) : Prop where
  name : v.name = part.name
  size : v.size = part.size
  start : v.sectorStart = part.start
  count : v.sectorsCount = part.last - part.start + 1
  type : typed part.name → v.partType = part.type
  index : v.index = part.index
  level : v.level = level

def IsSlice (typed : Bytes → Prop) (tables : List ListedTable) (part : ListedPart) (v : Vdev) : Prop :=
  IsPart typed 1 part v ∧ Holds (fun inner w => IsPart typed 2 inner w ∧ w.partitions = [])
    (partsOf tables part.name) v.partitions

structure IsDisk (typed : Bytes → Prop) (tables : List ListedTable) (geom : ListedGeom) (v : Vdev) : Prop where
  name : v.name = geom.name
  size : v.size = geom.size
  sectorSize : v.sectorSize = geom.sectorSize
  description : v.description = geom.descr.getD []
  level : v.level = 0
  partitions : Holds (IsSlice typed tables) (partsOf tables geom.name) v.partitions

def IsTree (typed : Bytes → Prop) (listing : Listing) (vdevs : List Vdev) : Prop :=
  Forall₂ (IsDisk typed listing.tables) listing.geoms vdevs

section

variable (f : ListedPart → Vdev)

theorem insertPart_map (part : ListedPart) (parts : List ListedPart) :
    ∃ order : List ListedPart, order.Perm (part :: parts) ∧ insertPart (f part) (parts.map f) = order.map f := by
  induction parts with
  | nil => exact ⟨[part], List.Perm.refl _, rfl⟩
  | cons other parts ih =>
    rw [map_cons, insertPart]
    split
    · exact ⟨part :: other :: parts, List.Perm.refl _, rfl⟩
    · obtain ⟨order, perm, same⟩ := ih
      refine ⟨other :: order, ?_, by rw [same]; rfl⟩
      exact (perm.cons other).trans (List.Perm.swap part other parts)

theorem mem_insertPart (part : Vdev) (parts : List Vdev) (v : Vdev) :
    v ∈ insertPart part parts ↔ v = part ∨ v ∈ parts := by
  induction parts with
  | nil => simp [insertPart]
  | cons _ parts ih =>
    rw [insertPart]
    split
    · exact mem_cons
    · rw [mem_cons, ih, mem_cons]
      exact or_left_comm

theorem insertPart_sorted {v : Vdev} {vs : List Vdev} (sorted : vs.Pairwise fun v w => v.sectorStart ≤ w.sectorStart) :
    (insertPart v vs).Pairwise fun v w => v.sectorStart ≤ w.sectorStart := by
  induction vs with
  | nil => exact pairwise_singleton _ v
  | cons _ vs ih =>
    obtain ⟨least, tail⟩ := pairwise_cons.mp sorted
    rw [insertPart]
    split
    next earlier =>
      refine pairwise_cons.mpr ⟨?_, sorted⟩
      intro w member
      rcases mem_cons.mp member with rfl | member
      · exact Nat.le_of_lt earlier
      · exact Nat.le_trans (Nat.le_of_lt earlier) (least w member)
    next later =>
      refine pairwise_cons.mpr ⟨?_, ih tail⟩
      intro w member
      rcases (mem_insertPart v vs w).mp member with rfl | member
      · exact Nat.le_of_not_lt later
      · exact least w member

theorem insertParts_map (done parts : List ListedPart) :
    ∃ order : List ListedPart, order.Perm (done ++ parts) ∧ insertParts (done.map f) (parts.map f) = order.map f := by
  induction parts generalizing done with
  | nil => exact ⟨done, by rw [append_nil], rfl⟩
  | cons part parts ih =>
    obtain ⟨first, firstPerm, first_eq⟩ := insertPart_map f part done
    obtain ⟨order, perm, order_eq⟩ := ih first
    refine ⟨order, ?_, ?_⟩
    · exact perm.trans ((firstPerm.append_right parts).trans perm_middle.symm)
    · rw [← order_eq, ← first_eq]
      rfl

theorem insertParts_sorted {vs ws : List Vdev} (sorted : vs.Pairwise fun v w => v.sectorStart ≤ w.sectorStart) :
    (insertParts vs ws).Pairwise fun v w => v.sectorStart ≤ w.sectorStart := by
  induction ws generalizing vs with
  | nil => exact sorted
  | cons w ws ih => exact ih (insertPart_sorted sorted)

end

theorem printNat_short {number : Nat} (short : (printNat 10 number).length < 2) : number < 10 := by
  have value := @valueOf_printNat 10 (by decide) (by decide) number
  have digits := @printNat_digits 10 (by decide) (by decide) number
  cases shape : printNat 10 number with
  | nil => exact absurd shape (printNat_ne_nil 10 number)
  | cons c rest =>
    rw [shape, length_cons] at short
    have single : rest = [] := length_eq_zero_iff.mp (by omega)
    rw [shape, single] at value digits
    have digit := digits c mem_cons_self
    rw [isDigitIn, any_eq_true_iff_get] at digit
    obtain ⟨present, small⟩ := digit
    rw [valueOf, foldl_cons, foldl_nil, Nat.zero_mul, Nat.zero_add, ← some_get present, getD_some] at value
    rw [← value]
    exact of_decide_eq_true small

theorem readName_single {number : Nat} (single : number < 10) (name : Bytes) : readName number name = name := by
  have most : (printNat 10 number).length ≤ 1 := length_printNat_le (by decide) (by omega)
  have least := length_pos_of_ne_nil (printNat_ne_nil 10 number)
  have front : (printNat 10 number ++ nameKey).length = 9 := by
    rw [length_append, show nameKey.length = 8 from rfl]
    omega
  rw [readName, numbered, ← front, drop_left]

theorem readName_blank {number : Nat} (double : 10 ≤ number) (name : Bytes) :
    (0x20 : UInt8) ∈ readName number name := by
  have digits : 2 ≤ (printNat 10 number).length := by
    by_contra short
    have single : number < 10 := printNat_short (Nat.lt_of_not_le short)
    omega
  have split : numbered number name = (printNat 10 number ++ nameKey.dropLast) ++ (0x20 :: name) := by
    rw [numbered, show nameKey = nameKey.dropLast ++ [0x20] from rfl]
    simp
  have front : 9 ≤ (printNat 10 number ++ nameKey.dropLast).length := by
    rw [length_append, show nameKey.dropLast.length = 7 from rfl]
    omega
  rw [readName, split, drop_append_of_le_length front]
  exact mem_append_right _ mem_cons_self

theorem partVdevs_single (level : Nat) {number : Nat} {parts : List ListedPart} (few : number + parts.length ≤ 10) :
    partVdevs level number parts = parts.map (ListedPart.vdev level 1) := by
  induction parts generalizing number with
  | nil => rfl
  | cons _ parts ih =>
    rw [length_cons] at few
    rw [partVdevs, map_cons, ih (by omega), ListedPart.vdev, ListedPart.vdev, readName_single (by omega),
      readName_single (by omega)]

theorem partVdevs_blank (level : Nat) {number : Nat} {parts : List ListedPart} (single : number < 10)
    (many : 10 < number + parts.length) :
    ∃ v ∈ partVdevs level number parts, (0x20 : UInt8) ∈ v.name := by
  induction parts generalizing number with
  | nil => exact absurd many (by rw [length_nil]; omega)
  | cons _ parts ih =>
    rw [length_cons] at many
    by_cases last : number = 9
    · cases parts with
      | nil => exact absurd many (by rw [length_nil]; omega)
      | cons next parts =>
        refine ⟨next.vdev level (number + 1), mem_cons_of_mem _ mem_cons_self, readName_blank (by omega) next.name⟩
    · obtain ⟨v, member, blank⟩ := @ih (number + 1) (by omega) (by omega)
      exact ⟨v, mem_cons_of_mem _ member, blank⟩

theorem mem_insertParts (parts vs : List Vdev) (v : Vdev) : v ∈ insertParts parts vs ↔ v ∈ parts ∨ v ∈ vs := by
  induction vs generalizing parts with
  | nil => simp [insertParts]
  | cons w vs ih =>
    have later : v ∈ insertParts parts (w :: vs) ↔ v ∈ insertPart w parts ∨ v ∈ vs := ih (insertPart w parts)
    rw [later, mem_insertPart, mem_cons, or_comm (b := v ∈ parts), or_assoc]

theorem geom_blank (table : ListedTable) (level : Nat) (many : 10 ≤ table.parts.length) :
    ∃ v ∈ (table.geom level).partitions, (0x20 : UInt8) ∈ v.name := by
  obtain ⟨v, member, blank⟩ := @partVdevs_blank level 1 table.parts (by omega) (by omega)
  exact ⟨v, (mem_insertParts [] _ v).mpr (Or.inr member), blank⟩

theorem geom_parts {table : ListedTable} (few : table.parts.length < 10) (level : Nat) :
    ∃ order : List ListedPart, order.Perm table.parts ∧
    (table.geom level).partitions = order.map (ListedPart.vdev level 1) := by
  obtain ⟨order, perm, same⟩ := insertParts_map (ListedPart.vdev level 1) [] table.parts
  refine ⟨order, perm, ?_⟩
  rw [ListedTable.geom, partVdevs_single level (by omega)]
  exact same

theorem tableOf_some {tables : List ListedTable} {name : Bytes} {table : ListedTable}
    (found : tableOf tables name = some table) :
    table ∈ tables ∧ table.name = name :=
  ⟨mem_of_find?_eq_some found, by simpa using find?_some found⟩

theorem tableOf_none {tables : List ListedTable} {name : Bytes} :
    tableOf tables name = none ↔ ∀ table ∈ tables, table.name ≠ name := by
  simp [tableOf]

theorem tableOf_concat (tables : List ListedTable) (table : ListedTable) (name : Bytes) :
    tableOf (tables ++ [table]) name = (tableOf tables name).or (if table.name = name then some table else none) := by
  rw [tableOf, find?_append, find?_singleton]
  simp [tableOf]

theorem tableOf_concat_other {tables : List ListedTable} {table : ListedTable} {name : Bytes}
    (other : name ≠ table.name) :
    tableOf (tables ++ [table]) name = tableOf tables name := by
  rw [tableOf_concat, if_neg (Ne.symm other), or_none]

theorem tableOf_concat_self {tables : List ListedTable} {table : ListedTable} (new : tableOf tables table.name = none) :
    tableOf (tables ++ [table]) table.name = some table := by
  rw [tableOf_concat, new, if_pos rfl, none_or]

theorem tableOf_mem {tables : List ListedTable} (once : (tables.map ListedTable.name).Nodup) {table : ListedTable}
    (member : table ∈ tables) :
    tableOf tables table.name = some table := by
  cases found : tableOf tables table.name with
  | none => exact absurd rfl (tableOf_none.mp found table member)
  | some _ =>
    obtain ⟨present, same⟩ := tableOf_some found
    rw [inj_on_of_nodup_map once present member same]

theorem new_of_nodup {tables : List ListedTable} {table : ListedTable}
    (once : ((tables ++ [table]).map ListedTable.name).Nodup) :
    (tables.map ListedTable.name).Nodup ∧ tableOf tables table.name = none := by
  rw [map_append, nodup_append'] at once
  refine ⟨once.1, tableOf_none.mpr fun other member same => ?_⟩
  exact once.2.2 (mem_map_of_mem member) (by rw [same]; exact mem_cons_self)

theorem attach_names (dsk : Vdev) (disks : List Vdev) : (attach dsk disks).map Vdev.name = disks.map Vdev.name := by
  induction disks with
  | nil => rfl
  | cons _ disks ih =>
    rw [attach]
    split
    · rfl
    · split
      · rw [map_cons, ih, map_cons]
      · rw [map_cons, ih, map_cons]

theorem attachTables_names (tables : List ListedTable) (disks : List Vdev) :
    (tables.foldl attachTable disks).map Vdev.name = disks.map Vdev.name := by
  induction tables generalizing disks with
  | nil => rfl
  | cons _ tables ih => rw [foldl_cons, ih, attachTable, attach_names]

theorem geomLevel_congr (name : Bytes) {disks disks' : List Vdev} (same : disks.map Vdev.name = disks'.map Vdev.name) :
    geomLevel name disks = geomLevel name disks' := by
  induction disks generalizing disks' with
  | nil =>
    rw [map_nil, eq_comm, map_eq_nil_iff] at same
    rw [same]
  | cons _ disks ih =>
    cases disks' with
    | nil => cases same
    | cons _ disks' =>
      obtain ⟨first, rest⟩ := List.cons.inj same
      rw [geomLevel, geomLevel, first, ih rest]

theorem attachSlice_names (dsk : Vdev) (parts : List Vdev) :
    (attachSlice dsk parts).map Vdev.name = parts.map Vdev.name := by
  induction parts with
  | nil => rfl
  | cons _ parts ih =>
    rw [attachSlice]
    split
    · rfl
    · rw [map_cons, ih, map_cons]

def Vdev.outline (v : Vdev) : Bytes × List Bytes := (v.name, v.partitions.map Vdev.name)

def Vdev.relabel (dsk : Vdev) (outline : Bytes × List Bytes) : Bytes × List Bytes :=
  if outline.1 = dsk.name then (outline.1, dsk.partitions.map Vdev.name) else outline

theorem Vdev.relabel_same (dsk : Vdev) (names : List Bytes) :
    dsk.relabel (dsk.name, names) = (dsk.name, dsk.partitions.map Vdev.name) := if_pos rfl

theorem Vdev.relabel_other {dsk : Vdev} {name : Bytes} (other : name ≠ dsk.name) (names : List Bytes) :
    dsk.relabel (name, names) = (name, names) := if_neg other

theorem attach_outline (dsk : Vdev) {disks : List Vdev} (once : (disks.map Vdev.name).Nodup) :
    (attach dsk disks).map Vdev.outline = (disks.map Vdev.outline).map dsk.relabel := by
  induction disks with
  | nil => rfl
  | cons disk disks ih =>
    obtain ⟨new, rest⟩ := nodup_cons.mp once
    rw [attach, map_cons, map_cons]
    split
    next same =>
      have others : ∀ outline ∈ disks.map Vdev.outline, dsk.relabel outline = outline := by
        intro outline member
        obtain ⟨_, present, rfl⟩ := List.mem_map.mp member
        apply Vdev.relabel_other
        intro found
        apply new
        rw [same, ← found]
        exact mem_map_of_mem present
      rw [map_cons, map_congr_left others, List.map_id', Vdev.outline, Vdev.outline, same, Vdev.relabel_same, giveParts, same]
    next other =>
      have first : Vdev.outline { disk with partitions := attachSlice dsk disk.partitions } = disk.outline := by
        rw [Vdev.outline, Vdev.outline, attachSlice_names]
      have kept : dsk.relabel disk.outline = disk.outline := Vdev.relabel_other other _
      rw [kept]
      split
      · rw [map_cons, ih rest, first]
      · rw [map_cons, ih rest]

def geomOn (disks : List Vdev) (table : ListedTable) : Vdev := table.geom (geomLevel table.name disks)

theorem attachTable_on {disks start : List Vdev} (names : disks.map Vdev.name = start.map Vdev.name)
    (table : ListedTable) :
    attachTable disks table = attach (geomOn start table) disks := by
  rw [attachTable, geomOn, geomLevel_congr table.name names]

theorem attachTables_outline {disks : List Vdev} (once : (disks.map Vdev.name).Nodup) {tables : List ListedTable}
    (distinct : (tables.map ListedTable.name).Nodup) :
    (tables.foldl attachTable disks).map Vdev.outline =
      disks.map fun v => (v.name, (((tableOf tables v.name).map (geomOn disks)).getD v).partitions.map Vdev.name) := by
  induction tables using reverseRecOn with
  | nil => rfl
  | append_singleton tables table ih =>
    obtain ⟨before, new⟩ := new_of_nodup distinct
    have names := attachTables_names tables disks
    rw [foldl_append, foldl_cons, foldl_nil, attachTable_on names, attach_outline _ (names ▸ once), ih before, List.map_map]
    apply map_congr_left
    intro v _
    dsimp only [Function.comp]
    by_cases same : v.name = table.name
    · rw [same, tableOf_concat_self new]
      exact Vdev.relabel_same (geomOn disks table) _
    · rw [tableOf_concat_other same]
      exact Vdev.relabel_other same _

section

def slotOf (disks : List Vdev) (tables : List ListedTable) (part : Vdev) : Vdev :=
  (tableOf tables part.name).elim part fun table => giveParts (geomOn disks table) part

def treeOf (disks : List Vdev) (tables : List ListedTable) (v : Vdev) : Vdev :=
  (tableOf tables v.name).elim v fun table =>
    { v with partType := table.scheme, partitions := (geomOn disks table).partitions.map (slotOf disks tables) }

variable {disks : List Vdev} {tables : List ListedTable} {table : ListedTable}

theorem geomOn_name : (geomOn disks table).name = table.name := rfl

theorem slotOf_name (part : Vdev) : (slotOf disks tables part).name = part.name := by
  rw [slotOf]
  cases tableOf tables part.name <;> rfl

theorem slotOf_start (part : Vdev) : (slotOf disks tables part).sectorStart = part.sectorStart := by
  rw [slotOf]
  cases tableOf tables part.name <;> rfl

theorem treeOf_name (v : Vdev) : (treeOf disks tables v).name = v.name := by
  rw [treeOf]
  cases tableOf tables v.name <;> rfl

theorem slotOf_other {part : Vdev} (other : part.name ≠ table.name) :
    slotOf disks (tables ++ [table]) part = slotOf disks tables part := by
  rw [slotOf, slotOf, tableOf_concat_other other]

theorem slotOf_new {part : Vdev} (none : tableOf tables part.name = none) : slotOf disks tables part = part := by
  rw [slotOf, none]
  rfl

theorem slots_other {parts : List Vdev} (other : ∀ part ∈ parts, part.name ≠ table.name) :
    parts.map (slotOf disks (tables ++ [table])) = parts.map (slotOf disks tables) :=
  map_congr_left fun part member => slotOf_other (other part member)

theorem attachSlice_slots (new : tableOf tables table.name = none) {parts : List Vdev} (once : (parts.map Vdev.name).Nodup) :
    attachSlice (geomOn disks table) (parts.map (slotOf disks tables)) = parts.map (slotOf disks (tables ++ [table])) := by
  induction parts with
  | nil => rfl
  | cons part parts ih =>
    obtain ⟨only, rest⟩ := nodup_cons.mp once
    rw [map_cons, map_cons, attachSlice, slotOf_name, geomOn_name]
    by_cases same : part.name = table.name
    · have others : ∀ other ∈ parts, other.name ≠ table.name := by
        intro other member equal
        apply only
        rw [same, ← equal]
        exact mem_map_of_mem member
      have slot : slotOf disks (tables ++ [table]) part = giveParts (geomOn disks table) part := by
        rw [slotOf, same, tableOf_concat_self new]
        rfl
      rw [if_pos same, slots_other others, slot, slotOf_new (same ▸ new)]
    · rw [if_neg same, ih rest, slotOf_other same]

theorem treeOf_other {v : Vdev} (other : v.name ≠ table.name)
    (apart : ∀ disk ∈ tables, disk.name = v.name → ∀ part ∈ (geomOn disks disk).partitions, part.name ≠ table.name) :
    treeOf disks (tables ++ [table]) v = treeOf disks tables v := by
  rw [treeOf, treeOf, tableOf_concat_other other]
  cases found : tableOf tables v.name with
  | none => rfl
  | some disk =>
    obtain ⟨member, same⟩ := tableOf_some found
    rw [elim_some, elim_some, slots_other (apart disk member same)]

/-- The partitions on a disk have the disk's name and something behind it, and no disk's name. -/
structure Sliced (disks : List Vdev) (disk : ListedTable) : Prop where
  once : ((geomOn disks disk).partitions.map Vdev.name).Nodup
  front : ∀ part ∈ (geomOn disks disk).partitions, startsWith part.name disk.name = true
  apart : ∀ part ∈ (geomOn disks disk).partitions, part.name ∉ disks.map Vdev.name

theorem attach_treeOf (new : tableOf tables table.name = none)
    (sliced : ∀ disk ∈ tables ++ [table], disk.name ∈ disks.map Vdev.name → Sliced disks disk)
    (later : table.name ∈ disks.map Vdev.name → ∀ part ∈ (geomOn disks table).partitions, tableOf tables part.name = none)
    {group : List Vdev} (once : (group.map Vdev.name).Nodup) (fresh : ∀ v ∈ group, v.partitions = []) (inside : group ⊆ disks) :
    attach (geomOn disks table) (group.map (treeOf disks tables)) = group.map (treeOf disks (tables ++ [table])) := by
  induction group with
  | nil => rfl
  | cons v group ih =>
    obtain ⟨only, rest⟩ := nodup_cons.mp once
    have listed : v.name ∈ disks.map Vdev.name := mem_map_of_mem (inside mem_cons_self)
    have others := ih rest (fun w member => fresh w (mem_cons_of_mem v member)) fun w member => inside (mem_cons_of_mem
      v member)
    have name := @treeOf_name disks tables v
    rw [map_cons, map_cons, attach, geomOn_name]
    by_cases same : v.name = table.name
    · -- the disk itself: what is behind it is left alone
      have tail : ∀ w ∈ group, treeOf disks tables w = treeOf disks (tables ++ [table]) w := by
        intro w member
        have other : w.name ≠ table.name := by
          intro equal
          apply only
          rw [same, ← equal]
          exact mem_map_of_mem member
        refine (treeOf_other other fun disk present named part inner equal => ?_).symm
        have disk_sliced := sliced disk (mem_append_left _ present)
          (by rw [named]; exact mem_map_of_mem (inside (mem_cons_of_mem v member)))
        exact disk_sliced.apart part inner (by rw [equal, ← same]; exact listed)
      have mine := sliced table (mem_append_right _ mem_cons_self) (same ▸ listed)
      have unslotted : (geomOn disks table).partitions.map (slotOf disks (tables ++ [table])) = (geomOn disks table).partitions := by
        conv_rhs => rw [← List.map_id (geomOn disks table).partitions]
        apply map_congr_left
        intro part member
        have other : part.name ≠ table.name := fun equal => mine.apart part member (by rw [equal, ← same]; exact listed)
        rw [slotOf_other other, slotOf_new (later (same ▸ listed) part member)]
        rfl
      have head : giveParts (geomOn disks table) (treeOf disks tables v) = treeOf disks (tables ++ [table]) v := by
        have before : tableOf tables v.name = none := same ▸ new
        have behind := same ▸ tableOf_concat_self new
        rw [treeOf, treeOf, before, behind, elim_some, unslotted]
        rfl
      rw [if_pos (name.trans same), head, map_congr_left tail]
    · rw [if_neg (by rw [name]; exact same), others]
      by_cases found : startsWith table.name v.name = true
      · have head : { treeOf disks tables v with partitions := attachSlice (geomOn disks table) (treeOf disks tables v).partitions } =
            treeOf disks (tables ++ [table]) v := by
          rw [treeOf, treeOf, tableOf_concat_other same]
          cases its : tableOf tables v.name with
          | none =>
            have none := fresh v mem_cons_self
            cases v
            cases none
            rfl
          | some disk =>
            obtain ⟨present, named⟩ := tableOf_some its
            have disk_sliced := sliced disk (mem_append_left _ present) (named ▸ listed)
            simp only [elim_some, attachSlice_slots new disk_sliced.once]
        rw [if_pos (by rw [name]; exact found), head]
      · have head : treeOf disks (tables ++ [table]) v = treeOf disks tables v := by
          refine treeOf_other same fun disk present named part inner equal => ?_
          have disk_sliced := sliced disk (mem_append_left _ present) (named ▸ listed)
          apply found
          rw [← equal, ← named]
          exact disk_sliced.front part inner
        rw [if_neg (by rw [name]; exact found), head]

/-- The tables attached one after the other make the tree, when a disk's table comes before its slices'. -/
theorem attachTables_tree (once : (disks.map Vdev.name).Nodup) (fresh : ∀ v ∈ disks, v.partitions = [])
    (distinct : (tables.map ListedTable.name).Nodup)
    (sliced : ∀ disk ∈ tables, disk.name ∈ disks.map Vdev.name → Sliced disks disk)
    (later : ∀ front table back, tables = front ++ table :: back → table.name ∈ disks.map Vdev.name →
      ∀ part ∈ (geomOn disks table).partitions, tableOf front part.name = none) :
    tables.foldl attachTable disks = disks.map (treeOf disks tables) := by
  induction tables using reverseRecOn with
  | nil =>
    have same : ∀ v ∈ disks, treeOf disks [] v = id v := fun _ _ => rfl
    rw [foldl_nil, map_congr_left same, List.map_id]
  | append_singleton tables table ih =>
    obtain ⟨before, new⟩ := new_of_nodup distinct
    have prefixed := ih before (fun disk member => sliced disk (mem_append_left _ member)) fun front other back shape =>
      later front other (back ++ [table]) (by rw [shape, append_assoc]; rfl)
    rw [foldl_append, foldl_cons, foldl_nil, attachTable_on (attachTables_names tables disks), prefixed]
    exact attach_treeOf new sliced (later tables table [] rfl) once fresh (List.Subset.refl disks)

end

section

variable {entry : ListedPart → Vdev → Prop}

theorem forall₂_names (named : ∀ part v, entry part v → v.name = part.name) {parts : List ListedPart} {vs : List Vdev}
    (all : Forall₂ entry parts vs) : vs.map Vdev.name = parts.map ListedPart.name := by
  induction all with
  | nil => rfl
  | cons first _ ih => rw [map_cons, map_cons, ih, named _ _ first]

theorem eq_of_names {parts order other : List ListedPart} (once : (parts.map ListedPart.name).Nodup) (inside : order ⊆ parts)
    (within : other ⊆ parts) (same : order.map ListedPart.name = other.map ListedPart.name) : order = other := by
  induction order generalizing other with
  | nil =>
    rw [map_nil, eq_comm, map_eq_nil_iff] at same
    exact same.symm
  | cons part order ih =>
    cases other with
    | nil => cases same
    | cons part' other =>
      obtain ⟨first, rest⟩ := List.cons.inj same
      rw [inj_on_of_nodup_map once (inside mem_cons_self) (within mem_cons_self) first,
        ih (fun p member => inside (mem_cons_of_mem part member)) (fun p member => within (mem_cons_of_mem part' member)) rest]

theorem Holds.names (named : ∀ part v, entry part v → v.name = part.name) {parts : List ListedPart} {vs : List Vdev}
    (held : Holds entry parts vs) : (vs.map Vdev.name).Perm (parts.map ListedPart.name) := by
  obtain ⟨⟨_, perm, all⟩, _⟩ := held
  rw [forall₂_names named all]
  exact perm.map ListedPart.name

theorem holds_iff (named : ∀ part v, entry part v → v.name = part.name) {parts order : List ListedPart}
    (once : (parts.map ListedPart.name).Nodup) (perm : order.Perm parts) {read : ListedPart → Vdev}
    (names : ∀ part, (read part).name = part.name)
    (sorted : (order.map read).Pairwise fun v w => v.sectorStart ≤ w.sectorStart) :
    Holds entry parts (order.map read) ↔ ∀ part ∈ parts, entry part (read part) := by
  constructor
  · rintro ⟨⟨other, otherPerm, all⟩, _⟩ part member
    have same : other.map ListedPart.name = order.map ListedPart.name := by
      rw [← forall₂_names named all, List.map_map]
      exact map_congr_left fun part _ => names part
    rw [eq_of_names once otherPerm.subset perm.subset same, forall₂_map_right_iff, forall₂_same] at all
    exact all part (perm.symm.subset member)
  · intro all
    refine ⟨⟨order, perm, ?_⟩, sorted⟩
    rw [forall₂_map_right_iff, forall₂_same]
    exact fun part member => all part (perm.subset member)

theorem IsSlice.name {typed : Bytes → Prop} {tables : List ListedTable} (part : ListedPart) (v : Vdev)
    (slice : IsSlice typed tables part v) : v.name = part.name := slice.1.name

theorem vdev_name (level : Nat) (part : ListedPart) : (part.vdev level 1).name = part.name :=
  readName_single (by decide) part.name

theorem geom_sorted (table : ListedTable) (level : Nat) :
    (table.geom level).partitions.Pairwise fun v w => v.sectorStart ≤ w.sectorStart :=
  insertParts_sorted List.Pairwise.nil

theorem isPart_vdev {typed : Bytes → Prop} {level expected : Nat} (part : ListedPart) {type : Bytes}
    {partitions : List Vdev} :
    IsPart typed expected part { part.vdev level 1 with partType := type, partitions } ↔
      level + 1 = expected ∧ (typed part.name → type = part.type) := by
  constructor
  · intro read
    exact ⟨read.level, read.type⟩
  · rintro ⟨same, kept⟩
    exact ⟨vdev_name level part, rfl, rfl, rfl, kept, rfl, same⟩

theorem holds_geom (typed : Bytes → Prop) {table : ListedTable} (once : (table.parts.map ListedPart.name).Nodup) :
    Holds (fun inner w => IsPart typed 2 inner w ∧ w.partitions = []) table.parts (table.geom 1).partitions ↔
    table.parts.length < 10 := by
  constructor
  · intro held
    by_contra many
    obtain ⟨_, member, blank⟩ := geom_blank table 1 (Nat.le_of_not_lt many)
    have listed := (held.names fun _ _ both => both.1.name).subset (mem_map_of_mem member)
    obtain ⟨part, _, same⟩ := List.mem_map.mp listed
    exact part.word.blank (same ▸ blank)
  · intro few
    obtain ⟨_, perm, same⟩ := geom_parts few 1
    have sorted := geom_sorted table 1
    rw [same] at sorted ⊢
    refine (holds_iff (fun _ _ both => both.1.name) once perm (vdev_name 1) sorted).mpr fun part _ => ⟨?_, rfl⟩
    exact ⟨vdev_name 1 part, rfl, rfl, rfl, fun _ => rfl, rfl, rfl⟩

end

section

variable (listing : Listing)

theorem Listing.disks_once : (listing.geoms.map ListedGeom.name).Nodup := (nodup_append'.mp listing.names).1

theorem Listing.part_apart {table : ListedTable} (member : table ∈ listing.tables) {part : ListedPart}
    (inner : part ∈ table.parts) :
    part.name ∉ listing.geoms.map ListedGeom.name := fun disk =>
  (nodup_append'.mp listing.names).2.2 disk (mem_flatMap.mpr ⟨table, member, mem_map_of_mem inner⟩)

theorem Listing.parts_once {table : ListedTable} (member : table ∈ listing.tables) :
    (table.parts.map ListedPart.name).Nodup :=
  (nodup_flatMap.mp (nodup_append'.mp listing.names).2.1).1 table member

theorem Listing.part_table {table table' : ListedTable} (member : table ∈ listing.tables)
    (member' : table' ∈ listing.tables) {part part' : ListedPart} (inner : part ∈ table.parts)
    (inner' : part' ∈ table'.parts) (same : part.name = part'.name) :
    table = table' := by
  have apart := (nodup_flatMap.mp (nodup_append'.mp listing.names).2.1).2
  have symmetric : Std.Symm (Function.onFun Disjoint fun table : ListedTable => table.parts.map ListedPart.name) :=
    ⟨fun _ _ disjoint _ left right => disjoint right left⟩
  by_contra other
  exact apart.forall member member' other (mem_map_of_mem inner) (by rw [same]; exact mem_map_of_mem inner')

def Listing.kept : List ListedTable := keptTables listing.tables

theorem Listing.kept_front :
    listing.tables = listing.kept ∨ ∃ last, listing.tables = listing.kept ++ [last] ∧ last.parts = [] := by
  rw [Listing.kept, keptTables]
  split
  next => exact Or.inl rfl
  next dropped =>
    rcases eq_nil_or_concat' listing.tables with none | ⟨_, last, shape⟩
    · rw [none] at dropped
      exact absurd (by simp) dropped
    · rw [shape, getLast?_concat] at dropped
      refine Or.inr ⟨last, by rw [shape, dropLast_concat], ?_⟩
      by_contra present
      exact dropped fun table member => (some.inj member) ▸ present

theorem Listing.kept_subset : listing.kept ⊆ listing.tables := by
  intro table member
  rcases listing.kept_front with same | ⟨_, shape, _⟩
  · rw [same]
    exact member
  · rw [shape]
    exact mem_append_left _ member

theorem Listing.mem_kept {table : ListedTable} (member : table ∈ listing.tables) (present : table.parts ≠ []) :
    table ∈ listing.kept := by
  rcases listing.kept_front with same | ⟨_, shape, empty⟩
  · exact same ▸ member
  · rw [shape, mem_append, mem_singleton] at member
    rcases member with member | rfl
    · exact member
    · exact absurd empty present

theorem Listing.kept_once : (listing.kept.map ListedTable.name).Nodup := by
  rcases listing.kept_front with same | ⟨_, shape, _⟩
  · exact same ▸ listing.once
  · have once := listing.once
    rw [shape] at once
    exact (new_of_nodup once).1

theorem Listing.partsOf_kept (name : Bytes) : partsOf listing.tables name = partsOf listing.kept name := by
  rcases listing.kept_front with same | ⟨_, shape, empty⟩
  · rw [← same]
  · rw [shape, partsOf, partsOf, tableOf_concat]
    cases tableOf listing.kept name with
    | some _ => rfl
    | none =>
      split
      · exact empty
      · rfl

def Listing.bare : List Vdev := listing.geoms.map ListedGeom.vdev

theorem Listing.bare_names : listing.bare.map Vdev.name = listing.geoms.map ListedGeom.name := by
  rw [Listing.bare, List.map_map]
  rfl

theorem Listing.placed_kept {front : List ListedTable} {table : ListedTable} {back : List ListedTable}
    (shape : listing.kept = front ++ table :: back) : table.name ∈ listing.geoms.map ListedGeom.name ∨
      ∃ disk ∈ front, disk.name ∈ listing.geoms.map ListedGeom.name ∧ table.name ∈ disk.parts.map ListedPart.name := by
  rcases listing.kept_front with same | ⟨last, whole, _⟩
  · exact listing.placed front table back (same.trans shape)
  · exact listing.placed front table (back ++ [last]) (by rw [whole, shape, append_assoc]; rfl)

theorem Listing.owner {table : ListedTable} (member : table ∈ listing.kept) :
    table.name ∈ listing.geoms.map ListedGeom.name ∨
    ∃ disk ∈ listing.kept, disk.name ∈ listing.geoms.map ListedGeom.name ∧
    table.name ∈ disk.parts.map ListedPart.name := by
  obtain ⟨_, _, shape⟩ := append_of_mem member
  rcases listing.placed_kept shape with disk | ⟨disk, inner, its⟩
  · exact Or.inl disk
  · exact Or.inr ⟨disk, by rw [shape]; exact mem_append_left _ inner, its⟩

theorem Listing.sliced {disk : ListedTable} (member : disk ∈ listing.kept) (few : disk.parts.length < 10) :
    Sliced listing.bare disk := by
  have listed := listing.kept_subset member
  obtain ⟨order, perm, same⟩ := geom_parts few (geomLevel disk.name listing.bare)
  have read {v : Vdev} (inner : v ∈ (geomOn listing.bare disk).partitions) :
    ∃ part ∈ disk.parts, v.name = part.name := by
    rw [geomOn, same] at inner
    obtain ⟨part, present, rfl⟩ := List.mem_map.mp inner
    exact ⟨part, perm.subset present, vdev_name _ part⟩
  refine ⟨?_, fun v inner => ?_, fun v inner => ?_⟩
  · have names : (geomOn listing.bare disk).partitions.map Vdev.name = order.map ListedPart.name := by
      rw [geomOn, same, List.map_map]
      exact map_congr_left fun part _ => vdev_name _ part
    rw [names, (perm.map ListedPart.name).nodup_iff]
    exact listing.parts_once listed
  · obtain ⟨part, present, name⟩ := read inner
    obtain ⟨suffix, _, shape⟩ := listing.named disk listed part present
    rw [name, shape]
    exact startsWith_append disk.name suffix
  · obtain ⟨part, present, name⟩ := read inner
    rw [name, listing.bare_names]
    exact listing.part_apart listed present

theorem Listing.kept_tree (few : ∀ disk ∈ listing.kept, disk.name ∈ listing.geoms.map ListedGeom.name → disk.parts.length < 10) :
    listing.kept.foldl attachTable listing.bare = listing.bare.map (treeOf listing.bare listing.kept) := by
  have names := listing.bare_names
  apply attachTables_tree
  · exact names ▸ listing.disks_once
  · intro v member
    obtain ⟨_, _, rfl⟩ := List.mem_map.mp member
    rfl
  · exact listing.kept_once
  · exact fun disk member listed => listing.sliced member (few disk member (names ▸ listed))
  · -- a slice's table behind its disk's
    intro front table back shape listed part inner
    rw [names] at listed
    have member : table ∈ listing.kept := by rw [shape]; exact mem_append_right _ mem_cons_self
    have apart : part.name ∉ listing.geoms.map ListedGeom.name := by
      rw [← names]
      exact (listing.sliced member (few table member listed)).apart part inner
    rw [tableOf_none]
    intro slice present same
    obtain ⟨before, behind, split⟩ := append_of_mem present
    have place : listing.kept = before ++ slice :: (behind ++ table :: back) := by rw [shape, split, append_assoc]; rfl
    rcases listing.placed_kept place with disk | ⟨disk, earlier, _, its⟩
    · exact apart (same ▸ disk)
    · obtain ⟨_, perm, read⟩ := geom_parts (few table member listed) (geomLevel table.name listing.bare)
      rw [geomOn, read] at inner
      obtain ⟨_, ownMember, rfl⟩ := List.mem_map.mp inner
      obtain ⟨_, otherMember, name⟩ := List.mem_map.mp its
      have diskKept : disk ∈ listing.kept := by rw [place]; exact mem_append_left _ earlier
      have equal : disk = table := listing.part_table (listing.kept_subset diskKept) (listing.kept_subset member) otherMember
        (perm.subset ownMember) (by rw [name, same, vdev_name])
      have once := listing.kept_once
      rw [shape, map_append, nodup_append'] at once
      refine once.2.2 (mem_map_of_mem ?_) (mem_map_of_mem mem_cons_self)
      rw [split, ← equal]
      exact mem_append_left _ earlier

variable (typed : Bytes → Prop)

def Listing.Described : Prop := ∀ geom ∈ listing.geoms.getLast?, geom.descr ≠ none

def Listing.SingleDigit : Prop := ∀ table ∈ listing.tables, table.parts.length < 10

/-- Where a disk has partitions, no disk listed before it has the front of its name. -/
def Listing.Unprefixed : Prop :=
  ∀ front geom back, listing.geoms = front ++ geom :: back →
    (∃ table ∈ listing.tables, table.name = geom.name ∧ table.parts ≠ []) → ∀ disk ∈ front, ¬disk.name <+: geom.name

/-- The type of a partition with a table of its own is the scheme of that table. -/
def Listing.TypesKept : Prop :=
  ∀ disk ∈ listing.tables, ∀ part ∈ disk.parts, typed part.name → ∀ table ∈ listing.kept, table.name = part.name →
    table.scheme = part.type

theorem forall₂_same_names {typed : Bytes → Prop} {tables : List ListedTable} {geoms : List ListedGeom} {vs : List Vdev}
    (tree : Forall₂ (IsDisk typed tables) geoms vs) : vs.map Vdev.name = geoms.map ListedGeom.name := by
  induction tree with
  | nil => rfl
  | cons first _ ih => rw [map_cons, map_cons, ih, first.name]

theorem Listing.disks_names : listing.disks.map Vdev.name =
    (if ∀ geom ∈ listing.geoms.getLast?, geom.descr ≠ none then listing.geoms else listing.geoms.dropLast).map
      ListedGeom.name := by
  rw [Listing.disks, readGeoms, readPartList_disks, attachTables_names, readDiskList_disks, List.map_map]
  rfl

theorem Listing.described_of_tree {typed : Bytes → Prop} (tree : IsTree typed listing listing.disks) :
    listing.Described := by
  have names := forall₂_same_names tree
  rw [listing.disks_names] at names
  by_contra absent
  have lengths := congrArg length names
  rw [Listing.Described] at absent
  rw [if_neg absent, length_map, length_map, length_dropLast] at lengths
  have none : listing.geoms = [] := length_eq_zero_iff.mp (by omega)
  exact absent (by rw [none]; simp)

theorem Listing.disks_described (described : listing.Described) :
    listing.disks = listing.kept.foldl attachTable listing.bare := by
  have last : ∀ geom ∈ listing.geoms.getLast?, geom.descr ≠ none := described
  rw [Listing.disks, readGeoms, readPartList_disks, readDiskList_disks, if_pos last]
  rfl

theorem forall₂_outline {typed : Bytes → Prop} {tables : List ListedTable} {geoms : List ListedGeom} {vs : List Vdev}
    (tree : Forall₂ (IsDisk typed tables) geoms vs) {outline : Vdev → Bytes × List Bytes}
    (same : vs.map Vdev.outline = (geoms.map ListedGeom.vdev).map outline) {geom : ListedGeom} (member : geom ∈ geoms) :
    ∃ v, IsDisk typed tables geom v ∧ v.outline = outline geom.vdev := by
  induction tree with
  | nil => cases member
  | cons first _ ih =>
    obtain ⟨head, tail⟩ := List.cons.inj same
    rcases mem_cons.mp member with rfl | member
    · exact ⟨_, first, head⟩
    · exact ih tail member

theorem Listing.few_of_tree {typed : Bytes → Prop} (described : listing.Described)
    (tree : IsTree typed listing listing.disks) {disk : ListedTable} (member : disk ∈ listing.kept)
    (listed : disk.name ∈ listing.geoms.map ListedGeom.name) :
    disk.parts.length < 10 := by
  by_contra many
  obtain ⟨geom, present, name⟩ := List.mem_map.mp listed
  have once := listing.bare_names ▸ listing.disks_once
  have outlines := attachTables_outline once listing.kept_once
  rw [← listing.disks_described described] at outlines
  obtain ⟨_, its, outline⟩ := forall₂_outline tree outlines present
  have held := its.partitions
  have geomName : geom.vdev.name = disk.name := name
  rw [geomName, tableOf_mem listing.kept_once member] at outline
  have names := (Prod.mk.inj outline).2
  obtain ⟨_, inner, blank⟩ := geom_blank disk (geomLevel disk.name listing.bare) (Nat.le_of_not_lt many)
  have read := names ▸ mem_map_of_mem inner
  obtain ⟨part, _, same⟩ := List.mem_map.mp ((held.names IsSlice.name).subset read)
  exact part.word.blank (same ▸ blank)

theorem geomLevel_inside {name : Bytes} {disks : List Vdev} (apart : name ∉ disks.map Vdev.name) {disk : Vdev}
    (member : disk ∈ disks) (front : startsWith name disk.name = true) : geomLevel name disks = 1 := by
  induction disks with
  | nil => cases member
  | cons _ disks ih =>
    rw [map_cons, mem_cons, not_or] at apart
    rw [geomLevel, if_neg (Ne.symm apart.1)]
    split
    next => rfl
    next none =>
      rcases mem_cons.mp member with rfl | member
      · exact absurd front none
      · exact ih apart.2 member

theorem geomLevel_disk {front back : List Vdev} {disk : Vdev} (new : disk.name ∉ front.map Vdev.name) :
    geomLevel disk.name (front ++ disk :: back) = 0 ↔ ∀ other ∈ front, ¬other.name <+: disk.name := by
  induction front with
  | nil =>
    rw [nil_append, geomLevel, if_pos rfl]
    exact iff_of_true rfl fun _ member => nomatch member
  | cons first front ih =>
    rw [map_cons, mem_cons, not_or] at new
    rw [cons_append, geomLevel, if_neg (Ne.symm new.1)]
    split
    next found => exact iff_of_false Nat.one_ne_zero fun all => all first mem_cons_self (startsWith_iff.mp found)
    next none =>
      rw [ih new.2, forall_mem_cons]
      exact (and_iff_right fun found => none (startsWith_iff.mpr found)).symm

theorem Listing.isSlice_iff {disk : ListedTable} (member : disk ∈ listing.kept)
    (listed : disk.name ∈ listing.geoms.map ListedGeom.name) {part : ListedPart} (inner : part ∈ disk.parts)
    (level : Nat) :
    IsSlice typed listing.tables part (slotOf listing.bare listing.kept (part.vdev level 1)) ↔
      level = 0 ∧ ∀ table ∈ listing.kept, table.name = part.name → table.parts.length < 10 ∧
      (typed part.name → table.scheme = part.type) := by
  rw [IsSlice, listing.partsOf_kept, partsOf, slotOf, vdev_name]
  cases found : tableOf listing.kept part.name with
  | none =>
    have absent := tableOf_none.mp found
    have read : IsPart typed 1 part (part.vdev level 1) ↔ level = 0 := by
      rw [← Nat.add_right_cancel_iff (m := level) (k := 0) (n := 1)]
      exact ⟨fun same => same.level, fun same => ⟨vdev_name level part, rfl, rfl, rfl, fun _ => rfl, rfl, same⟩⟩
    rw [elim_none, read]
    refine and_congr_right fun _ => iff_of_true ?_ fun table present same => absurd same (absent table present)
    exact ⟨⟨[], List.Perm.refl _, List.Forall₂.nil⟩, List.Pairwise.nil⟩
  | some table =>
    obtain ⟨present, same⟩ := tableOf_some found
    have apart : table.name ∉ listing.bare.map Vdev.name := by
      rw [same, listing.bare_names]
      exact listing.part_apart (listing.kept_subset member) inner
    obtain ⟨_, its, name⟩ := List.mem_map.mp listed
    obtain ⟨suffix, _, shape⟩ := listing.named disk (listing.kept_subset member) part inner
    have inside : geomLevel table.name listing.bare = 1 := by
      apply geomLevel_inside apart (mem_map_of_mem its)
      rw [same, shape]
      exact name ▸ startsWith_append disk.name suffix
    have held : Holds (fun inner w => IsPart typed 2 inner w ∧ w.partitions = []) table.parts
      (geomOn listing.bare table).partitions ↔ table.parts.length < 10 := by
      rw [geomOn, inside]
      exact holds_geom typed (listing.parts_once (listing.kept_subset present))
    have read : IsPart typed 1 part { part.vdev level 1 with
        partType := (geomOn listing.bare table).partType, partitions := (geomOn listing.bare table).partitions } ↔
        level = 0 ∧ (typed part.name → table.scheme = part.type) := by
      rw [← Nat.add_right_cancel_iff (m := level) (k := 0) (n := 1)]
      exact isPart_vdev part
    rw [elim_some, giveParts, read]
    constructor
    · rintro ⟨⟨zero, type⟩, few⟩
      refine ⟨zero, fun other otherPresent otherSame => ?_⟩
      rw [inj_on_of_nodup_map listing.kept_once otherPresent present (otherSame.trans same.symm)]
      exact ⟨held.mp few, type⟩
    · rintro ⟨zero, all⟩
      obtain ⟨few, type⟩ := all table present same
      exact ⟨⟨zero, type⟩, held.mpr few⟩

theorem Listing.isDisk_iff (few : ∀ disk ∈ listing.kept, disk.name ∈ listing.geoms.map ListedGeom.name → disk.parts.length < 10)
    {geom : ListedGeom} (member : geom ∈ listing.geoms) :
    IsDisk typed listing.tables geom (treeOf listing.bare listing.kept geom.vdev) ↔
      ∀ disk ∈ listing.kept, disk.name = geom.name → ∀ part ∈ disk.parts, geomLevel disk.name listing.bare = 0 ∧
        ∀ table ∈ listing.kept, table.name = part.name → table.parts.length < 10 ∧ (typed part.name → table.scheme = part.type) := by
  rw [treeOf]
  cases found : tableOf listing.kept geom.vdev.name with
  | none =>
    have absent := tableOf_none.mp found
    refine iff_of_true ⟨rfl, rfl, rfl, rfl, rfl, ?_⟩ fun disk present same => absurd same (absent disk present)
    have parts : partsOf listing.tables geom.name = [] := by
      rw [listing.partsOf_kept]
      exact congrArg (fun table => (table.map ListedTable.parts).getD []) found
    rw [parts]
    exact ⟨⟨[], List.Perm.refl _, List.Forall₂.nil⟩, List.Pairwise.nil⟩
  | some disk =>
    obtain ⟨present, same⟩ := tableOf_some found
    have listed : disk.name ∈ listing.geoms.map ListedGeom.name := same ▸ mem_map_of_mem member
    obtain ⟨order, perm, read⟩ := geom_parts (few disk present listed) (geomLevel disk.name listing.bare)
    have mapped : (geomOn listing.bare disk).partitions.map (slotOf listing.bare listing.kept) =
        order.map fun part => slotOf listing.bare listing.kept (part.vdev (geomLevel disk.name listing.bare) 1) := by
      rw [geomOn, read, List.map_map]
      rfl
    have sorted : ((geomOn listing.bare disk).partitions.map (slotOf listing.bare listing.kept)).Pairwise
        fun v w => v.sectorStart ≤ w.sectorStart := by
      rw [pairwise_map]
      exact (geom_sorted disk _).imp fun {v w} ordered => by rw [slotOf_start, slotOf_start]; exact ordered
    have names (part : ListedPart) : (slotOf listing.bare listing.kept (part.vdev (geomLevel disk.name listing.bare) 1)).name = part.name := by
      rw [slotOf_name, vdev_name]
    rw [mapped] at sorted
    have held := @holds_iff (IsSlice typed listing.tables) IsSlice.name disk.parts order (listing.parts_once (listing.kept_subset present))
      perm _ names sorted
    have its : IsDisk typed listing.tables geom { geom.vdev with
        partType := disk.scheme, partitions := (geomOn listing.bare disk).partitions.map (slotOf listing.bare listing.kept) } ↔
        ∀ part ∈ disk.parts, IsSlice typed listing.tables part
          (slotOf listing.bare listing.kept (part.vdev (geomLevel disk.name listing.bare) 1)) := by
      rw [← held, mapped]
      have parts : partsOf listing.tables geom.name = disk.parts := by
        rw [listing.partsOf_kept]
        exact congrArg (fun table => (table.map ListedTable.parts).getD []) found
      exact ⟨fun its => parts ▸ its.partitions, fun held => ⟨rfl, rfl, rfl, rfl, rfl, parts ▸ held⟩⟩
    rw [elim_some, its]
    constructor
    · intro all other otherPresent otherSame part inner
      rw [inj_on_of_nodup_map listing.kept_once otherPresent present (otherSame.trans same.symm)] at inner ⊢
      exact (listing.isSlice_iff typed present listed inner _).mp (all part inner)
    · intro all part inner
      exact (listing.isSlice_iff typed present listed inner _).mpr (all disk present same part inner)

theorem Listing.tree_of_few (described : listing.Described)
    (few : ∀ disk ∈ listing.kept, disk.name ∈ listing.geoms.map ListedGeom.name → disk.parts.length < 10) :
    IsTree typed listing listing.disks ↔
      ∀ disk ∈ listing.kept, disk.name ∈ listing.geoms.map ListedGeom.name →
        ∀ part ∈ disk.parts, geomLevel disk.name listing.bare = 0 ∧
        ∀ table ∈ listing.kept, table.name = part.name → table.parts.length < 10 ∧
        (typed part.name → table.scheme = part.type) := by
  rw [listing.disks_described described, listing.kept_tree few, IsTree, forall₂_map_right_iff, Listing.bare,
    forall₂_map_right_iff, forall₂_same]
  constructor
  · intro all disk present listed
    obtain ⟨geom, member, same⟩ := List.mem_map.mp listed
    exact (listing.isDisk_iff typed few member).mp (all geom member) disk present same.symm
  · intro all geom member
    refine (listing.isDisk_iff typed few member).mpr fun disk present same => ?_
    exact all disk present (same ▸ mem_map_of_mem member)

theorem Listing.unprefixed_iff : listing.Unprefixed ↔
    ∀ disk ∈ listing.kept, disk.name ∈ listing.geoms.map ListedGeom.name → disk.parts ≠ [] →
    geomLevel disk.name listing.bare = 0 := by
  have level {front : List ListedGeom} {geom : ListedGeom} {back : List ListedGeom} (shape : listing.geoms = front ++
    geom :: back) : geomLevel geom.name listing.bare = 0 ↔ ∀ disk ∈ front, ¬disk.name <+: geom.name := by
    have once := listing.disks_once
    rw [shape, map_append, nodup_append'] at once
    have new : geom.vdev.name ∉ (front.map ListedGeom.vdev).map Vdev.name := by
      rw [List.map_map]
      exact fun member => once.2.2 member mem_cons_self
    have found := @geomLevel_disk (front.map ListedGeom.vdev) (back.map ListedGeom.vdev) geom.vdev new
    rw [List.forall_mem_map] at found
    rw [Listing.bare, shape, map_append, map_cons]
    exact found
  constructor
  · intro all disk present listed inner
    obtain ⟨geom, member, same⟩ := List.mem_map.mp listed
    obtain ⟨front, back, shape⟩ := append_of_mem member
    rw [← same]
    exact (level shape).mpr (all front geom back shape ⟨disk, listing.kept_subset present, same.symm, inner⟩)
  · rintro all front geom back shape ⟨disk, present, same, inner⟩
    apply (level shape).mp
    rw [← same]
    refine all disk (listing.mem_kept present inner) ?_ inner
    rw [same, shape]
    exact mem_map_of_mem (mem_append_right _ mem_cons_self)

theorem Listing.isTree_iff : IsTree typed listing listing.disks ↔
    listing.Described ∧ listing.SingleDigit ∧ listing.Unprefixed ∧ listing.TypesKept typed := by
  constructor
  · intro tree
    have described := listing.described_of_tree tree
    have few := fun disk member listed => @Listing.few_of_tree listing typed described tree disk member listed
    have all := (listing.tree_of_few typed described few).mp tree
    refine ⟨described, ?_, ?_, ?_⟩
    · intro table member
      by_cases empty : table.parts = []
      · rw [empty]
        decide
      · have present := listing.mem_kept member empty
        rcases listing.owner present with listed | ⟨disk, diskPresent, listed, its⟩
        · exact few table present listed
        · obtain ⟨part, inner, same⟩ := List.mem_map.mp its
          exact ((all disk diskPresent listed part inner).2 table present same.symm).1
    · rw [listing.unprefixed_iff]
      intro disk present listed inner
      obtain ⟨part, _, shape⟩ := exists_cons_of_ne_nil inner
      exact (all disk present listed part (by rw [shape]; exact mem_cons_self)).1
    · intro disk member part inner asked table present same
      have diskPresent := listing.mem_kept member (ne_nil_of_mem inner)
      -- a table of this partition's name is there, so the partition is on a disk
      rcases listing.owner present with listed | ⟨owner, ownerPresent, listed, its⟩
      · exact absurd (same ▸ listed) (listing.part_apart member inner)
      · obtain ⟨_, otherInner, otherSame⟩ := List.mem_map.mp its
        have equal : owner = disk :=
          listing.part_table (listing.kept_subset ownerPresent) member otherInner inner (otherSame.trans same)
        exact ((all disk diskPresent (equal ▸ listed) part inner).2 table present same).2 asked
  · rintro ⟨described, single, unprefixed, types⟩
    have levels := listing.unprefixed_iff.mp unprefixed
    refine (listing.tree_of_few typed described fun disk member _ => single disk (listing.kept_subset member)).mpr ?_
    intro disk present listed part inner
    refine ⟨levels disk present listed (ne_nil_of_mem inner), fun table tablePresent same => ?_⟩
    exact ⟨single table (listing.kept_subset tablePresent),
      fun asked => types disk (listing.kept_subset present) part inner asked table tablePresent same⟩

/-- The tree is the one that is listed exactly when the last disk has a description, no geom has ten partitions, no
disk with partitions comes behind one whose name starts its own, and no slice loses its type to the scheme of its
table. Where that type counts as the scheme's from then on, the first three are enough. -/
theorem tree_listed_iff :
    (IsTree (fun _ => True) listing listing.disks ↔
      listing.Described ∧ listing.SingleDigit ∧ listing.Unprefixed ∧ listing.TypesKept fun _ => True) ∧
    (IsTree (fun name => ∀ table ∈ listing.tables, table.name ≠ name) listing listing.disks ↔
      listing.Described ∧ listing.SingleDigit ∧ listing.Unprefixed) := by
  refine ⟨listing.isTree_iff _, ?_⟩
  rw [listing.isTree_iff]
  refine and_congr_right fun _ => and_congr_right fun _ => and_iff_left_of_imp fun _ => ?_
  intro disk _ part _ tableless table present same
  exact absurd same (tableless table (listing.kept_subset present))

theorem word_undescribed : Word (ascii ['a', 'd', 'a', '0']) := ⟨by decide, by decide +kernel⟩

def undescribed : Listing where
  geoms := [{ name := ascii ['a', 'd', 'a', '0'], word := word_undescribed, size := 1048576, sizeFits := by decide,
              human := ascii ['1', '.', '0', 'M'], sectorSize := 512, sectorFits := by decide, before := [], descr := none, behind := [],
              plain := fun _ member => nomatch member }]
  tables := []
  names := nodup_singleton _
  once := nodup_nil
  named := fun _ member => nomatch member
  placed := fun _ _ _ shape => absurd shape (by simp)

theorem undescribed_lost : undescribed.disks.length = 0 ∧
    ¬IsTree (fun name => ∀ table ∈ undescribed.tables, table.name ≠ name) undescribed undescribed.disks := by
  have names := undescribed.disks_names
  have gone : undescribed.disks.length = 0 := by
    have lengths := congrArg length names
    exact lengths
  refine ⟨gone, fun tree => ?_⟩
  have lengths := List.Forall₂.length_eq tree
  exact absurd lengths (by decide)

end

end Pcbsd.Zmanager
