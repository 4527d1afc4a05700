import Mathlib.Data.List.Chain
import Pcbsd.Lib.Best
import Pcbsd.Zmanager.PartitionDialog

/-! The rows of the partition dialog: they tile the device, and the free ones are exactly its free space. -/

namespace Pcbsd.Proofs.FreeRows
open Lib Lib.Tiling Zmanager Zmanager.PartitionDialog List Option

def rowSpan (row : Row) : Span := ⟨row.start, row.count⟩

def partSpan (part : Vdev) : Span := ⟨part.sectorStart, part.sectorsCount⟩

def deviceSpan (device : Vdev) : Span := ⟨firstSector device, device.sectorsCount⟩

/-- The partitions have sectors, stand in order, share no sector and are inside of the device, whose end is a number
of the code's type. -/
structure Arranged (device : Vdev) : Prop where
  fits : (deviceSpan device).stop < 2 ^ 64
  nonempty : ∀ part ∈ device.partitions, 0 < part.sectorsCount
  sorted : device.partitions.Pairwise fun a b => a.sectorStart ≤ b.sectorStart
  disjoint : device.partitions.Pairwise fun a b => ∀ n, ¬ ((partSpan a).Holds n ∧ (partSpan b).Holds n)
  inside : ∀ part ∈ device.partitions, firstSector device ≤ part.sectorStart ∧
    (partSpan part).stop ≤ (deviceSpan device).stop

def FreeSector (device : Vdev) (n : Nat) : Prop :=
  (deviceSpan device).Holds n ∧ ∀ part ∈ device.partitions, ¬ (partSpan part).Holds n

def freeSizes (rows : List Row) : List (Nat × Nat) := rows.mapIdx fun i row => (if row.isFree then row.count else 0, i)

def largest (rows : List Row) : Option (Nat × Nat) := bestOf (fun _ => true) 0 (freeSizes rows)

structure Listed (device : Vdev) (parts : List Vdev) (s : PartitionDialog.Listing) : Prop where
  tiles : Tiles (firstSector device) (s.rows.map rowSpan) s.sector
  used : s.rows.filter (!·.isFree) = parts.map (usedRow device)
  positive : ∀ row ∈ s.rows, row.isFree → 0 < row.count ∧ row.bytes = bytesOf device row.count
  apart : s.rows.IsChain fun a b => ¬ (a.isFree ∧ b.isFree)
  item : s.maxspaceitem = (largest s.rows).map Prod.snd
  size : s.maxsectorcount = (largest s.rows).elim 0 Prod.fst

def EndsUsed (rows : List Row) : Prop := ∀ row ∈ rows.getLast?, row.isFree = false

variable {device part : Vdev} {parts : List Vdev} {s : PartitionDialog.Listing} {rows : List Row} {row : Row}

theorem freeRow_isFree (start count : Nat) : (freeRow device start count).isFree = true := by
  rw [Row.isFree, freeRow, decide_eq_true rfl]

theorem usedRow_isFree (device part : Vdev) : (usedRow device part).isFree = false := by
  apply decide_eq_false
  intro same
  have final := congrArg List.getLast? same
  rw [usedRow, List.getLast?_append_of_ne_nil _ (cons_ne_nil _ _)] at final
  exact absurd final (by decide)

theorem largest_snoc : largest (rows ++ [row]) =
    better (fun _ => true) 0 (largest rows) (if row.isFree then row.count else 0, rows.length) := by
  rw [largest, freeSizes, mapIdx_concat, bestOf_snoc]
  rfl

theorem Listed.initial (device : Vdev) : Listed device [] { sector := firstSector device } where
  tiles := rfl
  used := rfl
  positive := fun _ member => absurd member not_mem_nil
  apart := isChain_nil
  item := rfl
  size := rfl

theorem Listed.addFree (listed : Listed device parts s) (ends : EndsUsed s.rows) {count : Nat} (some_ : 0 < count) :
    Listed device parts { s.addFree device count with sector := s.sector + count } := by
  have rows : (s.addFree device count).rows = s.rows ++ [freeRow device s.sector count] := by
    rw [PartitionDialog.Listing.addFree]
    split <;> rfl
  have grown := @largest_snoc s.rows (freeRow device s.sector count)
  rw [freeRow_isFree, if_pos rfl, better] at grown
  refine ⟨?_, ?_, ?_, ?_, ?_, ?_⟩
  · rw [rows, map_append]
    exact listed.tiles.snoc
  · rw [rows, filter_append, listed.used]
    simp [freeRow_isFree]
  · intro row member isFree
    rw [rows] at member
    rcases mem_append.mp member with early | last
    · exact listed.positive row early isFree
    · rw [mem_singleton] at last
      subst last
      exact ⟨some_, rfl⟩
  · rw [rows]
    apply List.IsChain.append listed.apart (isChain_singleton _)
    intro last there first _ both
    exact Bool.false_ne_true ((ends last there).symm.trans both.1)
  · rw [rows, grown, PartitionDialog.Listing.addFree]
    split <;> rename_i compare
    · rw [if_pos ⟨rfl, by rw [← listed.size]; exact compare⟩]
      rfl
    · rw [if_neg (by rw [← listed.size]; exact fun both => compare both.2)]
      exact listed.item
  · rw [rows, grown, PartitionDialog.Listing.addFree]
    split <;> rename_i compare
    · rw [if_pos ⟨rfl, by rw [← listed.size]; exact compare⟩]
      rfl
    · rw [if_neg (by rw [← listed.size]; exact fun both => compare both.2)]
      exact listed.size

theorem Listed.addUsed (listed : Listed device parts s) (begins : s.sector = part.sectorStart) :
    Listed device (parts ++ [part]) { s with rows := s.rows ++ [usedRow device part], sector := (partSpan part).stop } := by
  have same : largest (s.rows ++ [usedRow device part]) = largest s.rows := by
    rw [largest_snoc, usedRow_isFree, if_neg Bool.false_ne_true, better, if_neg fun both => Nat.not_lt_zero _ both.2]
  refine ⟨?_, ?_, ?_, ?_, ?_, ?_⟩
  · have tiled := listed.tiles
    rw [begins] at tiled
    rw [map_append]
    exact tiled.snoc
  · rw [filter_append, listed.used, map_append]
    simp [usedRow_isFree]
  · intro row member isFree
    rcases mem_append.mp member with early | last
    · exact listed.positive row early isFree
    · rw [mem_singleton] at last
      subst last
      exact absurd isFree (by rw [usedRow_isFree]; exact Bool.false_ne_true)
  · apply List.IsChain.append listed.apart (isChain_singleton _)
    intro last _ first there both
    cases there
    exact Bool.false_ne_true ((usedRow_isFree device part).symm.trans both.2)
  · rw [same]
    exact listed.item
  · rw [same]
    exact listed.size

theorem listPartition_listed (listed : Listed device parts s) (ends : EndsUsed s.rows)
    (behind : s.sector ≤ part.sectorStart) (fits : (partSpan part).stop < 2 ^ 64) :
    Listed device (parts ++ [part]) (listPartition device s part) ∧ EndsUsed (listPartition device s part).rows ∧
      (listPartition device s part).sector = (partSpan part).stop := by
  have stop : ull (part.sectorStart + part.sectorsCount) = (partSpan part).stop := Nat.mod_eq_of_lt fits
  refine ⟨?_, ?_, stop⟩
  · rw [listPartition, stop]
    split <;> rename_i gap
    · apply Listed.addUsed _ rfl
      have filled := listed.addFree ends (Nat.sub_pos_of_lt gap)
      rw [Nat.add_sub_of_le behind] at filled
      exact filled
    · exact listed.addUsed (le_antisymm behind (not_lt.mp gap))
  · intro row last
    rw [listPartition, List.getLast?_concat] at last
    cases last
    exact usedRow_isFree device part

def listParts (device : Vdev) (parts : List Vdev) : PartitionDialog.Listing :=
  parts.foldl (listPartition device) { sector := firstSector device }

theorem listParts_listed (inOrder : parts.Pairwise fun a b => (partSpan a).stop ≤ b.sectorStart)
    (inside : ∀ part ∈ parts, firstSector device ≤ part.sectorStart ∧ (partSpan part).stop < 2 ^ 64) :
    Listed device parts (listParts device parts) ∧ EndsUsed (listParts device parts).rows ∧
      ∀ n, firstSector device ≤ n → (∀ part ∈ parts, (partSpan part).stop ≤ n) →
      (listParts device parts).sector ≤ n := by
  induction parts using List.reverseRecOn with
  | nil => exact ⟨Listed.initial device, fun row last => absurd last (not_mem_none row), fun n above _ => above⟩
  | append_singleton parts part ih =>
    obtain ⟨front, -, between⟩ := pairwise_append.mp inOrder
    obtain ⟨listed, ends, cursor⟩ := ih front fun other member => inside other (mem_append_left _ member)
    have last : part ∈ parts ++ [part] := mem_append_right _ (mem_singleton_self _)
    have behind := cursor part.sectorStart (inside part last).1 fun other member =>
      between other member part (mem_singleton_self _)
    have added := listPartition_listed listed ends behind (inside part last).2
    have next : listParts device (parts ++ [part]) = listPartition device (listParts device parts) part := by
      rw [listParts, foldl_append]
      rfl
    rw [next]
    refine ⟨added.1, added.2.1, fun n _ above => ?_⟩
    rw [added.2.2]
    exact above part last

theorem Arranged.inOrder (arranged : Arranged device) :
    device.partitions.Pairwise fun a b => (partSpan a).stop ≤ b.sectorStart := by
  apply (arranged.sorted.and arranged.disjoint).imp_of_mem
  intro a b _ there both
  by_contra overlap
  refine both.2 b.sectorStart ⟨⟨both.1, not_le.mp overlap⟩, le_rfl, ?_⟩
  exact Nat.lt_add_of_pos_right (arranged.nonempty b there)

theorem listDevice_listed (arranged : Arranged device) :
    Listed device device.partitions { listDevice device with sector := (deviceSpan device).stop } := by
  obtain ⟨listed, ends, cursor⟩ := listParts_listed arranged.inOrder fun part member =>
    ⟨(arranged.inside part member).1, (arranged.inside part member).2.trans_lt arranged.fits⟩
  have before := cursor (deviceSpan device).stop (Nat.le_add_right _ _) fun part member =>
    (arranged.inside part member).2
  have stop : ull (firstSector device + device.sectorsCount) = (deviceSpan device).stop :=
    Nat.mod_eq_of_lt arranged.fits
  rw [listDevice, stop]
  change Listed device device.partitions
    { (if (listParts device device.partitions).sector < (deviceSpan device).stop then _
      else listParts device device.partitions) with
      sector := (deviceSpan device).stop }
  split <;> rename_i rest
  · have filled := listed.addFree ends (Nat.sub_pos_of_lt rest)
    rw [Nat.add_sub_of_le before] at filled
    exact filled
  · rw [← le_antisymm before (not_lt.mp rest)]
    exact listed

theorem mem_freeSizes {size : Nat × Nat} :
    size ∈ freeSizes rows ↔ ∃ row, rows[size.2]? = some row ∧ size.1 = if row.isFree then row.count else 0 := by
  rw [freeSizes, mem_mapIdx]
  constructor
  · rintro ⟨i, bound, rfl⟩
    exact ⟨rows[i], List.getElem?_eq_getElem bound, rfl⟩
  · rintro ⟨row, there, same⟩
    obtain ⟨bound, rfl⟩ := List.getElem?_eq_some_iff.mp there
    exact ⟨size.2, bound, Prod.ext same.symm rfl⟩

theorem largest_some {size : Nat × Nat} (found : largest rows = some size) :
    ∃ row, rows[size.2]? = some row ∧ row.isFree = true ∧ row.count = size.1 ∧
      ∀ other ∈ rows, other.isFree = true → other.count ≤ row.count := by
  have best := bestOf_eq_some_iff.mp found
  obtain ⟨_, _, whole, -, -⟩ := best.place
  have member : size ∈ freeSizes rows := by
    rw [whole]
    exact mem_append_right _ mem_cons_self
  obtain ⟨row, there, key⟩ := mem_freeSizes.mp member
  have above := best.above
  rw [key] at above
  split at key <;> rename_i isFree
  · refine ⟨row, there, isFree, key.symm, fun other inside otherFree => ?_⟩
    obtain ⟨i, place⟩ := List.getElem?_of_mem inside
    have listed : (other.count, i) ∈ freeSizes rows := mem_freeSizes.mpr ⟨other, place, by rw [if_pos otherFree]⟩
    exact (best.le listed rfl).trans_eq key
  · rw [if_neg isFree] at above
    exact absurd above (Nat.lt_irrefl 0)

theorem largest_none : largest rows = none ↔ ∀ row ∈ rows, row.isFree = true → row.count = 0 := by
  rw [largest, bestOf_eq_none_iff]
  constructor
  · intro small row member isFree
    obtain ⟨i, place⟩ := List.getElem?_of_mem member
    have listed : (row.count, i) ∈ freeSizes rows := mem_freeSizes.mpr ⟨row, place, by rw [if_pos isFree]⟩
    exact Nat.le_zero.mp (small _ listed rfl)
  · intro empty size member _
    obtain ⟨row, there, key⟩ := mem_freeSizes.mp member
    rw [key]
    split <;> rename_i isFree
    · exact (empty row (mem_of_getElem? there) isFree).le
    · exact le_rfl

theorem Listed.freeSector_iff (listed : Listed device device.partitions s)
    (whole : s.sector = (deviceSpan device).stop) (n : Nat) :
    FreeSector device n ↔ ∃ row ∈ s.rows, row.isFree = true ∧ (rowSpan row).Holds n := by
  have isUsed : ∀ row, row ∈ s.rows ∧ row.isFree = false ↔ ∃ part ∈ device.partitions, usedRow device part = row := by
    intro row
    rw [← List.mem_map, ← listed.used, mem_filter, Bool.not_eq_true']
  have tiled := listed.tiles
  rw [whole] at tiled
  constructor
  · rintro ⟨inside, outside⟩
    obtain ⟨_, member, holds⟩ := tiled.covered inside.1 inside.2
    obtain ⟨row, there, rfl⟩ := List.mem_map.mp member
    refine ⟨row, there, ?_, holds⟩
    cases isFree : row.isFree with
    | true => rfl
    | false =>
      obtain ⟨part, listedPart, rfl⟩ := (isUsed row).mp ⟨there, isFree⟩
      exact absurd holds (outside part listedPart)
  · rintro ⟨row, there, isFree, holds⟩
    have bounds := tiled.inside (List.mem_map_of_mem there)
    refine ⟨⟨bounds.1.trans holds.1, holds.2.trans_le bounds.2⟩, fun part member taken => ?_⟩
    obtain ⟨usedThere, usedNot⟩ := (isUsed _).mpr ⟨part, member, rfl⟩
    obtain ⟨i, place⟩ := List.getElem?_of_mem there
    obtain ⟨j, usedPlace⟩ := List.getElem?_of_mem usedThere
    have first : (s.rows.map rowSpan)[i]? = some (rowSpan row) := by rw [List.getElem?_map, place, map_some]
    have second : (s.rows.map rowSpan)[j]? = some (partSpan part) := by
      rw [List.getElem?_map, usedPlace, map_some]
      rfl
    have same := tiled.holds_unique first second holds taken
    subst same
    cases place.symm.trans usedPlace
    exact Bool.false_ne_true (usedNot.symm.trans isFree)

/-- What the dialog shows of a device: rows that tile it, the partitions among them, and the largest free row chosen. -/
structure Exact (device : Vdev) (d : Dialog) : Prop where
  tiles : Tiles (deviceSpan device).start (d.rows.map rowSpan) (deviceSpan device).stop
  used : d.rows.filter (!·.isFree) = device.partitions.map (usedRow device)
  nonempty : ∀ row ∈ d.rows, row.isFree → 0 < row.count
  apart : d.rows.IsChain fun a b => ¬ (a.isFree ∧ b.isFree)
  preselected : ∀ item, d.currentItem = some item → ∃ row, d.rows[item]? = some row ∧ row.isFree = true ∧
    (∀ other ∈ d.rows, other.isFree = true → other.count ≤ row.count) ∧ d.largestFree = some row.bytes
  full : d.currentItem = none ↔ ∀ n, ¬ FreeSector device n

/-- For every device with its partitions in order, the dialog shows exactly them and the free ranges between them. -/
theorem setDevice_exact (device : Vdev) (arranged : Arranged device) : Exact device (setDevice device) := by
  have listed := listDevice_listed arranged
  have rows := (setDevice_keeps device).rows
  have current := (setDevice_keeps device).currentItem
  refine ⟨?_, ?_, ?_, ?_, ?_, ?_⟩
  · rw [rows]
    exact listed.tiles
  · rw [rows]
    exact listed.used
  · rw [rows]
    exact fun row member isFree => (listed.positive row member isFree).1
  · rw [rows]
    exact listed.apart
  · intro item chosen
    rw [current, listed.item] at chosen
    obtain ⟨size, found, rfl⟩ := map_eq_some_iff.mp chosen
    obtain ⟨row, there, isFree, count, most⟩ := largest_some found
    have size_ := listed.size
    rw [found, elim_some, ← count] at size_
    refine ⟨row, by rw [rows]; exact there, isFree, by rw [rows]; exact most, ?_⟩
    rw [setDevice_largestFree, listed.item, found, map_some, map_some]
    rw [size_, (listed.positive row (mem_of_getElem? there) isFree).2]
  · rw [current, listed.item, map_eq_none_iff, largest_none]
    constructor
    · intro empty n isFree
      obtain ⟨row, there, free, -⟩ := (listed.freeSector_iff rfl n).mp isFree
      exact absurd (empty row there free) (listed.positive row there free).1.ne'
    · intro taken row there isFree
      by_contra some_
      have holds : (rowSpan row).Holds row.start := ⟨le_rfl, Nat.lt_add_of_pos_right (Nat.pos_of_ne_zero some_)⟩
      exact taken row.start ((listed.freeSector_iff rfl _).mpr ⟨row, there, isFree, holds⟩)

/-- A disk with a gap before its first partition, none between the two, and a gap behind the second. -/
def gapped : Vdev :=
  { sectorSize := 512, sectorStart := 34, sectorsCount := 1000,
    partitions := [{ level := 1, sectorStart := 40, sectorsCount := 100 },
    { level := 1, sectorStart := 140, sectorsCount := 60 }] }

example : (listDevice gapped).rows.map rowSpan = [⟨34, 6⟩, ⟨40, 100⟩, ⟨140, 60⟩, ⟨200, 834⟩] := by decide

theorem gapped_exact : Exact gapped (setDevice gapped) := by
  apply setDevice_exact gapped
  refine ⟨by decide, by decide, by decide, ?_, by decide⟩
  apply List.Pairwise.cons _ (pairwise_singleton _ _)
  intro part member n both
  rw [mem_singleton] at member
  subst member
  have below := both.1.2
  have above := both.2.1
  simp only [partSpan, Span.stop] at below above
  omega

end Pcbsd.Proofs.FreeRows
