import Pcbsd.Lib.Tiling
import Pcbsd.Zmanager.Device

/-! The dialog of pc-zmanager for a new partition, dialogpartition.cpp: the rows it lists of a device, and its slider
for the size. A number that the code prints into a row and reads back from there is kept as the number. -/

namespace Pcbsd.Zmanager.PartitionDialog
open Lib

def ull (n : Nat) : Nat := n % 2 ^ 64

def intOf (n : Nat) : Int := Int.bmod n (2 ^ 32)

def ofInt (i : Int) : Nat := (i % 2 ^ 64).toNat

def freeTitle : Bytes := ascii ['*', '*', ' ', 'F', 'R', 'E', 'E', ' ', '*', '*']

structure Row where
  title : Bytes
  start : Nat
  count : Nat
  bytes : Nat
  deriving DecidableEq

def Row.isFree (row : Row) : Bool := row.title = freeTitle

def bytesOf (device : Vdev) (sectors : Nat) : Nat := ull (sectors * ofInt device.sectorSize)

structure Listing where
  rows : List Row := []
  sector : Nat
  maxsectorcount : Nat := 0
  maxspaceitem : Option Nat := none

def freeRow (device : Vdev) (start count : Nat) : Row := ⟨freeTitle, start, count, bytesOf device count⟩

def usedRow (device part : Vdev) : Row :=
  ⟨part.name ++ [0x20, 0x5B] ++ part.partType ++ [0x5D], part.sectorStart, part.sectorsCount, bytesOf device part.sectorsCount⟩

/-- A row for the space from the cursor on; it is remembered when it is larger than those before. -/
def Listing.addFree (device : Vdev) (s : Listing) (count : Nat) : Listing :=
  let rows := s.rows ++ [freeRow device s.sector count]
  if s.maxsectorcount < count then { s with rows, maxspaceitem := some s.rows.length, maxsectorcount := count }
    else { s with rows }

/-- The space before a partition, if there is any, and the partition. -/
def listPartition (device : Vdev) (s : Listing) (part : Vdev) : Listing :=
  let s := if s.sector < part.sectorStart then { s.addFree device
    (part.sectorStart - s.sector) with sector := part.sectorStart } else s
  { s with rows := s.rows ++ [usedRow device part], sector := ull (part.sectorStart + part.sectorsCount) }

def firstSector (device : Vdev) : Nat := if device.level = 0 then device.sectorStart else 0

def listDevice (device : Vdev) : Listing :=
  let s := device.partitions.foldl (listPartition device) { sector := firstSector device }
  let stop := ull (firstSector device + device.sectorsCount)
  if s.sector < stop then s.addFree device (stop - s.sector) else s

/-- How often the number of sectors is halved until the slider can count them. -/
def granularityOf (temp : Nat) : Nat := if 2 ^ 31 < temp then granularityOf (temp / 2) + 1 else 0

def printUnits (bytes : Nat) : Nat :=
  if bytes < 2 * 1024 then 0
  else if bytes < 2 * 1024 * 1024 then 1
  else if bytes < 1024 * 1024 * 1024 then 2
  else if bytes < 1024 * 1024 * 1024 * 1024 then 3
  else 4

/-- What SizeText shows: nothing, or printBytes of a number of bytes in a unit. -/
inductive SizeText where
  | blank
  | shown (bytes unit : Nat)
  deriving DecidableEq

/-- The dialog: the device, and the state of its widgets devLayout, sizeSlider, SizeSelect, SizeText and
devLargestFree. -/
structure Dialog where
  device : Vdev
  granularity : Nat
  rows : List Row
  currentItem : Option Nat := none
  maximum : Int := 99
  sliderPosition : Int := 0
  sliderEnabled : Bool := true
  unit : Nat := 0
  unitEnabled : Bool := true
  sizeText : SizeText := .blank
  largestFree : Option Nat := none

namespace Dialog

def getSectorCount (d : Dialog) : Nat := ull (ofInt d.sliderPosition <<< d.granularity)

def onSizeSelectCurrentIndexChanged (d : Dialog) : Dialog :=
  { d with sizeText := .shown (bytesOf d.device (ofInt d.sliderPosition)) d.unit }

def onSizeSliderValueChanged (d : Dialog) : Dialog :=
  { d with sizeText := .shown (bytesOf d.device (ull (ofInt d.sliderPosition <<< d.granularity))) d.unit }

/-- QAbstractSlider::setSliderPosition with tracking on: a position outside of the range is moved into it, and a new
one is announced. -/
def setSliderPosition (d : Dialog) (position : Int) : Dialog :=
  let position := max 0 (min d.maximum position)
  if position = d.sliderPosition then d else onSizeSliderValueChanged { d with sliderPosition := position }

def setRange (d : Dialog) (maximum : Int) : Dialog :=
  setSliderPosition { d with maximum := max 0 maximum } d.sliderPosition

def setCurrentIndex (d : Dialog) (index : Nat) : Dialog :=
  if index = d.unit then d else onSizeSelectCurrentIndexChanged { d with unit := index }

/-- The maximum and the position that the slider gets for a free row. -/
def sliderLimit (d : Dialog) (row : Row) : Int := intOf (row.count >>> d.granularity)

def onDevLayoutCurrentItemChanged (d : Dialog) (row : Row) : Dialog :=
  if row.isFree then
    let bytes := bytesOf d.device row.count
    let limit := d.sliderLimit row
    let d := { d with unitEnabled := true }
    let d := d.setCurrentIndex (printUnits bytes)
    let d := d.setRange limit
    let d := d.setSliderPosition limit
    { d with sizeText := .shown bytes d.unit }
  else
    let d := { d with unitEnabled := false, sizeText := .blank }
    { d.setRange 0 with sliderEnabled := false }

def setCurrentItem (d : Dialog) (item : Nat) : Dialog :=
  if d.currentItem = some item then d
  else
    let d := { d with currentItem := some item }
    match d.rows[item]? with
    | none => d
    | some row => d.onDevLayoutCurrentItemChanged row

structure Keeps (d next : Dialog) : Prop where
  device : next.device = d.device
  granularity : next.granularity = d.granularity
  rows : next.rows = d.rows
  currentItem : next.currentItem = d.currentItem

theorem Keeps.trans {a b c : Dialog} (first : Keeps a b) (second : Keeps b c) : Keeps a c :=
  ⟨second.device.trans first.device, second.granularity.trans first.granularity, second.rows.trans first.rows,
    second.currentItem.trans first.currentItem⟩

variable (d : Dialog)

theorem setSliderPosition_keeps (position : Int) : Keeps d (d.setSliderPosition position) := by
  rw [setSliderPosition]
  split <;> exact ⟨rfl, rfl, rfl, rfl⟩

theorem setRange_keeps (maximum : Int) : Keeps d (d.setRange maximum) :=
  Keeps.trans (b := { d with maximum := max 0 maximum }) ⟨rfl, rfl, rfl, rfl⟩ (setSliderPosition_keeps _ _)

theorem withText_keeps (sizeText : SizeText) : Keeps d { d with sizeText } := ⟨rfl, rfl, rfl, rfl⟩

theorem withUnit_keeps (unitEnabled : Bool) : Keeps d { d with unitEnabled } := ⟨rfl, rfl, rfl, rfl⟩

theorem withSlider_keeps (sliderEnabled : Bool) : Keeps d { d with sliderEnabled } := ⟨rfl, rfl, rfl, rfl⟩

theorem setCurrentIndex_keeps (index : Nat) : Keeps d (d.setCurrentIndex index) := by
  rw [setCurrentIndex]
  split <;> exact ⟨rfl, rfl, rfl, rfl⟩

theorem setCurrentIndex_new {index : Nat} (changed : index ≠ d.unit) :
    (d.setCurrentIndex index).sizeText = .shown (bytesOf d.device (ofInt d.sliderPosition)) index ∧
      (d.setCurrentIndex index).unit = index ∧ (d.setCurrentIndex index).sliderPosition = d.sliderPosition := by
  rw [setCurrentIndex, if_neg changed]
  exact ⟨rfl, rfl, rfl⟩

/-- What the handler does with a free row: the slider gets its limit twice, and the text the size of the row. -/
theorem onDevLayoutCurrentItemChanged_free {row : Row} (isFree : row.isFree = true) :
    ∃ before after : Dialog, after = (before.setRange (d.sliderLimit row)).setSliderPosition (d.sliderLimit row) ∧ Keeps d after ∧
      d.onDevLayoutCurrentItemChanged row = { after with sizeText := .shown (bytesOf d.device row.count) after.unit } := by
  have unit := (withUnit_keeps d true).trans (setCurrentIndex_keeps _ (printUnits (bytesOf d.device row.count)))
  have range := unit.trans (setRange_keeps _ (d.sliderLimit row))
  have position := range.trans (setSliderPosition_keeps _ (d.sliderLimit row))
  refine ⟨_, _, rfl, position, ?_⟩
  rw [onDevLayoutCurrentItemChanged, if_pos isFree]

theorem onDevLayoutCurrentItemChanged_keeps (row : Row) : Keeps d (d.onDevLayoutCurrentItemChanged row) := by
  cases isFree : row.isFree with
  | true =>
    obtain ⟨_, _, -, kept, same⟩ := onDevLayoutCurrentItemChanged_free d isFree
    rw [same]
    exact kept.trans (withText_keeps _ _)
  | false =>
    rw [onDevLayoutCurrentItemChanged, if_neg (Bool.eq_false_iff.mp isFree)]
    have cleared := (withUnit_keeps d false).trans (withText_keeps _ .blank)
    have range := cleared.trans (setRange_keeps _ 0)
    exact range.trans (withSlider_keeps _ false)

theorem setCurrentItem_keeps (item : Nat) : Keeps { d with currentItem := some item } (d.setCurrentItem item) := by
  rw [setCurrentItem]
  split <;> rename_i same
  · exact ⟨rfl, rfl, rfl, same⟩
  · dsimp only
    split
    · exact ⟨rfl, rfl, rfl, rfl⟩
    · exact onDevLayoutCurrentItemChanged_keeps _ _

theorem setCurrentItem_new {item : Nat} {row : Row} (new : d.currentItem ≠ some item) (there : d.rows[item]? = some row) :
    d.setCurrentItem item = onDevLayoutCurrentItemChanged { d with currentItem := some item } row := by
  rw [setCurrentItem, if_neg new]
  dsimp only
  split <;> rename_i found
  · cases there.symm.trans found
  · cases there.symm.trans found
    rfl

end Dialog

def setDevice (device : Vdev) : Dialog :=
  let s := listDevice device
  let d : Dialog := { device, granularity := granularityOf device.sectorsCount, rows := s.rows }
  match s.maxspaceitem with
  | none =>
    let d := { d with unitEnabled := false }
    { d.setRange 0 with sliderEnabled := false, sizeText := .blank }
  | some item => { d.setCurrentItem item with largestFree := some (bytesOf device s.maxsectorcount) }

def opened (device : Vdev) : Dialog :=
  { device, granularity := granularityOf device.sectorsCount, rows := (listDevice device).rows }

theorem setDevice_keeps (device : Vdev) :
    Dialog.Keeps { opened device with currentItem := (listDevice device).maxspaceitem } (setDevice device) := by
  rw [setDevice]
  split <;> rename_i found
  · have range := Dialog.setRange_keeps { opened device with unitEnabled := false } 0
    exact ⟨range.device, range.granularity, range.rows, range.currentItem.trans found.symm⟩
  · rename_i item
    have chosen := Dialog.setCurrentItem_keeps (opened device) item
    exact ⟨chosen.device, chosen.granularity, chosen.rows, chosen.currentItem.trans found.symm⟩

theorem setDevice_largestFree (device : Vdev) :
    (setDevice device).largestFree = (listDevice device).maxspaceitem.map fun _ =>
      bytesOf device (listDevice device).maxsectorcount := by
  rw [setDevice]
  split <;> rename_i found
  · rw [found, Option.map_none]
    dsimp only [Dialog.setRange]
    rw [Dialog.setSliderPosition]
    split <;> rfl
  · rw [found, Option.map_some]

/-- What the user does: another row, the slider to another position, or another unit. -/
inductive Action where
  | select (item : Nat)
  | move (position : Int)
  | chooseUnit (index : Nat)

/-- The dialog after an action; `none` when a widget does not let the user do it, or when nothing is changed by it. -/
def step (d : Dialog) : Action → Option Dialog
  | .select item => if item < d.rows.length ∧ d.currentItem ≠ some item then some (d.setCurrentItem item) else none
  | .move position =>
    if d.sliderEnabled ∧ 0 ≤ position ∧ position ≤ d.maximum ∧ position ≠ d.sliderPosition then some
      (d.setSliderPosition position) else none
  | .chooseUnit index => if d.unitEnabled ∧ index < 5 ∧ index ≠ d.unit then some (d.setCurrentIndex index) else none

end Pcbsd.Zmanager.PartitionDialog
