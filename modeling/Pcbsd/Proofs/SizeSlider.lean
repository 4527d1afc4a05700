import Pcbsd.Zmanager.PartitionDialog

/-! The slider of the partition dialog: which size is shown, and which size is used. -/

namespace Pcbsd.Proofs.SizeSlider
open Zmanager Zmanager.PartitionDialog Option

def Countable (granularity : Nat) (row : Row) : Prop := row.count < 2 ^ 31 * 2 ^ granularity

/-- The steps that go well: a free row that the slider can count is chosen, and another unit only while the slider's
units are sectors or the slider is at its start. -/
def Meets (d : Dialog) : Action → Prop
  | .select item => ∀ row, d.rows[item]? = some row → row.isFree = true → Countable d.granularity row
  | .move _ => True
  | .chooseUnit _ => d.granularity = 0 ∨ d.sliderPosition = 0

def MeetsAtStart (device : Vdev) : Prop :=
  ∀ item, (listDevice device).maxspaceitem = some item → Meets (opened device) (.select item)

/-- The dialog behind some actions, the latest first, of which each was one that `good` allows. -/
inductive Run (good : Dialog → Action → Prop) (device : Vdev) : List Action → Dialog → Prop where
  | start : Run good device [] (setDevice device)
  | next {done : List Action} {d next : Dialog} {action : Action} (run : Run good device done d) (met : good d action)
      (stepped : step d action = some next) : Run good device (action :: done) next

def JustSelected : List Action → Prop
  | [] => True
  | .select _ :: _ => True
  | _ => False

def sectorSize (d : Dialog) : Nat := ofInt d.device.sectorSize

/-- The text is the size of some sectors, in the chosen unit: the product as the code computes it, and the real one if
that of the whole row fits. They are the sectors that would be created, or right after the choice of the row less than
a unit of the slider more. -/
def Denotes (done : List Action) (d : Dialog) (row : Row) : Prop :=
  ∃ sectors, d.sizeText = .shown (ull (sectors * sectorSize d)) d.unit ∧
    (row.count * sectorSize d < 2 ^ 64 → ull (sectors * sectorSize d) = sectors * sectorSize d) ∧
    (sectors = d.getSectorCount ∨ JustSelected done ∧ d.getSectorCount ≤ sectors ∧ sectors < d.getSectorCount + 2 ^ d.granularity)

structure Shows (done : List Action) (d : Dialog) (row : Row) : Prop where
  limit : 0 ≤ d.sliderLimit row ∧ d.sliderLimit row = (row.count >>> d.granularity : Nat)
  range : d.maximum = d.sliderLimit row
  position : 0 ≤ d.sliderPosition ∧ d.sliderPosition ≤ d.maximum
  count : d.getSectorCount ≤ row.count
  text : Denotes done d row

variable {d next : Dialog} {device : Vdev} {row : Row} {done : List Action} {action : Action} {item : Nat}

theorem bmod_natCast {n m : Nat} (small : 2 * n < m) : Int.bmod n m = n := by
  apply Int.bmod_eq_of_le <;> omega

theorem intOf_small {n : Nat} (small : n < 2 ^ 31) : intOf n = n := by
  apply bmod_natCast
  omega

theorem ofInt_natCast {n : Nat} (small : n < 2 ^ 31) : ofInt n = n := by
  rw [ofInt]
  omega

theorem ofInt_toNat {i : Int} (least : 0 ≤ i) (small : i < 2 ^ 31) : ofInt i = i.toNat := by
  rw [ofInt]
  omega

theorem granularityOf_le {temp bits : Nat} (small : temp ≤ 2 ^ (31 + bits)) : granularityOf temp ≤ bits := by
  induction bits generalizing temp with
  | zero =>
    rw [granularityOf, if_neg (not_lt.mpr small)]
  | succ bits ih =>
    rw [granularityOf]
    split
    · apply Nat.succ_le_succ
      apply ih
      rw [← Nat.add_assoc, Nat.pow_succ] at small
      omega
    · exact Nat.zero_le _

theorem shiftRight_small (countable : Countable d.granularity row) : row.count >>> d.granularity < 2 ^ 31 := by
  rw [Nat.shiftRight_eq_div_pow]
  exact Nat.div_lt_of_lt_mul (by rw [Nat.mul_comm]; exact countable)

theorem sliderLimit_eq (countable : Countable d.granularity row) :
    d.sliderLimit row = (row.count >>> d.granularity : Nat) :=
  intOf_small (shiftRight_small countable)

theorem getSectorCount_le (least : 0 ≤ d.sliderPosition) (most : d.sliderPosition ≤ (row.count >>> d.granularity : Nat))
    (countable : Countable d.granularity row) : d.getSectorCount ≤ row.count := by
  have small := shiftRight_small countable
  rw [Dialog.getSectorCount, ofInt_toNat least (by omega), Nat.shiftLeft_eq]
  apply (Nat.mod_le _ _).trans
  calc d.sliderPosition.toNat * 2 ^ d.granularity
      ≤ (row.count >>> d.granularity) * 2 ^ d.granularity := Nat.mul_le_mul_right _ (by omega)
    _ ≤ row.count := by rw [Nat.shiftRight_eq_div_pow]; exact Nat.div_mul_le_self _ _

theorem lt_getSectorCount (limit : d.sliderPosition = (row.count >>> d.granularity : Nat))
    (countable : Countable d.granularity row) (granularity : d.granularity ≤ 32) :
    row.count < d.getSectorCount + 2 ^ d.granularity := by
  have small := shiftRight_small countable
  have product : row.count / 2 ^ d.granularity * 2 ^ d.granularity < 2 ^ 64 := by
    calc row.count / 2 ^ d.granularity * 2 ^ d.granularity
        ≤ row.count := Nat.div_mul_le_self _ _
      _ < 2 ^ 31 * 2 ^ d.granularity := countable
      _ ≤ 2 ^ 31 * 2 ^ 32 := Nat.mul_le_mul_left _ (Nat.pow_le_pow_right (by omega) granularity)
      _ < 2 ^ 64 := by decide
  rw [Dialog.getSectorCount, limit, ofInt_natCast small, Nat.shiftLeft_eq, Nat.shiftRight_eq_div_pow, ull,
    Nat.mod_eq_of_lt product]
  have split_ := Nat.div_add_mod row.count (2 ^ d.granularity)
  rw [Nat.mul_comm] at split_
  omega

theorem setSliderPosition_position {position : Int} (least : 0 ≤ position) (most : position ≤ d.maximum) :
    (d.setSliderPosition position).sliderPosition = position := by
  have bound : max 0 (min d.maximum position) = position := by omega
  rw [Dialog.setSliderPosition, bound]
  split <;> rename_i same
  · exact same.symm
  · rfl

theorem setSliderPosition_maximum (position : Int) : (d.setSliderPosition position).maximum = d.maximum := by
  rw [Dialog.setSliderPosition]
  split <;> rfl

theorem setRange_maximum {maximum : Int} (least : 0 ≤ maximum) : (d.setRange maximum).maximum = maximum := by
  rw [Dialog.setRange, setSliderPosition_maximum, max_eq_right least]

theorem exact_product (sectors : Nat) (inside : sectors ≤ row.count) (fits : row.count * sectorSize d < 2 ^ 64) :
    ull (sectors * sectorSize d) = sectors * sectorSize d :=
  Nat.mod_eq_of_lt ((Nat.mul_le_mul_right _ inside).trans_lt fits)

structure Ranged (d : Dialog) (row : Row) : Prop where
  countable : Countable d.granularity row
  range : d.maximum = (row.count >>> d.granularity : Nat)
  least : 0 ≤ d.sliderPosition
  most : d.sliderPosition ≤ d.maximum

theorem Ranged.shows (ranged : Ranged d row) (text : Denotes done d row) : Shows done d row where
  limit := ⟨(sliderLimit_eq ranged.countable).symm ▸ Int.natCast_nonneg _, sliderLimit_eq ranged.countable⟩
  range := ranged.range.trans (sliderLimit_eq ranged.countable).symm
  position := ⟨ranged.least, ranged.most⟩
  count := getSectorCount_le ranged.least (ranged.range ▸ ranged.most) ranged.countable
  text := text

theorem Shows.ranged (shows : Shows done d row) (countable : Countable d.granularity row) : Ranged d row where
  countable := countable
  range := shows.range.trans shows.limit.2
  least := shows.position.1
  most := shows.position.2

theorem Ranged.withText (ranged : Ranged d row) (sizeText : SizeText) : Ranged { d with sizeText } row :=
  ⟨ranged.countable, ranged.range, ranged.least, ranged.most⟩

theorem Ranged.denotes_current (ranged : Ranged d row)
    (text : d.sizeText = .shown (bytesOf d.device d.getSectorCount) d.unit) :
    Denotes done d row :=
  ⟨d.getSectorCount, text, exact_product _
    (getSectorCount_le ranged.least (ranged.range ▸ ranged.most) ranged.countable), Or.inl rfl⟩

theorem choose_shows (isFree : row.isFree = true) (countable : Countable d.granularity row)
    (granularity : d.granularity ≤ 32) (fresh : JustSelected done) :
    Shows done (d.onDevLayoutCurrentItemChanged row) row := by
  obtain ⟨_, after, limited, kept, same⟩ := Dialog.onDevLayoutCurrentItemChanged_free d isFree
  have limit := sliderLimit_eq countable
  have least : 0 ≤ d.sliderLimit row := limit.symm ▸ Int.natCast_nonneg _
  have position : after.sliderPosition = d.sliderLimit row := by
    rw [limited]
    exact setSliderPosition_position least (setRange_maximum least).ge
  have maximum : after.maximum = d.sliderLimit row := by
    rw [limited, setSliderPosition_maximum]
    exact setRange_maximum least
  have countable_ := kept.granularity.symm ▸ countable
  have ranged : Ranged after row := by
    refine ⟨countable_, ?_, position.symm ▸ least, (position.trans maximum.symm).le⟩
    rw [maximum, limit, kept.granularity]
  rw [same]
  apply (ranged.withText _).shows
  refine ⟨row.count, ?_, exact_product _ le_rfl, Or.inr ⟨fresh, ?_, ?_⟩⟩
  · rw [sectorSize, kept.device, bytesOf]
  · exact getSectorCount_le ranged.least (ranged.range ▸ ranged.most) countable_
  · apply lt_getSectorCount _ countable_ (kept.granularity.symm ▸ granularity)
    rw [position, limit, kept.granularity]

theorem move_shows {position : Int} (ranged : Ranged d row) (least : 0 ≤ position) (most : position ≤ d.maximum)
    (moved : position ≠ d.sliderPosition) :
    Shows done (d.setSliderPosition position) row ∧ Ranged (d.setSliderPosition position) row := by
  have bound : max 0 (min d.maximum position) = position := by omega
  have same : d.setSliderPosition position = Dialog.onSizeSliderValueChanged { d with sliderPosition := position } := by
    rw [Dialog.setSliderPosition, bound, if_neg moved]
  have next : Ranged { d with sliderPosition := position } row := ⟨ranged.countable, ranged.range, least, most⟩
  rw [same]
  exact ⟨(next.withText _).shows ((next.withText _).denotes_current rfl), next.withText _⟩

theorem unit_shows {index : Nat} (ranged : Ranged d row) (changed : index ≠ d.unit)
    (met : d.granularity = 0 ∨ d.sliderPosition = 0) :
    Shows done (d.setCurrentIndex index) row ∧ Ranged (d.setCurrentIndex index) row := by
  have same : d.setCurrentIndex index = Dialog.onSizeSelectCurrentIndexChanged { d with unit := index } := by
    rw [Dialog.setCurrentIndex, if_neg changed]
  have next : Ranged { d with unit := index } row := ⟨ranged.countable, ranged.range, ranged.least, ranged.most⟩
  have plain : ofInt d.sliderPosition = d.getSectorCount := by
    rw [Dialog.getSectorCount]
    rcases met with sectors | start
    · have small := shiftRight_small ranged.countable
      have most := ranged.range ▸ ranged.most
      rw [sectors, Nat.shiftLeft_zero, ofInt_toNat ranged.least (by omega), ull, Nat.mod_eq_of_lt (by omega)]
    · rw [start]
      have zero : ofInt 0 = 0 := by decide
      rw [zero, Nat.zero_shiftLeft]
      rfl
  rw [same]
  have text : SizeText.shown (bytesOf d.device (ofInt d.sliderPosition)) index =
    .shown (bytesOf d.device d.getSectorCount) index := by
    rw [plain]
  exact ⟨(next.withText _).shows ((next.withText _).denotes_current text), next.withText _⟩

structure Kept (device : Vdev) (done : List Action) (d : Dialog) : Prop where
  granularity : d.granularity = granularityOf device.sectorsCount
  rows : d.rows = (listDevice device).rows
  shows : ∀ item row, d.currentItem = some item → d.rows[item]? = some row → row.isFree = true →
    Shows done d row ∧ Ranged d row

theorem Kept.select {before : Dialog} (granularity : before.granularity = granularityOf device.sectorsCount)
    (rows : before.rows = (listDevice device).rows) (small : device.sectorsCount ≤ 2 ^ 63)
    (new : before.currentItem ≠ some item) (fresh : JustSelected done)
    (met : ∀ row, before.rows[item]? = some row → row.isFree = true → Countable before.granularity row) :
    Kept device done (before.setCurrentItem item) := by
  have kept := Dialog.setCurrentItem_keeps before item
  refine ⟨kept.granularity.trans granularity, kept.rows.trans rows, fun other row current there isFree => ?_⟩
  cases kept.currentItem.symm.trans current
  rw [kept.rows] at there
  have countable := met row there isFree
  have most : before.granularity ≤ 32 := granularity ▸ granularityOf_le small
  rw [Dialog.setCurrentItem_new before new there]
  have shows := choose_shows (d := { before with currentItem := some item }) isFree countable most fresh
  refine ⟨shows, shows.ranged ?_⟩
  rw [(Dialog.onDevLayoutCurrentItemChanged_keeps _ row).granularity]
  exact countable

variable (small : device.sectorsCount ≤ 2 ^ 63)

include small

theorem Kept.start (met : MeetsAtStart device) : Kept device [] (setDevice device) := by
  have kept := setDevice_keeps device
  refine ⟨kept.granularity, kept.rows, fun item row current there isFree => ?_⟩
  have chosen : (listDevice device).maxspaceitem = some item := kept.currentItem.symm.trans current
  have place := kept.rows ▸ there
  have fresh : JustSelected [] := trivial
  have first : Kept device [] ((opened device).setCurrentItem item) := by
    apply Kept.select rfl rfl small (some_ne_none item).symm fresh
    exact met item chosen
  have same : setDevice device =
      { (opened device).setCurrentItem item with largestFree := some (bytesOf device (listDevice device).maxsectorcount) } := by
    rw [setDevice, chosen]
    rfl
  have now := Dialog.setCurrentItem_keeps (opened device) item
  have shown := first.shows item row now.currentItem (now.rows ▸ place) isFree
  rw [same]
  exact ⟨⟨shown.1.limit, shown.1.range, shown.1.position, shown.1.count, shown.1.text⟩,
    ⟨shown.2.countable, shown.2.range, shown.2.least, shown.2.most⟩⟩

theorem Kept.step (kept : Kept device done d) (met : Meets d action)
    (stepped : PartitionDialog.step d action = some next) : Kept device (action :: done) next := by
  cases action with
  | select item =>
    obtain ⟨can, same⟩ := ite_none_right_eq_some.mp stepped
    cases same
    exact Kept.select kept.granularity kept.rows small can.2 trivial met
  | move position =>
    obtain ⟨can, same⟩ := ite_none_right_eq_some.mp stepped
    cases same
    have moved := Dialog.setSliderPosition_keeps d position
    refine ⟨moved.granularity.trans kept.granularity, moved.rows.trans kept.rows, fun item row current there isFree => ?_⟩
    have before := (kept.shows item row (moved.currentItem ▸ current) (moved.rows ▸ there) isFree).2
    exact move_shows before can.2.1 can.2.2.1 can.2.2.2
  | chooseUnit index =>
    obtain ⟨can, same⟩ := ite_none_right_eq_some.mp stepped
    cases same
    have changed := Dialog.setCurrentIndex_keeps d index
    refine ⟨changed.granularity.trans kept.granularity, changed.rows.trans kept.rows, fun item row current there isFree => ?_⟩
    have before := (kept.shows item row (changed.currentItem ▸ current) (changed.rows ▸ there) isFree).2
    exact unit_shows before can.2.2 met

theorem Run.kept (met : MeetsAtStart device) (run : Run Meets device done d) :
    Kept device done d := by
  induction run with
  | start => exact Kept.start small met
  | next _ good stepped ih => exact ih.step small good stepped

omit small

/-- In a run of good steps the size shown is the size created. -/
theorem size_shown_is_size_created (device : Vdev) (done : List Action) (d : Dialog) (item : Nat) (row : Row)
    (small : device.sectorsCount ≤ 2 ^ 63) (met : MeetsAtStart device) (run : Run Meets device done d)
    (current : d.currentItem = some item) (there : d.rows[item]? = some row) (isFree : row.isFree = true) :
    Shows done d row :=
  ((run.kept small met).shows item row current there isFree).1

/-- A slice of 1.5 TiB that is all free: a unit of its slider is two sectors. -/
def coarse : Vdev := { level := 1, sectorSize := 512, sectorsCount := 0xC0000000 }

theorem coarse_granularity : granularityOf coarse.sectorsCount = 1 := by
  rw [granularityOf, if_pos (by decide), granularityOf, if_neg (by decide)]

def coarseRow : Row := ⟨freeTitle, 0, 0xC0000000, 0x18000000000⟩

theorem coarse_countable : Countable 1 coarseRow := by
  rw [Countable]
  decide

theorem coarse_meets : MeetsAtStart coarse := by
  intro item chosen row there _
  cases (show some 0 = some item from chosen)
  cases (show some coarseRow = some row from there)
  rw [opened, coarse_granularity]
  exact coarse_countable

theorem coarse_opened :
    (setDevice coarse).granularity = 1 ∧ (setDevice coarse).currentItem = some 0 ∧ (setDevice coarse).rows =
    [coarseRow] ∧
    (setDevice coarse).maximum = 0x60000000 ∧ (setDevice coarse).sliderPosition = 0x60000000 ∧
    (setDevice coarse).sliderEnabled = true ∧
    (setDevice coarse).unit = 4 ∧ (setDevice coarse).unitEnabled = true := by
  rw [setDevice, coarse_granularity]
  decide

theorem coarse_moved : Shows [.move 1000] ((setDevice coarse).setSliderPosition 1000) coarseRow := by
  obtain ⟨-, current, rows, maximum, position, enabled, -⟩ := coarse_opened
  have kept := Dialog.setSliderPosition_keeps (setDevice coarse) 1000
  have stepped : step (setDevice coarse) (.move 1000) = some ((setDevice coarse).setSliderPosition 1000) := by
    rw [step, if_pos]
    rw [maximum, position, enabled]
    decide
  have run : Run Meets coarse [.move 1000] ((setDevice coarse).setSliderPosition 1000) :=
    Run.next .start True.intro stepped
  apply size_shown_is_size_created coarse _ _ 0 coarseRow (by decide) coarse_meets run
  · rw [kept.currentItem, current]
  · rw [kept.rows, rows]
    rfl
  · decide

example : intOf (2 ^ 31) = -2 ^ 31 := by decide

/-- With another unit only half of the size is shown. -/
theorem chosen_unit_halves_size : ¬ ∀ (device : Vdev) (done : List Action) (d : Dialog) (item : Nat) (row : Row),
    device.sectorsCount ≤ 2 ^ 63 → Run (fun _ _ => True) device done d → d.currentItem = some item →
      d.rows[item]? = some row → row.isFree = true → Shows done d row := by
  intro claim
  obtain ⟨granularity, current, rows, -, position, -, unit, enabled⟩ := coarse_opened
  have kept := Dialog.setCurrentIndex_keeps (setDevice coarse) 0
  have stepped : step (setDevice coarse) (.chooseUnit 0) = some ((setDevice coarse).setCurrentIndex 0) := by
    rw [step, if_pos]
    rw [unit, enabled]
    decide
  have run : Run (fun _ _ => True) coarse [.chooseUnit 0] ((setDevice coarse).setCurrentIndex 0) :=
    Run.next .start True.intro stepped
  have shows := claim coarse _ _ 0 coarseRow (by decide) run (kept.currentItem.trans current)
    (by rw [kept.rows, rows]; rfl) (by decide)
  obtain ⟨_, text, -, same | selected⟩ := shows.text
  · obtain ⟨written, unit_, position_⟩ := @Dialog.setCurrentIndex_new (setDevice coarse) 0 (by rw [unit]; decide)
    rw [same, written, unit_, sectorSize, kept.device, Dialog.getSectorCount, position_, kept.granularity,
      position, granularity, (setDevice_keeps coarse).device] at text
    exact absurd text (by decide)
  · exact selected.1

end Pcbsd.Proofs.SizeSlider
