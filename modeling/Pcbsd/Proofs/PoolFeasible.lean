import Pcbsd.Zmanager.PoolTypes

/-! The configuration type of a new pool always has devices enough. Every signal leaves the buttons of the types that
fit enabled and no others, and takes a smaller type when the checked one does not fit any more. -/

namespace Pcbsd.Zmanager.PoolTypes
open Lib Zmanager List

def minimum : RaidButton → Nat
  | .striped => 0
  | .mirror => 2
  | .raidz => 3
  | .raidz2 => 4
  | .raidz3 => 5
  | _ => 0

def raidTypes : List RaidButton := [.striped, .mirror, .raidz, .raidz2, .raidz3]

/-- A type that may be checked with so many devices. While the list is built the count is negative. -/
def Fits (count : Int) (kind : RaidButton) : Prop := kind ∈ raidTypes ∧ (kind = .striped ∨ minimum kind ≤ count)

/-- One button is checked, and it fits; so do those that can be clicked. -/
structure Buttons (d : NewPool) : Prop where
  one : ∃ kind, d.isChecked = (fun other => other == kind) ∧ Fits d.vdevcount kind
  enabled : ∀ button, d.enabled button = true → Fits d.vdevcount button

def demoted (count vdevcount : Int) (button smaller kind : RaidButton) : RaidButton :=
  if kind = button ∧ ¬count < vdevcount then smaller else kind

section
variable (d : NewPool) (count : Int) (button smaller : RaidButton)

@[simp] theorem offer_items : (d.offer count button smaller).items = d.items := by
  unfold NewPool.offer
  dsimp only
  split_ifs <;> rfl

@[simp] theorem offer_vdevcount : (d.offer count button smaller).vdevcount = d.vdevcount := by
  unfold NewPool.offer
  dsimp only
  split_ifs <;> rfl

@[simp] theorem offer_fixedtype : (d.offer count button smaller).fixedtype = d.fixedtype := by
  unfold NewPool.offer
  dsimp only
  split_ifs <;> rfl

theorem offer_enabled :
    (d.offer count button smaller).enabled = Function.update d.enabled button (decide (count < d.vdevcount)) := by
  unfold NewPool.offer
  dsimp only
  split_ifs with more
  · simp [NewPool.setEnabled, more]
  · simp [NewPool.setEnabled, NewPool.setChecked, more]
  · simp [NewPool.setEnabled, more]

variable {d}

theorem offer_checked {kind : RaidButton} (one : d.isChecked = fun other => other == kind) :
    (d.offer count button smaller).isChecked = fun other => other == demoted count d.vdevcount button smaller kind := by
  unfold NewPool.offer demoted NewPool.setEnabled NewPool.setChecked
  by_cases more : count < d.vdevcount
  · simp [more, one]
  · by_cases same : kind = button
    · simp [more, one, same]
    · simp [more, one, same, Ne.symm same]

@[simp] theorem offerMirror_items : d.offerMirror.items = d.items := by
  unfold NewPool.offerMirror
  dsimp only
  split_ifs <;> rfl

@[simp] theorem offerMirror_vdevcount : d.offerMirror.vdevcount = d.vdevcount := by
  unfold NewPool.offerMirror
  dsimp only
  split_ifs <;> rfl

@[simp] theorem offerMirror_fixedtype : d.offerMirror.fixedtype = d.fixedtype := by
  unfold NewPool.offerMirror
  dsimp only
  split_ifs <;> rfl

theorem offerMirror_enabled : d.offerMirror.enabled =
    Function.update (Function.update d.enabled .striped (decide (1 < d.vdevcount))) .mirror (decide (1 < d.vdevcount)) := by
  unfold NewPool.offerMirror
  dsimp only
  split_ifs with more
  · simp [NewPool.setEnabled, more]
  · simp [NewPool.setEnabled, NewPool.setChecked, more]
  · simp [NewPool.setEnabled, more]

theorem offerMirror_checked {kind : RaidButton} (one : d.isChecked = fun other => other == kind) :
    d.offerMirror.isChecked = fun other => other == demoted 1 d.vdevcount .mirror .striped kind := by
  unfold NewPool.offerMirror demoted NewPool.setEnabled NewPool.setChecked
  by_cases more : 1 < d.vdevcount
  · simp [more, one]
  · by_cases same : kind = .mirror
    · simp [more, one, same]
    · simp [more, one, same, Ne.symm same]

end

def offered (vdevcount : Int) (kind : RaidButton) : RaidButton :=
  demoted 1 vdevcount .mirror .striped
    (demoted 2 vdevcount .raidz .mirror (demoted 3 vdevcount .raidz2 .raidz (demoted 4 vdevcount .raidz3 .raidz2 kind)))

variable {kind : RaidButton} {d : NewPool}

theorem offered_fits (vdevcount : Int) (type : kind ∈ raidTypes) : Fits vdevcount (offered vdevcount kind) := by
  simp only [raidTypes, mem_cons, not_mem_nil, or_false] at type
  unfold offered demoted Fits
  rcases type with rfl | rfl | rfl | rfl | rfl <;> simp [raidTypes, minimum] <;> grind [minimum]

@[simp] theorem offers_items (d : NewPool) : d.offers.items = d.items := by simp [NewPool.offers]

@[simp] theorem offers_vdevcount (d : NewPool) : d.offers.vdevcount = d.vdevcount := by simp [NewPool.offers]

@[simp] theorem offers_fixedtype (d : NewPool) : d.offers.fixedtype = d.fixedtype := by simp [NewPool.offers]

theorem offers_checked (one : d.isChecked = fun other => other == kind) :
    d.offers.isChecked = fun other => other == offered d.vdevcount kind := by
  have first := offer_checked 4 .raidz3 .raidz2 one
  have second := offer_checked 3 .raidz2 .raidz first
  have third := offer_checked 2 .raidz .mirror second
  have last := offerMirror_checked third
  simp only [offer_vdevcount] at last
  exact last

theorem offers_enabled (d : NewPool) {button : RaidButton} (enabled : d.offers.enabled button = true) :
    d.enabled button = true ∧ button ∉ raidTypes ∨ Fits d.vdevcount button := by
  simp only [NewPool.offers, offerMirror_enabled, offer_enabled, offer_vdevcount] at enabled
  cases button <;> simp [Function.update, raidTypes, Fits, minimum] at enabled ⊢ <;> exact enabled

theorem offers_buttons (one : ∃ kind ∈ raidTypes, d.isChecked = fun other => other == kind)
    (others : ∀ button, d.enabled button = true → button ∈ raidTypes) : Buttons d.offers := by
  obtain ⟨kind, type, one⟩ := one
  constructor
  · refine ⟨offered d.vdevcount kind, offers_checked one, ?_⟩
    rw [offers_vdevcount]
    exact offered_fits d.vdevcount type
  · intro button enabled
    rw [offers_vdevcount]
    rcases offers_enabled d enabled with ⟨before, other⟩ | fits
    · exact absurd (others button before) other
    · exact fits

theorem itemChanged_buttons (buttons : Buttons d) (free : d.fixedtype = false) (checked : Bool) (column : Nat) :
    Buttons (d.onItemChanged checked column) := by
  unfold NewPool.onItemChanged
  split
  · simp only [free, Bool.false_eq_true, if_false]
    obtain ⟨kind, one, fits⟩ := buttons.one
    exact offers_buttons ⟨kind, fits.1, one⟩ fun button enabled => (buttons.enabled button enabled).1
  · exact buttons

@[simp] theorem itemChanged_items (d : NewPool) (checked : Bool) (column : Nat) :
    (d.onItemChanged checked column).items = d.items := by
  unfold NewPool.onItemChanged
  dsimp only
  split_ifs <;> simp

@[simp] theorem itemChanged_fixedtype (d : NewPool) (checked : Bool) (column : Nat) :
    (d.onItemChanged checked column).fixedtype = d.fixedtype := by
  unfold NewPool.onItemChanged
  dsimp only
  split_ifs <;> simp_all

theorem itemChanged_vdevcount (d : NewPool) (checked : Bool) :
    (d.onItemChanged checked 1).vdevcount = if checked then d.vdevcount + 1 else d.vdevcount - 1 := by
  unfold NewPool.onItemChanged
  dsimp only
  split_ifs <;> simp_all

structure Unchecked (d : NewPool) : Prop where
  free : d.fixedtype = false
  buttons : Buttons d
  low : d.vdevcount ≤ 0
  items : ∀ item ∈ d.items, item.checked = false

theorem newPool_unchecked : Unchecked newPool :=
  ⟨rfl, ⟨⟨.striped, rfl, by decide, .inl rfl⟩, fun button enabled => absurd enabled (by simp [newPool])⟩,
    Int.le_refl _, by simp [newPool]⟩

theorem signal_unchecked (unchecked : Unchecked d) (column : Nat) : Unchecked (d.onItemChanged false column) := by
  have low := unchecked.low
  refine ⟨by simp [unchecked.free], itemChanged_buttons unchecked.buttons unchecked.free false column, ?_, ?_⟩
  · by_cases second : column = 1
    · rw [second, itemChanged_vdevcount]
      simp only [Bool.false_eq_true, if_false]
      omega
    · simpa [NewPool.onItemChanged, second] using low
  · rw [itemChanged_items]
    exact unchecked.items

theorem addItem_unchecked (unchecked : Unchecked d) (columns : List Nat) (v : Vdev) : Unchecked
    (d.addItem columns v) := by
  have signals : ∀ d : NewPool, Unchecked d →
    Unchecked (columns.foldl (fun d column => d.onItemChanged false column) d) := by
    induction columns with
    | nil => exact fun d unchecked => unchecked
    | cons column columns ih => exact fun d unchecked => ih _ (signal_unchecked unchecked column)
  apply signals
  refine ⟨unchecked.free, ⟨unchecked.buttons.one, unchecked.buttons.enabled⟩, unchecked.low, ?_⟩
  intro item member
  rcases mem_append.mp member with old | new
  · exact unchecked.items item old
  · rw [mem_singleton.mp new]

theorem Fits.zero {count : Int} (fits : Fits count kind) (low : count ≤ 0) : Fits 0 kind := by
  refine ⟨fits.1, fits.2.imp_right fun enough => ?_⟩
  omega

theorem reset_unchecked (unchecked : Unchecked d) : Unchecked { d with vdevcount := 0 } := by
  obtain ⟨kind, one, fits⟩ := unchecked.buttons.one
  exact ⟨unchecked.free, ⟨⟨kind, one, fits.zero unchecked.low⟩,
    fun button enabled => (unchecked.buttons.enabled button enabled).zero unchecked.low⟩,
    Int.le_refl _, unchecked.items⟩

mutual

theorem addDevice_unchecked (columns : List Nat) :
    ∀ (v : Vdev) {d : NewPool}, Unchecked d → Unchecked (addDevice columns v d)
  | ⟨name, description, level, index, status, partType, inPool, sectorSize, sectorStart, sectorsCount, size,
      partitions⟩, d, unchecked => by
    rw [addDevice]
    split
    · exact addDevices_unchecked columns partitions unchecked
    · dsimp only
      split
      · exact addItem_unchecked unchecked columns _
      · exact unchecked

theorem addDevices_unchecked (columns : List Nat) :
    ∀ (disks : List Vdev) {d : NewPool}, Unchecked d → Unchecked (addDevices columns disks d)
  | [], d, unchecked => by
    exact reset_unchecked unchecked
  | v :: disks, d, unchecked => by
    exact addDevices_unchecked columns disks (addDevice_unchecked columns v unchecked)

end

theorem addDevices_vdevcount (columns : List Nat) (disks : List Vdev) (d : NewPool) :
    (addDevices columns disks d).vdevcount = 0 := by
  induction disks generalizing d with
  | nil => rw [addDevices]
  | cons _ disks ih =>
    exact ih _

structure Feasible (d : NewPool) : Prop where
  free : d.fixedtype = false
  buttons : Buttons d
  count : d.vdevcount = d.items.countP Item.checked

variable {d : NewPool}

theorem setCheckState_feasible (feasible : Feasible d) (i : Nat) (checked : Bool) : Feasible
    (d.setCheckState i checked) := by
  unfold NewPool.setCheckState
  split
  · exact feasible
  · rename_i item found
    split
    · exact feasible
    · rename_i other
      have buttons : Buttons { d with items := d.items.set i { item with checked } } :=
        ⟨feasible.buttons.one, feasible.buttons.enabled⟩
      refine ⟨by simp [feasible.free], itemChanged_buttons buttons feasible.free checked 1, ?_⟩
      rw [itemChanged_vdevcount, itemChanged_items]
      have before := feasible.count
      obtain ⟨inside, there⟩ := List.getElem?_eq_some_iff.mp found
      rw [countP_set inside, there, before]
      have one : item.checked = true → 0 < d.items.countP Item.checked := fun set =>
        countP_pos_iff.mpr ⟨item, mem_of_getElem? found, set⟩
      cases checked with
      | true =>
        have off : item.checked = false := by simpa using other
        simp [off]
      | false =>
        have on : item.checked = true := by simpa using other
        have positive := one on
        simp only [on, if_true, Bool.false_eq_true, if_false]
        omega

theorem turn_feasible (feasible : Feasible d) (i : Nat) : Feasible (d.turn i) := by
  unfold NewPool.turn
  split
  · exact feasible
  · exact setCheckState_feasible feasible i _

theorem click_feasible (feasible : Feasible d) (event : Click) : Feasible (d.click event) := by
  cases event with
  | box i =>
    exact turn_feasible feasible i
  | item i _ =>
    simp only [NewPool.click, NewPool.onItemClicked]
    split
    · exact turn_feasible feasible i
    · exact feasible
  | type button =>
    simp only [NewPool.click]
    split
    · rename_i enabled
      exact ⟨feasible.free, ⟨⟨button, rfl, feasible.buttons.enabled button enabled⟩, feasible.buttons.enabled⟩, feasible.count⟩
    · exact feasible

theorem clicks_feasible (feasible : Feasible d) (events : List Click) : Feasible (d.clicks events) := by
  induction events generalizing d with
  | nil => exact feasible
  | cons event events ih => exact ih (click_feasible feasible event)

theorem opened_feasible (columns : List Nat) (disks : List Vdev) : Feasible (addDevices columns disks newPool) := by
  have unchecked := addDevices_unchecked columns disks newPool_unchecked
  refine ⟨unchecked.free, unchecked.buttons, ?_⟩
  have none : (addDevices columns disks newPool).items.countP Item.checked = 0 := by
    rw [countP_eq_zero]
    intro item member
    rw [unchecked.items item member]
    exact Bool.false_ne_true
  rw [addDevices_vdevcount, none]
  rfl

def typeText : RaidButton → Bytes
  | .striped => []
  | .mirror => mirror
  | .raidz => raidz
  | .raidz2 => raidz2
  | .raidz3 => raidz3
  | .cache => cache
  | .log => log
  | .spare => spare

theorem getRaidType_eq {kind : RaidButton}
    (one : d.isChecked = fun other => other == kind) : d.getRaidType = typeText kind := by
  unfold NewPool.getRaidType
  rw [one]
  cases kind <;> rfl

/-- Whatever is clicked, Vdevcount is the number of checked devices, one type is checked, and there are as many
devices as it needs. -/
theorem pool_type_feasible (columns : List Nat) (disks : List Vdev) (events : List Click) :
    let d := (addDevices columns disks newPool).clicks events
    d.vdevcount = d.getVdevList.length ∧ d.getVdevList.length = d.items.countP Item.checked ∧
      ∃ kind ∈ raidTypes, (∀ other, d.isChecked other = true ↔ other = kind) ∧ d.getRaidType = typeText kind ∧
        minimum kind ≤ d.getVdevList.length := by
  intro d
  have feasible : Feasible d := clicks_feasible (opened_feasible columns disks) events
  have length : d.getVdevList.length = d.items.countP Item.checked := by
    rw [NewPool.getVdevList, length_map, countP_eq_length_filter]
  obtain ⟨kind, one, type, enough⟩ := feasible.buttons.one
  have count := feasible.count
  refine ⟨by rw [length]; exact count, length, kind, type, ?_, getRaidType_eq one, ?_⟩
  · intro other
    rw [one]
    exact beq_iff_eq
  · rcases enough with rfl | enough
    · exact Nat.zero_le _
    · omega

end Pcbsd.Zmanager.PoolTypes
