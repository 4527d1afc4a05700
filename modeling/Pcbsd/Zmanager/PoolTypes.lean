import Pcbsd.Zmanager.NewPool

/-! The dialog for a new pool, dialognewpool.cpp over dialognewpool.ui: the list of devices with their check boxes and
the eight radio buttons of the configuration type, of which the toolkit lets one be checked. A signal runs its slot at
once. -/

namespace Pcbsd.Zmanager.PoolTypes
open Lib Zmanager

inductive RaidButton where
  | striped
  | mirror
  | raidz
  | raidz2
  | raidz3
  | cache
  | log
  | spare
  deriving DecidableEq

structure Item where
  name : Bytes
  checked : Bool
  deriving DecidableEq

structure NewPool where
  items : List Item
  vdevcount : Int
  fixedtype : Bool
  isChecked : RaidButton → Bool
  enabled : RaidButton → Bool

/-- setChecked(true): the button that was checked is not any more. -/
def NewPool.setChecked (d : NewPool) (button : RaidButton) : NewPool :=
  { d with isChecked := fun other => other == button }

def NewPool.setEnabled (d : NewPool) (button : RaidButton) (enabled : Bool) : NewPool :=
  { d with enabled := Function.update d.enabled button enabled }

/-- A type for more than `count` devices. When there are fewer its button is disabled, and the next smaller type is
taken instead. -/
def NewPool.offer (d : NewPool) (count : Int) (button smaller : RaidButton) : NewPool :=
  if d.vdevcount > count then d.setEnabled button true
  else
    let d := d.setEnabled button false
    if d.isChecked button then d.setChecked smaller else d

def NewPool.offerMirror (d : NewPool) : NewPool :=
  if d.vdevcount > 1 then (d.setEnabled .striped true).setEnabled .mirror true
  else
    let d := (d.setEnabled .striped false).setEnabled .mirror false
    if d.isChecked .mirror then d.setChecked .striped else d

def NewPool.offers (d : NewPool) : NewPool :=
  (((d.offer 4 .raidz3 .raidz2).offer 3 .raidz2 .raidz).offer 2 .raidz .mirror).offerMirror

/-- on_vdevList_itemChanged for an item whose check state is `checked` by now. -/
def NewPool.onItemChanged (d : NewPool) (checked : Bool) (column : Nat) : NewPool :=
  if column = 1 then
    let d := { d with vdevcount := if checked then d.vdevcount + 1 else d.vdevcount - 1 }
    if d.fixedtype then d else d.offers
  else d

/-- setCheckState(1, ..) of an item: a signal when the state changes. -/
def NewPool.setCheckState (d : NewPool) (i : Nat) (checked : Bool) : NewPool :=
  match d.items[i]? with
  | none => d
  | some item =>
    if item.checked = checked then d
    else { d with items := d.items.set i { item with checked } }.onItemChanged checked 1

/-- The check box of an item, and on_vdevList_itemClicked in column 0: the state is turned around. -/
def NewPool.turn (d : NewPool) (i : Nat) : NewPool :=
  match d.items[i]? with
  | none => d
  | some item => d.setCheckState i !item.checked

def NewPool.onItemClicked (d : NewPool) (i column : Nat) : NewPool := if column = 0 then d.turn i else d

def newPool : NewPool :=
  { items := [], vdevcount := 0, fixedtype := false, isChecked := fun button => button == .striped, enabled := fun _ => false }

/-- A new item. `columns` are the columns for which the toolkit sends itemChanged while the texts, the data, the icon
and the unchecked box are put in. -/
def NewPool.addItem (columns : List Nat) (d : NewPool) (v : Vdev) : NewPool :=
  columns.foldl (fun d column => d.onItemChanged false column) { d with items := d.items ++ [⟨v.name, false⟩] }

mutual

def addDevice (columns : List Nat) : Vdev → NewPool → NewPool
  | ⟨name, description, level, index, status, partType, inPool, sectorSize, sectorStart, sectorsCount, size,
      partitions⟩, d =>
    if partitions.length ≠ 0 then addDevices columns partitions d
    else
      let v : Vdev := ⟨name, description, level, index, status, partType, inPool, sectorSize, sectorStart, sectorsCount,
        size, partitions⟩
      if v.listed then d.addItem columns v else d

/-- setDevices; Vdevcount becomes 0 behind the loop, also behind that over the partitions of a disk. -/
def addDevices (columns : List Nat) : List Vdev → NewPool → NewPool
  | [], d => { d with vdevcount := 0 }
  | v :: disks, d => addDevices columns disks (addDevice columns v d)

end

def NewPool.getVdevList (d : NewPool) : List Bytes := (d.items.filter Item.checked).map Item.name

def log : Bytes := ascii ['l', 'o', 'g']
def spare : Bytes := ascii ['s', 'p', 'a', 'r', 'e']

def NewPool.getRaidType (d : NewPool) : Bytes :=
  if d.isChecked .raidz3 then raidz3
  else if d.isChecked .raidz2 then raidz2
  else if d.isChecked .raidz then raidz
  else if d.isChecked .mirror then mirror
  else if d.isChecked .cache then cache
  else if d.isChecked .log then log
  else if d.isChecked .spare then spare
  else []

/-- What the user does: a click on the check box of an item, on a column of an item, or on a radio button. -/
inductive Click where
  | box (i : Nat)
  | item (i column : Nat)
  | type (button : RaidButton)

/-- A box is turned around by the toolkit before itemClicked is sent for its column; a disabled button does nothing. -/
def NewPool.click (d : NewPool) : Click → NewPool
  | .box i => (d.turn i).onItemClicked i 1
  | .item i column => d.onItemClicked i column
  | .type button => if d.enabled button then d.setChecked button else d

def NewPool.clicks (d : NewPool) (events : List Click) : NewPool := events.foldl NewPool.click d

end Pcbsd.Zmanager.PoolTypes
