import Pcbsd.Zmanager.PoolTree

/-! Actions on the devices of a pool: which pool a click on a device hits, although the device is looked up by its
name alone. -/

namespace Pcbsd.Proofs.PoolActions
open Lib Zmanager Zmanager.PoolTree List Option

def Labelled (pool : Zpool) : Prop :=
  ∀ vdev ∈ pool.vdevs, vdev.inPool = pool.name ∧ ∀ part ∈ vdev.partitions, part.inPool = pool.name

instance (pool : Zpool) : Decidable (Labelled pool) :=
  inferInstanceAs (Decidable (∀ vdev ∈ pool.vdevs, vdev.inPool = pool.name ∧
    ∀ part ∈ vdev.partitions, part.inPool = pool.name))

def Holds (pool : Zpool) (name : Bytes) : Prop :=
  ∃ vdev ∈ pool.vdevs, vdev.name = name ∨ ∃ part ∈ vdev.partitions, part.name = name

/-- A device of the pool under which the item is shown is selected, and the commands name that pool and the device of
the item. -/
def Hits (pools : List PoolEntry) (s : Selection) (item : TreeItem) (ref : VdevRef) : Prop :=
  ∃ hit vdev pool, s.vdev = some hit ∧ hit.pool = ref.pool ∧ vdevAt pools hit = some vdev ∧
    pools[ref.pool]? = some pool ∧
    ∀ action : DeviceAction, action.cmdline vdev = action.cmdline { name := item.text, inPool := pool.name }

/-- No pool has the name of the item, and no pool before that of the item has a device of the name. -/
def Unambiguous (pools : List PoolEntry) (item : TreeItem) (ref : VdevRef) : Prop :=
  (∀ pool ∈ pools, pool.name ≠ item.text) ∧ ∀ i < ref.pool, ∀ pool, pools[i]? = some pool →
    ¬ Holds pool.toZpool item.text

variable {pools : List PoolEntry} {pool : PoolEntry} {vdev : Vdev} {name : Bytes} {hit ref : VdevRef}
    {item : TreeItem} {i j : Nat}

theorem searchVdev_none :
    searchVdev name i j vdev = none ↔ vdev.name ≠ name ∧ ∀ part ∈ vdev.partitions, part.name ≠ name := by
  rw [searchVdev]
  split <;> rename_i same
  · exact ⟨fun found => absurd found (some_ne_none _), fun other => absurd same other.1⟩
  · rw [firstMatch_none]
    constructor
    · intro others
      refine ⟨same, fun part member equal => ?_⟩
      obtain ⟨k, there⟩ := getElem?_of_mem member
      have missed := others k part there
      rw [if_pos equal] at missed
      exact some_ne_none _ missed
    · intro others k part there
      exact if_neg (others.2 part (mem_of_getElem? there))

theorem searchVdev_some (found : searchVdev name i j vdev = some hit) : hit.pool = i ∧ hit.vdev = j ∧
    ∃ named : Vdev, hit.part.elim (some vdev) (vdev.partitions[·]?) = some named ∧ named.name = name ∧
      (named = vdev ∨ named ∈ vdev.partitions) := by
  rw [searchVdev] at found
  split at found <;> rename_i same
  · cases found
    exact ⟨rfl, rfl, vdev, rfl, same, Or.inl rfl⟩
  · obtain ⟨_, part, there, hits, -⟩ := firstMatch_some.mp found
    obtain ⟨named, same_⟩ := ite_none_right_eq_some.mp hits
    cases same_
    refine ⟨rfl, rfl, part, ?_, named, Or.inr (mem_of_getElem? there)⟩
    rw [Nat.zero_add, elim_some]
    exact there

theorem searchPool_none : searchPool name i pool = none ↔ ¬ Holds pool.toZpool name := by
  rw [searchPool, firstMatch_none]
  constructor
  · rintro others ⟨vdev, member, named⟩
    obtain ⟨j, there⟩ := getElem?_of_mem member
    have missed := searchVdev_none.mp (others j vdev there)
    rcases named with same | ⟨part, inside, same⟩
    · exact missed.1 same
    · exact missed.2 part inside same
  · intro nothing j vdev there
    apply searchVdev_none.mpr
    have member := mem_of_getElem? there
    exact ⟨fun same => nothing ⟨vdev, member, Or.inl same⟩,
      fun part inside same => nothing ⟨vdev, member, Or.inr ⟨part, inside, same⟩⟩⟩

theorem searchPool_some (there : pools[i]? = some pool) (found : searchPool name i pool = some hit) : hit.pool = i ∧
    Holds pool.toZpool name ∧ ∃ named : Vdev, vdevAt pools hit = some named ∧ named.name = name ∧
      (Labelled pool.toZpool → named.inPool = pool.name) := by
  obtain ⟨_, vdev, place, hits, -⟩ := firstMatch_some.mp found
  obtain ⟨same, at_, named, leads, called, level⟩ := searchVdev_some hits
  have holds : Holds pool.toZpool name := by
    by_contra nothing
    rw [searchPool_none.mpr nothing] at found
    exact some_ne_none hit found.symm
  refine ⟨same, holds, named, ?_, called, fun labelled => ?_⟩
  · rw [vdevAt, same, there, bind_some, at_, Nat.zero_add, place, bind_some]
    exact leads
  · have labels := labelled vdev (mem_of_getElem? place)
    rcases level with rfl | inside
    · exact labels.1
    · exact labels.2 named inside

theorem getVDevbyName_some (found : getVDevbyName pools name = some hit) :
    (∀ k < hit.pool, ∀ other, pools[k]? = some other → ¬ Holds other.toZpool name) ∧
      ∃ pool, pools[hit.pool]? = some pool ∧ Holds pool.toZpool name ∧
        ∃ named : Vdev, vdevAt pools hit = some named ∧ named.name = name ∧
        (Labelled pool.toZpool → named.inPool = pool.name) := by
  obtain ⟨_, pool, there, hits, before⟩ := firstMatch_some.mp found
  rw [Nat.zero_add] at hits
  obtain ⟨same, named⟩ := searchPool_some there hits
  rw [same]
  exact ⟨fun k below other place => searchPool_none.mp (before k below other place), pool, there, named⟩

theorem getVDevbyName_isSome (there : pools[i]? = some pool) (holds : Holds pool.toZpool name) :
    ∃ hit, getVDevbyName pools name = some hit ∧ hit.pool ≤ i := by
  cases found : getVDevbyName pools name with
  | none =>
    have missed := firstMatch_none.mp found i pool there
    exact absurd holds (searchPool_none.mp missed)
  | some hit =>
    refine ⟨hit, rfl, not_lt.mp fun below => ?_⟩
    exact (getVDevbyName_some found).1 i below pool there holds

theorem item_device (member : item ∈ zpoolList pools) (place : item.place = .device ref) :
    item.userRole = -1 ∧ ∃ pool, pools[ref.pool]? = some pool ∧ item.disabled = pool.inactive ∧
    Holds pool.toZpool item.text := by
  obtain ⟨_, shown, inside⟩ := mem_flatten.mp member
  obtain ⟨i, bound, rfl⟩ := mem_mapIdx.mp shown
  rcases mem_cons.mp inside with rfl | below
  · cases place
  · obtain ⟨_, listed, within⟩ := mem_flatten.mp below
    obtain ⟨_, bound_, rfl⟩ := mem_mapIdx.mp listed
    have vdevThere := getElem_mem bound_
    rcases mem_cons.mp within with rfl | deep
    · cases place
      exact ⟨rfl, pools[i], getElem?_eq_getElem bound, rfl, _, vdevThere, Or.inl rfl⟩
    · obtain ⟨_, partBound, rfl⟩ := mem_mapIdx.mp deep
      cases place
      exact ⟨rfl, pools[i], getElem?_eq_getElem bound, rfl, _, vdevThere, Or.inr ⟨_, getElem_mem partBound, rfl⟩⟩

theorem getZpoolbyName_device (name : Bytes) :
    getZpoolbyName pools name (-1) = none ↔ ∀ pool ∈ pools, pool.name ≠ name := by
  rw [getZpoolbyName, if_neg (by decide), firstMatch_none]
  constructor
  · intro others pool member same
    obtain ⟨i, there⟩ := getElem?_of_mem member
    have missed := others i pool there
    rw [if_pos same] at missed
    exact some_ne_none _ missed
  · intro others i pool there
    exact if_neg (others pool (mem_of_getElem? there))

theorem cmdline_eq (action : DeviceAction) (named : vdev.name = name) (pool : Bytes) (owned : vdev.inPool = pool) :
    action.cmdline vdev = action.cmdline { name, inPool := pool } := by
  subst named owned
  cases action <;> rfl

/-- A click on an enabled device hits its own pool when and only when the name leads there. -/
theorem action_hits_pool_iff (pools : List PoolEntry) (s : Selection) (item : TreeItem) (ref : VdevRef)
    (labelled : ∀ pool ∈ pools, pool.inactive = false → Labelled pool.toZpool) (member : item ∈ zpoolList pools)
    (enabled : item.disabled = false) (place : item.place = .device ref) :
    Hits pools (zpoolContextMenu pools s item) item ref ↔ Unambiguous pools item ref := by
  obtain ⟨role, pool, there, disabled, holds⟩ := item_device member place
  rw [zpoolContextMenu, role]
  cases named : getZpoolbyName pools item.text (-1) with
  | some i =>
    have taken : ¬ ∀ pool ∈ pools, pool.name ≠ item.text := by
      intro none
      rw [(getZpoolbyName_device item.text).mpr none] at named
      exact some_ne_none i named.symm
    constructor
    · rintro ⟨hit, vdev, pool, selected, -⟩
      exact absurd selected.symm (some_ne_none hit)
    · exact fun clear => absurd clear.1 taken
  | none =>
    have clear := (getZpoolbyName_device item.text).mp named
    simp only [enabled, Bool.false_eq_true, if_false]
    obtain ⟨hit, found, most⟩ := getVDevbyName_isSome there holds
    obtain ⟨before, owner, ownerThere, found_, vdev, leads, called, owned⟩ := getVDevbyName_some found
    constructor
    · rintro ⟨_, -, -, selected, same, -⟩
      cases found.symm.trans selected
      exact ⟨clear, same ▸ before⟩
    · intro unambiguous
      have same : hit.pool = ref.pool := by
        apply le_antisymm most
        by_contra above
        exact unambiguous.2 hit.pool (not_le.mp above) owner ownerThere found_
      rw [same, there] at ownerThere
      cases ownerThere
      refine ⟨hit, vdev, pool, found, same, leads, there, fun action => ?_⟩
      have active := disabled.symm.trans enabled
      exact cmdline_eq action called _ (owned (labelled pool (mem_of_getElem? there) active))

def Labels (s : Topology) : Prop := Labelled s.pool ∧ ∀ pool ∈ s.pools, Labelled pool

theorem Labels.beginPool {s : Topology} (labels : Labels s) (str : Bytes) : Labels (beginPool s str).1 := by
  rw [Zmanager.beginPool]
  split
  · refine ⟨fun vdev member => absurd member not_mem_nil, fun pool member => ?_⟩
    split at member
    · rcases mem_append.mp member with early | last
      · exact labels.2 pool early
      · rw [mem_singleton.mp last]
        exact labels.1
    · exact labels.2 pool member
  · exact labels

theorem Labels.readState {s : Topology} (labels : Labels s) (str line : Bytes) : Labels (readState s str line) := by
  rw [Zmanager.readState]
  split <;> exact labels

theorem Labels.readStatus {s : Topology} (labels : Labels s) (str line : Bytes) : Labels (readStatus s str line) := by
  rw [Zmanager.readStatus]
  split
  · exact labels
  · split
    · split <;> exact labels
    · exact labels

theorem Labels.beginVdevs {s : Topology} (labels : Labels s) (str : Bytes) : Labels (beginVdevs s str) := by
  rw [Zmanager.beginVdevs]
  split <;> exact labels

theorem Labels.readErrors {s : Topology} (labels : Labels s) (str : Bytes) : Labels (readErrors s str) := by
  rw [Zmanager.readErrors]
  split <;> exact labels

theorem Labels.readSection {s : Topology} (labels : Labels s) (title str : Bytes) :
    Labels (readSection title s str) := by
  rw [Zmanager.readSection]
  split
  · refine ⟨fun vdev member => ?_, labels.2⟩
    rcases mem_append.mp member with early | last
    · exact labels.1 vdev early
    · rw [mem_singleton.mp last]
      exact ⟨rfl, fun part none => absurd none not_mem_nil⟩
  · exact labels

theorem labelled_appendToLast {pool : Bytes} {vdevs : List Vdev}
    (labels : ∀ vdev ∈ vdevs, vdev.inPool = pool ∧ ∀ part ∈ vdev.partitions, part.inPool = pool)
    (owned : vdev.inPool = pool) :
    ∀ other ∈ appendToLast vdevs vdev, other.inPool = pool ∧ ∀ part ∈ other.partitions, part.inPool = pool := by
  intro other member
  rw [appendToLast] at member
  split at member <;> rename_i found
  · exact absurd member not_mem_nil
  · rename_i last
    rcases mem_append.mp member with early | final
    · exact labels other (mem_of_mem_dropLast early)
    · have before := labels last (mem_of_getLast? found)
      rw [mem_singleton.mp final]
      refine ⟨before.1, fun part inside => ?_⟩
      rcases mem_append.mp inside with old | new
      · exact before.2 part old
      · rw [mem_singleton.mp new]
        exact owned

theorem Labels.addVdev {s : Topology} (labels : Labels s) (name : Bytes) (level : Nat) (status : State) :
    Labels (addVdev s name level status) := by
  refine ⟨fun vdev member => ?_, labels.2⟩
  rw [Zmanager.addVdev] at member
  dsimp only at member
  split at member
  · exact labelled_appendToLast labels.1 rfl vdev member
  · rcases mem_append.mp member with early | last
    · exact labels.1 vdev early
    · rw [mem_singleton.mp last]
      exact ⟨rfl, fun part none => absurd none not_mem_nil⟩

theorem Labels.readVdev {s : Topology} (labels : Labels s) (str line : Bytes) : Labels (readVdev s str line) := by
  rw [Zmanager.readVdev]
  split
  · dsimp only
    split
    · exact labels
    · exact labels
    · split
      · exact labels
      · exact labels.addVdev _ _ _
  · exact labels

theorem Labels.poolLine {s : Topology} (labels : Labels s) (line : Bytes) : Labels (poolLine s line) := by
  have begun := labels.beginPool line
  generalize same : Zmanager.beginPool s line = after at begun
  have stated := ((begun.readState after.2 line).readStatus after.2 line).beginVdevs after.2
  have sections := ((stated.readSection logs after.2).readSection spares after.2).readSection cache after.2
  rw [Zmanager.poolLine, same]
  exact (sections.readVdev after.2 line).readErrors after.2

theorem readPools_labelled (disks : List Vdev) (lines : List Bytes) :
    ∀ pool ∈ (readPools disks lines).pools, Labelled pool := by
  have nothing : Labelled {} := fun vdev member => absurd member not_mem_nil
  have labels : Labels (lines.foldl poolLine ⟨disks, [], [], {}, {}, 0⟩) := by
    refine foldlRecOn lines _ ⟨nothing, fun pool member => absurd member not_mem_nil⟩ ?_
    exact fun s labels line _ => labels.poolLine line
  rw [readPools]
  split
  · intro pool member
    rcases mem_append.mp member with early | last
    · exact labels.2 pool early
    · rw [mem_singleton.mp last]
      exact labels.1
  · exact labels.2

def sparePools : List PoolEntry :=
  let spare (pool : Bytes) : Vdev := { name := [0x64, 0x61, 0x35], level := 1, status := .avail, inPool := pool }
  let entry (pool : Bytes) : PoolEntry :=
    { name := pool, status := .online,
      vdevs := [{ name := spares, partType := spares, inPool := pool, partitions := [spare pool] }] }
  [entry [0x61], entry [0x62]]

theorem sparePools_labelled : ∀ pool ∈ sparePools, pool.inactive = false → Labelled pool.toZpool := by
  intro pool member _
  rcases mem_cons.mp member with rfl | second
  · decide
  · rw [mem_singleton.mp second]
    decide

def secondSpare : TreeItem := ⟨[0x64, 0x61, 0x35], -1, false, .device ⟨1, 0, some 0⟩⟩

def firstSpare : TreeItem := ⟨[0x64, 0x61, 0x35], -1, false, .device ⟨0, 0, some 0⟩⟩

theorem first_spare_hits :
    Hits sparePools (zpoolContextMenu sparePools ⟨none, none⟩ firstSpare) firstSpare ⟨0, 0, some 0⟩ := by
  apply (action_hits_pool_iff sparePools ⟨none, none⟩ firstSpare ⟨0, 0, some 0⟩ sparePools_labelled _ rfl rfl).mpr
  · refine ⟨?_, fun i below => absurd below (Nat.not_lt_zero i)⟩
    intro pool member
    rcases mem_cons.mp member with rfl | second
    · decide
    · rw [mem_singleton.mp second]
      decide
  · exact mem_of_getElem? (i := 2) rfl

/-- Two pools share a spare: a click on it in the second pool hits the first. -/
theorem shared_spare_misses : ¬ ∀ (pools : List PoolEntry) (s : Selection) (item : TreeItem) (ref : VdevRef),
    (∀ pool ∈ pools, pool.inactive = false → Labelled pool.toZpool) → item ∈ zpoolList pools → item.disabled = false →
      item.place = .device ref → Hits pools (zpoolContextMenu pools s item) item ref := by
  intro claim
  obtain ⟨hit, _, pool, selected, same, -⟩ :=
    claim sparePools ⟨none, none⟩ secondSpare ⟨1, 0, some 0⟩ sparePools_labelled (mem_of_getElem? (i := 5) rfl) rfl rfl
  cases (show some ⟨0, 0, some 0⟩ = some hit from selected)
  exact absurd same (by decide)

end Pcbsd.Proofs.PoolActions
