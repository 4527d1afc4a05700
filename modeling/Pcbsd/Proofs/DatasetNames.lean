import Pcbsd.Lib.Paths
import Pcbsd.Proofs.ObjsetDnodes

/-! The name that zfs_rlookup writes for a dataset leads zfs_lookup_dataset back to it. -/

namespace Pcbsd.Zfs
open Lib List

variable {δ σ : Type} {env : Env δ σ} {layout : ZapLayout} {zapHash : ZapHash} {dsl : DslLayout}

structure DslDir (env : Env δ σ) (layout : ZapLayout) (dsl : DslLayout) (mos : DnodePhys) (data : Nat → Bytes)
    (children : List (Bytes × Nat)) (obj : Nat) : Prop where
  nonzero : obj ≠ 0
  inside : dsl.Inside mos obj
  zapInside : dsl.Inside mos (dsl.ddChildDirZapobj (dsl.dnodeOf (mos.logical data) obj))
  zap : ∃ phys zapData, dsl.dnodePhys
    (dsl.dnodeOf (mos.logical data) (dsl.ddChildDirZapobj (dsl.dnodeOf (mos.logical data) obj))) = phys ∧
    Readable env phys zapData ∧ MicroZap layout phys.bsize (phys.block zapData 0) children
  separate : ∀ item ∈ children, slash ∉ item.1
  values : (children.map Prod.snd).Nodup
  parent : ∀ item ∈ children, dsl.ddParentObj (dsl.dnodeOf (mos.logical data) item.2) = obj

structure DslTree (env : Env δ σ) (layout : ZapLayout) (dsl : DslLayout) (mos : DnodePhys)
    (data : Nat → Bytes) (root : Nat) (children : Nat → List (Bytes × Nat)) : Prop where
  sized : 0 < dsl.dnodeSize
  readable : Readable env mos data
  top : dsl.ddParentObj (dsl.dnodeOf (mos.logical data) root) = 0
  dir : ∀ labels obj, Route children root labels obj → DslDir env layout dsl mos data (children obj) obj

section

variable {mos : DnodePhys} {data : Nat → Bytes} {root os var : Nat} {children : Nat → List (Bytes × Nat)}
    {st : DnodeCache σ}

theorem drop_put {off : Nat} {new buf : Bytes} (inside : off ≤ buf.length) :
    (put off new buf).drop off = new ++ buf.drop (off + new.length) ∧ off ≤ (put off new buf).length := by
  have start : (buf.take off).length = off := length_take_of_le inside
  refine ⟨?_, ?_⟩
  · rw [put, append_assoc, drop_left' start]
  · rw [put, append_assoc, length_append, start]
    exact Nat.le_add_right _ _

theorem DslDir.rlookup {entries : List (Bytes × Nat)} {obj child : Nat} {label : Bytes} (sane : layout.Sane)
    (dir : DslDir env layout dsl mos data entries obj) (tag : st.obj = some os) (other : var ≠ os)
    (held : st.Held os mos data) (edge : (label, child) ∈ entries) (nonzero : ∀ item ∈ entries, item.2 ≠ 0)
    (component : Bytes) :
    ∃ component' st', env.zapRlookup layout zapHash (st.fill var (dsl.dnodePhys (dsl.dnodeOf (mos.logical data)
        (dsl.ddChildDirZapobj (dsl.dnodeOf (mos.logical data) obj))))) var component child = (.ok component', st') ∧
      bufString component' = label ∧ st'.Held os mos data := by
  obtain ⟨phys, zapData, stored, readable, micro⟩ := dir.zap
  rw [stored]
  have here : (st.fill var phys).Held var phys zapData := fill_held tag other
  have formed : ZapKind.micro.Formed layout zapHash phys zapData entries := micro
  have found := (zapRlookup_iff sane readable formed dir.values nonzero here.same here.keeps component child).mpr
    (.inl (nonzero _ edge))
  have answer := found.1 _ edge rfl
  have tagged := @zapRlookup_tagged δ σ env layout zapHash _ var phys zapData readable here component child
  generalize env.zapRlookup layout zapHash (st.fill var phys) var component child = reply at answer tagged ⊢
  obtain ⟨result, st'⟩ := reply
  cases result with
  | ok component' =>
    exact ⟨component', st', rfl, ZapResult.ok.inj answer,
      held_of_tag (by rw [tagged.2, fill_dnodes other, held.same]) tagged.1 other⟩
  | error _ => cases answer
  | fault => cases answer

theorem DslDir.lookup {entries : List (Bytes × Nat)} {obj child : Nat} {label : Bytes} (sane : layout.Sane)
    (dir : DslDir env layout dsl mos data entries obj) (tag : st.obj = some os) (other : var ≠ os)
    (held : st.Held os mos data) (edge : (label, child) ∈ entries) :
    ∃ st', env.zapLookup layout zapHash (st.fill var (dsl.dnodePhys (dsl.dnodeOf (mos.logical data)
        (dsl.ddChildDirZapobj (dsl.dnodeOf (mos.logical data) obj))))) var label = (.ok child, st') ∧
        st'.Held os mos data := by
  obtain ⟨phys, zapData, stored, readable, micro⟩ := dir.zap
  rw [stored]
  have here : (st.fill var phys).Held var phys zapData := fill_held tag other
  have formed : ZapKind.micro.Formed layout zapHash phys zapData entries := micro
  have found := (zapLookup_iff sane readable formed here.same here.keeps (micro.strings _ edge)).mpr
    (.inl (micro.mem_iff.mp edge).2)
  have answer := found.1 _ edge rfl
  have tagged := @zapLookup_tagged δ σ env layout zapHash _ var phys zapData readable here label
  exact ⟨_, Prod.ext answer rfl, held_of_tag (by rw [tagged.2, fill_dnodes other, held.same]) tagged.1 other⟩

theorem rlookupLoop_up {obj child : Nat} {label : Bytes} (sane : layout.Sane) (other : var ≠ os)
    (tree : DslTree env layout dsl mos data root children) {labels : List Bytes}
    (route : Route children root labels obj) (edge : (label, child) ∈ children obj) (held : st.Held os mos data)
    (fuel : Nat) (name component : Bytes) {p : Nat} (room : label.length < p) :
    ∃ component' st', st'.Held os mos data ∧
      env.rlookupLoop layout zapHash dsl os var (fuel + 1) st name p component child =
      env.rlookupLoop layout zapHash dsl os var fuel st' (put (p - (label.length + 1)) (slash :: label) name)
        (p - (label.length + 1)) component' obj := by
  have here := tree.dir _ _ route
  have below := tree.dir _ _ (route.snoc edge)
  obtain ⟨_, first, held₁, -⟩ := objsetGetDnode_inside tree.sized tree.readable held below.inside
  obtain ⟨_, second, held₂, -⟩ := objsetGetDnode_inside tree.sized tree.readable held₁ here.inside
  obtain ⟨_, third, held₃, tag, -⟩ := objsetGetDnode_inside tree.sized tree.readable held₂ here.zapInside
  obtain ⟨component', st₄, answer, named, held₄⟩ := here.rlookup sane tag other held₃ edge
    (fun item member => (tree.dir _ _ (route.snoc member)).nonzero) component
  have parent := here.parent _ edge
  refine ⟨component', st₄, held₄, ?_⟩
  rw [Env.rlookupLoop, first]
  dsimp only
  rw [if_neg (not_not.mpr rfl), parent, if_neg here.nonzero, second, if_neg (not_not.mpr rfl), third]
  rw [if_neg (not_not.mpr rfl), answer]
  dsimp only
  rw [named, if_neg (by omega)]

theorem rlookupLoop_route (sane : layout.Sane) (other : var ≠ os)
    (tree : DslTree env layout dsl mos data root children) {obj fuel p : Nat} {labels : List Bytes}
    (route : Route children root labels obj) (held : st.Held os mos data) (enough : labels.length < fuel)
    {name : Bytes} (component : Bytes) (room : (slashed slash labels).length ≤ p) (inside : p ≤ name.length) :
    ∃ name' st', env.rlookupLoop layout zapHash dsl os var fuel st name p component obj =
        (.ok (name', p - (slashed slash labels).length), st') ∧ st'.Held os mos data ∧
      name'.drop (p - (slashed slash labels).length) = slashed slash labels ++ name.drop p := by
  induction labels using reverseRecOn generalizing obj fuel p name component st with
  | nil =>
    cases route
    obtain ⟨fuel, rfl⟩ := Nat.exists_eq_succ_of_ne_zero (Nat.ne_of_gt enough)
    obtain ⟨st', read, held', -⟩ := objsetGetDnode_inside tree.sized tree.readable held (tree.dir _ _ .here).inside
    refine ⟨name, st', ?_, held', rfl⟩
    rw [Env.rlookupLoop, read]
    dsimp only
    rw [if_neg (not_not.mpr rfl), if_pos tree.top]
    rfl
  | append_singleton labels label ih =>
    obtain ⟨_, above, edge⟩ := route_snoc_iff.mp route
    have length : (slashed slash (labels ++ [label])).length = (slashed slash labels).length + (label.length + 1) := by
      rw [slashed_append, slashed_singleton, length_append, length_cons]
    rw [length] at room ⊢
    rw [length_append, length_singleton] at enough
    obtain ⟨fuel, rfl⟩ := Nat.exists_eq_succ_of_ne_zero (Nat.ne_of_gt (Nat.zero_lt_of_lt enough))
    obtain ⟨component', _, held₁, turn⟩ := rlookupLoop_up sane other tree above edge held fuel name component
      (by omega : label.length < p)
    obtain ⟨written, inside'⟩ := @drop_put (p - (label.length + 1)) (slash :: label) name
      ((Nat.sub_le p (label.length + 1)).trans inside)
    have room' : (slashed slash labels).length ≤ p - (label.length + 1) := by omega
    obtain ⟨name', st', climbed, held', text⟩ :=
      ih above held₁ (by omega : labels.length < fuel) component' room' inside'
    have behind : p - (label.length + 1) + (slash :: label).length = p := by
      rw [length_cons]
      omega
    have total : p - (label.length + 1) - (slashed slash labels).length = p -
      ((slashed slash labels).length + (label.length + 1)) := by
      omega
    rw [total] at climbed text
    refine ⟨name', st', turn.trans climbed, held', ?_⟩
    rw [text, written, behind, slashed_append, slashed_singleton, append_assoc]

theorem route_label (tree : DslTree env layout dsl mos data root children) {labels : List Bytes} {obj last : Nat}
    {way : List Bytes} (start : Route children root way obj) (route : Route children obj labels last) :
    ∀ label ∈ labels, label ≠ [] ∧ (0 : UInt8) ∉ label ∧ slash ∉ label := by
  induction route generalizing way with
  | here => simp
  | down edge _ ih =>
    obtain ⟨_, _, -, -, micro⟩ := (tree.dir _ _ start).zap
    refine forall_mem_cons.mpr ⟨⟨(micro.mem_iff.mp edge).2, micro.strings _ edge, (tree.dir _ _ start).separate _ edge⟩,
      ?_⟩
    exact ih (start.snoc edge)

theorem length_le_slashed (labels : List Bytes) : labels.length ≤ (slashed slash labels).length ∧
    (slashed slash labels).length ≤ (joined slash labels).length + 1 := by
  constructor
  · induction labels with
    | nil => exact le_rfl
    | cons label labels _ =>
      rw [slashed_cons, joined_cons, length_cons, length_cons, length_append]
      omega
  · cases labels with
    | nil => exact Nat.zero_le _
    | cons label labels => rw [slashed_cons, length_cons]

theorem mem_joined {labels : List Bytes} {c : UInt8} (member : c ∈ joined slash labels) : c = slash ∨ ∃ label ∈ labels,
    c ∈ label := by
  have within : c ∈ slashed slash labels := by
    cases labels with
    | nil => exact member
    | cons label labels =>
      rw [slashed_cons]
      exact mem_cons_of_mem _ member
  obtain ⟨label, one, here⟩ := mem_flatMap.mp within
  exact (mem_cons.mp here).imp_right fun inside => ⟨label, one, inside⟩

theorem zfsRlookup_path (sane : layout.Sane) (other : var ≠ os) (tree : DslTree env layout dsl mos data root children)
    {objnum obj : Nat} {labels : List Bytes} (route : Route children root labels obj)
    (dataset : dsl.Inside mos objnum) (belongs : dsl.dsDirObj (dsl.dnodeOf (mos.logical data) objnum) = obj)
    (short : (joined slash labels).length ≤ 254) (held : st.Held os mos data) {name : Bytes}
    (stack : name.length = 256) (component result : Bytes) :
    ∃ st', env.zfsRlookup layout zapHash dsl os var st objnum name component result =
      (.ok (put 0 (joined slash labels ++ [0]) result), st') ∧ st'.Held os mos data := by
  obtain ⟨_, _⟩ := length_le_slashed labels
  obtain ⟨st₁, read, held₁, -⟩ := objsetGetDnode_inside tree.sized tree.readable held dataset
  have mark : (put 255 [0] name).drop 255 = [0] ∧ 255 ≤ (put 255 [0] name).length := by
    obtain ⟨written, inside⟩ := @drop_put 255 [0] name (by omega)
    have behind : name.drop (255 + [(0 : UInt8)].length) = [] := drop_eq_nil_of_le (by rw [stack]; decide)
    rw [behind] at written
    exact ⟨written, inside⟩
  obtain ⟨_, st', climbed, held', text⟩ :=
    @rlookupLoop_route δ σ env layout zapHash dsl mos data root os var children st₁ sane other tree
    obj 257 255 labels route held₁ (by omega) (put 255 [0] name) component (by omega) mark.2
  rw [mark.1] at text
  refine ⟨st', ?_, held'⟩
  rw [Env.zfsRlookup, read]
  dsimp only
  rw [if_neg (not_not.mpr rfl), belongs, climbed]
  dsimp only
  rw [text]
  cases labels with
  | nil =>
    rw [if_neg (by decide), text]
    rfl
  | cons label labels =>
    have plain : (0 : UInt8) ∉ joined slash (label :: labels) := fun zero => by
      obtain slash | ⟨one, member, inside⟩ := mem_joined zero
      · exact absurd slash (by decide)
      · exact (route_label tree .here route one member).2.1 inside
    rw [slashed_cons, cons_append] at text ⊢
    rw [headD_cons, if_pos (by decide), ← drop_drop, text, drop_one, tail_cons, bufString_append plain]

theorem lookupDatasetLoop_down {obj child : Nat} {label : Bytes} (sane : layout.Sane) (other : var ≠ os)
    (tree : DslTree env layout dsl mos data root children) {way labels : List Bytes}
    (route : Route children root way obj) (edge : (label, child) ∈ children obj) (held : st.Held os mos data)
    (fuel : Nat) (short : label.length < 256) :
    ∃ st', st'.Held os mos data ∧
      env.lookupDatasetLoop layout zapHash dsl os var (fuel + 1) st (joined slash (label :: labels)) obj =
      env.lookupDatasetLoop layout zapHash dsl os var fuel st' (joined slash labels) child := by
  have here := tree.dir _ _ route
  obtain ⟨nonempty, -, plain⟩ := route_label tree route (.down edge .here) label mem_cons_self
  obtain ⟨_, first, held₁, -⟩ := objsetGetDnode_inside tree.sized tree.readable held here.inside
  obtain ⟨st₂, second, held₂, tag, -⟩ := objsetGetDnode_inside tree.sized tree.readable held₁ here.zapInside
  obtain ⟨st₃, answer, held₃⟩ :=
    @DslDir.lookup δ σ env layout zapHash dsl mos data os var st₂ _ _ _ _ sane here tag other held₂ edge
  have start : (label ++ slashed slash labels).dropWhile (· = slash) = label ++ slashed slash labels := by
    obtain ⟨c, label, rfl⟩ := exists_cons_of_ne_nil nonempty
    have differs : c ≠ slash := fun same => plain (same ▸ mem_cons_self)
    exact dropWhile_cons_of_neg (by simpa using differs)
  have element : (label ++ slashed slash labels).takeWhile (· ≠ slash) = label := by
    have all : ∀ c ∈ label, (decide (c ≠ slash)) = true := fun c member => decide_eq_true fun same =>
      plain (same ▸ member)
    rw [takeWhile_append_of_pos all]
    cases labels with
    | nil => exact append_nil label
    | cons next labels => rw [slashed_cons, takeWhile_cons_of_neg (by simp), append_nil]
  have rest : (label ++ slashed slash labels).drop (label.length + 1) = joined slash labels := by
    rw [← drop_drop, drop_left]
    cases labels with
    | nil => rfl
    | cons next labels => rw [slashed_cons, drop_one, tail_cons]
  refine ⟨st₃, held₃, ?_⟩
  rw [Env.lookupDatasetLoop, first, joined_cons]
  dsimp only
  rw [if_neg (not_not.mpr rfl), start, if_neg (fun none => nonempty (append_eq_nil_iff.mp none).1), element,
    if_neg (not_le.mpr short), second]
  rw [if_neg (not_not.mpr rfl), answer, rest]

theorem lookupDatasetLoop_route (sane : layout.Sane) (other : var ≠ os)
    (tree : DslTree env layout dsl mos data root children) {obj last fuel : Nat} {way labels : List Bytes}
    (start : Route children root way obj) (route : Route children obj labels last) (held : st.Held os mos data)
    (enough : labels.length < fuel) (short : (joined slash labels).length ≤ 254) :
    (env.lookupDatasetLoop layout zapHash dsl os var fuel st (joined slash labels) obj).1 =
      .ok (dsl.ddHeadDatasetObj (dsl.dnodeOf (mos.logical data) last)) := by
  induction route generalizing way fuel st with
  | @here obj =>
    obtain ⟨fuel, rfl⟩ := Nat.exists_eq_succ_of_ne_zero (Nat.ne_of_gt enough)
    obtain ⟨st', read, -⟩ := objsetGetDnode_inside tree.sized tree.readable held (tree.dir _ _ start).inside
    have finished : (joined slash ([] : List Bytes)).dropWhile (· = slash) = [] := rfl
    rw [Env.lookupDatasetLoop, read]
    dsimp only
    rw [if_neg (not_not.mpr rfl), if_pos finished]
  | @down obj child last label labels edge _ ih =>
    obtain ⟨fuel, rfl⟩ := Nat.exists_eq_succ_of_ne_zero (Nat.ne_of_gt (Nat.zero_lt_of_lt enough))
    have length : (joined slash (label :: labels)).length = label.length + (slashed slash labels).length := by
      rw [joined_cons, length_append]
    have fewer : (joined slash labels).length ≤ (slashed slash labels).length := by
      cases labels with
      | nil => exact le_rfl
      | cons next labels =>
        rw [slashed_cons, length_cons]
        exact Nat.le_succ _
    obtain ⟨st', held', turn⟩ := @lookupDatasetLoop_down δ σ env layout zapHash dsl mos data root os var children st obj
      child label sane other
      tree way labels start edge held fuel (by omega)
    rw [length_cons] at enough
    rw [turn]
    exact ih (start.snoc edge) held' (by omega) (by omega)

/-- The pool directory leads to the root. It may be any ZAP object in which the lookup is exact. -/
structure PoolRoot (env : Env δ σ) (layout : ZapLayout) (zapHash : ZapHash) (dsl : DslLayout) (mos : DnodePhys)
    (data : Nat → Bytes) (root : Nat) : Prop where
  inside : dsl.Inside mos dsl.poolDirectoryObject
  zap : ∃ (kind : ZapKind) (phys : DnodePhys) (zapData : Nat → Bytes) (entries : List (Bytes × Nat)),
    dsl.dnodePhys (dsl.dnodeOf (mos.logical data) dsl.poolDirectoryObject) = phys ∧ Readable env phys zapData ∧
      kind.Formed layout zapHash phys zapData entries ∧
        kind.LookupFine layout zapHash phys zapData entries dsl.poolRootDataset ∧
      (dsl.poolRootDataset, root) ∈ entries

theorem zfsLookupDataset_path {dirVar last : Nat} {labels : List Bytes} (sane : layout.Sane) (other : var ≠ os)
    (other' : dirVar ≠ os) (tree : DslTree env layout dsl mos data root children)
    (pool : PoolRoot env layout zapHash dsl mos data root) (route : Route children root labels last)
    (held : st.Held os mos data) (short : (joined slash labels).length ≤ 254) :
    (env.zfsLookupDataset layout zapHash dsl os dirVar var st (joined slash labels)).1 =
      .ok (dsl.ddHeadDatasetObj (dsl.dnodeOf (mos.logical data) last)) := by
  obtain ⟨_, phys, zapData, _, stored, readable, formed, fine, here⟩ := pool.zap
  obtain ⟨st₁, read, held₁, tag, -⟩ := objsetGetDnode_inside tree.sized tree.readable held pool.inside
  obtain ⟨_, _⟩ := length_le_slashed labels
  have filled : (st₁.fill dirVar phys).Held dirVar phys zapData := fill_held tag other'
  have found := (zapLookup_iff sane readable formed filled.same filled.keeps (zap_strings formed _ here)).mpr fine
  have answer := found.1 _ here rfl
  have tagged := @zapLookup_tagged δ σ env layout zapHash _ dirVar phys zapData readable filled dsl.poolRootDataset
  rw [Env.zfsLookupDataset, read]
  dsimp only
  rw [if_neg (not_not.mpr rfl), stored]
  generalize env.zapLookup layout zapHash (st₁.fill dirVar phys) dirVar dsl.poolRootDataset = reply at answer tagged ⊢
  obtain ⟨_, _⟩ := reply
  cases answer
  exact lookupDatasetLoop_route sane other tree .here route
    (held_of_tag (by rw [tagged.2, fill_dnodes other', held₁.same]) tagged.1 other') (by omega) short

/-- Names of datasets: the path that is written leads back, in the state that zfs_rlookup leaves or any other. -/
theorem dataset_name_roundtrip {dirVar objnum obj : Nat} {labels : List Bytes} (sane : layout.Sane) (other : var ≠ os)
    (other' : dirVar ≠ os) (tree : DslTree env layout dsl mos data root children)
    (pool : PoolRoot env layout zapHash dsl mos data root) (route : Route children root labels obj)
    (dataset : dsl.Inside mos objnum) (belongs : dsl.dsDirObj (dsl.dnodeOf (mos.logical data) objnum) = obj)
    (head : dsl.ddHeadDatasetObj (dsl.dnodeOf (mos.logical data) obj) = objnum)
    (short : (joined slash labels).length ≤ 254) (held : st.Held os mos data) {name : Bytes}
    (stack : name.length = 256) (component result : Bytes) :
    ∃ written st', env.zfsRlookup layout zapHash dsl os var st objnum name component result = (.ok written, st') ∧
      bufString written = joined slash labels ∧ st'.Held os mos data ∧
      ∀ later : DnodeCache σ, later.Held os mos data →
        (env.zfsLookupDataset layout zapHash dsl os dirVar var later (bufString written)).1 = .ok objnum := by
  obtain ⟨st', written, held'⟩ :=
    @zfsRlookup_path δ σ env layout zapHash dsl mos data root os var children st sane other tree objnum obj
    labels route dataset belongs short held name stack component result
  have plain : (0 : UInt8) ∉ joined slash labels := fun zero => by
    obtain slash | ⟨one, member, inside⟩ := mem_joined zero
    · exact absurd slash (by decide)
    · exact (route_label tree .here route one member).2.1 inside
  have text := bufString_put plain [] result
  refine ⟨_, st', written, text, held', fun later heldLater => ?_⟩
  rw [text, zfsLookupDataset_path sane other other' tree pool route heldLater short, head]

end

/-! A pool with one dataset, home, below the root. An indirect level leads to the objects of its meta object set. -/

def dslLayout : DslLayout where
  dnodeSize := 512
  dnodePhys bytes := ⟨le 1 1 bytes, le 2 8 bytes, le 1 2 bytes, le 8 16 bytes,
    fun i => fileBp (le 1 (64 + 128 * i) bytes)⟩
  poolDirectoryObject := 1
  poolRootDataset := [0x72, 0x6f, 0x6f, 0x74, 0x5f, 0x64, 0x61, 0x74, 0x61, 0x73, 0x65, 0x74]
  dsDirObj bytes := le 8 192 bytes
  ddHeadDatasetObj bytes := le 8 200 bytes
  ddParentObj bytes := le 8 208 bytes
  ddChildDirZapobj bytes := le 8 224 bytes

def homeName : Bytes := [0x68, 0x6f, 0x6d, 0x65]

def zapDnodeBytes (sector : UInt8) : Bytes :=
  [0, 9, 1, 1, 0, 0, 0, 0] ++ toLe 2 1 ++ replicate 54 0 ++ [sector] ++ replicate 447 0

def dslDirBytes (head parent zap : Nat) : Bytes :=
  replicate 200 0 ++ toLe 8 head ++ toLe 8 parent ++ replicate 8 0 ++ toLe 8 zap ++ replicate 280 0

def dslDatasetBytes (dir : Nat) : Bytes := replicate 192 0 ++ toLe 8 dir ++ replicate 312 0

def microZapEntry (item : Bytes × Nat) : Bytes := toLe 8 item.2 ++ replicate 6 0 ++ item.1.takeD 50 0

def microZapBytes (entries : List (Bytes × Nat)) : Bytes :=
  (toLe 8 (2 ^ 63 + 3) ++ replicate 56 0 ++ entries.flatMap microZapEntry).takeD 512 0

def pointerBytes (sectors : List UInt8) : Bytes := sectors.flatMap fun sector => sector :: replicate 127 0

def poolSectors : List Bytes :=
  [replicate 512 0, zapDnodeBytes 8, dslDirBytes 6 0 3, zapDnodeBytes 9, dslDirBytes 7 2 5, zapDnodeBytes 10,
    dslDatasetBytes 2,
    dslDatasetBytes 4, microZapBytes [(dslLayout.poolRootDataset, 2)], microZapBytes [(homeName, 4)], microZapBytes [],
    pointerBytes [0, 1, 2, 3], pointerBytes [4, 5, 6, 7]]

def poolDisk (sector : Nat) : Bytes := poolSectors.getD sector []

def poolMos : DnodePhys := ⟨9, 1, 2, 7, fun i => fileBp (11 + i)⟩

def poolChildren (obj : Nat) : List (Bytes × Nat) := if obj = 2 then [(homeName, 4)] else []

/-- An object set in thirteen sectors: eight dnodes, three blocks, and two indirect blocks that lead to the dnodes. -/
structure ObjsetDisk (disk : Nat → Bytes) : Prop where
  sized : ∀ sector < 13, (disk sector).length = 512
  pointers : ∀ bn < 8, (slice ((bn % 4) <<< 7) 128 (disk (11 + bn / 4))).head!.toNat = bn

structure ZapsOn (disk : Nat → Bytes) (zaps : List (Nat × Nat × List (Bytes × Nat))) : Prop where
  fields : ∀ zap ∈ zaps, le 1 1 (disk zap.1) = 9 ∧ le 2 8 (disk zap.1) = 1 ∧ le 1 2 (disk zap.1) = 1 ∧
    le 8 16 (disk zap.1) = 0 ∧ le 1 64 (disk zap.1) = zap.2.1 ∧ zap.2.1 < 13
  micro : ∀ zap ∈ zaps, le 8 0 (disk zap.2.1) = zapLayout.zbtMicro ∧
    zap.2.2 = ((zapLayout.mzapChunks 512 (disk zap.2.1)).filter (·.name ≠ [])).map (fun mze => (mze.name, mze.value)) ∧
    (∀ mze ∈ zapLayout.mzapChunks 512 (disk zap.2.1), mze.name = [] → mze.value = 0) ∧ (zap.2.2.map Prod.fst).Nodup ∧
    ∀ item ∈ zap.2.2, (0 : UInt8) ∉ item.1

section

variable {disk : Nat → Bytes} (objset : ObjsetDisk disk)

include objset

theorem ObjsetDisk.taken {sector : Nat} (inside : sector < 13) : (disk sector).take 512 = disk sector := by
  rw [← objset.sized sector inside, take_length]

theorem ObjsetDisk.holds {sector : Nat} (inside : sector < 13) :
    (diskEnv disk).Holds (fileBp sector) (disk sector) := by
  refine fileBp_holds ?_
  rw [← objset.sized sector inside, takeD_eq_take _ le_rfl, take_length]

theorem ObjsetDisk.readable : Readable (diskEnv disk) poolMos disk where
  object := by
    refine ⟨by decide, by decide, le_rfl, fun bn within => ?_⟩
    change bn < 8 at within
    have high : bn >>> 2 = bn / 4 := Nat.shiftRight_eq_div_pow bn 2
    have few : bn / 4 % 4 = bn / 4 := Nat.mod_eq_of_lt (by omega)
    refine ⟨disk (11 + bn / 4), ?_, ?_, ?_⟩
    · change (diskEnv disk).Holds (fileBp (11 + (bn >>> 2) % 4)) _
      rw [high, few]
      exact objset.holds (by omega)
    · rw [objset.sized _ (by omega), Nat.shiftLeft_eq]
      change (bn % 4 + 1) * 128 ≤ 512
      omega
    · change (diskEnv disk).Holds (fileBp (slice ((bn % 4) <<< 7) 128 (disk (11 + bn / 4))).head!.toNat) _
      rw [objset.pointers bn within]
      exact objset.holds (by omega)
  whole bn within := by
    change bn < 8 at within
    rw [objset.sized bn (by omega)]
    exact le_rfl

theorem ObjsetDisk.dnode {obj : Nat} (inside : obj < 8) : dslLayout.dnodeOf (poolMos.logical disk) obj = disk obj := by
  have within : obj ≤ poolMos.maxblkid := Nat.le_of_lt_succ inside
  have whole := objset.readable.whole obj inside
  have block := slice_logical within (by decide : 0 + 512 ≤ poolMos.bsize) whole
  have taken := objset.taken (by omega : obj < 13)
  rw [Nat.add_zero] at block
  refine block.trans ?_
  change slice 0 512 ((disk obj).take 512) = _
  rw [taken, slice, drop_zero, taken]

theorem ObjsetDisk.zap {zaps : List (Nat × Nat × List (Bytes × Nat))} (stored : ZapsOn disk zaps)
    {zap : Nat × Nat × List (Bytes × Nat)} (member : zap ∈ zaps) :
    Readable (diskEnv disk) (dslLayout.dnodePhys (disk zap.1)) (fun _ => disk zap.2.1) ∧
      (dslLayout.dnodePhys (disk zap.1)).bsize = 512 ∧
        (dslLayout.dnodePhys (disk zap.1)).block (fun _ => disk zap.2.1) 0 = disk zap.2.1 ∧
        MicroZap zapLayout 512 (disk zap.2.1) zap.2.2 := by
  obtain ⟨shift, size, levels, last, pointer, inside⟩ := stored.fields zap member
  obtain ⟨type, named, free, distinct, strings⟩ := stored.micro zap member
  have phys : dslLayout.dnodePhys (disk zap.1) = ⟨9, 1, 1, 0, fun i => fileBp (le 1 (64 + 128 * i) (disk zap.1))⟩ := by
    change DnodePhys.mk (le 1 1 (disk zap.1)) (le 2 8 (disk zap.1)) (le 1 2 (disk zap.1)) (le 8 16 (disk zap.1)) _ = _
    rw [shift, size, levels, last]
  rw [phys]
  refine ⟨⟨⟨(by decide : 0 < 1 <<< 9), Nat.one_pos, le_rfl, fun bn within => ?_⟩,
    fun _ _ => (objset.sized zap.2.1 inside).ge⟩, rfl, objset.taken inside, type, named, free, distinct, strings⟩
  obtain rfl : bn = 0 := Nat.lt_one_iff.mp within
  change (diskEnv disk).Holds (fileBp (le 1 64 (disk zap.1))) _
  rw [pointer]
  exact objset.holds inside

end

theorem poolMos_inside {obj : Nat} (inside : obj < 8) : dslLayout.Inside poolMos obj := by
  change (obj + 1) * 512 ≤ 8 * 512
  omega

set_option maxRecDepth 4000 in
theorem poolDisk_objset : ObjsetDisk poolDisk := ⟨by decide, by decide⟩

theorem poolMos_dnode {obj : Nat} (inside : obj < 8) :
    dslLayout.dnodeOf (poolMos.logical poolDisk) obj = poolDisk obj :=
  poolDisk_objset.dnode inside

def poolZaps : List (Nat × Nat × List (Bytes × Nat)) :=
  [(1, 8, [(dslLayout.poolRootDataset, 2)]), (3, 9, [(homeName, 4)]), (5, 10, [])]

set_option maxRecDepth 4000 in
theorem poolZaps_on : ZapsOn poolDisk poolZaps := ⟨by decide, by decide⟩

theorem poolZaps_stored {zap : Nat × Nat × List (Bytes × Nat)} (member : zap ∈ poolZaps) :
    ∃ phys zapData, dslLayout.dnodePhys (poolDisk zap.1) = phys ∧ Readable (diskEnv poolDisk) phys zapData ∧
      MicroZap zapLayout phys.bsize (phys.block zapData 0) zap.2.2 := by
  obtain ⟨readable, bsize, block, micro⟩ := poolDisk_objset.zap poolZaps_on member
  refine ⟨_, _, rfl, readable, ?_⟩
  rw [bsize, block]
  exact micro

theorem poolDisk_dirs : dslLayout.ddChildDirZapobj (poolDisk 2) = 3 ∧ dslLayout.ddChildDirZapobj (poolDisk 4) = 5 ∧
    dslLayout.ddParentObj (poolDisk 2) = 0 ∧ dslLayout.ddParentObj (poolDisk 4) = 2 ∧
    dslLayout.ddHeadDatasetObj (poolDisk 4) = 7 ∧
    dslLayout.dsDirObj (poolDisk 7) = 4 := by
  decide

theorem poolChildren_route {labels : List Bytes} {obj last : Nat} (route : Route poolChildren obj labels last)
    (here : obj = 2 ∨ obj = 4) :
    last = 2 ∨ last = 4 := by
  induction route with
  | here => exact here
  | down edge _ ih =>
    obtain rfl | rfl := here
    · cases mem_singleton.mp edge
      exact ih (.inr rfl)
    · cases edge

theorem poolDisk_tree : DslTree (diskEnv poolDisk) zapLayout dslLayout poolMos poolDisk 2 poolChildren where
  sized := by decide
  readable := poolDisk_objset.readable
  top := by
    rw [poolMos_dnode (by decide)]
    exact poolDisk_dirs.2.2.1
  dir labels obj route := by
    obtain ⟨rootZap, homeZap, -, homeParent, -⟩ := poolDisk_dirs
    obtain rfl | rfl := poolChildren_route route (.inl rfl)
    · have zap := poolMos_dnode (by decide : 2 < 8)
      refine ⟨by decide, (poolMos_inside (by decide)), ?_, ?_, by decide, by decide, ?_⟩
      · rw [zap, rootZap]
        exact (poolMos_inside (by decide))
      · rw [zap, rootZap, poolMos_dnode (by decide)]
        obtain ⟨phys, zapData, stored, readable, micro⟩ := @poolZaps_stored (3, 9, [(homeName, 4)]) (by simp [poolZaps])
        exact ⟨phys, zapData, stored, readable, micro⟩
      · intro item member
        cases mem_singleton.mp member
        rw [poolMos_dnode (by decide)]
        exact homeParent
    · have zap := poolMos_dnode (by decide : 4 < 8)
      refine ⟨by decide, (poolMos_inside (by decide)), ?_, ?_, by decide, by decide, by simp [poolChildren]⟩
      · rw [zap, homeZap]
        exact (poolMos_inside (by decide))
      · rw [zap, homeZap, poolMos_dnode (by decide)]
        obtain ⟨phys, zapData, stored, readable, micro⟩ := @poolZaps_stored (5, 10, []) (by simp [poolZaps])
        exact ⟨phys, zapData, stored, readable, micro⟩

theorem poolDisk_root : PoolRoot (diskEnv poolDisk) zapLayout letterHash dslLayout poolMos poolDisk 2 where
  inside := (poolMos_inside (by decide))
  zap := by
    obtain ⟨phys, zapData, stored, readable, micro⟩ :=
      poolZaps_stored (by decide : (1, 8, [(dslLayout.poolRootDataset, 2)]) ∈ poolZaps)
    refine ⟨.micro, phys, zapData, _, ?_, readable, micro, .inl (by decide), mem_singleton.mpr rfl⟩
    exact (congrArg dslLayout.dnodePhys (poolMos_dnode (by decide : 1 < 8))).trans stored

theorem home_roundtrip :
    ∃ written st', (diskEnv poolDisk).zfsRlookup zapLayout letterHash dslLayout 0 1 (fileCache poolMos) 7
      (replicate 256 0x7a) [] (replicate 256 0x7a) = (.ok written, st') ∧ bufString written = homeName ∧
    ((diskEnv poolDisk).zfsLookupDataset zapLayout letterHash dslLayout 0 2 1 st' (bufString written)).1 = .ok 7 := by
  have route : Route poolChildren 2 [homeName] 4 := .down (mem_singleton.mpr rfl) .here
  have held : (fileCache poolMos).Held 0 poolMos poolDisk :=
    ⟨rfl, fun cached => (Option.some_ne_none _ cached.symm).elim⟩
  obtain ⟨-, -, -, -, head, belongs⟩ := poolDisk_dirs
  have home : dslLayout.dsDirObj (dslLayout.dnodeOf (poolMos.logical poolDisk) 7) = 4 := by
    rw [poolMos_dnode (by decide)]
    exact belongs
  have dataset : dslLayout.ddHeadDatasetObj (dslLayout.dnodeOf (poolMos.logical poolDisk) 4) = 7 := by
    rw [poolMos_dnode (by decide)]
    exact head
  obtain ⟨written, st', wrote, text, kept, back⟩ := dataset_name_roundtrip zapLayout_sane (by decide : 1 ≠ 0)
    (by decide : 2 ≠ 0) poolDisk_tree
    poolDisk_root route (poolMos_inside (by decide)) home dataset (by decide) held
      (length_replicate : (replicate 256 (0x7a : UInt8)).length = 256)
    [] (replicate 256 0x7a)
  exact ⟨written, st', wrote, text, back st' kept⟩

end Pcbsd.Zfs
