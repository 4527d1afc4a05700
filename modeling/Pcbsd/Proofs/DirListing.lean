import Pcbsd.Proofs.FileAccess
import Pcbsd.Proofs.ZapLookup
import Pcbsd.Zfs.Readdir

/-! zfs_readdir called again and again, against what the directory holds and what zap_list prints. -/

namespace Pcbsd.Zfs
open Lib List

variable {δ σ : Type} {env : Env δ σ} {stats : Layout} {layout : DirLayout} {zapHash : ZapHash}

/-- How the parts of the layout fit together, whose headers are not here. -/
structure DirLayout.Sane (layout : DirLayout) : Prop where
  arrays : 0 < layout.arrayBytes
  entLen : 0 < layout.mzapEntLen
  chunks : layout.mzChunkOffset = layout.mzapEntLen
  divides : layout.mzapEntLen ∣ 512
  ent : ∀ block i, layout.mzapEnt (slice (layout.mzapEntLen * (i + 1)) layout.mzapEntLen block) = layout.mzChunk block i
  numLeafs : ∀ block, le 8 layout.numLeafsOffset block = (layout.zapPhys block).numLeafs
  header : layout.numLeafsOffset + 8 ≤ 512
  leaf : ∀ bs, 9 ≤ bs → 0 < layout.leafNumchunks bs
  leafRoom : ∀ bs, layout.leafNumchunks bs < 2 ^ bs
  name : 0 < layout.nameSize
  nameRoom : layout.nameSize ≤ 256

/-- A directory entry as the caller sees it: its object and type, and its name with a NUL behind it. -/
structure Presents (layout : DirLayout) (d : Dirent) (item : Bytes × Nat) : Prop where
  fileno : d.fileno = layout.direntObj item.2
  type : d.type = layout.direntType item.2
  name : item.1 ++ [0] <+: d.name
  namlen : d.namlen = item.1.length

theorem presents_of_start {item : Bytes × Nat} {name : Bytes} (text : (0 : UInt8) ∉ item.1)
    (start : item.1 ++ [0] <+: name) :
    Presents layout (Env.direntOf layout item.2 name) item :=
  ⟨rfl, rfl, start, congrArg length (bufString_start text start)⟩

theorem prefix_terminated {name buf : Bytes} {size : Nat} (short : name.length < size) :
    name ++ [0] <+: put (size - 1) [0] (put 0 (name ++ [0]) buf) := by
  obtain ⟨k, sum⟩ := Nat.exists_eq_add_of_le (Nat.le_sub_one_of_lt short)
  rw [put, put, take_zero, nil_append, sum, append_assoc, append_assoc, take_append, append_assoc]
  rw [take_of_length_le (Nat.le_add_right _ _), Nat.add_sub_cancel_left]
  refine (prefix_append_right_inj name).mpr ?_
  cases k with
  | zero => exact prefix_append _ _
  | succ k => exact ⟨_, rfl⟩

section

variable {place : DirFile → DnodeCache σ → List (Bytes × Nat) → Prop}

/-- From every place a call hands out the first of the entries to come, and is at a place with the rest; or there
are none. -/
def Advances (env : Env δ σ) (stats : Layout) (layout : DirLayout)
    (place : DirFile → DnodeCache σ → List (Bytes × Nat) → Prop) : Prop :=
  ∀ fp st rest, place fp st rest → ∀ d,
    (rest = [] → (env.zfsReaddir stats layout fp st d).1 = .error enoent) ∧
      ∀ item more, rest = item :: more → ∃ d', (env.zfsReaddir stats layout fp st d).1 = .ok d' ∧
        Presents layout d' item ∧
        place (env.zfsReaddir stats layout fp st d).2.1 (env.zfsReaddir stats layout fp st d).2.2 more

variable {st : DnodeCache σ} {fp : DirFile} {d : Dirent}

theorem readdirCalls_ok {d' : Dirent} (ok : (env.zfsReaddir stats layout fp st d).1 = .ok d') (n : Nat) :
    env.readdirCalls stats layout (n + 1) fp st d = .ok d' ::
      env.readdirCalls stats layout n (env.zfsReaddir stats layout fp st d).2.1 (env.zfsReaddir stats layout fp st d).2.2 d' := by
  rw [Env.readdirCalls]
  generalize env.zfsReaddir stats layout fp st d = reply at ok ⊢
  obtain ⟨_, _, _⟩ := reply
  cases ok
  rfl

theorem readdirCalls_error {rc : Int}
    (error : (env.zfsReaddir stats layout fp st d).1 = .error rc) : env.readdirCalls stats layout 1 fp st d =
    [.error rc] := by
  rw [Env.readdirCalls]
  generalize env.zfsReaddir stats layout fp st d = reply at error ⊢
  obtain ⟨_, _, _⟩ := reply
  cases error
  rfl

theorem readdirCalls_place (advances : Advances env stats layout place) {rest : List (Bytes × Nat)}
    (here : place fp st rest) (d : Dirent) : ∃ ds, Forall₂ (Presents layout) ds rest ∧
      env.readdirCalls stats layout (rest.length + 1) fp st d = ds.map .ok ++ [.error enoent] := by
  induction rest generalizing fp st d with
  | nil => exact ⟨[], .nil, readdirCalls_error ((advances fp st [] here d).1 rfl)⟩
  | cons item more ih =>
    obtain ⟨d', ok, presents, next⟩ := (advances fp st _ here d).2 item more rfl
    obtain ⟨ds, all, calls⟩ := ih next d'
    exact ⟨d' :: ds, .cons presents all, by rw [length_cons, readdirCalls_ok ok, calls]; rfl⟩

end

def IsDir (env : Env δ σ) (stats : Layout) (bonus : Bonus) : Prop :=
  ∀ w, ∃ sb, (env.zfsDnodeStat stats bonus w).1 = .ok sb ∧ sIsdir sb.mode = true

structure OpenDir (env : Env δ σ) (stats : Layout) (phys : DnodePhys) (data : Nat → Bytes) (fp : DirFile)
    (st : DnodeCache σ) : Prop where
  isDir : IsDir env stats fp.bonus
  same : st.dnodes fp.dnode = phys
  keeps : st.Keeps fp.dnode (phys.maxblkid + 1) data

section

variable {phys : DnodePhys} {data : Nat → Bytes} {fp : DirFile} {st : DnodeCache σ}

theorem zfsReaddir_stat (opened : OpenDir env stats phys data fp st) (d : Dirent) :
    ∃ w, env.zfsReaddir stats layout fp st d =
      if fp.seekp = 0 then
        if (env.readdirFirst layout fp { st with world := w }).1 ≠ 0 then
          (.error (env.readdirFirst layout fp { st with world := w }).1, (env.readdirFirst layout fp { st with world := w }).2)
        else env.readdirNext layout (env.readdirFirst layout fp { st with world := w }).2.1
          (env.readdirFirst layout fp { st with world := w }).2.2 d
      else env.readdirNext layout fp { st with world := w } d := by
  obtain ⟨_, ok, isDir⟩ := opened.isDir st.world
  rw [Env.zfsReaddir]
  generalize env.zfsDnodeStat stats fp.bonus st.world = reply at ok ⊢
  obtain ⟨_, w⟩ := reply
  cases ok
  refine ⟨w, ?_⟩
  dsimp only
  rw [if_neg (by rw [isDir]; decide)]

structure Walk (env : Env δ σ) (stats : Layout) (layout : DirLayout) (phys : DnodePhys) (data : Nat → Bytes)
    (all : List (Bytes × Nat)) (place : DirFile → DnodeCache σ → List (Bytes × Nat) → Prop) : Prop where
  opened : ∀ {fp st rest}, place fp st rest → OpenDir env stats phys data fp st
  started : ∀ {fp st rest}, place fp st rest → fp.seekp ≠ 0
  world : ∀ {fp st rest}, place fp st rest → ∀ w, place fp { st with world := w } rest
  first : ∀ {fp st}, OpenDir env stats phys data fp st →
    (env.readdirFirst layout fp st).1 = 0 ∧
      place (env.readdirFirst layout fp st).2.1 (env.readdirFirst layout fp st).2.2 all
  next : ∀ {fp st rest}, place fp st rest → ∀ d,
    (rest = [] → (env.readdirNext layout fp st d).1 = .error enoent) ∧
      ∀ item more, rest = item :: more → ∃ d', (env.readdirNext layout fp st d).1 = .ok d' ∧ Presents layout d' item ∧
        place (env.readdirNext layout fp st d).2.1 (env.readdirNext layout fp st d).2.2 more

variable {all : List (Bytes × Nat)} {place : DirFile → DnodeCache σ → List (Bytes × Nat) → Prop}

theorem Walk.advances (walk : Walk env stats layout phys data all place) :
    Advances env stats layout fun fp st rest => (fp.seekp = 0 ∧ OpenDir env stats phys data fp st ∧ rest = all) ∨
    place fp st rest := by
  intro fp st rest here d
  obtain ⟨start, opened, rfl⟩ | here := here
  · obtain ⟨w, called⟩ := zfsReaddir_stat opened d
    have still : OpenDir env stats phys data fp { st with world := w } := ⟨opened.isDir, opened.same, opened.keeps⟩
    obtain ⟨ok, placed⟩ := walk.first still
    rw [called, if_pos start, if_neg (not_not.mpr ok)]
    refine ⟨(walk.next placed d).1, fun item more split => ?_⟩
    obtain ⟨d', ok', presents, placed'⟩ := (walk.next placed d).2 item more split
    exact ⟨d', ok', presents, .inr placed'⟩
  · obtain ⟨w, called⟩ := zfsReaddir_stat (walk.opened here) d
    have placed := walk.world here w
    rw [called, if_neg (walk.started here)]
    refine ⟨(walk.next placed d).1, fun item more split => ?_⟩
    obtain ⟨d', ok', presents, placed'⟩ := (walk.next placed d).2 item more split
    exact ⟨d', ok', presents, .inr placed'⟩

theorem Walk.calls (walk : Walk env stats layout phys data all place) (opened : OpenDir env stats phys data fp st)
    (start : fp.seekp = 0) (d : Dirent) : ∃ ds, Forall₂ (Presents layout) ds all ∧
      env.readdirCalls stats layout (all.length + 1) fp st d = ds.map .ok ++ [.error enoent] :=
  readdirCalls_place walk.advances (.inl ⟨start, opened, rfl⟩) d

variable {entries rest : List (Bytes × Nat)}

theorem bsize_large (readable : Readable env phys data) : 512 ≤ phys.bsize := by
  have sized := readable.object.sized
  rw [DnodePhys.bsize, spaMinblockshift, Nat.shiftLeft_eq] at sized ⊢
  omega

theorem dnodeRead_header (readable : Readable env phys data) (opened : OpenDir env stats phys data fp st) {off n : Nat}
    (inside : off + n ≤ phys.bsize) :
    (env.dnodeRead st fp.dnode off n).1 = 0 ∧ (env.dnodeRead st fp.dnode off n).2.1 = slice off n (phys.block data 0) ∧
      OpenDir env stats phys data fp (env.dnodeRead st fp.dnode off n).2.2 := by
  have read := dnodeRead_within readable.object readable.whole opened.same opened.keeps
    (.inr (inside.trans (Nat.le_mul_of_pos_left _ (Nat.succ_pos _))))
  have block := slice_logical (Nat.zero_le _) inside (readable.whole 0 (Nat.succ_pos _))
  rw [Nat.zero_mul, Nat.zero_add] at block
  exact ⟨read.1, read.2.1.trans block, opened.isDir, read.2.2.2, read.2.2.1⟩

structure MicroPlace (env : Env δ σ) (stats : Layout) (layout : DirLayout) (phys : DnodePhys) (data : Nat → Bytes)
    (fp : DirFile) (st : DnodeCache σ) (rest : List (Bytes × Nat)) (k : Nat) : Prop where
  opened : OpenDir env stats phys data fp st
  type : fp.zapType = layout.zbtMicro
  seekp : fp.seekp = layout.mzapEntLen * (k + 1)
  rest : rest = (((layout.mzapChunks phys.bsize (phys.block data 0)).drop k).filter (·.name ≠ [])).map fun mze =>
    (mze.name, mze.value)

variable (sane : layout.Sane)

include sane

theorem mzap_size (phys : DnodePhys) : ∃ m, phys.bsize = layout.mzapEntLen * m := by
  obtain ⟨k, whole⟩ := sane.divides
  refine ⟨k * phys.datablkszsec, ?_⟩
  rw [DnodePhys.bsize, spaMinblockshift, Nat.shiftLeft_eq, Nat.mul_comm]
  change 512 * _ = _
  rw [whole, Nat.mul_assoc]

theorem mzapChunks_drop {k : Nat} (more : layout.mzapEntLen * (k + 1) < phys.bsize) (block : Bytes) :
    layout.mzapEntLen * (k + 1) + layout.mzapEntLen ≤ phys.bsize ∧
      (layout.mzapChunks phys.bsize block).drop k = layout.mzChunk block k ::
        (layout.mzapChunks phys.bsize block).drop (k + 1) := by
  obtain ⟨m, size⟩ := mzap_size sane phys
  rw [size] at more ⊢
  have less : k + 1 < m := Nat.lt_of_mul_lt_mul_left more
  have count : layout.mzapEntLen * m / layout.mzapEntLen - 1 = m - 1 := by rw [Nat.mul_div_cancel_left _ sane.entLen]
  have inside : k < (layout.mzapChunks (layout.mzapEntLen * m) block).length := by
    rw [ZapLayout.mzapChunks, length_map, length_range, count]
    omega
  refine ⟨?_, ?_⟩
  · exact Nat.mul_le_mul_left _ less
  · rw [drop_eq_getElem_cons inside]
    simp only [ZapLayout.mzapChunks, getElem_map, getElem_range]

theorem mzapChunks_over {k : Nat} (beyond : phys.bsize ≤ layout.mzapEntLen * (k + 1)) (block : Bytes) :
    (layout.mzapChunks phys.bsize block).drop k = [] := by
  obtain ⟨m, size⟩ := mzap_size sane phys
  rw [size] at beyond ⊢
  have most : m ≤ k + 1 := Nat.le_of_mul_le_mul_left beyond sane.entLen
  refine drop_eq_nil_of_le ?_
  rw [ZapLayout.mzapChunks, length_map, length_range, Nat.mul_div_cancel_left _ sane.entLen]
  omega

theorem mzapNext_place (readable : Readable env phys data)
    (micro : MicroZap layout.toZapLayout phys.bsize (phys.block data 0) entries) {fuel k : Nat}
    (enough : phys.bsize - k < fuel) (place : MicroPlace env stats layout phys data fp st rest k) (d : Dirent) :
    (rest = [] → (env.mzapNext layout d fuel fp st).1 = .error enoent) ∧
      ∀ item more, rest = item :: more → ∃ d', (env.mzapNext layout d fuel fp st).1 = .ok d' ∧ Presents layout d' item ∧
        ∃ k', MicroPlace env stats layout phys data (env.mzapNext layout d fuel fp st).2.1
          (env.mzapNext layout d fuel fp st).2.2 more k' := by
  induction fuel generalizing fp st k with
  | zero => omega
  | succ fuel ih =>
    rw [Env.mzapNext, place.opened.same, place.seekp]
    by_cases beyond : phys.bsize ≤ layout.mzapEntLen * (k + 1)
    · have none := place.rest
      rw [mzapChunks_over sane beyond] at none
      rw [if_pos beyond]
      exact ⟨fun _ => rfl, fun item more split => by rw [none] at split; cases split⟩
    rw [if_neg beyond]
    obtain ⟨inside, chunk⟩ := mzapChunks_drop sane (not_le.mp beyond) (phys.block data 0)
    obtain ⟨ok, out, opened⟩ := dnodeRead_header readable place.opened inside
    have start := place.rest
    rw [chunk] at start
    generalize env.dnodeRead st fp.dnode (layout.mzapEntLen * (k + 1)) layout.mzapEntLen = reply at ok out opened ⊢
    dsimp only at ok out opened ⊢
    rw [if_neg (not_not.mpr ok), out, sane.ent]
    have next : layout.mzapEntLen * (k + 1) + layout.mzapEntLen = layout.mzapEntLen * (k + 1 + 1) := (Nat.mul_succ ..).symm
    have further : k < phys.bsize := (Nat.le_mul_of_pos_left k sane.entLen).trans_lt
      ((Nat.mul_le_mul_left _ (Nat.le_succ k)).trans_lt (not_le.mp beyond))
    by_cases free : (layout.mzChunk (phys.block data 0) k).name = []
    · rw [if_pos free]
      rw [filter_cons_of_neg (by simpa using free)] at start
      exact ih (by omega) ⟨⟨opened.isDir, opened.same, opened.keeps⟩, place.type, next, start⟩
    · rw [if_neg free]
      rw [filter_cons_of_pos (by simpa using free), map_cons] at start
      refine ⟨fun none => ?_, fun item more split => ?_⟩
      · rw [none] at start
        cases start
      · rw [split] at start
        obtain ⟨rfl, rfl⟩ := List.cons.inj start
        have stored : ((layout.mzChunk (phys.block data 0) k).name, (layout.mzChunk (phys.block data 0) k).value) ∈ entries := by
          refine micro.mem_iff.mpr ⟨mem_of_mem_drop (i := k) ?_, free⟩
          rw [chunk]
          exact mem_cons_self
        exact ⟨_, rfl, presents_of_start (micro.strings _ stored) (prefix_put _ _), k + 1,
          ⟨opened.isDir, opened.same, opened.keeps⟩, place.type, next, rfl⟩

theorem micro_walk (readable : Readable env phys data)
    (micro : MicroZap layout.toZapLayout phys.bsize (phys.block data 0) entries) :
    Walk env stats layout phys data entries fun fp st rest =>
      ∃ k, MicroPlace env stats layout phys data fp st rest k where
  opened place := place.elim fun _ here => here.opened
  started place := by
    obtain ⟨k, here⟩ := place
    rw [here.seekp]
    exact Nat.mul_ne_zero (Nat.ne_of_gt sane.entLen) (Nat.succ_ne_zero k)
  world place w := place.imp fun k here =>
    ⟨⟨here.opened.isDir, here.opened.same, here.opened.keeps⟩, here.type, here.seekp, here.rest⟩
  first := by
    intro fp st opened
    have large : 0 + 8 ≤ phys.bsize := (by decide : 0 + 8 ≤ 512).trans (bsize_large readable)
    obtain ⟨ok, out, opened'⟩ := dnodeRead_header readable opened large
    rw [Env.readdirFirst]
    generalize env.dnodeRead st fp.dnode 0 8 = reply at ok out opened' ⊢
    obtain ⟨_, zapType, _⟩ := reply
    dsimp only at ok out opened' ⊢
    have type : le 8 0 zapType = layout.zbtMicro := by rw [out, le, slice_slice _ (le_refl _)]; exact micro.type
    rw [if_neg (not_not.mpr ok), if_pos type]
    exact ⟨rfl, 0, ⟨opened'.isDir, opened'.same, opened'.keeps⟩, type, by rw [sane.chunks]; simp, micro.named⟩
  next := by
    intro fp st rest place d
    obtain ⟨k, here⟩ := place
    rw [Env.readdirNext, if_pos here.type]
    refine mzapNext_place sane readable micro ?_ here d
    rw [Env.readdirFuel, here.opened.same]
    have most := Nat.le_mul_of_pos_right phys.bsize (by omega : 0 < fp.numLeafs + 1)
    omega

end

def entryChunks (layout : DirLayout) (zl : ZapLeaf) (js : List Nat) : List Nat :=
  js.filter fun j => (layout.leafChunk zl.bs zl.phys j).entry.type = layout.chunkEntry

/-- A directory in a fat ZAP object: behind the header come `n` leaves, with these items in the order of their
chunks. -/
structure FatDir (layout : DirLayout) (zapHash : ZapHash) (bs n last : Nat) (block : Nat → Bytes)
    (items : Nat → List (Bytes × Nat)) : Prop where
  type : le 8 0 (block 0) ≠ layout.zbtMicro
  magic : (layout.zapPhys (block 0)).magic = layout.zapMagic
  numLeafs : (layout.zapPhys (block 0)).numLeafs = n
  positive : 0 < n
  within : n ≤ last
  leaf : ∀ i, 0 < i → i ≤ n → Forall₂ (layout.StoredItem zapHash (layout.zapPhys (block 0)).salt ⟨bs, block i⟩)
    (entryChunks layout ⟨bs, block i⟩ (range (layout.leafNumchunks bs))) (items i)
  strings : ∀ i, ∀ item ∈ items i, (0 : UInt8) ∉ item.1
  short : ∀ i, ∀ item ∈ items i, item.1.length < layout.nameSize

def leafItems (items : Nat → List (Bytes × Nat)) (i j : Nat) : List (Bytes × Nat) := (range' i (j - i)).flatMap items

/-- Chunk `c` of leaf `i`, the leaf being in the buffer. The last of several leaves is never read. -/
structure FatPlace (env : Env δ σ) (stats : Layout) (layout : DirLayout) (zapHash : ZapHash) (phys : DnodePhys)
    (data : Nat → Bytes) (bs n : Nat)
    (items : Nat → List (Bytes × Nat)) (fp : DirFile) (st : DnodeCache σ) (rest : List (Bytes × Nat)) (i c : Nat) :
      Prop where
  opened : OpenDir env stats phys data fp st
  type : fp.zapType ≠ layout.zbtMicro
  numLeafs : fp.numLeafs = n
  seekp : fp.seekp = i * phys.bsize + c
  leaf : fp.zapLeaf = phys.block data i
  positive : 0 < i
  within : i ≤ n
  chunk : c ≤ layout.leafNumchunks bs
  coming : ∃ now, Forall₂ (layout.StoredItem zapHash (layout.zapPhys (phys.block data 0)).salt ⟨bs, phys.block data i⟩)
      (entryChunks layout ⟨bs, phys.block data i⟩ (range' c (layout.leafNumchunks bs - c))) now ∧
    rest = now ++ leafItems items (i + 1) n
  shown : ∀ item ∈ rest, (0 : UInt8) ∉ item.1 ∧ item.1.length < layout.nameSize

section

variable {phys : DnodePhys} {data : Nat → Bytes} {fp : DirFile} {st : DnodeCache σ} {rest : List (Bytes × Nat)}
    {bs n i c : Nat}
  {items : Nat → List (Bytes × Nat)}

theorem leafDirent_stored (sane : layout.Sane) {salt j : Nat} {zl : ZapLeaf} {item : Bytes × Nat}
    (stored : layout.StoredItem zapHash salt zl j item) (text : (0 : UInt8) ∉ item.1)
    (short : item.1.length < layout.nameSize) (d : Dirent) :
    ∃ d', Env.leafDirent layout zl (layout.leafChunk zl.bs zl.phys j) d = .ok d' ∧ Presents layout d' item := by
  have copied := ZapLayout.nameCopyLoop_stored stored.name sane.arrays (le_refl _) []
  rw [length_append, length_singleton] at copied
  rw [Env.leafDirent, stored.length, min_eq_left (by omega), copied, stored.leafValue]
  exact ⟨_, rfl, presents_of_start text (prefix_terminated short)⟩

theorem seekp_and {k : Nat} (power : phys.bsize = 2 ^ bs) (small : c < phys.bsize) :
    (k * phys.bsize + c) &&& (phys.bsize - 1) = c := by
  rw [power] at small ⊢
  rw [Nat.and_two_pow_sub_one_eq_mod, Nat.add_comm, Nat.add_mul_mod_self_right, Nat.mod_eq_of_lt small]

def chunksLeft (layout : DirLayout) (bs n i c : Nat) : Nat :=
  (n - i) * (layout.leafNumchunks bs + 1) + (layout.leafNumchunks bs - c)

theorem nine_le (readable : Readable env phys data) (power : phys.bsize = 2 ^ bs) : 9 ≤ bs := by
  have large := bsize_large readable
  rw [power] at large
  exact (Nat.pow_le_pow_iff_right (by decide : 1 < 2)).mp large

theorem leafItems_succ {j : Nat} (less : i < j) : leafItems items i j = items i ++ leafItems items (i + 1) j := by
  obtain ⟨k, rfl⟩ := Nat.exists_eq_add_of_lt less
  have here : i + k + 1 - i = k + 1 := by omega
  have there : i + k + 1 - (i + 1) = k := by omega
  rw [leafItems, leafItems, here, there, range'_succ, flatMap_cons]

/-- Before a chunk is looked at: there is one in this leaf, or the next leaf is read, or the end is noticed. -/
theorem seekLeaf_place (sane : layout.Sane) (readable : Readable env phys data) (power : phys.bsize = 2 ^ bs)
    (dir : FatDir layout zapHash bs n phys.maxblkid (phys.block data) items)
    (place : FatPlace env stats layout zapHash phys data bs n items fp st rest i c) :
    (rest = [] ∧ (env.seekLeaf layout bs fp st).1 = enoent) ∨
      ∃ i' c', (env.seekLeaf layout bs fp st).1 = 0 ∧ (env.seekLeaf layout bs fp st).2.2.2 = c' ∧
        c' < layout.leafNumchunks bs ∧ chunksLeft layout bs n i' c' ≤ chunksLeft layout bs n i c ∧
        FatPlace env stats layout zapHash phys data bs n items (env.seekLeaf layout bs fp st).2.1
          (env.seekLeaf layout bs fp st).2.2.1 rest i' c' := by
  have room := sane.leafRoom bs
  have low : fp.seekp &&& (phys.bsize - 1) = c := by
    rw [place.seekp, seekp_and power (by have := place.chunk; omega)]
  rw [Env.seekLeaf, place.opened.same, low]
  by_cases full : c = layout.leafNumchunks bs
  · rw [if_pos full]
    have next : fp.seekp - c + phys.bsize = (i + 1) * phys.bsize := by
      rw [place.seekp, Nat.add_sub_cancel, Nat.succ_mul]
    rw [next, place.numLeafs]
    obtain ⟨now, stored, coming⟩ := place.coming
    have none : now = [] := by
      rw [full, Nat.sub_self] at stored
      cases stored
      rfl
    rw [none, nil_append] at coming
    by_cases last : phys.bsize * n ≤ (i + 1) * phys.bsize
    · rw [if_pos last]
      have end_ : n ≤ i + 1 := Nat.le_of_mul_le_mul_left (by rw [Nat.mul_comm phys.bsize (i + 1)]; exact last)
        readable.object.sized
      exact .inl ⟨by rw [coming, leafItems, Nat.sub_eq_zero_of_le end_]; rfl, rfl⟩
    · rw [if_neg last]
      have more : i + 1 < n := by
        by_contra beyond
        exact last (by rw [Nat.mul_comm phys.bsize]; exact Nat.mul_le_mul_right _ (not_lt.mp beyond))
      have within : i + 1 ≤ phys.maxblkid := more.le.trans dir.within
      obtain ⟨ok, out, keeps, same⟩ := dnodeRead_block readable place.opened.same place.opened.keeps within
      generalize env.dnodeRead st fp.dnode ((i + 1) * phys.bsize) phys.bsize = reply at ok out keeps same ⊢
      refine .inr ⟨i + 1, 0, ok, rfl, ?_, ?_,
        ⟨⟨place.opened.isDir, same, keeps⟩, place.type, rfl, rfl, out, Nat.succ_pos i, more.le,
        Nat.zero_le _, ⟨items (i + 1), ?_, ?_⟩, place.shown⟩⟩
      · exact sane.leaf bs (nine_le readable power)
      · obtain ⟨k, rfl⟩ := Nat.exists_eq_add_of_lt more
        have here : i + 1 + k + 1 - i = k + 1 + 1 := by omega
        have there : i + 1 + k + 1 - (i + 1) = k + 1 := by omega
        rw [chunksLeft, chunksLeft, here, there, Nat.succ_mul (k + 1)]
        omega
      · rw [Nat.sub_zero, ← range_eq_range']
        exact dir.leaf (i + 1) (Nat.succ_pos i) more.le
      · rw [coming, leafItems_succ more]
  · rw [if_neg full]
    exact .inr ⟨i, c, rfl, rfl, lt_of_le_of_ne place.chunk full, le_rfl, place⟩

theorem entryChunks_cons {zl : ZapLeaf} {j : Nat} {js : List Nat} :
    entryChunks layout zl (j :: js) = if (layout.leafChunk zl.bs zl.phys j).entry.type = layout.chunkEntry then
      j :: entryChunks layout zl js else entryChunks layout zl js := by
  rw [entryChunks, filter_cons]
  simp only [decide_eq_true_eq]
  rfl

theorem FatPlace.turn (place : FatPlace env stats layout zapHash phys data bs n items fp st rest i c)
    (inside : c < layout.leafNumchunks bs) :
    ((layout.leafChunk bs fp.zapLeaf c).entry.type ≠ layout.chunkEntry ∧
      FatPlace env stats layout zapHash phys data bs n items { fp with seekp := fp.seekp + 1 } st rest i (c + 1)) ∨
    ((layout.leafChunk bs fp.zapLeaf c).entry.type = layout.chunkEntry ∧ ∃ item more, rest = item :: more ∧
      layout.StoredItem zapHash (layout.zapPhys (phys.block data 0)).salt ⟨bs, fp.zapLeaf⟩ c item ∧
      FatPlace env stats layout zapHash phys data bs n items { fp with seekp := fp.seekp + 1 } st more i (c + 1)) := by
  obtain ⟨now, stored, coming⟩ := place.coming
  have left : layout.leafNumchunks bs - c = layout.leafNumchunks bs - (c + 1) + 1 := by omega
  have seekp : fp.seekp + 1 = i * phys.bsize + (c + 1) := by rw [place.seekp, Nat.add_assoc]
  have opened : OpenDir env stats phys data { fp with seekp := fp.seekp + 1 } st :=
    ⟨place.opened.isDir, place.opened.same, place.opened.keeps⟩
  rw [left, range'_succ, entryChunks_cons, ← place.leaf] at stored
  by_cases entry : (layout.leafChunk bs fp.zapLeaf c).entry.type = layout.chunkEntry
  · rw [if_pos entry] at stored
    obtain ⟨item, later, here, others, rfl⟩ := forall₂_cons_left_iff.mp stored
    rw [place.leaf] at others
    refine .inr ⟨entry, item, later ++ leafItems items (i + 1) n, coming, here,
      ⟨opened, place.type, place.numLeafs, seekp, place.leaf,
      place.positive, place.within, inside, ⟨later, others, rfl⟩, fun other member => place.shown other ?_⟩⟩
    rw [coming]
    exact mem_cons_of_mem item member
  · rw [if_neg entry, place.leaf] at stored
    exact .inl ⟨entry, opened, place.type, place.numLeafs, seekp, place.leaf, place.positive, place.within, inside,
      ⟨now, stored, coming⟩, place.shown⟩

theorem fzapNext_place (sane : layout.Sane) (readable : Readable env phys data) (power : phys.bsize = 2 ^ bs)
    (dir : FatDir layout zapHash bs n phys.maxblkid (phys.block data) items) {fuel : Nat}
    (enough : chunksLeft layout bs n i c < fuel)
    (place : FatPlace env stats layout zapHash phys data bs n items fp st rest i c) (d : Dirent) :
    (rest = [] → (env.fzapNext layout bs d fuel fp st).1 = .error enoent) ∧
      ∀ item more, rest = item :: more → ∃ d', (env.fzapNext layout bs d fuel fp st).1 = .ok d' ∧
        Presents layout d' item ∧
        ∃ i' c', FatPlace env stats layout zapHash phys data bs n items (env.fzapNext layout bs d fuel fp st).2.1
          (env.fzapNext layout bs d fuel fp st).2.2 more i' c' := by
  induction fuel generalizing fp st i c with
  | zero => omega
  | succ fuel ih =>
    have sought := seekLeaf_place sane readable power dir place
    rw [Env.fzapNext]
    generalize env.seekLeaf layout bs fp st = reply at sought ⊢
    obtain ⟨_, _, _, chunk⟩ := reply
    dsimp only at sought ⊢
    obtain ⟨rfl, rfl⟩ | ⟨i', c', rfl, rfl, inside, fewer, place'⟩ := sought
    · exact ⟨fun _ => by rw [if_pos (by decide)], fun item more split => by cases split⟩
    rw [if_neg (not_not.mpr rfl), ZapLayout.chunk_inside inside]
    dsimp only
    have shorter : chunksLeft layout bs n i' (chunk + 1) < fuel := by
      rw [chunksLeft] at fewer ⊢
      omega
    obtain ⟨other, next⟩ | ⟨entry, item, more, rfl, stored, next⟩ := place'.turn inside
    · rw [if_pos other]
      exact ih shorter next
    · rw [if_neg (not_not.mpr entry)]
      refine ⟨fun none => absurd none (cons_ne_nil item more), fun this more' split => ?_⟩
      obtain ⟨rfl, rfl⟩ := List.cons.inj split
      obtain ⟨text, short⟩ := place'.shown _ mem_cons_self
      obtain ⟨d', shown, presents⟩ := leafDirent_stored sane stored text short d
      exact ⟨d', shown, presents, i', chunk + 1, next⟩

theorem chunksLeft_lt (sane : layout.Sane) (power : phys.bsize = 2 ^ bs) (n i c : Nat) :
    chunksLeft layout bs n i c < phys.bsize *
    (n + 1) + 1 := by
  have room := sane.leafRoom bs
  rw [← power] at room
  have leaves : (n - i) * (layout.leafNumchunks bs + 1) ≤ n * phys.bsize := Nat.mul_le_mul (Nat.sub_le n i) room
  have total : phys.bsize * (n + 1) = n * phys.bsize + phys.bsize := by rw [Nat.mul_succ, Nat.mul_comm]
  rw [chunksLeft, total]
  omega

theorem le_slice (off : Nat) (bs : Bytes) : le 8 0 (slice off 8 bs) = le 8 off bs := by
  rw [le, le, slice, slice, drop_zero, take_take, min_self]

theorem fat_walk (sane : layout.Sane) (readable : Readable env phys data) (power : phys.bsize = 2 ^ bs)
    (narrow : bs < 32) (dir : FatDir layout zapHash bs n phys.maxblkid (phys.block data) items) :
    Walk env stats layout phys data (items 1 ++ leafItems items 2 n) fun fp st rest =>
      ∃ i c, FatPlace env stats layout zapHash phys data bs n items fp st rest i c where
  opened place := place.elim fun _ here => here.elim fun _ here => here.opened
  started place := by
    obtain ⟨i, c, here⟩ := place
    have blocks := Nat.mul_pos here.positive readable.object.sized
    rw [here.seekp]
    omega
  world place w := place.imp fun i here => here.imp fun c here =>
    ⟨⟨here.opened.isDir, here.opened.same, here.opened.keeps⟩, here.type,
    here.numLeafs, here.seekp, here.leaf, here.positive, here.within, here.chunk, here.coming, here.shown⟩
  first := by
    intro fp st opened
    have large := bsize_large readable
    obtain ⟨ok, out, opened'⟩ := dnodeRead_header readable opened (by omega : 0 + 8 ≤ phys.bsize)
    rw [Env.readdirFirst, opened.same]
    generalize env.dnodeRead st fp.dnode 0 8 = reply at ok out opened' ⊢
    obtain ⟨rc, zapType, st'⟩ := reply
    dsimp only at ok out opened' ⊢
    have type : le 8 0 zapType ≠ layout.zbtMicro := by rw [out, le_slice]; exact dir.type
    rw [if_neg (not_not.mpr ok), if_neg type]
    obtain ⟨ok, out, opened''⟩ := dnodeRead_header readable opened' (sane.header.trans large)
    generalize env.dnodeRead st' fp.dnode layout.numLeafsOffset 8 = reply at ok out opened'' ⊢
    obtain ⟨rc, numLeafs, st''⟩ := reply
    dsimp only at ok out opened'' ⊢
    have leafs : le 8 0 numLeafs = n := by rw [out, le_slice, sane.numLeafs, dir.numLeafs]
    rw [if_neg (not_not.mpr ok), leafs]
    obtain ⟨ok, out, keeps, same⟩ := dnodeRead_block readable opened''.same opened''.keeps
      (dir.positive.trans_le dir.within : 1 ≤ phys.maxblkid)
    rw [Nat.one_mul] at ok out keeps same
    generalize env.dnodeRead st'' fp.dnode phys.bsize phys.bsize = reply at ok out keeps same ⊢
    refine ⟨ok, 1, 0, ⟨opened.isDir, same, keeps⟩, type, rfl, (Nat.one_mul _).symm, out, Nat.one_pos, dir.positive,
      Nat.zero_le _, ⟨items 1, ?_, rfl⟩, fun item member => ?_⟩
    · rw [Nat.sub_zero, ← range_eq_range']
      exact dir.leaf 1 Nat.one_pos dir.positive
    · obtain first | later := mem_append.mp member
      · exact ⟨dir.strings 1 item first, dir.short 1 item first⟩
      · obtain ⟨i, -, here⟩ := mem_flatMap.mp later
        exact ⟨dir.strings i item here, dir.short i item here⟩
  next := by
    intro fp st rest place d
    obtain ⟨i, c, here⟩ := place
    rw [Env.readdirNext, if_neg here.type, here.opened.same, power, ilog2_two_pow bs narrow]
    refine fzapNext_place sane readable power dir ?_ here d
    rw [Env.readdirFuel, here.opened.same, here.numLeafs]
    exact chunksLeft_lt sane power n i c

variable {dnode : Nat}

theorem leafNames_stored (sane : layout.Sane) {salt : Nat} {zl : ZapLeaf} {js : List Nat} {its : List (Bytes × Nat)}
    (inside : ∀ j ∈ js, j < layout.leafNumchunks zl.bs)
    (stored : Forall₂ (layout.StoredItem zapHash salt zl) (entryChunks layout zl js) its)
    (shown : ∀ item ∈ its, (0 : UInt8) ∉ item.1 ∧ item.1.length < layout.nameSize) :
    Env.leafNames layout zl js = .ok (its.map Prod.fst) := by
  induction js generalizing its with
  | nil => cases stored; rfl
  | cons j js ih =>
    obtain ⟨here, later⟩ := forall_mem_cons.mp inside
    rw [Env.leafNames, ZapLayout.chunk_inside here]
    dsimp only
    rw [entryChunks_cons] at stored
    by_cases entry : (layout.leafChunk zl.bs zl.phys j).entry.type = layout.chunkEntry
    · rw [if_pos entry] at stored
      obtain ⟨item, _, this, others, rfl⟩ := forall₂_cons_left_iff.mp stored
      obtain ⟨⟨text, _⟩, rest⟩ := forall_mem_cons.mp shown
      have copied := ZapLayout.nameCopyLoop_stored this.name sane.arrays (le_refl _) []
      rw [length_append, length_singleton, nil_append] at copied
      have room := sane.nameRoom
      rw [if_neg (not_not.mpr entry), this.length, min_eq_left (by omega), copied, this.leafValue, ih later others rest]
      dsimp only
      rw [bufString_start text prefix_rfl, map_cons]
    · rw [if_neg entry] at stored
      rw [if_pos entry]
      exact ih later stored shown

theorem fzapListLoop_stored (sane : layout.Sane) (readable : Readable env phys data) (power : phys.bsize = 2 ^ bs)
    (dir : FatDir layout zapHash bs n phys.maxblkid (phys.block data) items) {is : List Nat} (leaves : ∀ i ∈ is, i < n)
    (same : st.dnodes dnode = phys) (keeps : st.Keeps dnode (phys.maxblkid + 1) data) :
    (env.fzapListLoop layout bs dnode is st).1 = .ok ((is.flatMap fun i => items (i + 1)).map Prod.fst) := by
  induction is generalizing st with
  | nil => rfl
  | cons i is ih =>
    obtain ⟨here, later⟩ := forall_mem_cons.mp leaves
    obtain ⟨ok, out, keeps', same'⟩ := dnodeRead_block readable same keeps ((Nat.succ_le_of_lt here).trans dir.within)
    have names := ih later same' keeps'
    rw [Env.fzapListLoop, Nat.shiftLeft_eq, same, ← power]
    generalize env.dnodeRead st dnode ((i + 1) * phys.bsize) phys.bsize = reply at ok out names ⊢
    obtain ⟨_, leaf, st'⟩ := reply
    dsimp only at ok out names ⊢
    have these := leafNames_stored sane (fun j member => mem_range.mp member) (dir.leaf (i + 1) (Nat.succ_pos i) here)
      fun item member => ⟨dir.strings (i + 1) item member, dir.short (i + 1) item member⟩
    generalize env.fzapListLoop layout bs dnode is st' = more at names ⊢
    obtain ⟨_, _⟩ := more
    dsimp only at names these ⊢
    rw [if_neg (not_not.mpr ok), out, these, names, flatMap_cons, map_append]

end

/-- What a directory is: a microzap, or a fat ZAP object with blocks of 2^bs bytes and `n` leaves. -/
inductive DirKind where
  | micro
  | fat (bs n : Nat) (items : Nat → List (Bytes × Nat))

def DirKind.Formed (layout : DirLayout) (zapHash : ZapHash) (phys : DnodePhys) (data : Nat → Bytes)
    (entries : List (Bytes × Nat)) : DirKind → Prop
  | .micro => MicroZap layout.toZapLayout phys.bsize (phys.block data 0) entries
  | .fat bs n items => phys.bsize = 2 ^ bs ∧ bs < 32 ∧
      FatDir layout zapHash bs n phys.maxblkid (phys.block data) items ∧
    entries = leafItems items 1 (n + 1)

def DirKind.LastSeen : DirKind → Prop
  | .micro => True
  | .fat _ n items => n = 1 ∨ items n = []

/-- Every entry comes once, and then ENOENT, and the names are those that zap_list prints. -/
def Enumerated (env : Env δ σ) (stats : Layout) (layout : DirLayout) (entries : List (Bytes × Nat)) (fp : DirFile)
    (st : DnodeCache σ) (d : Dirent) : Prop :=
  ∃ ds, (∃ seen, seen.Perm entries ∧ Forall₂ (Presents layout) ds seen) ∧
    env.readdirCalls stats layout (entries.length + 1) fp st d = ds.map .ok ++ [.error enoent] ∧
    ∃ names, (env.zapList layout st fp.dnode).1 = .ok names ∧ names.Perm (ds.map fun d => bufString d.name)

theorem readdirCalls_take (n k : Nat) (fp : DirFile) (st : DnodeCache σ) (d : Dirent) :
    (env.readdirCalls stats layout (n + k) fp st d).take n = env.readdirCalls stats layout n fp st d := by
  induction n generalizing fp st d with
  | zero => rfl
  | succ n ih =>
    rw [Nat.succ_add, Env.readdirCalls, Env.readdirCalls]
    rcases env.zfsReaddir stats layout fp st d with ⟨_ | _ | _, _, _⟩
    all_goals
      rw [take_succ_cons, ih]

theorem leafItems_append {items : Nat → List (Bytes × Nat)} {i j k : Nat} (first : i ≤ j) (second : j ≤ k) :
    leafItems items i j ++ leafItems items j k = leafItems items i k := by
  have whole : k - i = (j - i) + (k - j) := by omega
  have next : i + (j - i) = j := by omega
  rw [leafItems, leafItems, leafItems, whole, ← range'_append_1, flatMap_append, next]

section

variable {phys : DnodePhys} {data : Nat → Bytes} {st : DnodeCache σ} {dnode : Nat} {kind : DirKind}
    {entries : List (Bytes × Nat)} {fp : DirFile}

theorem leafItems_range (items : Nat → List (Bytes × Nat)) (n : Nat) :
    leafItems items 1 (n + 1) = (range n).flatMap fun i => items (i + 1) := by
  rw [leafItems, Nat.add_sub_cancel, range'_eq_map_range, flatMap_map]
  simp only [Nat.add_comm 1]

theorem zapList_formed (sane : layout.Sane) (readable : Readable env phys data)
    (formed : kind.Formed layout zapHash phys data entries) (same : st.dnodes dnode = phys)
    (keeps : st.Keeps dnode (phys.maxblkid + 1) data) :
    (env.zapList layout st dnode).1 = .ok (entries.map Prod.fst) := by
  obtain ⟨_, header, keeps', same'⟩ := zapHeader readable same keeps
  rw [Env.zapList, header]
  dsimp only
  rw [if_neg (not_not.mpr rfl), same']
  cases kind with
  | micro =>
    rw [if_pos formed.type, Env.mzapList, formed.named, map_map]
    rfl
  | fat bs _ _ =>
    obtain ⟨power, narrow, dir, rfl⟩ := formed
    rw [if_neg dir.type, if_neg (not_not.mpr dir.magic), power, ilog2_two_pow bs narrow]
    rw [dir.numLeafs, fzapListLoop_stored sane readable power dir (fun i member => mem_range.mp member) same' keeps',
      leafItems_range]

def DirKind.walked : DirKind → List (Bytes × Nat) → List (Bytes × Nat)
  | .micro, entries => entries
  | .fat _ n items, _ => items 1 ++ leafItems items 2 n

theorem walked_iff (formed : kind.Formed layout zapHash phys data entries) :
    ((kind.walked entries).length = entries.length → kind.LastSeen) ∧
    (kind.LastSeen → kind.walked entries = entries) := by
  cases kind with
  | micro => exact ⟨fun _ => trivial, fun _ => rfl⟩
  | fat _ n items =>
    obtain ⟨-, -, dir, rfl⟩ := formed
    have positive := dir.positive
    obtain rfl | _ : n = 1 ∨ 2 ≤ n := by omega
    · refine ⟨fun _ => .inl rfl, fun _ => ?_⟩
      simp [DirKind.walked, leafItems]
    · have whole : leafItems items 1 (n + 1) = items 1 ++ leafItems items 2 n ++ items n := by
        rw [← leafItems_append (by omega : 1 ≤ n) (Nat.le_succ n), leafItems_succ (by omega : 1 < n),
          leafItems_succ (Nat.lt_succ_self n)]
        simp [leafItems]
      rw [DirKind.walked, whole]
      generalize items 1 ++ leafItems items 2 n = seen
      refine ⟨fun even => .inr ?_, fun last => ?_⟩
      · rw [length_append] at even
        exact eq_nil_of_length_eq_zero (by omega)
      · rw [last.resolve_left (by omega), append_nil]

theorem readdirCalls_formed (sane : layout.Sane) (readable : Readable env phys data)
    (formed : kind.Formed layout zapHash phys data entries) (opened : OpenDir env stats phys data fp st)
    (start : fp.seekp = 0) (d : Dirent) :
    ∃ ds, Forall₂ (Presents layout) ds (kind.walked entries) ∧
      env.readdirCalls stats layout ((kind.walked entries).length + 1) fp st d = ds.map .ok ++ [.error enoent] := by
  cases kind with
  | micro => exact (micro_walk sane readable formed).calls opened start d
  | fat _ _ _ =>
    obtain ⟨power, narrow, dir, -⟩ := formed
    exact (fat_walk sane readable power narrow dir).calls opened start d

theorem formed_strings (formed : kind.Formed layout zapHash phys data entries) :
    ∀ item ∈ entries, (0 : UInt8) ∉ item.1 := by
  cases kind with
  | micro => exact formed.strings
  | fat _ _ _ =>
    obtain ⟨-, -, dir, rfl⟩ := formed
    intro item member
    obtain ⟨i, -, here⟩ := mem_flatMap.mp member
    exact dir.strings i item here

theorem presents_names {ds : List Dirent} (strings : ∀ item ∈ entries, (0 : UInt8) ∉ item.1)
    (presents : Forall₂ (Presents layout) ds entries) :
    (ds.map fun d => bufString d.name) = entries.map Prod.fst := by
  induction presents with
  | nil => rfl
  | cons here _ ih =>
    obtain ⟨text, texts⟩ := forall_mem_cons.mp strings
    rw [map_cons, map_cons, bufString_start text here.name, ih texts]

theorem readdirCalls_ends {ds ds' : List Dirent} {d : Dirent}
    (one : env.readdirCalls stats layout (ds.length + 1) fp st d = ds.map .ok ++ [.error enoent])
    (other : env.readdirCalls stats layout (ds'.length + 1) fp st d = ds'.map .ok ++ [.error enoent]) :
    ds'.length ≤ ds.length := by
  by_contra more
  obtain ⟨k, _⟩ := Nat.exists_eq_add_of_lt (not_le.mp more)
  have both := @readdirCalls_take δ σ env stats layout (ds.length + 1) (k + 1) fp st d
  have total : ds.length + 1 + (k + 1) = ds'.length + 1 := by omega
  have inside : ds.length < ds'.length := by omega
  rw [total, other, one] at both
  have here := congrArg (·[ds.length]?) both
  simp [getElem?_append_left, inside] at here

/-- A directory is enumerated exactly if it has no second leaf, or no entries in its last leaf. -/
theorem zfsReaddir_enumerates_iff (sane : layout.Sane) (readable : Readable env phys data)
    (formed : kind.Formed layout zapHash phys data entries) (opened : OpenDir env stats phys data fp st)
    (start : fp.seekp = 0) (d : Dirent) :
    Enumerated env stats layout entries fp st d ↔ kind.LastSeen := by
  obtain ⟨ds, presents, calls⟩ := readdirCalls_formed sane readable formed opened start d
  have listed := zapList_formed sane readable formed opened.same opened.keeps
  constructor
  · rintro ⟨_, ⟨_, perm, presents'⟩, calls', -⟩
    rw [← presents.length_eq] at calls
    rw [← perm.length_eq, ← presents'.length_eq] at calls'
    refine (walked_iff formed).1 ?_
    rw [← presents.length_eq, ← perm.length_eq, ← presents'.length_eq]
    exact le_antisymm (readdirCalls_ends calls' calls) (readdirCalls_ends calls calls')
  · intro last
    rw [(walked_iff formed).2 last] at presents calls
    refine ⟨ds, ⟨entries, .refl _, presents⟩, calls, _, listed, .of_eq ?_⟩
    exact (presents_names (formed_strings formed) presents).symm

end

/-! A directory with the names a and b in its first leaf, and one with the name c in a second leaf besides. -/

def dirLayout : DirLayout where
  toZapLayout := zapLayout
  mzChunkOffset := 64
  numLeafsOffset := 64
  mzapEnt ent := ⟨le 8 0 ent, bufString (slice 14 50 ent)⟩
  direntObj value := value % 2 ^ 48
  direntType value := value / 2 ^ 60
  nameSize := 256

theorem slice_within {base off n m : Nat} (bs : Bytes) (covered : off + n ≤ m) :
    slice off n (slice base m bs) = slice (base + off) n bs := by
  have taken : slice base m bs = (bs.drop base).take m := rfl
  rw [taken, slice_take _ covered, slice, slice, drop_drop]

theorem dirLayout_sane : dirLayout.Sane where
  arrays := by decide
  entLen := by decide
  chunks := rfl
  divides := by decide
  ent block i := by
    have value : slice 0 8 (slice (64 * (i + 1)) 64 block) = slice (64 * (i + 1) + 0) 8 block := slice_within block (by decide)
    have name : slice 14 50 (slice (64 * (i + 1)) 64 block) = slice (64 * (i + 1) + 14) 50 block := slice_within block (by decide)
    change MzapEnt.mk (le 8 0 (slice (64 * (i + 1)) 64 block)) (bufString (slice 14 50 (slice (64 * (i + 1)) 64 block))) =
      ⟨le 8 (64 * (i + 1)) block, bufString (slice (64 * (i + 1) + 14) 50 block)⟩
    rw [name, le, value, Nat.add_zero, ← le]
  numLeafs _ := rfl
  header := by decide
  leaf bs small := by
    obtain ⟨k, rfl⟩ := Nat.exists_eq_add_of_le small
    have whole : 2 ^ (9 + k) = 32 * 2 ^ (9 + k - 5) := by
      rw [show 9 + k = 5 + (9 + k - 5) by omega, Nat.pow_add, Nat.add_sub_cancel_left]
    have bound : 16 ≤ 2 ^ (9 + k - 5) := Nat.pow_le_pow_right (by decide : 0 < 2) (by omega : 4 ≤ 9 + k - 5)
    change 0 < (2 ^ (9 + k) - 2 * 2 ^ (9 + k - 5)) / 24 - 2
    omega
  leafRoom bs := by
    have positive := Nat.two_pow_pos bs
    change (2 ^ bs - 2 * 2 ^ (bs - 5)) / 24 - 2 < 2 ^ bs
    omega
  name := by decide
  nameRoom := by decide

def lastLeaf : Bytes :=
  replicate 48 0 ++ replicate 14 255 ++ [0, 0] ++ replicate 16 255 ++ letterChunks 0 0xffff 0x63 7 ++ replicate 360 0

def dirDisk (leafs sector : Nat) : Bytes :=
  if sector = 0 then put 64 (toLe 8 leafs) letterHeader else if sector = 1 then letterLeaf else lastLeaf

def dirDnode (leafs : Nat) : DnodePhys := ⟨9, 1, 1, leafs, fileBp⟩

def dirItems (leaf : Nat) : List (Bytes × Nat) := if leaf = 1 then letterEntries else [([0x63], 7)]

def dirBonus : Bonus := ⟨false, 264, replicate 72 0 ++ toLe 8 0o40755 ++ toLe 8 3 ++ replicate 176 0, none⟩

def openedDir : DirFile := ⟨0, 0, dirBonus, 0, 0, []⟩

theorem dirDisk_readable {leafs : Nat} (few : leafs = 1 ∨ leafs = 2) :
    Readable (diskEnv (dirDisk leafs)) (dirDnode leafs) (dirDisk leafs) where
  object := by
    refine ⟨(by decide : 0 < 1 <<< 9), Nat.one_pos, le_rfl, fun bn within => ?_⟩
    change bn < leafs + 1 at within
    obtain rfl | rfl | rfl : bn = 0 ∨ bn = 1 ∨ bn = 2 := by omega
    all_goals
      obtain rfl | rfl := few
      all_goals exact fileBp_holds (by decide +kernel)
  whole bn _ := by
    obtain rfl | rfl := few
    all_goals
      rw [dirDisk]
      by_cases header : bn = 0
      · rw [if_pos header]
        decide +kernel
      · by_cases first : bn = 1
        · rw [if_neg header, if_pos first]
          decide +kernel
        · rw [if_neg header, if_neg first]
          decide +kernel

theorem dirDisk_header {leafs : Nat} (few : leafs = 1 ∨ leafs = 2) :
    le 8 0 ((dirDnode leafs).block (dirDisk leafs) 0) = zapLayout.zbtHeader ∧
      dirLayout.zapPhys ((dirDnode leafs).block (dirDisk leafs) 0) = ⟨zapLayout.zapMagic, 0, 5, leafs, 0⟩ := by
  obtain rfl | rfl := few
  all_goals decide

theorem lastLeaf_item : dirLayout.StoredItem letterHash 0 ⟨9, lastLeaf⟩ 0 ([0x63], 7) := by
  refine ⟨by decide, by decide, by decide, by decide, ?_, by decide, by decide, by decide⟩
  exact .more (ZapLayout.chunk_inside (by decide)) (by decide) (by decide) .done

theorem dirItems_names (i : Nat) : ∀ item ∈ dirItems i, (0 : UInt8) ∉ item.1 ∧ item.1.length < 256 := by
  rw [dirItems]
  by_cases first : i = 1
  · rw [if_pos first]
    decide
  · rw [if_neg first]
    decide

theorem dirDisk_dir {leafs : Nat} (few : leafs = 1 ∨ leafs = 2) :
    FatDir dirLayout letterHash 9 leafs leafs ((dirDnode leafs).block (dirDisk leafs)) dirItems := by
  obtain ⟨type, header⟩ := dirDisk_header few
  constructor
  case type => rw [type]; decide
  case magic => rw [header]; rfl
  case numLeafs => rw [header]
  case positive => omega
  case within => exact le_rfl
  case leaf =>
    intro i positive within
    obtain rfl | rfl : i = 1 ∨ i = 2 := by omega
    · have chunks : entryChunks dirLayout ⟨9, letterDnode.block letterDisk 1⟩ (range 18) = [0, 3] := by decide +kernel
      change Forall₂ _ (entryChunks dirLayout ⟨9, letterDnode.block letterDisk 1⟩ (range 18)) letterEntries
      rw [chunks]
      exact .cons (letterDisk_item (.inl rfl)) (.cons (letterDisk_item (.inr rfl)) .nil)
    · have block : (dirDnode leafs).block (dirDisk leafs) 2 = lastLeaf := by
        change lastLeaf.take 512 = lastLeaf
        decide +kernel
      have chunks : entryChunks dirLayout ⟨9, lastLeaf⟩ (range 18) = [0] := by decide +kernel
      rw [block]
      change Forall₂ _ (entryChunks dirLayout ⟨9, lastLeaf⟩ (range 18)) _
      rw [chunks]
      exact .cons lastLeaf_item .nil
  case strings => exact fun i item member => (dirItems_names i item member).1
  case short => exact fun i item member => (dirItems_names i item member).2

theorem dirBonus_znode : znodeLayout.znode dirBonus.bytes = ⟨0o40755, 3⟩ := by decide

theorem dirBonus_isDir (leafs : Nat) : IsDir (diskEnv (dirDisk leafs)) znodeLayout dirBonus := fun _ =>
  ⟨⟨0o40755, 3⟩, congrArg Except.ok dirBonus_znode, by decide⟩

theorem openedDir_opened (leafs : Nat) :
    OpenDir (diskEnv (dirDisk leafs)) znodeLayout (dirDnode leafs) (dirDisk leafs) openedDir (fileCache (dirDnode leafs)) where
  isDir := dirBonus_isDir leafs
  same := rfl
  keeps cached := (Option.some_ne_none _ cached.symm).elim

theorem zfsReaddir_enumerates_letters : Enumerated (diskEnv (dirDisk 1)) znodeLayout dirLayout letterEntries openedDir
    (fileCache (dirDnode 1)) ⟨0, 0, replicate 256 0x7a, 0⟩ :=
  (zfsReaddir_enumerates_iff dirLayout_sane (dirDisk_readable (.inl rfl))
    (show (DirKind.fat 9 1 dirItems).Formed dirLayout letterHash (dirDnode 1) (dirDisk 1) letterEntries from
      ⟨rfl, by decide, dirDisk_dir (.inl rfl), rfl⟩) (openedDir_opened 1) rfl _).mpr (.inl rfl)

theorem dirDisk_third : ((diskEnv (dirDisk 2)).readdirCalls znodeLayout dirLayout 4 openedDir (fileCache (dirDnode 2))
    ⟨0, 0, replicate 256 0x7a, 0⟩)[2]? = some (.error enoent) := by
  decide +kernel

/-- Of two leaves the second is never read. -/
theorem zfsReaddir_second_leaf :
    (DirKind.fat 9 2 dirItems).Formed dirLayout letterHash (dirDnode 2) (dirDisk 2) (letterEntries ++ [([0x63], 7)]) ∧
    ¬Enumerated (diskEnv (dirDisk 2)) znodeLayout dirLayout (letterEntries ++ [([0x63], 7)]) openedDir
      (fileCache (dirDnode 2)) ⟨0, 0, replicate 256 0x7a, 0⟩ := by
  refine ⟨⟨rfl, by decide, dirDisk_dir (.inr rfl), rfl⟩, ?_⟩
  rintro ⟨ds, ⟨_, perm, presents⟩, calls, -⟩
  have three : ds.length = 3 := presents.length_eq.trans perm.length_eq
  have third := dirDisk_third
  change (diskEnv (dirDisk 2)).readdirCalls znodeLayout dirLayout 4 openedDir (fileCache (dirDnode 2))
    ⟨0, 0, replicate 256 0x7a, 0⟩ = _ at calls
  rw [calls, getElem?_append_left (by rw [length_map, three]; decide), getElem?_map] at third
  generalize ds[2]? = last at third
  cases last with
  | none => simp at third
  | some _ => simp at third

end Pcbsd.Zfs
