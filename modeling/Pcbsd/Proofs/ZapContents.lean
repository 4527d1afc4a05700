import Pcbsd.Lib.Chain
import Pcbsd.Proofs.DnodeContents
import Pcbsd.Zfs.Zap

/-! What a well-formed ZAP object holds, and what a search in it comes to. -/

namespace Pcbsd.Zfs
open Lib List

variable {δ σ α : Type} {env : Env δ σ} {layout : ZapLayout} {zapHash : ZapHash} {zl : ZapLeaf}

namespace ZapLayout

inductive StoredName (layout : ZapLayout) (zl : ZapLeaf) : Nat → Bytes → Prop
  | done {nc : Nat} : StoredName layout zl nc []
  | more {nc : Nat} {bytes : Bytes} {chunk : LeafChunk} (found : layout.chunk zl nc = some chunk) (nonempty : bytes ≠ [])
      (here : chunk.array.take (min bytes.length layout.arrayBytes) = bytes.take layout.arrayBytes)
      (rest : StoredName layout zl chunk.next (bytes.drop layout.arrayBytes)) : StoredName layout zl nc bytes

structure StoredItem (layout : ZapLayout) (zapHash : ZapHash) (salt : Nat) (zl : ZapLeaf) (i : Nat)
    (item : Bytes × Nat) : Prop where
  inside : i < layout.leafNumchunks zl.bs
  type : (layout.leafChunk zl.bs zl.phys i).entry.type = layout.chunkEntry
  hash : (layout.leafChunk zl.bs zl.phys i).entry.hash = (zapHash salt item.1).toNat
  length : (layout.leafChunk zl.bs zl.phys i).entry.nameLength = item.1.length + 1
  name : StoredName layout zl (layout.leafChunk zl.bs zl.phys i).entry.nameChunk (item.1 ++ [0])
  valueInside : (layout.leafChunk zl.bs zl.phys i).entry.valueChunk < layout.leafNumchunks zl.bs
  value : (layout.leafChunk zl.bs zl.phys (layout.leafChunk zl.bs zl.phys i).entry.valueChunk).array.take 8 =
    (toLe 8 item.2).reverse
  small : item.2 < 2 ^ 64

def StoredBucket (layout : ZapLayout) (zapHash : ZapHash) (salt : Nat) (zl : ZapLeaf) (h : Nat)
    (items : List (Bytes × Nat)) : Prop :=
  ∃ ids, Chain (fun i => (layout.leafChunk zl.bs zl.phys i).entry.next) zapChainEnd h ids ∧
    Forall₂ (layout.StoredItem zapHash salt zl) ids items

theorem chunk_inside {i : Nat} (inside : i < layout.leafNumchunks zl.bs) :
    layout.chunk zl i = some (layout.leafChunk zl.bs zl.phys i) :=
  if_pos inside

theorem StoredItem.leafValue {salt i : Nat} {item : Bytes × Nat} (stored : layout.StoredItem zapHash salt zl i item) :
    layout.fzapLeafValue zl (layout.leafChunk zl.bs zl.phys i) = .ok item.2 := by
  rw [fzapLeafValue, chunk_inside stored.valueInside]
  dsimp only
  rw [stored.value, foldl_reverse_leNat, leNat_toLe 8 item.2 (by have := stored.small; omega)]

theorem take_min_length (bytes : Bytes) (n : Nat) : bytes.take (min bytes.length n) = bytes.take n := by
  rw [take_eq_take_iff]
  omega

private theorem length_left (bytes : Bytes) (n : Nat) : bytes.length - min bytes.length n = (bytes.drop n).length := by
  rw [length_drop]
  omega

theorem nameEqualLoop_stored {nc : Nat} {bytes : Bytes} (stored : StoredName layout zl nc bytes)
    (positive : 0 < layout.arrayBytes) {fuel : Nat} (enough : bytes.length ≤ fuel) (p : Bytes) :
    layout.nameEqualLoop zl fuel p bytes.length nc = .ok (decide (bytes <+: p)) := by
  induction stored generalizing fuel p with
  | done => cases fuel <;> simp [nameEqualLoop]
  | @more nc bytes _ found nonempty here _ ih =>
    have some_left := length_pos_iff.mpr nonempty
    obtain ⟨fuel, rfl⟩ := Nat.exists_eq_succ_of_ne_zero (by omega : fuel ≠ 0)
    rw [nameEqualLoop, if_neg (by omega), found]
    dsimp only
    rw [here, length_left]
    by_cases same : p.take (min bytes.length layout.arrayBytes) = bytes.take layout.arrayBytes
    · rw [if_neg (not_not.mpr same), ih (by rw [length_drop]; omega)]
      have split : bytes <+: p ↔ bytes.drop layout.arrayBytes <+: p.drop (min bytes.length layout.arrayBytes) := by
        conv_lhs =>
          rw [← take_append_drop layout.arrayBytes bytes, ← take_append_drop (min bytes.length layout.arrayBytes) p,
            same]
        exact prefix_append_right_inj _
      simp only [split]
    · rw [if_pos same]
      have differs : ¬bytes <+: p := by
        rintro ⟨_, rfl⟩
        rw [take_append_of_le_length (min_le_left _ _), take_min_length] at same
        exact same rfl
      simp only [differs, decide_false]

theorem nameCopyLoop_stored {nc : Nat} {bytes : Bytes} (stored : StoredName layout zl nc bytes)
    (positive : 0 < layout.arrayBytes) {fuel : Nat} (enough : bytes.length ≤ fuel) (out : Bytes) :
    layout.nameCopyLoop zl fuel bytes.length nc out = .ok (out ++ bytes) := by
  induction stored generalizing fuel out with
  | done => cases fuel <;> simp [nameCopyLoop]
  | @more nc bytes _ found nonempty here _ ih =>
    have some_left := length_pos_iff.mpr nonempty
    obtain ⟨fuel, rfl⟩ := Nat.exists_eq_succ_of_ne_zero (by omega : fuel ≠ 0)
    rw [nameCopyLoop, if_neg (by omega), found]
    dsimp only
    rw [here, length_left, ih (by rw [length_drop]; omega), append_assoc, take_append_drop]

theorem hashChain_stored {salt hash h : Nat} {ids : List Nat} {items : List (Bytes × Nat)}
    (chain : Chain (fun i => (layout.leafChunk zl.bs zl.phys i).entry.next) zapChainEnd h ids)
    (stored : Forall₂ (layout.StoredItem zapHash salt zl) ids items) (more : h ≠ zapChainEnd) {fuel : Nat}
    (enough : ids.length ≤ fuel) :
    ∃ zc, layout.hashChain zl hash fuel h = .ok zc ∧
      Option.Rel (fun item zc => ∃ i, layout.StoredItem zapHash salt zl i item ∧ zc = layout.leafChunk zl.bs zl.phys i)
        (items.find? fun item => (zapHash salt item.1).toNat = hash) zc := by
  induction stored generalizing fuel h with
  | nil =>
    cases chain
    exact absurd rfl more
  | @cons i item ids items entry stored ih =>
    obtain ⟨fuel, rfl⟩ := Nat.exists_eq_succ_of_ne_zero (by rw [length_cons] at enough; omega : fuel ≠ 0)
    obtain ⟨⟩ | ⟨-, rest⟩ := chain
    rw [hashChain, chunk_inside entry.inside]
    dsimp only
    by_cases same : (zapHash salt item.1).toNat = hash
    · rw [find?_cons_of_pos (by simpa using same), if_pos (entry.hash.trans same)]
      exact ⟨_, rfl, .some ⟨i, entry, rfl⟩⟩
    · rw [find?_cons_of_neg (by simpa using same), if_neg (by rw [entry.hash]; exact same)]
      by_cases last : (layout.leafChunk zl.bs zl.phys i).entry.next = zapChainEnd
      · rw [if_pos last]
        rw [last] at rest
        cases rest with
        | done => cases stored; exact ⟨_, rfl, .none⟩
        | link more => exact absurd rfl more
      · rw [if_neg last]
        exact ih rest last (by rw [length_cons] at enough; omega)

theorem stored_inside {salt : Nat} {ids : List Nat} {items : List (Bytes × Nat)}
    (stored : Forall₂ (layout.StoredItem zapHash salt zl) ids items) : ∀ i ∈ ids, i < layout.leafNumchunks zl.bs := by
  induction stored with
  | nil => simp
  | cons entry _ ih => exact forall_mem_cons.mpr ⟨entry.inside, ih⟩

/-- What a search for a hash comes to in a bucket, where `result` is what is made of the item it stops at: an
empty bucket is noticed, the end of a chain is not. -/
def bucketAnswer (zapHash : ZapHash) (salt : Nat) (items : List (Bytes × Nat)) (hash : Nat)
    (result : Bytes × Nat → ZapResult α) : ZapResult α :=
  if items = [] then .error enoent
  else
    match items.find? fun item => (zapHash salt item.1).toNat = hash with
    | some item => result item
    | none => .fault

theorem leafSearch_stored {salt hash : Nat} {items : List (Bytes × Nat)} {use : LeafChunk → ZapResult α}
    {result : Bytes × Nat → ZapResult α}
    (routed : ¬(0 < layout.leafPrefixLen zl.phys ∧ layout.leafPrefix zl.phys ≠ hash >>> (64 - layout.leafPrefixLen zl.phys)))
    (stored : layout.StoredBucket zapHash salt zl (layout.bucketOf zl hash) items)
    (uses : ∀ i item, layout.StoredItem zapHash salt zl i item → use (layout.leafChunk zl.bs zl.phys i) = result item) :
    layout.leafSearch zl hash use = bucketAnswer zapHash salt items hash result := by
  obtain ⟨_, chain, entries⟩ := stored
  rw [leafSearch, if_neg routed, bucketAnswer]
  by_cases empty : layout.bucketOf zl hash = zapChainEnd
  · rw [empty] at chain
    obtain rfl := chain.of_stop
    cases entries
    rw [if_pos empty, if_pos rfl]
  · have nonempty : items ≠ [] := by
      rintro rfl
      cases entries
      exact empty chain.of_nil
    obtain ⟨_, walked, found⟩ :=
      @hashChain_stored layout zapHash zl salt hash _ _ _ chain entries empty _ (chain.length_le (stored_inside entries))
    rw [if_neg empty, if_neg nonempty, walked]
    generalize items.find? (fun item => (zapHash salt item.1).toNat = hash) = first at found ⊢
    cases found with
    | none => rfl
    | some this =>
      obtain ⟨i, entry, rfl⟩ := this
      exact uses i _ entry

end ZapLayout

def DnodePhys.block (phys : DnodePhys) (data : Nat → Bytes) (bn : Nat) : Bytes := (data bn).take phys.bsize

structure Readable (env : Env δ σ) (phys : DnodePhys) (data : Nat → Bytes) : Prop where
  object : phys.Object env (phys.maxblkid + 1) data
  whole : phys.Whole (phys.maxblkid + 1) data

def ZapPhys.index (zh : ZapPhys) (hash : UInt64) : Nat := hash.toNat >>> (64 - zh.ptrtblShift)

def ZapLayout.tableEntry (layout : ZapLayout) (bs : Nat) (block : Nat → Bytes) (zh : ZapPhys) (index : Nat) : Option Nat :=
  if zh.ptrtblBlk ≠ 0 then ptrtblWord (block (zh.ptrtblBlk + index / (2 ^ bs / 8))) 0 (index % (2 ^ bs / 8))
  else ptrtblWord (block 0) (layout.embeddedPtrtbl bs) index

def ZapLayout.Routed (layout : ZapLayout) (zl : ZapLeaf) (hash : Nat) : Prop :=
  ¬(0 < layout.leafPrefixLen zl.phys ∧ layout.leafPrefix zl.phys ≠ hash >>> (64 - layout.leafPrefixLen zl.phys))

/-- A fat ZAP object with blocks of 2^bs bytes and these entries. `bucket` is what the hash chains hold that the
table, a leaf and its bucket lead to. -/
structure FatZap (layout : ZapLayout) (zapHash : ZapHash) (bs last : Nat) (block : Nat → Bytes)
    (entries : List (Bytes × Nat)) (bucket : UInt64 → List (Bytes × Nat)) : Prop where
  type : le 8 0 (block 0) = layout.zbtHeader
  magic : (layout.zapPhys (block 0)).magic = layout.zapMagic
  shift : 0 < (layout.zapPhys (block 0)).ptrtblShift ∧ (layout.zapPhys (block 0)).ptrtblShift ≤ 64
  table : (layout.zapPhys (block 0)).ptrtblBlk ≠ 0 →
    (layout.zapPhys (block 0)).ptrtblBlk + (2 ^ (layout.zapPhys (block 0)).ptrtblShift - 1) / (2 ^ bs / 8) ≤ last
  route : ∀ hash : UInt64, ∃ blk ≤ last,
    layout.tableEntry bs block (layout.zapPhys (block 0)) ((layout.zapPhys (block 0)).index hash) = some blk ∧
      layout.Routed ⟨bs, block blk⟩ hash.toNat ∧
      layout.StoredBucket zapHash (layout.zapPhys (block 0)).salt ⟨bs, block blk⟩
        (layout.bucketOf ⟨bs, block blk⟩ hash.toNat) (bucket hash)
  sound : ∀ hash item, item ∈ bucket hash → item ∈ entries
  complete : ∀ item ∈ entries, item ∈ bucket (zapHash (layout.zapPhys (block 0)).salt item.1)
  distinct : (entries.map Prod.fst).Nodup
  strings : ∀ item ∈ entries, (0 : UInt8) ∉ item.1

/-- The entry for a hash lies in the first block of the pointer table, the only one that is read. -/
def ZapPhys.InTable (zh : ZapPhys) (bs : Nat) (hash : UInt64) : Prop := zh.ptrtblBlk ≠ 0 → zh.index hash < 2 ^ bs / 8

instance (zh : ZapPhys) (bs : Nat) (hash : UInt64) : Decidable (zh.InTable bs hash) :=
  inferInstanceAs (Decidable (_ → _))

theorem ilog2_two_pow : ∀ bs < 32, ilog2 (2 ^ bs) = some bs := by decide +kernel

section

variable {phys : DnodePhys} {data : Nat → Bytes} {st : DnodeCache σ} {dnode bs : Nat}

theorem block_length (readable : Readable env phys data) {bn : Nat} (within : bn ≤ phys.maxblkid) :
    (phys.block data bn).length = phys.bsize := by
  rw [DnodePhys.block, length_take, min_eq_left (readable.whole bn (Nat.lt_succ_of_le within))]

theorem dnodeRead_block (readable : Readable env phys data) (same : st.dnodes dnode = phys)
    (keeps : st.Keeps dnode (phys.maxblkid + 1) data) {bn : Nat} (within : bn ≤ phys.maxblkid) :
    (env.dnodeRead st dnode (bn * phys.bsize) phys.bsize).1 = 0 ∧
      (env.dnodeRead st dnode (bn * phys.bsize) phys.bsize).2.1 = phys.block data bn ∧
      (env.dnodeRead st dnode (bn * phys.bsize) phys.bsize).2.2.Keeps dnode (phys.maxblkid + 1) data ∧
      (env.dnodeRead st dnode (bn * phys.bsize) phys.bsize).2.2.dnodes dnode = phys := by
  have inside : bn * phys.bsize + phys.bsize ≤ (phys.maxblkid + 1) * phys.bsize := by
    rw [← Nat.succ_mul]
    exact Nat.mul_le_mul_right _ (Nat.succ_le_succ within)
  have read := dnodeRead_within readable.object readable.whole same keeps (.inr inside)
  have block : slice (bn * phys.bsize + 0) phys.bsize (phys.logical data) = slice 0 phys.bsize ((data bn).take phys.bsize) :=
    slice_logical within (by omega) (readable.whole bn (Nat.lt_succ_of_le within))
  rw [Nat.add_zero, slice, slice, drop_zero, take_take, min_self] at block
  exact ⟨read.1, read.2.1.trans block, read.2.2⟩

theorem index_div {zh : ZapPhys} {hash : UInt64} (inTable : zh.index hash < 2 ^ bs / 8) :
    zh.index hash / (2 ^ bs / 8) = 0 ∧ zh.index hash % (2 ^ bs / 8) = zh.index hash :=
  ⟨Nat.div_eq_of_lt inTable, Nat.mod_eq_of_lt inTable⟩

theorem ptrtblWord_beyond {block : Bytes} {index : Nat} (beyond : block.length / 8 ≤ index) : ptrtblWord block 0 index = none :=
  if_neg (by omega)

variable {entries : List (Bytes × Nat)} {bucket : UInt64 → List (Bytes × Nat)}

theorem ptrtbl_stored (readable : Readable env phys data) (power : phys.bsize = 2 ^ bs)
    (fat : FatZap layout zapHash bs phys.maxblkid (phys.block data) entries bucket) (same : st.dnodes dnode = phys)
    (keeps : st.Keeps dnode (phys.maxblkid + 1) data) {zh : ZapPhys}
    (header : layout.zapPhys (phys.block data 0) = zh) {hash : UInt64} {blk : Nat}
    (entry : layout.tableEntry bs (phys.block data) zh (zh.index hash) = some blk) :
    ∃ ptrtbl st', (if zh.ptrtblBlk ≠ 0 then env.dnodeRead st dnode (zh.ptrtblBlk * phys.bsize) phys.bsize
        else (0, phys.block data 0, st)) = (0, ptrtbl, st') ∧
      ptrtblWord ptrtbl (if zh.ptrtblBlk ≠ 0 then 0 else layout.embeddedPtrtbl bs) (zh.index hash) =
        (if zh.InTable bs hash then some blk else none) ∧
      st'.Keeps dnode (phys.maxblkid + 1) data ∧ st'.dnodes dnode = phys := by
  by_cases own : zh.ptrtblBlk ≠ 0
  · have within : zh.ptrtblBlk ≤ phys.maxblkid := by
      have table := fat.table
      rw [header] at table
      exact (Nat.le_add_right _ _).trans (table own)
    obtain ⟨ok, out, kept, still⟩ := dnodeRead_block readable same keeps within
    refine ⟨phys.block data zh.ptrtblBlk, _, ?_, ?_, kept, still⟩
    · rw [if_pos own]
      exact Prod.ext ok (Prod.ext out rfl)
    · rw [if_pos own]
      by_cases inTable : zh.index hash < 2 ^ bs / 8
      · obtain ⟨first, index⟩ := index_div inTable
        rw [ZapLayout.tableEntry, if_pos own, first, index, Nat.add_zero] at entry
        rw [if_pos (show zh.InTable bs hash from fun _ => inTable), entry]
      · rw [if_neg fun inside : zh.InTable bs hash => inTable (inside own)]
        refine ptrtblWord_beyond ?_
        rw [block_length readable within, power]
        omega
  · refine ⟨_, _, if_neg own, ?_, keeps, same⟩
    rw [ZapLayout.tableEntry, if_neg own] at entry
    rw [if_neg own, if_pos (show zh.InTable bs hash from fun other => absurd other own), entry]

theorem fzapSearch_stored (readable : Readable env phys data) (power : phys.bsize = 2 ^ bs) (narrow : bs < 32)
    (fat : FatZap layout zapHash bs phys.maxblkid (phys.block data) entries bucket) (same : st.dnodes dnode = phys)
    (keeps : st.Keeps dnode (phys.maxblkid + 1) data) (name : Bytes) {use : ZapLeaf → LeafChunk → ZapResult α}
    {result : Bytes × Nat → ZapResult α}
    (uses : ∀ zl i item, layout.StoredItem zapHash (layout.zapPhys (phys.block data 0)).salt zl i item →
      use zl (layout.leafChunk zl.bs zl.phys i) = result item) {zh : ZapPhys} (header : layout.zapPhys (phys.block data 0) = zh) :
    (env.fzapSearch layout zapHash st dnode (phys.block data 0) name use).1 =
      if zh.InTable bs (zapHash zh.salt name) then
        ZapLayout.bucketAnswer zapHash zh.salt (bucket (zapHash zh.salt name)) (zapHash zh.salt name).toNat result
      else .fault := by
  have route := fat.route (zapHash zh.salt name)
  have magic := fat.magic
  rw [header] at route magic uses
  obtain ⟨_, within, entry, routed, stored⟩ := route
  obtain ⟨_, _, table, word, keeps', same'⟩ := ptrtbl_stored readable power fat same keeps header entry
  rw [Env.fzapSearch, header, if_neg (not_not.mpr magic), same, power, ilog2_two_pow bs narrow, ← power, table]
  dsimp only
  rw [if_neg (not_not.mpr rfl)]
  rw [ZapPhys.index] at word
  rw [word]
  by_cases inTable : zh.InTable bs (zapHash zh.salt name)
  · rw [if_pos inTable, if_pos inTable]
    dsimp only
    obtain ⟨ok, out, -⟩ := dnodeRead_block readable same' keeps' within
    rw [Nat.shiftLeft_eq, ← power, if_neg (not_not.mpr ok), out]
    exact ZapLayout.leafSearch_stored routed stored fun i item entry => uses _ i item entry
  · rw [if_neg inTable, if_neg inTable]

end

end Pcbsd.Zfs
