import Mathlib.Data.List.Nodup
import Pcbsd.Proofs.ZapContents

/-! zap_lookup and zap_rlookup on well-formed ZAP objects. -/

namespace Pcbsd.Zfs
open Lib List

variable {δ σ : Type} {env : Env δ σ} {layout : ZapLayout} {zapHash : ZapHash}

/-- A microzap with these entries: the chunks that have a name. A free chunk is cleared. -/
structure MicroZap (layout : ZapLayout) (size : Nat) (block : Bytes) (entries : List (Bytes × Nat)) : Prop where
  type : le 8 0 block = layout.zbtMicro
  named : entries = ((layout.mzapChunks size block).filter (·.name ≠ [])).map fun mze => (mze.name, mze.value)
  free : ∀ mze ∈ layout.mzapChunks size block, mze.name = [] → mze.value = 0
  distinct : (entries.map Prod.fst).Nodup
  strings : ∀ item ∈ entries, (0 : UInt8) ∉ item.1

/-- What a ZAP object is: a microzap, or a fat ZAP object with blocks of 2^bs bytes and its hash chains. -/
inductive ZapKind where
  | micro
  | fat (bs : Nat) (bucket : UInt64 → List (Bytes × Nat))

def ZapKind.Formed (layout : ZapLayout) (zapHash : ZapHash) (phys : DnodePhys) (data : Nat → Bytes)
    (entries : List (Bytes × Nat)) : ZapKind → Prop
  | .micro => MicroZap layout phys.bsize (phys.block data 0) entries
  | .fat bs bucket => phys.bsize = 2 ^ bs ∧ bs < 32 ∧
      FatZap layout zapHash bs phys.maxblkid (phys.block data) entries bucket

structure ZapLayout.Sane (layout : ZapLayout) : Prop where
  types : layout.zbtMicro ≠ layout.zbtHeader
  arrays : 0 < layout.arrayBytes

/-- The answer that the entries give to a search for the one that `hits`: what `f` makes of it, or ENOENT. -/
def Found {α : Type} (entries : List (Bytes × Nat)) (hits : Bytes × Nat → Prop) (f : Bytes × Nat → α)
    (answer : ZapResult α) : Prop :=
  (∀ item ∈ entries, hits item → answer = .ok (f item)) ∧ ((∀ item ∈ entries, ¬hits item) → answer = .error enoent)

def firstItem (zapHash : ZapHash) (salt : Nat) (items : List (Bytes × Nat)) (hash : UInt64) : Option (Bytes × Nat) :=
  items.find? fun item => (zapHash salt item.1).toNat = hash.toNat

/-- When a lookup is exact. In a microzap the empty name must not meet a free chunk. In a fat ZAP object the
pointer is in the first block of the table, the chain is empty or has an item with the hash, and the first such
item is that of the name when the name is there. -/
def ZapKind.LookupFine (layout : ZapLayout) (zapHash : ZapHash) (phys : DnodePhys) (data : Nat → Bytes)
    (entries : List (Bytes × Nat)) (name : Bytes) : ZapKind → Prop
  | .micro => name ≠ [] ∨ ∀ mze ∈ layout.mzapChunks phys.bsize (phys.block data 0), mze.name ≠ []
  | .fat bs bucket =>
    let zh := layout.zapPhys (phys.block data 0)
    let hash := zapHash zh.salt name
    zh.InTable bs hash ∧ (bucket hash = [] ∨ (firstItem zapHash zh.salt (bucket hash) hash).isSome) ∧
      ∀ item ∈ entries, item.1 = name → firstItem zapHash zh.salt (bucket hash) hash = some item

theorem fst_unique {entries : List (Bytes × Nat)} (distinct : (entries.map Prod.fst).Nodup) {item other : Bytes × Nat}
    (one : item ∈ entries) (two : other ∈ entries) (same : item.1 = other.1) : item = other :=
  inj_on_of_nodup_map distinct one two same

section

variable {size : Nat} {block : Bytes} {entries : List (Bytes × Nat)}

theorem MicroZap.mem_iff (micro : MicroZap layout size block entries) {name : Bytes} {value : Nat} :
    (name, value) ∈ entries ↔ ⟨value, name⟩ ∈ layout.mzapChunks size block ∧ name ≠ [] := by
  rw [micro.named, mem_map]
  constructor
  · rintro ⟨⟨_, _⟩, member, pair⟩
    cases pair
    simpa using mem_filter.mp member
  · rintro ⟨member, nonempty⟩
    exact ⟨⟨value, name⟩, mem_filter.mpr ⟨member, by simpa using nonempty⟩, rfl⟩

theorem mzapLookup_iff (micro : MicroZap layout size block entries) (name : Bytes) :
    Found entries (·.1 = name) Prod.snd (layout.mzapLookup size block name) ↔
      name ≠ [] ∨ ∀ mze ∈ layout.mzapChunks size block, mze.name ≠ [] := by
  rw [ZapLayout.mzapLookup, Found]
  cases found : (layout.mzapChunks size block).find? (·.name = name) with
  | none =>
    have absent : ∀ mze ∈ layout.mzapChunks size block, mze.name ≠ name := by simpa using found
    refine iff_of_true ⟨fun item stored same => ?_, fun _ => rfl⟩ ?_
    · exact absurd same (absent _ (micro.mem_iff.mp stored).1)
    · by_cases empty : name = []
      · exact .inr (empty ▸ absent)
      · exact .inl empty
  | some mze =>
    have member := mem_of_find?_eq_some found
    obtain rfl : mze.name = name := by simpa using find?_some found
    by_cases empty : mze.name = []
    · refine iff_of_false (fun exact => ?_) (fun fine => ?_)
      · have free := exact.2 fun item stored same => (micro.mem_iff.mp stored).2 (same.trans empty)
        cases free
      · exact fine.elim (· empty) (· mze member empty)
    · have here := micro.mem_iff.mpr ⟨member, empty⟩
      refine iff_of_true ⟨fun item stored same => ?_, fun absent => absurd rfl (absent _ here)⟩ (.inl empty)
      rw [← fst_unique micro.distinct here stored same.symm]

end

section

variable {α : Type} {entries items : List (Bytes × Nat)} {salt : Nat} {hash : UInt64} {hits : Bytes × Nat → Prop}
    [DecidablePred hits]
  {f : Bytes × Nat → α}

theorem bucketAnswer_iff (sound : ∀ item ∈ items, item ∈ entries)
    (unique : ∀ item ∈ entries, ∀ other ∈ entries, hits item → hits other → item = other) {answer : ZapResult α}
    (comes : answer = ZapLayout.bucketAnswer zapHash salt items hash.toNat fun item => if hits item then .ok (f item)
      else .error enoent) :
    Found entries hits f answer ↔
      (items = [] ∨ (firstItem zapHash salt items hash).isSome) ∧
        ∀ item ∈ entries, hits item → firstItem zapHash salt items hash = some item := by
  subst comes
  rw [Found, ZapLayout.bucketAnswer, firstItem]
  by_cases empty : items = []
  · subst empty
    refine ⟨fun exact => ⟨.inl rfl, fun item member hit => ?_⟩, fun fine => ⟨fun item member hit => ?_, fun _ => rfl⟩⟩
    · cases exact.1 item member hit
    · cases fine.2 item member hit
  rw [if_neg empty]
  cases found : items.find? fun item => (zapHash salt item.1).toNat = hash.toNat with
  | none =>
    refine iff_of_false (fun exact => ?_) (fun fine => ?_)
    · by_cases some : ∃ item ∈ entries, hits item
      · obtain ⟨item, member, hit⟩ := some
        cases exact.1 item member hit
      · cases exact.2 fun item member hit => some ⟨item, member, hit⟩
    · exact fine.1.elim empty (by simp)
  | some first =>
    have stored := sound first (mem_of_find?_eq_some found)
    dsimp only
    by_cases hit : hits first
    · rw [if_pos hit]
      refine iff_of_true ⟨fun item member other => ?_, fun absent => absurd hit (absent first stored)⟩
        ⟨.inr rfl, fun item member other => ?_⟩
      · rw [unique first stored item member hit other]
      · rw [unique first stored item member hit other]
    · rw [if_neg hit]
      refine ⟨fun exact => ⟨.inr rfl, fun item member other => ?_⟩,
        fun fine => ⟨fun item member other => ?_, fun _ => rfl⟩⟩
      · cases exact.1 item member other
      · obtain rfl := Option.some.inj (fine.2 item member other)
        exact absurd other hit

theorem searched_iff {inTable : Prop} [Decidable inTable] (sound : ∀ item ∈ items, item ∈ entries)
    (unique : ∀ item ∈ entries, ∀ other ∈ entries, hits item → hits other → item = other) {answer : ZapResult α}
    (comes : answer = if inTable then ZapLayout.bucketAnswer zapHash salt items hash.toNat fun item =>
      if hits item then .ok (f item) else .error enoent else .fault) :
    Found entries hits f answer ↔ inTable ∧ (items = [] ∨ (firstItem zapHash salt items hash).isSome) ∧
      ∀ item ∈ entries, hits item → firstItem zapHash salt items hash = some item := by
  by_cases inside : inTable
  · rw [if_pos inside] at comes
    rw [bucketAnswer_iff sound unique comes, and_iff_right inside]
  · rw [if_neg inside] at comes
    subst comes
    refine iff_of_false (fun found => ?_) (fun fine => inside fine.1)
    by_cases some : ∃ item ∈ entries, hits item
    · obtain ⟨item, member, hit⟩ := some
      cases found.1 item member hit
    · cases found.2 fun item member hit => some ⟨item, member, hit⟩

theorem prefix_nul_iff {stored name : Bytes} (text : (0 : UInt8) ∉ name) : stored ++ [0] <+: name ++ [0] ↔ stored = name := by
  refine ⟨fun start => ?_, fun same => same ▸ prefix_rfl⟩
  have short := start.length_le
  rw [length_append, length_append] at short
  have mark := start.getElem (i := stored.length) (by simp)
  by_cases less : stored.length < name.length
  · rw [getElem_append_left less, getElem_append_right (le_refl _)] at mark
    exact absurd (getElem_mem less) (by rw [← mark]; simpa using text)
  · have same : stored.length = name.length := by
      omega
    exact (append_inj (start.eq_of_length (by simp [same])) same).1

theorem useLookup_stored (arrays : 0 < layout.arrayBytes) {name : Bytes} (text : (0 : UInt8) ∉ name) {zl : ZapLeaf}
    {i : Nat} {item : Bytes × Nat} (stored : layout.StoredItem zapHash salt zl i item) :
    layout.useLookup zl name (layout.leafChunk zl.bs zl.phys i) = if item.1 = name then .ok item.2
      else .error enoent := by
  have compared := ZapLayout.nameEqualLoop_stored stored.name arrays (le_refl _) (name ++ [0])
  rw [length_append, length_singleton, ← stored.length] at compared
  rw [ZapLayout.useLookup, ZapLayout.fzapNameEqual, compared]
  by_cases same : item.1 = name
  · rw [decide_eq_true ((prefix_nul_iff text).mpr same), if_pos same]
    exact stored.leafValue
  · rw [decide_eq_false fun start => same ((prefix_nul_iff text).mp start), if_neg same]

theorem useRlookup_stored (arrays : 0 < layout.arrayBytes) {name : Bytes} {value : Nat} {zl : ZapLeaf} {i : Nat}
    {item : Bytes × Nat} (stored : layout.StoredItem zapHash salt zl i item) :
    layout.useRlookup zl name value (layout.leafChunk zl.bs zl.phys i) =
      if item.2 = value then .ok (put 0 (item.1 ++ [0] ++ [0]) name) else .error enoent := by
  have copied := ZapLayout.nameCopyLoop_stored stored.name arrays (le_refl _) []
  rw [length_append, length_singleton, ← stored.length] at copied
  rw [ZapLayout.useRlookup, stored.leafValue, ZapLayout.fzapNameCopy, copied]
  rfl

variable {phys : DnodePhys} {data : Nat → Bytes} {st : DnodeCache σ} {dnode : Nat} {kind : ZapKind}

theorem zapHeader (readable : Readable env phys data) (same : st.dnodes dnode = phys)
    (keeps : st.Keeps dnode (phys.maxblkid + 1) data) :
    ∃ st', env.dnodeRead st dnode 0 (st.dnodes dnode).bsize = (0, phys.block data 0, st') ∧
      st'.Keeps dnode (phys.maxblkid + 1) data ∧ st'.dnodes dnode = phys := by
  have read := dnodeRead_block readable same keeps (Nat.zero_le _)
  rw [Nat.zero_mul] at read
  rw [same]
  exact ⟨_, Prod.ext read.1 (Prod.ext read.2.1 rfl), read.2.2⟩

def ZapKind.answer (layout : ZapLayout) (zapHash : ZapHash) (phys : DnodePhys) (data : Nat → Bytes) (name : Bytes) :
    ZapKind → ZapResult Nat
  | .micro => layout.mzapLookup phys.bsize (phys.block data 0) name
  | .fat bs bucket =>
    let zh := layout.zapPhys (phys.block data 0)
    let hash := zapHash zh.salt name
    if zh.InTable bs hash then
      ZapLayout.bucketAnswer zapHash zh.salt (bucket hash) hash.toNat fun item => if item.1 = name then .ok item.2
        else .error enoent
    else .fault

theorem zapLookup_answer (sane : layout.Sane) (readable : Readable env phys data)
    (formed : kind.Formed layout zapHash phys data entries) (same : st.dnodes dnode = phys)
    (keeps : st.Keeps dnode (phys.maxblkid + 1) data) {name : Bytes} (text : (0 : UInt8) ∉ name) :
    (env.zapLookup layout zapHash st dnode name).1 = kind.answer layout zapHash phys data name := by
  obtain ⟨_, header, keeps', same'⟩ := zapHeader readable same keeps
  rw [Env.zapLookup, header]
  dsimp only
  rw [if_neg (not_not.mpr rfl)]
  cases kind with
  | micro =>
    rw [if_pos formed.type, same']
    rfl
  | fat _ _ =>
    obtain ⟨power, narrow, fat⟩ := formed
    rw [if_neg (by rw [fat.type]; exact sane.types.symm), if_pos fat.type, Env.fzapLookup]
    exact fzapSearch_stored readable power narrow fat same' keeps' name
      (fun zl i item stored => useLookup_stored sane.arrays text stored) rfl

/-- A look-up is right exactly if the empty name meets no free chunk and, in a fat ZAP, the first entry with the hash
in the bucket that the first block of the pointer table names is that of the name. -/
theorem zapLookup_iff (sane : layout.Sane) (readable : Readable env phys data)
    (formed : kind.Formed layout zapHash phys data entries) (same : st.dnodes dnode = phys)
    (keeps : st.Keeps dnode (phys.maxblkid + 1) data) {name : Bytes} (text : (0 : UInt8) ∉ name) :
    Found entries (·.1 = name) Prod.snd (env.zapLookup layout zapHash st dnode name).1 ↔
      kind.LookupFine layout zapHash phys data entries name := by
  rw [zapLookup_answer sane readable formed same keeps text]
  cases kind with
  | micro => exact mzapLookup_iff formed name
  | fat _ _ =>
    obtain ⟨-, -, fat⟩ := formed
    exact searched_iff (fat.sound _) (fun item one other two here there =>
      fst_unique fat.distinct one two (here.trans there.symm)) rfl

theorem answer_sound (formed : kind.Formed layout zapHash phys data entries) {name : Bytes} (nonempty : name ≠ []) :
    (∀ value, kind.answer layout zapHash phys data name = .ok value → (name, value) ∈ entries) ∧
      ∀ rc, kind.answer layout zapHash phys data name = .error rc → rc = enoent := by
  cases kind with
  | micro =>
    rw [ZapKind.answer, ZapLayout.mzapLookup]
    cases found : (layout.mzapChunks phys.bsize (phys.block data 0)).find? (·.name = name) with
    | none => exact ⟨fun value same => (by cases same), fun rc same => (ZapResult.error.inj same).symm⟩
    | some mze =>
      refine ⟨fun value same => ?_, fun rc same => (by cases same)⟩
      obtain rfl := ZapResult.ok.inj same
      obtain rfl : mze.name = name := by simpa using find?_some found
      exact formed.mem_iff.mpr ⟨mem_of_find?_eq_some found, nonempty⟩
  | fat bs bucket =>
    obtain ⟨-, -, fat⟩ := formed
    rw [ZapKind.answer]
    generalize layout.zapPhys (phys.block data 0) = zh
    by_cases inTable : zh.InTable bs (zapHash zh.salt name)
    · rw [if_pos inTable, ZapLayout.bucketAnswer]
      have sound := fat.sound (zapHash zh.salt name)
      generalize bucket (zapHash zh.salt name) = items at sound ⊢
      by_cases empty : items = []
      · rw [if_pos empty]
        exact ⟨fun value same => (by cases same), fun rc same => (ZapResult.error.inj same).symm⟩
      rw [if_neg empty]
      cases found : items.find? fun item => (zapHash zh.salt item.1).toNat = (zapHash zh.salt name).toNat with
      | none => exact ⟨fun value same => (by cases same), fun rc same => (by cases same)⟩
      | some item =>
        dsimp only
        by_cases same : item.1 = name
        · rw [if_pos same]
          refine ⟨fun value same' => ?_, fun rc same' => (by cases same')⟩
          obtain rfl := ZapResult.ok.inj same'
          exact same ▸ sound item (mem_of_find?_eq_some found)
        · rw [if_neg same]
          exact ⟨fun value same' => (by cases same'), fun rc same' => (ZapResult.error.inj same').symm⟩
    · rw [if_neg inTable]
      exact ⟨fun value same => (by cases same), fun rc same => (by cases same)⟩

/-- When a reverse lookup is exact. It depends on the string that the caller's buffer held before, for which a fat
ZAP object is searched. -/
def ZapKind.RlookupFine (layout : ZapLayout) (zapHash : ZapHash) (phys : DnodePhys) (data : Nat → Bytes)
    (entries : List (Bytes × Nat)) (buf : Bytes) (value : Nat) : ZapKind → Prop
  | .micro => value ≠ 0 ∨ ∀ mze ∈ layout.mzapChunks phys.bsize (phys.block data 0), mze.name ≠ []
  | .fat bs bucket =>
    let zh := layout.zapPhys (phys.block data 0)
    let hash := zapHash zh.salt (bufString buf)
    zh.InTable bs hash ∧ (bucket hash = [] ∨ (firstItem zapHash zh.salt (bucket hash) hash).isSome) ∧
      ∀ item ∈ entries, item.2 = value → firstItem zapHash zh.salt (bucket hash) hash = some item

theorem Found.congr {α : Type} {hits : Bytes × Nat → Prop} {f g : Bytes × Nat → α} (same : ∀ item ∈ entries, f item = g item)
    {answer : ZapResult α} : Found entries hits f answer ↔ Found entries hits g answer :=
  and_congr_left' (forall₂_congr fun item member => by rw [same item member])

theorem bufString_append {name : Bytes} (text : (0 : UInt8) ∉ name) (back : Bytes) : bufString (name ++ 0 :: back) = name := by
  have all : ∀ c ∈ name, (decide (c ≠ 0)) = true := fun c member => decide_eq_true fun zero => text (zero ▸ member)
  rw [bufString, takeWhile_append_of_pos all, takeWhile_cons_of_neg (by decide), append_nil]

theorem bufString_start {name buf : Bytes} (text : (0 : UInt8) ∉ name) (start : name ++ [0] <+: buf) : bufString buf = name := by
  obtain ⟨back, rfl⟩ := start
  rw [append_assoc]
  exact bufString_append text back

theorem bufString_put {name : Bytes} (text : (0 : UInt8) ∉ name) (back buf : Bytes) :
    bufString (put 0 (name ++ 0 :: back) buf) = name := by
  rw [put, take_zero, nil_append, append_assoc, cons_append]
  exact bufString_append text _

theorem map_bucketAnswer {α β : Type} {g : α → β} {salt hash : Nat} {items : List (Bytes × Nat)} {hits : Bytes × Nat → Prop}
    [DecidablePred hits] {f : Bytes × Nat → α} :
    (ZapLayout.bucketAnswer zapHash salt items hash fun item => if hits item then .ok (f item) else .error enoent).map g =
      ZapLayout.bucketAnswer zapHash salt items hash fun item => if hits item then .ok (g (f item)) else .error enoent := by
  rw [ZapLayout.bucketAnswer, ZapLayout.bucketAnswer]
  by_cases empty : items = []
  · rw [if_pos empty, if_pos empty]
    rfl
  · rw [if_neg empty, if_neg empty]
    cases items.find? fun item => (zapHash salt item.1).toNat = hash with
    | none => rfl
    | some item =>
      rw [apply_ite (ZapResult.map g)]
      rfl

theorem mzapRlookup_iff {size : Nat} {block : Bytes} (micro : MicroZap layout size block entries)
    (values : (entries.map Prod.snd).Nodup) (nonzero : ∀ item ∈ entries, item.2 ≠ 0) (buf : Bytes) (value : Nat) :
    Found entries (·.2 = value) Prod.fst ((layout.mzapRlookup size block buf value).map bufString) ↔
      value ≠ 0 ∨ ∀ mze ∈ layout.mzapChunks size block, mze.name ≠ [] := by
  rw [ZapLayout.mzapRlookup, Found]
  cases found : (layout.mzapChunks size block).find? (·.value = value) with
  | none =>
    have absent : ∀ mze ∈ layout.mzapChunks size block, mze.value ≠ value := by simpa using found
    refine iff_of_true ⟨fun item stored same => ?_, fun _ => rfl⟩ ?_
    · exact absurd same (absent _ (micro.mem_iff.mp stored).1)
    · by_cases zero : value = 0
      · exact .inr fun mze member empty => absent mze member ((micro.free mze member empty).trans zero.symm)
      · exact .inl zero
  | some mze =>
    have member := mem_of_find?_eq_some found
    obtain rfl : mze.value = value := by simpa using find?_some found
    dsimp only
    by_cases empty : mze.name = []
    · have zero := micro.free mze member empty
      refine iff_of_false (fun exact => ?_) (fun fine => ?_)
      · have free := exact.2 fun item stored same => nonzero item stored (same.trans zero)
        cases free
      · exact fine.elim (· zero) (· mze member empty)
    · have here := micro.mem_iff.mpr ⟨member, empty⟩
      refine iff_of_true ⟨fun item stored same => ?_, fun absent => absurd rfl (absent _ here)⟩ (.inl (nonzero _ here))
      rw [ZapResult.map, bufString_put (micro.strings _ here), inj_on_of_nodup_map values stored here same]

/-- The reverse look-up goes by the hash of what the output buffer held before and is right only where that leads to
the value. -/
theorem zapRlookup_iff (sane : layout.Sane) (readable : Readable env phys data)
    (formed : kind.Formed layout zapHash phys data entries) (values : (entries.map Prod.snd).Nodup)
    (nonzero : ∀ item ∈ entries, item.2 ≠ 0) (same : st.dnodes dnode = phys)
    (keeps : st.Keeps dnode (phys.maxblkid + 1) data) (buf : Bytes) (value : Nat) :
    Found entries (·.2 = value) Prod.fst ((env.zapRlookup layout zapHash st dnode buf value).1.map bufString) ↔
      kind.RlookupFine layout zapHash phys data entries buf value := by
  obtain ⟨_, header, keeps', same'⟩ := zapHeader readable same keeps
  rw [Env.zapRlookup, header]
  dsimp only
  rw [if_neg (not_not.mpr rfl)]
  cases kind with
  | micro =>
    rw [if_pos formed.type, same']
    exact mzapRlookup_iff formed values nonzero buf value
  | fat _ _ =>
    obtain ⟨power, narrow, fat⟩ := formed
    rw [if_neg (by rw [fat.type]; exact sane.types.symm), Env.fzapRlookup]
    have searched := fzapSearch_stored readable power narrow fat same' keeps' (bufString buf)
      (fun zl i item stored => @useRlookup_stored layout zapHash _ sane.arrays buf value zl i item stored) rfl
    have written : ∀ item ∈ entries, item.1 = bufString (put 0 (item.1 ++ [0] ++ [0]) buf) := fun item member => by
      rw [append_assoc]
      exact (bufString_put (fat.strings item member) [0] buf).symm
    rw [Found.congr written, searched, apply_ite (ZapResult.map bufString), map_bucketAnswer]
    exact searched_iff (fat.sound _) (fun item one other two here there =>
      inj_on_of_nodup_map values one two (here.trans there.symm)) rfl

end

/-! A fat ZAP object in two blocks of 512 bytes: a header with the pointer table, and a leaf with the names a and
b in one hash chain. The hash of a name is its first letter. -/

def zapLayout : ZapLayout where
  zbtMicro := 2 ^ 63 + 3
  zbtHeader := 2 ^ 63 + 1
  zapMagic := 0x2f52ab2ab
  mzapEntLen := 64
  chunkEntry := 252
  arrayBytes := 21
  mzChunk block i := ⟨le 8 (64 * (i + 1)) block, bufString (slice (64 * (i + 1) + 14) 50 block)⟩
  zapPhys block := ⟨le 8 8 block, le 8 16 block, le 8 32 block, le 8 64 block, le 8 80 block⟩
  embeddedPtrtbl bs := 2 ^ (bs - 4)
  leafHashShift bs := bs - 5
  leafNumchunks bs := (2 ^ bs - 2 * 2 ^ (bs - 5)) / 24 - 2
  leafPrefix block := le 8 16 block
  leafPrefixLen block := le 2 32 block
  leafHash block h := le 2 (48 + 2 * h) block
  leafChunk bs block i :=
    let start := 48 + 2 * 2 ^ (bs - 5) + 24 * i
    ⟨⟨le 1 start block, le 2 (start + 2) block, le 2 (start + 4) block, le 2 (start + 6) block, le 2 (start + 8) block,
        le 8 (start + 16) block⟩,
      slice (start + 1) 21 block, le 2 (start + 22) block⟩

def letterHash : ZapHash := fun _ name => UInt64.ofNat ((name.headD 0).toNat * 2 ^ 56)

def letterHeader : Bytes :=
  toLe 8 (2 ^ 63 + 1) ++ toLe 8 0x2f52ab2ab ++ toLe 8 0 ++ toLe 8 0 ++ toLe 8 5 ++ replicate 24 0 ++ toLe 8 1 ++
    replicate 184 0 ++ (replicate 32 (toLe 8 1)).flatten

def letterChunks (first next : Nat) (letter value : UInt8) : Bytes :=
  [252, 8] ++ toLe 2 next ++ toLe 2 (first + 1) ++ toLe 2 2 ++ toLe 2 (first + 2) ++ toLe 2 1 ++ replicate 11 0 ++ [letter] ++
    ([251, letter] ++ replicate 20 0 ++ [255, 255]) ++ ([251, 0, 0, 0, 0, 0, 0, 0, value] ++ replicate 13 0 ++ [255, 255])

def letterLeaf : Bytes :=
  replicate 48 0 ++ replicate 12 255 ++ [0, 0] ++ replicate 18 255 ++ letterChunks 0 3 0x61 5 ++
    letterChunks 3 0xffff 0x62 6 ++ replicate 288 0

def letterDisk (sector : Nat) : Bytes := if sector = 0 then letterHeader else letterLeaf

def letterDnode : DnodePhys := ⟨9, 1, 1, 1, fileBp⟩

def letterEntries : List (Bytes × Nat) := [([0x61], 5), ([0x62], 6)]

def letterBucket (hash : UInt64) : List (Bytes × Nat) := if hash.toNat >>> 60 = 6 then letterEntries else []

def letterKind : ZapKind := .fat 9 letterBucket

set_option maxRecDepth 8000 in
theorem letterDnode_readable : Readable (diskEnv letterDisk) letterDnode letterDisk where
  object := by
    refine ⟨by decide, by decide, le_rfl, fun bn within => ?_⟩
    change bn < 2 at within
    obtain rfl | rfl : bn = 0 ∨ bn = 1 := by omega
    all_goals exact fileBp_holds (by decide)
  whole bn _ := by
    by_cases header : bn = 0
    · subst header
      decide
    · rw [letterDisk, if_neg header]
      decide

theorem letterDisk_item {i : Nat} {item : Bytes × Nat} (letter : (i, item) = (0, [0x61], 5) ∨ (i, item) = (3, [0x62], 6)) :
    zapLayout.StoredItem letterHash 0 ⟨9, letterDnode.block letterDisk 1⟩ i item := by
  obtain letter | letter := letter
  all_goals
    cases letter
    refine ⟨by decide, by decide, by decide, by decide, ?_, by decide, by decide,
      by decide⟩
    exact .more (ZapLayout.chunk_inside (by decide)) (by decide) (by decide) .done

theorem letterDisk_empty : ∀ h < 16, h ≠ 6 → zapLayout.leafHash (letterDnode.block letterDisk 1) h = zapChainEnd := by
  decide

theorem letterDisk_bucket (hash : UInt64) : zapLayout.StoredBucket letterHash 0 ⟨9, letterDnode.block letterDisk 1⟩
    (zapLayout.bucketOf ⟨9, letterDnode.block letterDisk 1⟩ hash.toNat) (letterBucket hash) := by
  have flat : zapLayout.leafPrefixLen (letterDnode.block letterDisk 1) = 0 := by decide
  have bits := hash.toNat_lt
  have small : hash.toNat >>> 60 < 16 := by
    omega
  rw [ZapLayout.bucketOf]
  change zapLayout.StoredBucket letterHash 0 _ (zapLayout.leafHash _ ((hash.toNat >>> 60) % 16)) _
  rw [Nat.mod_eq_of_lt small, letterBucket]
  by_cases six : hash.toNat >>> 60 = 6
  · rw [if_pos six, six]
    refine ⟨[0, 3], ?_, .cons (letterDisk_item (.inl rfl)) (.cons (letterDisk_item (.inr rfl)) .nil)⟩
    have first : zapLayout.leafHash (letterDnode.block letterDisk 1) 6 = 0 := by decide
    have second : (zapLayout.leafChunk 9 (letterDnode.block letterDisk 1) 0).entry.next = 3 := by decide
    have last : (zapLayout.leafChunk 9 (letterDnode.block letterDisk 1) 3).entry.next = zapChainEnd := by decide
    rw [first]
    refine .link (by decide) ?_
    rw [second]
    refine .link (by decide) ?_
    rw [last]
    exact .done
  · rw [if_neg six, letterDisk_empty _ small six]
    exact ⟨[], .done, .nil⟩

set_option maxRecDepth 8000 in
theorem letterDisk_table : ∀ i < 32,
    zapLayout.tableEntry 9 (letterDnode.block letterDisk) (zapLayout.zapPhys (letterDnode.block letterDisk 0)) i = some 1 := by
  decide

theorem letterHeader_phys : zapLayout.zapPhys (letterDnode.block letterDisk 0) = ⟨0x2f52ab2ab, 0, 5, 1, 0⟩ := by decide

theorem letterKind_formed : letterKind.Formed zapLayout letterHash letterDnode letterDisk letterEntries := by
  refine ⟨rfl, by decide, ?_⟩
  have table := letterDisk_table
  constructor
  case type => decide
  case magic => rw [letterHeader_phys]; rfl
  case shift => rw [letterHeader_phys]; decide
  case table => rw [letterHeader_phys]; exact fun own => absurd rfl own
  case route =>
    intro hash
    have bits := hash.toNat_lt
    refine ⟨1, by decide, table _ ?_, ?_, letterDisk_bucket hash⟩
    · rw [ZapPhys.index, Nat.shiftRight_eq_div_pow]
      change hash.toNat / 2 ^ 59 < 32
      omega
    · exact fun other => absurd other.1 (by decide)
  case sound =>
    intro hash item member
    rw [letterBucket] at member
    split at member
    · exact member
    · simp at member
  case complete => rw [letterHeader_phys]; decide
  case distinct => decide
  case strings => decide

theorem zapLayout_sane : zapLayout.Sane := ⟨by decide, by decide⟩

theorem letter_keeps : (fileCache letterDnode).Keeps 0 (letterDnode.maxblkid + 1) letterDisk :=
  fun cached => (Option.some_ne_none _ cached.symm).elim

theorem zapLookup_letter :
    ((diskEnv letterDisk).zapLookup zapLayout letterHash (fileCache letterDnode) 0 [0x62]).1 = .ok 6 := by
  have fine : letterKind.LookupFine zapLayout letterHash letterDnode letterDisk letterEntries [0x62] :=
    ⟨by decide, .inr (by decide), by decide⟩
  exact ((zapLookup_iff zapLayout_sane letterDnode_readable letterKind_formed rfl letter_keeps (by decide)).mpr fine).1
    ([0x62], 6) (by decide) rfl

/-- The name c has the bucket of a and b, and the walk runs into the null pointer at the end of their chain. -/
theorem zapLookup_null_chunk : letterKind.Formed zapLayout letterHash letterDnode letterDisk letterEntries ∧
    ((diskEnv letterDisk).zapLookup zapLayout letterHash (fileCache letterDnode) 0 [0x63]).1 = .fault ∧
    ¬Found letterEntries (·.1 = [0x63]) Prod.snd
      ((diskEnv letterDisk).zapLookup zapLayout letterHash (fileCache letterDnode) 0 [0x63]).1 := by
  have faults : ((diskEnv letterDisk).zapLookup zapLayout letterHash (fileCache letterDnode) 0 [0x63]).1 = .fault := by
    decide +kernel
  refine ⟨letterKind_formed, faults, fun found => ?_⟩
  rw [faults] at found
  cases found.2 (by decide)

theorem zapRlookup_letter :
    ((diskEnv letterDisk).zapRlookup zapLayout letterHash (fileCache letterDnode) 0 [0x61, 0] 5).1.map bufString =
    .ok [0x61] := by
  have fine : letterKind.RlookupFine zapLayout letterHash letterDnode letterDisk letterEntries [0x61, 0] 5 :=
    ⟨by decide, .inr (by decide), by decide⟩
  exact ((zapRlookup_iff zapLayout_sane letterDnode_readable letterKind_formed (by decide) (by decide) rfl letter_keeps
    [0x61, 0] 5).mpr fine).1 ([0x61], 5) (by decide) rfl

/-- With an empty buffer the bucket of the empty name is searched, not that of a. -/
theorem zapRlookup_stale_buffer : letterKind.Formed zapLayout letterHash letterDnode letterDisk letterEntries ∧
    ((diskEnv letterDisk).zapRlookup zapLayout letterHash (fileCache letterDnode) 0 [0, 0] 5).1 = .error enoent ∧
    ¬Found letterEntries (·.2 = 5) Prod.fst
      (((diskEnv letterDisk).zapRlookup zapLayout letterHash (fileCache letterDnode) 0 [0, 0] 5).1.map bufString) := by
  have missed : ((diskEnv letterDisk).zapRlookup zapLayout letterHash (fileCache letterDnode) 0 [0, 0] 5).1 = .error enoent := by
    decide +kernel
  refine ⟨letterKind_formed, missed, fun found => ?_⟩
  rw [missed] at found
  cases found.1 ([0x61], 5) (by decide) rfl

end Pcbsd.Zfs
