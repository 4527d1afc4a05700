import Pcbsd.Proofs.ZapLookup
import Pcbsd.Zfs.Dataset

/-! objset_get_dnode, and what the cache holds when dnodes on the stack are filled in and read. -/

namespace Pcbsd.Zfs
open Lib

variable {δ σ : Type} {env : Env δ σ} {layout : ZapLayout} {zapHash : ZapHash}

section

variable {st : DnodeCache σ} {dnode : Nat}

theorem dnodeReadLoop_dnodes (fuel : Nat) (st : DnodeCache σ) (offset buflen : Nat) (out : Bytes) :
    (env.dnodeReadLoop fuel st dnode offset buflen out).2.2.dnodes = st.dnodes := by
  induction fuel generalizing st offset buflen out with
  | zero => rfl
  | succ fuel ih =>
    rw [Env.dnodeReadLoop]
    by_cases done : buflen = 0
    · rw [if_pos done]
    rw [if_neg done]
    by_cases beyond : (st.dnodes dnode).maxblkid < offset / (st.dnodes dnode).bsize
    · rw [if_pos beyond]
    rw [if_neg beyond]
    have kept := loadBlock_dnodes env st dnode (offset / (st.dnodes dnode).bsize)
    generalize env.loadBlock st dnode (offset / (st.dnodes dnode).bsize) = reply at kept ⊢
    obtain ⟨rc, _⟩ := reply
    dsimp only at kept ⊢
    by_cases failed : rc ≠ 0
    · rw [if_pos failed, kept]
    · rw [if_neg failed, ih, kept]

theorem dnodeRead_dnodes (st : DnodeCache σ) (dnode offset buflen : Nat) :
    (env.dnodeRead st dnode offset buflen).2.2.dnodes = st.dnodes := dnodeReadLoop_dnodes buflen st offset buflen []

theorem loadBlock_stays (cached : st.obj = some dnode) (bn : Nat) : (env.loadBlock st dnode bn).2.obj = some dnode := by
  by_cases hit : st.obj = some dnode ∧ bn = st.bn
  · rw [Env.loadBlock, if_pos hit]
    exact cached
  · rw [Env.loadBlock, if_neg hit]
    generalize env.descendDnode (st.dnodes dnode) bn st.buf st.world = reply
    obtain ⟨rc, buf, _⟩ := reply
    dsimp only
    by_cases failed : rc ≠ 0
    · rw [if_pos failed]
      exact cached
    · rw [if_neg failed]

theorem dnodeReadLoop_stays (cached : st.obj = some dnode) (fuel offset buflen : Nat) (out : Bytes) :
    (env.dnodeReadLoop fuel st dnode offset buflen out).2.2.obj = some dnode := by
  induction fuel generalizing st offset buflen out with
  | zero => exact cached
  | succ fuel ih =>
    rw [Env.dnodeReadLoop]
    by_cases done : buflen = 0
    · rw [if_pos done]
      exact cached
    rw [if_neg done]
    by_cases beyond : (st.dnodes dnode).maxblkid < offset / (st.dnodes dnode).bsize
    · rw [if_pos beyond]
      exact cached
    rw [if_neg beyond]
    have stays := @loadBlock_stays δ σ env st dnode cached (offset / (st.dnodes dnode).bsize)
    generalize env.loadBlock st dnode (offset / (st.dnodes dnode).bsize) = reply at stays ⊢
    obtain ⟨rc, _⟩ := reply
    dsimp only at stays ⊢
    by_cases failed : rc ≠ 0
    · rw [if_pos failed]
      exact stays
    · rw [if_neg failed]
      exact ih stays _ _ _

theorem dnodeRead_tag {offset buflen : Nat} (nonzero : 0 < buflen) (ok : (env.dnodeRead st dnode offset buflen).1 = 0) :
    (env.dnodeRead st dnode offset buflen).2.2.obj = some dnode := by
  obtain ⟨_, rfl⟩ := Nat.exists_eq_succ_of_ne_zero (Nat.ne_of_gt nonzero)
  rw [Env.dnodeRead, Env.dnodeReadLoop, if_neg (Nat.ne_of_gt nonzero)] at ok ⊢
  by_cases beyond : (st.dnodes dnode).maxblkid < offset / (st.dnodes dnode).bsize
  · rw [if_pos beyond] at ok
    exact absurd ok eio_ne
  rw [if_neg beyond] at ok ⊢
  have tag := @loadBlock_tag δ σ env st dnode (offset / (st.dnodes dnode).bsize)
  generalize env.loadBlock st dnode (offset / (st.dnodes dnode).bsize) = reply at tag ok ⊢
  obtain ⟨rc, _⟩ := reply
  dsimp only at tag ok ⊢
  by_cases failed : rc ≠ 0
  · rw [if_pos failed] at ok
    exact absurd ok failed
  · rw [if_neg failed]
    exact dnodeReadLoop_stays (tag (not_not.mp failed)).1 _ _ _ _

structure DnodeCache.Held (st : DnodeCache σ) (dnode : Nat) (phys : DnodePhys) (data : Nat → Bytes) : Prop where
  same : st.dnodes dnode = phys
  keeps : st.Keeps dnode (phys.maxblkid + 1) data

variable {os var : Nat} {phys contents : DnodePhys} {data : Nat → Bytes}

theorem held_of_tag (same : st.dnodes os = phys) (tag : st.obj = some var) (other : var ≠ os) : st.Held os phys data :=
  ⟨same, fun cached => absurd (Option.some.inj (tag.symm.trans cached)) other⟩

theorem fill_held (tag : st.obj = some os) (other : var ≠ os) : (st.fill var contents).Held var contents data :=
  held_of_tag (Function.update_self ..) tag other.symm

theorem fill_dnodes (other : var ≠ os) : (st.fill var contents).dnodes os = st.dnodes os :=
  Function.update_of_ne other.symm ..

def DnodeCache.Tagged (before after : DnodeCache σ) (dnode : Nat) : Prop :=
  after.obj = some dnode ∧ after.dnodes = before.dnodes

theorem dnodeRead_tagged {before : DnodeCache σ} (tagged : before.Tagged st dnode) (offset buflen : Nat) :
    before.Tagged (env.dnodeRead st dnode offset buflen).2.2 dnode :=
  ⟨dnodeReadLoop_stays tagged.1 buflen offset buflen [], (dnodeRead_dnodes st dnode offset buflen).trans tagged.2⟩

theorem fzapSearch_tagged {α : Type} {before : DnodeCache σ} (tagged : before.Tagged st dnode) (scratch name : Bytes)
    (use : ZapLeaf → LeafChunk → ZapResult α) :
    before.Tagged (env.fzapSearch layout zapHash st dnode scratch name use).2 dnode := by
  rw [Env.fzapSearch]
  by_cases magic : (layout.zapPhys scratch).magic ≠ layout.zapMagic
  · rw [if_pos magic]
    exact tagged
  rw [if_neg magic]
  cases ilog2 (st.dnodes dnode).bsize with
  | none => exact tagged
  | some shift =>
    have table : before.Tagged (if (layout.zapPhys scratch).ptrtblBlk ≠ 0 then
        env.dnodeRead st dnode ((layout.zapPhys scratch).ptrtblBlk * (st.dnodes dnode).bsize) (st.dnodes dnode).bsize
      else (0, scratch, st)).2.2 dnode := by
      split
      · exact dnodeRead_tagged tagged _ _
      · exact tagged
    generalize (if (layout.zapPhys scratch).ptrtblBlk ≠ 0 then
        env.dnodeRead st dnode ((layout.zapPhys scratch).ptrtblBlk * (st.dnodes dnode).bsize) (st.dnodes dnode).bsize
      else (0, scratch, st)) = reply at table ⊢
    obtain ⟨rc, ptrtbl, st'⟩ := reply
    dsimp only at table ⊢
    by_cases failed : rc ≠ 0
    · rw [if_pos failed]
      exact table
    rw [if_neg failed]
    generalize ptrtblWord ptrtbl _ _ = word
    cases word with
    | none => exact table
    | some blk =>
      dsimp only
      have leaf := @dnodeRead_tagged δ σ env st' dnode before table (blk <<< shift) (st.dnodes dnode).bsize
      generalize env.dnodeRead st' dnode (blk <<< shift) (st.dnodes dnode).bsize = reply at leaf ⊢
      obtain ⟨rc, _, _⟩ := reply
      by_cases failed : rc ≠ 0
      · rw [if_pos failed]
        exact leaf
      · rw [if_neg failed]
        exact leaf

theorem zapHeader_tagged (readable : Readable env phys data) (held : st.Held dnode phys data) :
    ∃ scratch st', env.dnodeRead st dnode 0 (st.dnodes dnode).bsize = (0, scratch, st') ∧ st.Tagged st' dnode := by
  obtain ⟨st', read, -⟩ := zapHeader readable held.same held.keeps
  refine ⟨_, st', read, ?_⟩
  have tag := @dnodeRead_tag δ σ env st dnode 0 (st.dnodes dnode).bsize (by rw [held.same]; exact readable.object.sized)
    (congrArg Prod.fst read)
  have dnodes := @dnodeRead_dnodes δ σ env st dnode 0 (st.dnodes dnode).bsize
  rw [read] at tag dnodes
  exact ⟨tag, dnodes⟩

theorem zapLookup_tagged (readable : Readable env phys data) (held : st.Held dnode phys data) (name : Bytes) :
    st.Tagged (env.zapLookup layout zapHash st dnode name).2 dnode := by
  obtain ⟨scratch, _, read, tagged⟩ := zapHeader_tagged readable held
  rw [Env.zapLookup, read]
  dsimp only
  rw [if_neg (not_not.mpr rfl)]
  by_cases micro : le 8 0 scratch = layout.zbtMicro
  · rw [if_pos micro]
    exact tagged
  rw [if_neg micro]
  by_cases fat : le 8 0 scratch = layout.zbtHeader
  · rw [if_pos fat]
    exact fzapSearch_tagged tagged _ _ _
  · rw [if_neg fat]
    exact tagged

theorem zapRlookup_tagged (readable : Readable env phys data) (held : st.Held dnode phys data) (name : Bytes)
    (value : Nat) :
    st.Tagged (env.zapRlookup layout zapHash st dnode name value).2 dnode := by
  obtain ⟨scratch, _, read, tagged⟩ := zapHeader_tagged readable held
  rw [Env.zapRlookup, read]
  dsimp only
  rw [if_neg (not_not.mpr rfl)]
  by_cases micro : le 8 0 scratch = layout.zbtMicro
  · rw [if_pos micro]
    exact tagged
  · rw [if_neg micro]
    exact fzapSearch_tagged tagged _ _ _

end

def DnodeLayout.dnodeOf (layout : DnodeLayout) (contents : Bytes) (objnum : Nat) : Bytes :=
  slice (objnum * layout.dnodeSize) layout.dnodeSize contents

def DnodeLayout.Inside (layout : DnodeLayout) (phys : DnodePhys) (objnum : Nat) : Prop :=
  (objnum + 1) * layout.dnodeSize ≤ (phys.maxblkid + 1) * phys.bsize

variable {phys : DnodePhys} {dnodes : DnodeLayout} {data : Nat → Bytes} {objnum : Nat}

theorem objsetGetDnode_inside (sized : 0 < dnodes.dnodeSize) {st : DnodeCache σ} {os : Nat}
    (readable : Readable env phys data) (held : st.Held os phys data) (inside : dnodes.Inside phys objnum) :
    ∃ st', env.objsetGetDnode dnodes st os objnum = (0, dnodes.dnodeOf (phys.logical data) objnum, st') ∧
      st'.Held os phys data ∧ st.Tagged st' os := by
  have covered : objnum * dnodes.dnodeSize + dnodes.dnodeSize ≤ (phys.maxblkid + 1) * phys.bsize := by
    rw [← Nat.succ_mul]
    exact inside
  have read := dnodeRead_within readable.object readable.whole held.same held.keeps (.inr covered)
  exact ⟨_, Prod.ext read.1 (Prod.ext read.2.1 rfl), ⟨read.2.2.2, read.2.2.1⟩, dnodeRead_tag sized read.1,
    dnodeRead_dnodes ..⟩

theorem zap_strings {kind : ZapKind} {zapData : Nat → Bytes} {entries : List (Bytes × Nat)}
    (formed : kind.Formed layout zapHash phys zapData entries) : ∀ item ∈ entries, (0 : UInt8) ∉ item.1 := by
  cases kind with
  | micro => exact formed.strings
  | fat _ _ => exact formed.2.2.strings

end Pcbsd.Zfs
