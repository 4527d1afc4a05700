import Pcbsd.Zfs.Dnode

/-! ZAP objects: zap_lookup and zap_rlookup of boot/zfs/zfsimpl.c. The layout of the blocks and the hash
function are not part of this repository. -/

namespace Pcbsd.Zfs
open Lib

def zapChainEnd : Nat := 0xffff

/-- What a call comes to. A fault is an access through a null pointer or outside the block that was read, or
a chain that never ends. -/
inductive ZapResult (α : Type) where
  | ok (value : α)
  | error (rc : Int)
  | fault
  deriving DecidableEq

def ZapResult.map {α β : Type} (f : α → β) : ZapResult α → ZapResult β
  | .ok value => .ok (f value)
  | .error rc => .error rc
  | .fault => .fault

def bufString (buf : Bytes) : Bytes := buf.takeWhile (· ≠ 0)

structure MzapEnt where
  value : Nat
  name : Bytes
  deriving DecidableEq

structure ZapPhys where
  magic : Nat
  ptrtblBlk : Nat
  ptrtblShift : Nat
  numLeafs : Nat
  salt : Nat
  deriving DecidableEq

structure LeafEntry where
  type : Nat
  next : Nat
  nameChunk : Nat
  nameLength : Nat
  valueChunk : Nat
  hash : Nat
  deriving DecidableEq

/-- The two ways to read a zap_leaf_chunk_t: l_entry, and l_array with its la_next. -/
structure LeafChunk where
  entry : LeafEntry
  array : Bytes
  next : Nat
  deriving DecidableEq

/-- The constants, types and macros of zfsimpl.h. A name of a microzap is the string that ends with its first
NUL; `embeddedPtrtbl` is the place of ZAP_EMBEDDED_PTRTBL_ENT 0 in a header block, in words. -/
structure ZapLayout where
  zbtMicro : Nat
  zbtHeader : Nat
  zapMagic : Nat
  mzapEntLen : Nat
  chunkEntry : Nat
  arrayBytes : Nat
  mzChunk : Bytes → Nat → MzapEnt
  zapPhys : Bytes → ZapPhys
  embeddedPtrtbl : Nat → Nat
  leafHashShift : Nat → Nat
  leafNumchunks : Nat → Nat
  leafPrefix : Bytes → Nat
  leafPrefixLen : Bytes → Nat
  leafHash : Bytes → Nat → Nat
  leafChunk : Nat → Bytes → Nat → LeafChunk

abbrev ZapHash := Nat → Bytes → UInt64

structure ZapLeaf where
  bs : Nat
  phys : Bytes

def ilog2 (n : Nat) : Option Nat := (List.range 32).find? fun v => n = 2 ^ v

namespace ZapLayout

variable (layout : ZapLayout)

def mzapChunks (size : Nat) (scratch : Bytes) : List MzapEnt :=
  (List.range (size / layout.mzapEntLen - 1)).map (layout.mzChunk scratch)

def mzapLookup (size : Nat) (scratch name : Bytes) : ZapResult Nat :=
  match (layout.mzapChunks size scratch).find? (·.name = name) with
  | some mze => .ok mze.value
  | none => .error enoent

def mzapRlookup (size : Nat) (scratch name : Bytes) (value : Nat) : ZapResult Bytes :=
  match (layout.mzapChunks size scratch).find? (·.value = value) with
  | some mze => .ok (put 0 (mze.name ++ [0]) name)
  | none => .error enoent

def chunk (zl : ZapLeaf) (i : Nat) : Option LeafChunk :=
  if i < layout.leafNumchunks zl.bs then some (layout.leafChunk zl.bs zl.phys i) else none

/-- The loop of fzap_name_equal at `p` with `namelen` bytes to go; a turn compares at least one. -/
def nameEqualLoop (zl : ZapLeaf) : Nat → Bytes → Nat → Nat → ZapResult Bool
  | 0, _, _, _ => .ok true
  | fuel + 1, p, namelen, nc =>
    if namelen = 0 then .ok true
    else
      match layout.chunk zl nc with
      | none => .fault
      | some chunk =>
        let len := min namelen layout.arrayBytes
        if p.take len ≠ chunk.array.take len then .ok false
        else nameEqualLoop zl fuel (p.drop len) (namelen - len) chunk.next

def fzapNameEqual (zl : ZapLeaf) (zc : LeafChunk) (name : Bytes) : ZapResult Bool :=
  layout.nameEqualLoop zl zc.entry.nameLength (name ++ [0]) zc.entry.nameLength zc.entry.nameChunk

def fzapLeafValue (zl : ZapLeaf) (zc : LeafChunk) : ZapResult Nat :=
  match layout.chunk zl zc.entry.valueChunk with
  | none => .fault
  | some vc => .ok ((vc.array.take 8).foldl (fun value p => value * 256 + p.toNat) 0)

/-- The loop of fzap_name_copy, `out` having been copied. -/
def nameCopyLoop (zl : ZapLeaf) : Nat → Nat → Nat → Bytes → ZapResult Bytes
  | 0, _, _, out => .ok out
  | fuel + 1, namelen, nc, out =>
    if namelen = 0 then .ok out
    else
      match layout.chunk zl nc with
      | none => .fault
      | some chunk =>
        let len := min namelen layout.arrayBytes
        nameCopyLoop zl fuel (namelen - len) chunk.next (out ++ chunk.array.take len)

def fzapNameCopy (zl : ZapLeaf) (zc : LeafChunk) (name : Bytes) : ZapResult Bytes :=
  match layout.nameCopyLoop zl zc.entry.nameLength zc.entry.nameLength zc.entry.nameChunk [] with
  | .ok copied => .ok (put 0 (copied ++ [0]) name)
  | .error rc => .error rc
  | .fault => .fault

/-- The walk along a hash chain. At its end the chunk is a null pointer. -/
def hashChain (zl : ZapLeaf) (hash : Nat) : Nat → Nat → ZapResult (Option LeafChunk)
  | 0, _ => .fault
  | fuel + 1, h =>
    match layout.chunk zl h with
    | none => .fault
    | some zc =>
      if zc.entry.hash = hash then .ok (some zc)
      else if zc.entry.next = zapChainEnd then .ok none
      else hashChain zl hash fuel zc.entry.next

def bucketOf (zl : ZapLeaf) (hash : Nat) : Nat :=
  let shift := 64 - layout.leafHashShift zl.bs - layout.leafPrefixLen zl.phys
  layout.leafHash zl.phys ((hash >>> shift) % 2 ^ layout.leafHashShift zl.bs)

/-- What fzap_lookup and fzap_rlookup do with a leaf; `use` is what they do with the chunk they find. -/
def leafSearch {α : Type} (zl : ZapLeaf) (hash : Nat) (use : LeafChunk → ZapResult α) : ZapResult α :=
  if 0 < layout.leafPrefixLen zl.phys ∧
    layout.leafPrefix zl.phys ≠ hash >>> (64 - layout.leafPrefixLen zl.phys) then .error enoent
  else if layout.bucketOf zl hash = zapChainEnd then .error enoent
  else
    match layout.hashChain zl hash (layout.leafNumchunks zl.bs) (layout.bucketOf zl hash) with
    | .ok (some zc) => use zc
    | .ok none => .fault
    | .error rc => .error rc
    | .fault => .fault

def useLookup (zl : ZapLeaf) (name : Bytes) (zc : LeafChunk) : ZapResult Nat :=
  match layout.fzapNameEqual zl zc name with
  | .ok true => layout.fzapLeafValue zl zc
  | .ok false => .error enoent
  | .error rc => .error rc
  | .fault => .fault

def useRlookup (zl : ZapLeaf) (name : Bytes) (value : Nat) (zc : LeafChunk) : ZapResult Bytes :=
  match layout.fzapLeafValue zl zc with
  | .ok found => if found = value then layout.fzapNameCopy zl zc name else .error enoent
  | .error rc => .error rc
  | .fault => .fault

end ZapLayout

/-- The word of a pointer table that starts `base` words into a block. -/
def ptrtblWord (block : Bytes) (base index : Nat) : Option Nat :=
  if (base + index + 1) * 8 ≤ block.length then some (le 8 ((base + index) * 8) block) else none

namespace Env

variable {δ σ : Type} (env : Env δ σ) (layout : ZapLayout) (zapHash : ZapHash)

/-- What fzap_lookup and fzap_rlookup have in common. The header block is in the scratch buffer; a pointer table
of its own takes its place, and then the leaf does. -/
def fzapSearch {α : Type} (st : DnodeCache σ) (dnode : Nat) (scratch name : Bytes)
    (use : ZapLeaf → LeafChunk → ZapResult α) : ZapResult α × DnodeCache σ :=
  let bsize := (st.dnodes dnode).bsize
  let zh := layout.zapPhys scratch
  if zh.magic ≠ layout.zapMagic then (.error eio, st)
  else
    match ilog2 bsize with
    | none => (.fault, st)
    | some shift =>
      match if zh.ptrtblBlk ≠ 0 then env.dnodeRead st dnode (zh.ptrtblBlk * bsize) bsize else (0, scratch, st) with
      | (rc, ptrtbl, st) =>
        if rc ≠ 0 then (.error rc, st)
        else
          let hash := (zapHash zh.salt name).toNat
          let base := if zh.ptrtblBlk ≠ 0 then 0 else layout.embeddedPtrtbl shift
          match ptrtblWord ptrtbl base (hash >>> (64 - zh.ptrtblShift)) with
          | none => (.fault, st)
          | some blk =>
            match env.dnodeRead st dnode (blk <<< shift) bsize with
            | (rc, leaf, st) =>
              if rc ≠ 0 then (.error rc, st) else (layout.leafSearch ⟨shift, leaf⟩ hash (use ⟨shift, leaf⟩), st)

def fzapLookup (st : DnodeCache σ) (dnode : Nat) (scratch name : Bytes) : ZapResult Nat × DnodeCache σ :=
  env.fzapSearch layout zapHash st dnode scratch name fun zl zc => layout.useLookup zl name zc

/-- `name` is the caller's buffer, which the search takes for the name. -/
def fzapRlookup (st : DnodeCache σ) (dnode : Nat) (scratch name : Bytes) (value : Nat) : ZapResult Bytes × DnodeCache σ :=
  env.fzapSearch layout zapHash st dnode scratch (bufString name) fun zl zc => layout.useRlookup zl name value zc

def zapLookup (st : DnodeCache σ) (dnode : Nat) (name : Bytes) : ZapResult Nat × DnodeCache σ :=
  match env.dnodeRead st dnode 0 (st.dnodes dnode).bsize with
  | (rc, scratch, st) =>
    if rc ≠ 0 then (.error rc, st)
    else if le 8 0 scratch = layout.zbtMicro then (layout.mzapLookup (st.dnodes dnode).bsize scratch name, st)
    else if le 8 0 scratch = layout.zbtHeader then env.fzapLookup layout zapHash st dnode scratch name
    else (.error eio, st)

def zapRlookup (st : DnodeCache σ) (dnode : Nat) (name : Bytes) (value : Nat) : ZapResult Bytes × DnodeCache σ :=
  match env.dnodeRead st dnode 0 (st.dnodes dnode).bsize with
  | (rc, scratch, st) =>
    if rc ≠ 0 then (.error rc, st)
    else if le 8 0 scratch = layout.zbtMicro then (layout.mzapRlookup (st.dnodes dnode).bsize scratch name value, st)
    else env.fzapRlookup layout zapHash st dnode scratch name value

end Env

end Pcbsd.Zfs
