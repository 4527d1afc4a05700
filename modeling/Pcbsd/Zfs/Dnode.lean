import Pcbsd.Zfs.Zio

/-! dnode_read of boot/zfs/zfsimpl.c with its one-block cache, and zfs_close of boot/zfs/zfs.c,
which empties it. -/

namespace Pcbsd.Zfs
open Lib

/-- The fields of a dnode_phys_t that dnode_read uses. `blkptr i` is what memory holds at
dn_blkptr[i]: the index is not checked against the size of the array. -/
structure DnodePhys where
  indblkshift : Nat
  datablkszsec : Nat
  nlevels : Nat
  maxblkid : Nat
  blkptr : Nat → Blkptr

def DnodePhys.bsize (dnode : DnodePhys) : Nat := dnode.datablkszsec <<< spaMinblockshift

/-- For a dn_indblkshift of more than SPA_BLKPTRSHIFT; with a smaller one C shifts by a negative count, which is
undefined. -/
def DnodePhys.ibshift (dnode : DnodePhys) : Nat := dnode.indblkshift - spaBlkptrshift

/-- dnode_cache_obj, dnode_cache_bn and dnode_cache_buf, the dnodes in memory by address, and
the outside world. -/
structure DnodeCache (σ : Type) where
  obj : Option Nat
  bn : Nat
  buf : Bytes
  dnodes : Nat → DnodePhys
  world : σ

namespace Env

variable {δ σ : Type} (env : Env δ σ)

/-- The loop over the levels of a dnode, `k` of which are left. Every block on the way goes
through the same buffer. -/
def descend (ibshift bn : Nat) : Nat → (Nat → Blkptr) → Bytes → σ → Reply σ
  | 0, _, buf, w => (0, buf, w)
  | k + 1, indbp, buf, w =>
    match env.zioRead (indbp ((bn >>> (k * ibshift)) % 2 ^ ibshift)) buf w with
    | (rc, buf, w) => if rc ≠ 0 then (rc, buf, w) else descend ibshift bn k (env.indbp buf) buf w

def descendDnode (dnode : DnodePhys) (bn : Nat) (buf : Bytes) (w : σ) : Reply σ :=
  env.descend dnode.ibshift bn dnode.nlevels dnode.blkptr buf w

/-- What comes before `cached:` in one turn of dnode_read. -/
def loadBlock (st : DnodeCache σ) (dnode bn : Nat) : Int × DnodeCache σ :=
  if st.obj = some dnode ∧ bn = st.bn then (0, st)
  else
    match env.descendDnode (st.dnodes dnode) bn st.buf st.world with
    | (rc, buf, w) =>
      if rc ≠ 0 then (rc, { st with buf := buf, world := w })
      else (0, { st with obj := some dnode, bn := bn, buf := buf, world := w })

/-- The loop of dnode_read with `out` copied so far. A turn copies at least one byte, so that
`fuel` turns serve `fuel` bytes. The division traps when the dnode has no block size. -/
def dnodeReadLoop : Nat → DnodeCache σ → Nat → Nat → Nat → Bytes → Int × Bytes × DnodeCache σ
  | 0, st, _, _, _, out => (0, out, st)
  | fuel + 1, st, dnode, offset, buflen, out =>
    if buflen = 0 then (0, out, st)
    else
      let bsize := (st.dnodes dnode).bsize
      let bn := offset / bsize
      let boff := offset % bsize
      if (st.dnodes dnode).maxblkid < bn then (eio, out, st)
      else
        match env.loadBlock st dnode bn with
        | (rc, st) =>
          if rc ≠ 0 then (rc, out, st)
          else
            let i := min (bsize - boff) buflen
            dnodeReadLoop fuel st dnode (offset + i) (buflen - i) (out ++ slice boff i st.buf)

def dnodeRead (st : DnodeCache σ) (dnode offset buflen : Nat) : Int × Bytes × DnodeCache σ :=
  env.dnodeReadLoop buflen st dnode offset buflen []

end Env

/-- What can happen to the cache: a read, zfs_close, and a dnode being filled in at an address. -/
inductive DnodeEvent where
  | read (dnode offset buflen : Nat)
  | close
  | fill (dnode : Nat) (contents : DnodePhys)

def zfsClose {σ : Type} (st : DnodeCache σ) : DnodeCache σ := { st with obj := none }

def Env.dnodeStep {δ σ : Type} (env : Env δ σ) (st : DnodeCache σ) : DnodeEvent → DnodeCache σ
  | .read dnode offset buflen => (env.dnodeRead st dnode offset buflen).2.2
  | .close => zfsClose st
  | .fill dnode contents => { st with dnodes := Function.update st.dnodes dnode contents }

def Env.dnodeRun {δ σ : Type} (env : Env δ σ) (st : DnodeCache σ) (events : List DnodeEvent) : DnodeCache σ :=
  events.foldl env.dnodeStep st

end Pcbsd.Zfs
