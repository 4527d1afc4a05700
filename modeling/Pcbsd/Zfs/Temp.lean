import Pcbsd.Lib.Scratch
import Pcbsd.Zfs.File

/-! zfs_alloc and zfs_free of boot/zfs/zfsimpl.c, and the functions that take temporary memory. Buffers are addresses
here, which do not wrap around, and a size_t has 32 bits; `chain` has the sizes that the callers hold. The rest of the
memory and the devices are outside, and with them raidz, which gives back what it takes. -/

namespace Pcbsd.Zfs
open Lib.Scratch

def tempSize : Nat := 1024 * 1024

def sizeValues : Nat := 2 ^ 32

/-- What lies outside. `zioGb` is where zio_gb is in the frame of a zio_read_gang that has `depth` further calls below
it. -/
structure TempEnv (δ σ : Type) where
  vdevs : List (Vdev δ)
  vRead : Vdev δ → Blkptr → (buf offset bytes : Nat) → σ → Int × σ
  decompressData : (cpfunc src psize dest lsize : Nat) → σ → Int × σ
  bcopy : (src dest size : Nat) → σ → σ
  checksumVerify : Blkptr → (buf : Nat) → σ → Int
  blkptr : (addr i : Nat) → σ → Blkptr
  dnode : (addr : Nat) → σ → DnodePhys
  cached : (dnode bn : Nat) → σ → Bool
  setCached : (dnode bn : Nat) → σ → σ
  layout : Layout
  saStat : (sahdr : Nat) → σ → Stat
  zioGb : (depth : Nat) → Nat
  tempBuf : Nat
  cacheBuf : Nat

namespace TempEnv

variable {δ σ : Type} (env : TempEnv δ σ)

/-- zfs_alloc. `held` is the buffer that the piece stands in for, if there is one. -/
def zfsAlloc (chain : List Nat) (held : Option Nat) (size : Nat) : Program σ Nat :=
  .alloc (env.tempBuf + tempSize) chain held (size % sizeValues)

def zfsFree (ptr size : Nat) : Program σ Unit := .free ptr (size % sizeValues)

def readCopy (gang : List Nat → Blkptr → Nat → Program σ Int) (chain : List Nat) (vdev : Vdev δ) (dva : Dva)
    (bp : Blkptr) (pbuf : Nat) : Program σ Int :=
  if dva.gang then gang chain bp pbuf else .act (env.vRead vdev bp pbuf dva.offset (Env.readSize vdev bp))

/-- What was read is decompressed or copied into the buffer of the caller. -/
def deliver (vdev : Vdev δ) (bp : Blkptr) (pbuf buf : Nat) (error : Int) : Program σ Int :=
  if error ≠ 0 then .pure error
  else if bp.compress ≠ zioCompressOff then .act (env.decompressData bp.compress pbuf bp.psize buf bp.lsize)
  else if Env.readSize vdev bp ≠ bp.psize then .act fun w => (0, env.bcopy pbuf buf bp.psize w)
  else .pure 0

/-- One turn of the loop of zio_read, for a DVA whose vdev was found. -/
def readDva (gang : List Nat → Blkptr → Nat → Program σ Int) (chain : List Nat) (vdev : Vdev δ) (dva : Dva)
    (bp : Blkptr) (buf : Nat) : Program σ Int :=
  let size := Env.readSize vdev bp
  if size ≠ bp.psize ∨ bp.compress ≠ zioCompressOff then
    (env.zfsAlloc chain (some buf) size).bind fun pbuf =>
    ((env.readCopy gang (size % sizeValues :: chain) vdev dva bp pbuf).bind (env.deliver vdev bp pbuf buf)).bind
      fun error =>
    (if some buf ≠ some pbuf then zfsFree pbuf size else .pure ()).bind fun _ =>
    .pure error
  else
    -- pbuf is buf, and nothing is given back.
    (env.readCopy gang chain vdev dva bp buf).bind (env.deliver vdev bp buf buf)

def zioReadLoop (gang : List Nat → Blkptr → Nat → Program σ Int) (chain : List Nat) (bp : Blkptr) (buf : Nat) :
    List Dva → Int → Program σ Int
  | [], error => .pure error
  | dva :: dvas, error =>
    if dva.zero then zioReadLoop gang chain bp buf dvas error
    else
      match env.vdevs.find? (·.id = dva.vdev) with
      | none => zioReadLoop gang chain bp buf dvas error
      | some vdev =>
        (env.readDva gang chain vdev dva bp buf).bind fun error =>
        if error = 0 then .pure 0 else zioReadLoop gang chain bp buf dvas error

/-- The loop of zio_read_gang over the block pointers `gbps` of the header at `gb`. -/
def zioReadPieces (read : List Nat → Blkptr → Nat → Program σ Int) (chain : List Nat) (gb : Nat) : List Nat → Nat → Program σ Int
  | [], _ => .pure 0
  | i :: gbps, pbuf =>
    (Program.act fun w => (env.blkptr gb i w, w)).bind fun gbp =>
    if gbp.hole then zioReadPieces read chain gb gbps pbuf
    else
      (read chain gbp pbuf).bind fun rc =>
      if rc ≠ 0 then .pure eio else zioReadPieces read chain gb gbps (pbuf + gbp.psize)

def zioReadGang (read : List Nat → Blkptr → Nat → Program σ Int) (gb : Nat) (chain : List Nat) (bp : Blkptr)
    (buf : Nat) : Program σ Int :=
  (read chain (Env.gbhBp bp) gb).bind fun rc =>
  if rc ≠ 0 then .pure eio
  else
    (env.zioReadPieces read chain gb (List.range spaGbhNblkptrs) buf).bind fun rc =>
    if rc ≠ 0 then .pure eio
    else .act fun w => (if env.checksumVerify bp buf w ≠ 0 then eio else 0, w)

/-- zio_read with room for `depth` nested calls on the stack. -/
def zioRead : (depth : Nat) → List Nat → Blkptr → Nat → Program σ Int
  | 0, _, _, _ => .stuck
  | depth + 1, chain, bp, buf => env.zioReadLoop (env.zioReadGang (zioRead depth) (env.zioGb depth)) chain bp buf bp.dva eio

/-- The loop over the levels of a dnode, `k` of which are left. -/
def descend (depth : Nat) (chain : List Nat) (ibshift bn : Nat) : Nat → (Nat → σ → Blkptr) → Program σ Int
  | 0, _ => .pure 0
  | k + 1, indbp =>
    (Program.act fun w => (indbp ((bn >>> (k * ibshift)) % 2 ^ ibshift) w, w)).bind fun bp =>
    (env.zioRead depth chain bp env.cacheBuf).bind fun rc =>
    if rc ≠ 0 then .pure rc else descend depth chain ibshift bn k (env.blkptr env.cacheBuf)

/-- What comes before `cached:` in one turn of dnode_read. -/
def loadBlock (depth : Nat) (chain : List Nat) (dnode ibshift nlevels bn : Nat) : Program σ Int :=
  (Program.act fun w => (env.cached dnode bn w, w)).bind fun cached =>
  if cached then .pure 0
  else
    (env.descend depth chain ibshift bn nlevels fun i w => (env.dnode dnode w).blkptr i).bind fun rc =>
    if rc ≠ 0 then .pure rc else .act fun w => (0, env.setCached dnode bn w)

/-- The loop of dnode_read. Each turn copies a byte at least; the division by a block size of zero traps. -/
def dnodeReadLoop (depth : Nat) (chain : List Nat) (dnode bsize ibshift nlevels : Nat) :
    Nat → (offset buf buflen : Nat) → Program σ Int
  | 0, _, _, _ => .pure 0
  | fuel + 1, offset, buf, buflen =>
    if buflen = 0 then .pure 0
    else if bsize = 0 then .stuck
    else
      (Program.act fun w => ((env.dnode dnode w).maxblkid, w)).bind fun maxblkid =>
      if maxblkid < offset / bsize then .pure eio
      else
        (env.loadBlock depth chain dnode ibshift nlevels (offset / bsize)).bind fun rc =>
        if rc ≠ 0 then .pure rc
        else
          let i := min (bsize - offset % bsize) buflen
          (Program.act fun w => ((), env.bcopy (env.cacheBuf + offset % bsize) buf i w)).bind fun _ =>
          dnodeReadLoop depth chain dnode bsize ibshift nlevels fuel (offset + i) (buf + i) (buflen - i)

def dnodeRead (depth : Nat) (chain : List Nat) (dnode offset buf buflen : Nat) : Program σ Int :=
  (Program.act fun w => (env.dnode dnode w, w)).bind fun dn =>
  env.dnodeReadLoop depth chain dnode dn.bsize dn.ibshift dn.nlevels buflen offset buf buflen

def zfsDnodeStat (depth : Nat) (chain : List Nat) (dn : Bonus) : Program σ (Except Int Stat) :=
  if !dn.sa then .pure (.ok (env.layout.znode dn.bytes))
  else if dn.len ≠ 0 then .pure (.ok (env.layout.sa dn.bytes))
  else
    match dn.spill with
    | none => .pure (.error eio)
    | some bp =>
      (env.zfsAlloc chain none bp.lsize).bind fun buf =>
      (env.zioRead depth (bp.lsize % sizeValues :: chain) bp buf).bind fun error =>
      if error ≠ 0 then (zfsFree buf bp.lsize).bind fun _ => .pure (.error error)
      else
        (Program.act fun w => (env.saStat buf w, w)).bind fun sb =>
        (zfsFree buf bp.lsize).bind fun _ => .pure (.ok sb)

/-- vdev_probe. `begins` is all of it up to the uberblocks: the code when it ends there, or else the size and the
number of the uberblocks; `slot` is what one turn of their loop does, with the buffer and the number of the slot. -/
def vdevProbe (chain : List Nat) (begins : σ → Except Int (Nat × Nat) × σ) (slot : (upbuf i : Nat) → σ → σ) : Program σ Int :=
  (Program.act begins).bind fun begun =>
  match begun with
  | .error rc => .pure rc
  | .ok (size, count) =>
    (env.zfsAlloc chain none size).bind fun upbuf =>
    (Program.act fun w => ((), (List.range count).foldl (fun w i => slot upbuf i w) w)).bind fun _ =>
    (zfsFree upbuf size).bind fun _ => .pure 0

end TempEnv

end Pcbsd.Zfs
