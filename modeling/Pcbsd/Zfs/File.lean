import Mathlib.Data.Int.ModEq
import Pcbsd.Zfs.Dnode

/-! zfs_read, zfs_seek and zfs_stat of boot/zfs/zfs.c, with zfs_dnode_stat of boot/zfs/zfsimpl.c. A size_t
has 32 or 64 bits, an off_t has 64 and a sign. -/

namespace Pcbsd.Zfs
open Lib

def toOff (x : Int) : Int := x.bmod (2 ^ 64)

def toSize (bits : Nat) (x : Int) : Nat := (x % 2 ^ bits).toNat

structure Stat where
  mode : Nat
  size : Int
  deriving DecidableEq

/-- The rest of a dnode_phys_t: what zfs_dnode_stat reads. `spill` is dn_spill, when the flags say there is one. -/
structure Bonus where
  sa : Bool
  len : Nat
  bytes : Bytes
  spill : Option Blkptr

/-- The layouts of a znode_phys_t and of the system attributes behind their header. -/
structure Layout where
  znode : Bytes → Stat
  sa : Bytes → Stat

structure File where
  seekp : Int
  dnode : Nat
  bonus : Bonus

inductive Whence where
  | seekSet
  | seekCur
  | seekEnd
  | other
  deriving DecidableEq

/-- What zfs_read returns, what it copies to the caller, its last argument, and what it leaves behind. -/
structure ReadReply (σ : Type) where
  rc : Int
  out : Bytes
  resid : Option Nat
  file : File
  cache : DnodeCache σ

def einval : Int := 22

namespace Env

variable {δ σ : Type} (env : Env δ σ) (layout : Layout)

def zfsDnodeStat (dn : Bonus) (w : σ) : Except Int Stat × σ :=
  if !dn.sa then (.ok (layout.znode dn.bytes), w)
  else if dn.len ≠ 0 then (.ok (layout.sa dn.bytes), w)
  else
    match dn.spill with
    | none => (.error eio, w)
    | some bp =>
      match env.zioRead bp (env.temp w) w with
      | (error, buf, w) => if error ≠ 0 then (.error error, w) else (.ok (layout.sa buf), w)

/-- `f_seekp + n > st_size`. The sum is an off_t, or unsigned where a size_t is as wide; an off_t that overflows
is taken to wrap around. -/
def pastEnd (bits : Nat) (seekp : Int) (n : Nat) (size : Int) : Bool :=
  if bits < 64 then size < toOff (seekp + n) else toSize 64 size < toSize 64 (seekp + n)

def readCount (bits : Nat) (seekp : Int) (size : Nat) (stSize : Int) : Nat :=
  if pastEnd bits seekp size stSize then toSize bits (stSize - seekp) else size

def zfsRead (bits : Nat) (fp : File) (st : DnodeCache σ) (size : Nat) : ReadReply σ :=
  match env.zfsDnodeStat layout fp.bonus st.world with
  | (.error rc, w) => ⟨rc, [], none, fp, { st with world := w }⟩
  | (.ok sb, w) =>
    let n := readCount bits fp.seekp size sb.size
    match env.dnodeRead { st with world := w } fp.dnode fp.seekp.toNat n with
    | (rc, out, st) =>
      if rc ≠ 0 then ⟨rc, out, none, fp, st⟩
      else ⟨0, out, some (toSize bits (size - n)), { fp with seekp := toOff (fp.seekp + n) }, st⟩

/-- The result of zfs_seek, errno where it is set, and what is left behind. -/
def zfsSeek (fp : File) (st : DnodeCache σ) (offset : Int) : Whence → Int × Option Int × File × DnodeCache σ
  | .seekSet => (offset, none, { fp with seekp := offset }, st)
  | .seekCur => (toOff (fp.seekp + offset), none, { fp with seekp := toOff (fp.seekp + offset) }, st)
  | .seekEnd =>
    match env.zfsDnodeStat layout fp.bonus st.world with
    | (.error error, w) => (-1, some error, fp, { st with world := w })
    | (.ok sb, w) => (toOff (sb.size - offset), none, { fp with seekp := toOff (sb.size - offset) }, { st with world := w })
  | .other => (-1, some einval, fp, st)

end Env

inductive FileOp where
  | seek (offset : Int) (whence : Whence)
  | read (size : Nat)

def Env.fileStep {δ σ : Type} (env : Env δ σ) (layout : Layout) (bits : Nat) (s : File × DnodeCache σ) :
    FileOp → File × DnodeCache σ
  | .seek offset whence => (env.zfsSeek layout s.1 s.2 offset whence).2.2
  | .read size =>
    let reply := env.zfsRead layout bits s.1 s.2 size
    (reply.file, reply.cache)

end Pcbsd.Zfs

/-! zfs_read of the boot block, boot/i386/zfsboot/zfsboot.c. It takes the bonus buffer of any dnode for a
znode_phys_t. A size_t has 32 bits. -/

namespace Pcbsd.Zfs
open Lib

/-- What zfs_read returns, what it copies to the caller, *offp, and what it leaves behind. -/
structure BootReply (σ : Type) where
  rc : Int
  out : Bytes
  offp : Int
  cache : DnodeCache σ

namespace Env

variable {δ σ : Type} (env : Env δ σ) (layout : Layout)

/-- zp->zp_size, a uint64_t. -/
def zpSize (dn : Bonus) : Nat := toSize 64 (layout.znode dn.bytes).size

/-- How much dnode_read is asked for. The off_t `*offp + n` is compared as an unsigned number. -/
def bootCount (zpSize : Nat) (offp : Int) (size : Nat) : Nat :=
  if zpSize < toSize 64 (offp + size) then toSize 32 (zpSize - offp) else size

/-- The dnode in memory at `dnode`, whose bonus buffer is `bonus`. -/
def bootRead (bonus : Bonus) (dnode : Nat) (st : DnodeCache σ) (offp : Int) (size : Nat) : BootReply σ :=
  let n := bootCount (zpSize layout bonus) offp size
  match env.dnodeRead st dnode offp.toNat n with
  | (rc, out, st) => if rc ≠ 0 then ⟨-1, out, offp, st⟩ else ⟨(n : Int).bmod (2 ^ 32), out, toOff (offp + n), st⟩

end Env

end Pcbsd.Zfs
