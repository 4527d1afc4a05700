import Pcbsd.Lib.Bytes

/-! Reading a block through its block pointer: the read methods of the vdevs and zio_read of
boot/zfs/zfsimpl.c. A buffer argument is the memory from the pointer on; every function returns
its code, that memory as it leaves it, and the outside world, on which the devices' answers may
depend. Checksums, decompression and raidz are not part of this repository. -/

namespace Pcbsd.Zfs
open Lib

def enoent : Int := 2

def eio : Int := 5

def spaMinblockshift : Nat := 9
def spaBlkptrshift : Nat := 7
def spaGangblocksize : Nat := 512
def spaGbhNblkptrs : Nat := 3
def vdevLabelStartSize : Nat := 0x400000
def zioChecksumGangHeader : Nat := 4
def zioCompressOff : Nat := 2

theorem eio_ne : eio ≠ 0 := by decide

inductive VdevState where
  | unknown
  | closed
  | offline
  | removed
  | cantOpen
  | faulted
  | degraded
  | healthy
  deriving DecidableEq

inductive VdevRead where
  | disk
  | mirror
  | raidz
  | replacing
  deriving DecidableEq

/-- A dva_t with its fields taken apart. `zero` says that both words are zero. -/
structure Dva where
  zero : Bool
  vdev : Nat
  offset : Nat
  gang : Bool
  deriving DecidableEq

structure Blkptr where
  dva : List Dva
  psize : Nat
  lsize : Nat
  compress : Nat
  checksum : Nat
  hole : Bool
  cksum : Bytes
  deriving DecidableEq

/-- A vdev as reads see it. `topAshift` is v_top->v_ashift and `phys` is v_phys_read with its
v_read_priv, or NULL. -/
inductive Vdev (δ : Type) where
  | mk (id : Nat) (state : VdevState) (read : VdevRead) (topAshift : Nat) (phys : Option δ)
      (children : List (Vdev δ))

namespace Vdev

variable {δ : Type}

def id : Vdev δ → Nat
  | mk id .. => id

def state : Vdev δ → VdevState
  | mk _ state .. => state

def read : Vdev δ → VdevRead
  | mk _ _ read .. => read

def topAshift : Vdev δ → Nat
  | mk _ _ _ ashift .. => ashift

end Vdev

abbrev Reply (σ : Type) := Int × Bytes × σ

/-- What lies outside: the devices, zfssubr.c, the layout of a blkptr_t, the stale contents of
the temporary buffer, and the stack, which bounds how deep gang blocks may nest. -/
structure Env (δ σ : Type) where
  physRead : δ → Nat → Nat → Bytes → σ → Reply σ
  raidzRead : Vdev δ → Blkptr → Bytes → Nat → Nat → σ → Reply σ
  checksumVerify : Blkptr → Bytes → Int
  decompressData : Nat → Bytes → Nat → Int × Bytes
  blkptr : Bytes → Blkptr
  temp : σ → Bytes
  depth : Nat
  vdevs : List (Vdev δ)

namespace Env

variable {δ σ : Type} (env : Env δ σ)

def vdevReadPhys (phys : Option δ) (bp : Blkptr) (buf : Bytes) (offset : Nat) (w : σ) : Reply σ :=
  match phys with
  | none => (eio, buf, w)
  | some dev =>
    let (rc, buf, w) := env.physRead dev offset bp.psize buf w
    if rc ≠ 0 then (rc, buf, w)
    else if env.checksumVerify bp (buf.take bp.psize) ≠ 0 then (eio, buf, w)
    else (0, buf, w)

mutual

@[grind =] def vdevRead (vdev : Vdev δ) (bp : Blkptr) (buf : Bytes) (offset bytes : Nat) (w : σ) : Reply σ :=
  match vdev with
  | .mk _ _ .disk _ phys _ => env.vdevReadPhys phys bp buf (offset + vdevLabelStartSize) w
  | .mk _ _ .mirror _ _ kids => vdevMirrorRead kids bp buf offset bytes w eio
  | .mk _ _ .replacing _ _ [] => (eio, buf, w)
  | .mk _ _ .replacing _ _ (kid :: _) =>
    if kid.state ≠ .healthy then (eio, buf, w) else vdevRead kid bp buf offset bytes w
  | .mk id state .raidz top phys kids => env.raidzRead (.mk id state .raidz top phys kids) bp buf offset bytes w

/-- The loop of vdev_mirror_read over the kids that are left. -/
def vdevMirrorRead (kids : List (Vdev δ)) (bp : Blkptr) (buf : Bytes) (offset bytes : Nat) (w : σ) (rc : Int) : Reply σ :=
  match kids with
  | [] => (rc, buf, w)
  | kid :: kids =>
    if kid.state ≠ .healthy then vdevMirrorRead kids bp buf offset bytes w rc
    else
      match vdevRead kid bp buf offset bytes w with
      | (rc, buf, w) => if rc = 0 then (0, buf, w) else vdevMirrorRead kids bp buf offset bytes w rc

end

def p2roundup (size align : Nat) : Nat := (size + align - 1) / align * align

def readSize (vdev : Vdev δ) (bp : Blkptr) : Nat :=
  let align := 2 ^ vdev.topAshift
  if vdev.read = .raidz ∧ bp.psize % align ≠ 0 then p2roundup bp.psize align else bp.psize

def readCopy (gang : Blkptr → Bytes → σ → Reply σ) (vdev : Vdev δ) (dva : Dva) (bp : Blkptr) (pbuf : Bytes) (w : σ) :
    Reply σ :=
  if dva.gang then gang bp pbuf w else env.vdevRead vdev bp pbuf dva.offset (readSize vdev bp) w

/-- One turn of the loop of zio_read, for a DVA whose vdev was found. A block that is compressed
or padded is read into temporary memory first. -/
def readDva (gang : Blkptr → Bytes → σ → Reply σ) (vdev : Vdev δ) (dva : Dva) (bp : Blkptr) (buf : Bytes) (w : σ) :
    Reply σ :=
  if readSize vdev bp ≠ bp.psize ∨ bp.compress ≠ zioCompressOff then
    match env.readCopy gang vdev dva bp (env.temp w) w with
    | (error, pbuf, w) =>
      if error ≠ 0 then (error, buf, w)
      else if bp.compress ≠ zioCompressOff then
        match env.decompressData bp.compress (pbuf.take bp.psize) bp.lsize with
        | (error, data) => (error, put 0 data buf, w)
      else (0, put 0 (pbuf.take bp.psize) buf, w)
  else env.readCopy gang vdev dva bp buf w

def zioReadLoop (gang : Blkptr → Bytes → σ → Reply σ) (bp : Blkptr) : List Dva → Int → Bytes → σ → Reply σ
  | [], error, buf, w => (error, buf, w)
  | dva :: dvas, error, buf, w =>
    if dva.zero then zioReadLoop gang bp dvas error buf w
    else
      match env.vdevs.find? (·.id = dva.vdev) with
      | none => zioReadLoop gang bp dvas error buf w
      | some vdev =>
        match env.readDva gang vdev dva bp buf w with
        | (error, buf, w) => if error = 0 then (0, buf, w) else zioReadLoop gang bp dvas error buf w

def gbhBp (bp : Blkptr) : Blkptr :=
  { bp with
    psize := spaGangblocksize
    lsize := spaGangblocksize
    checksum := zioChecksumGangHeader
    compress := zioCompressOff
    dva := bp.dva.map ({ · with gang := false }) }

/-- The loop of zio_read_gang over the block pointers of the header; `pos` is pbuf - buf. -/
def zioReadPieces (read : Blkptr → Bytes → σ → Reply σ) : List Blkptr → Nat → Bytes → σ → Reply σ
  | [], _, buf, w => (0, buf, w)
  | gbp :: gbps, pos, buf, w =>
    if gbp.hole then zioReadPieces read gbps pos buf w
    else
      match read gbp (buf.drop pos) w with
      | (rc, piece, w) =>
        let buf := buf.take pos ++ piece
        if rc ≠ 0 then (eio, buf, w) else zioReadPieces read gbps (pos + gbp.psize) buf w

def indbp (buf : Bytes) (i : Nat) : Blkptr :=
  env.blkptr (slice (i <<< spaBlkptrshift) (1 <<< spaBlkptrshift) buf)

theorem indbp_of_prefix {here buf : Bytes} {n i : Nat} (start : here <+: buf)
    (large : n <<< spaBlkptrshift ≤ here.length) (less : i < n) : env.indbp here i = env.indbp buf i := by
  simp only [spaBlkptrshift, Nat.shiftLeft_eq] at large
  have inside : i <<< spaBlkptrshift + 1 <<< spaBlkptrshift ≤ here.length := by
    simp only [spaBlkptrshift, Nat.shiftLeft_eq]
    omega
  rw [List.prefix_iff_eq_take] at start
  rw [Env.indbp, Env.indbp, start, slice_take buf inside]

def zioReadGang (read : Blkptr → Bytes → σ → Reply σ) (bp : Blkptr) (buf : Bytes) (w : σ) : Reply σ :=
  match read (gbhBp bp) (env.temp w) w with
  | (rc, gb, w) =>
    if rc ≠ 0 then (eio, buf, w)
    else
      match zioReadPieces read ((List.range spaGbhNblkptrs).map (env.indbp gb)) 0 buf w with
      | (rc, buf, w) =>
        if rc ≠ 0 then (eio, buf, w)
        else if env.checksumVerify bp (buf.take bp.psize) ≠ 0 then (eio, buf, w)
        else (0, buf, w)

/-- zio_read with room for `depth` nested calls on the stack. -/
def zioReadAt : Nat → Blkptr → Bytes → σ → Reply σ
  | 0, _, buf, w => (eio, buf, w)
  | depth + 1, bp, buf, w => env.zioReadLoop (env.zioReadGang (zioReadAt depth)) bp bp.dva eio buf w

def zioRead (bp : Blkptr) (buf : Bytes) (w : σ) : Reply σ := env.zioReadAt env.depth bp buf w

end Env

end Pcbsd.Zfs
