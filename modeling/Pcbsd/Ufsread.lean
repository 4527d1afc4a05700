import Pcbsd.Lib.Bytes
import Pcbsd.Lib.Traced

/-! The UFS reader of the boot blocks, boot/common/ufsread.c in its variant for both file systems. The
layout of the structures on disk and the macros over them are those of ufs/ffs/fs.h, ufs/ufs/dinode.h
and ufs/ufs/dir.h. dskread belongs to the boot block that includes the file. -/

namespace Pcbsd.Ufsread
open Lib

def vblkshift : Nat := 12
def vblksize : Nat := 4096
def dbpervblk : Nat := 8
def devBshift : Nat := 9
def devBsize : Nat := 512
def sblocksize : Nat := 8192
def maxbsize : Nat := 65536
def sizeofFs : Nat := 1376
def ndaddr : Nat := 12
def rootino : Nat := 2
def maxnamlen : Nat := 255
def fsUfs1Magic : Nat := 0x011954
def fsUfs2Magic : Nat := 0x19540119

def sblockTry : List Nat := [65536, 8192, 0, 262144]

structure Fs where
  magic : Nat
  sblockloc : Nat
  bsize : Nat
  bshift : Nat
  qbmask : Nat
  qfmask : Nat
  fsbtodb : Nat
  fpg : Nat
  ipg : Nat
  iblkno : Nat
  inopb : Nat
  nindir : Nat
  oldCgoffset : Nat
  oldCgmask : Nat
  deriving DecidableEq

structure Dinode where
  size : Nat
  db : Nat → Nat
  ib : Nat

structure Layout where
  fs : Bytes → Fs
  dinode : Fs → Bytes → Dinode

/-- struct fs and the two dinodes as a compiler for i386 lays them out. -/
def onDisk : Layout where
  fs sb :=
    { magic := le 4 1372 sb, sblockloc := le 8 1000 sb, bsize := le 4 48 sb, bshift := le 4 80 sb
      qbmask := le 8 1336 sb, qfmask := le 8 1344 sb, fsbtodb := le 4 100 sb, fpg := le 4 188 sb
      ipg := le 4 184 sb, iblkno := le 4 16 sb, inopb := le 4 120 sb, nindir := le 4 116 sb
      oldCgoffset := le 4 24 sb, oldCgmask := le 4 28 sb }
  dinode fs dp :=
    if fs.magic = fsUfs1Magic then ⟨le 8 8 dp, fun lbn => le 4 (40 + 4 * lbn) dp, le 4 88 dp⟩
    else ⟨le 8 16 dp, fun lbn => le 8 (112 + 8 * lbn) dp, le 8 208 dp⟩

namespace Fs

def ufs1 (fs : Fs) : Bool := fs.magic == fsUfs1Magic

def dinodeSize (fs : Fs) : Nat := if fs.ufs1 then 128 else 256

def addrSize (fs : Fs) : Nat := if fs.ufs1 then 4 else 8

def toDb (fs : Fs) (b : Nat) : Nat := b <<< fs.fsbtodb

def cgstart (fs : Fs) (c : Nat) : Nat :=
  if fs.magic = fsUfs2Magic then fs.fpg * c else fs.fpg * c + fs.oldCgoffset * (c - (c &&& fs.oldCgmask))

def cgimin (fs : Fs) (c : Nat) : Nat := fs.cgstart c + fs.iblkno

def indirPerVblk (fs : Fs) : Nat := fs.nindir / (fs.bsize >>> vblkshift)

def iPerVblk (fs : Fs) : Nat := fs.inopb / (fs.bsize >>> vblkshift)

def inoToVba (fs : Fs) (n x : Nat) : Nat := fs.toDb (fs.cgimin (x / fs.ipg)) + (x % fs.ipg) / n * dbpervblk

def inoToVbo (n x : Nat) : Nat := x % n

def fragroundup (fs : Fs) (size : Nat) : Nat := (size + fs.qfmask) - ((size + fs.qfmask) &&& fs.qfmask)

def sblksize (fs : Fs) (size lbn : Nat) : Nat :=
  if ndaddr ≤ lbn ∨ (lbn + 1) <<< fs.bshift ≤ size then fs.bsize else fs.fragroundup (size &&& fs.qbmask)

def addrAt (fs : Fs) (buf : Bytes) (n : Nat) : Nat := le fs.addrSize (n * fs.addrSize) buf

/-- What makes a superblock one that fsread takes at a location. -/
def accepted (fs : Fs) (loc : Nat) : Bool :=
  (fs.magic == fsUfs1Magic || (fs.magic == fsUfs2Magic && fs.sblockloc == loc)) &&
    decide (fs.bsize ≤ maxbsize) && decide (sizeofFs ≤ fs.bsize)

end Fs

/-- dskread of the boot block, over its own state: whether it succeeds, and the buffer behind it, whatever
the outcome. It may look at dsk_meta. -/
structure Dev (S : Type) where
  dskread : (dskMeta : Bool) → S → (lba nblk : Nat) → Bytes → Bool × Bytes × S

/-- The static variables of ufsread.c and the buffers of dmadat. `spoiled` is not kept by the code and
nothing here reads it: a read has failed and has left something else in a buffer whose tag is not 0, and
which belongs to an inode. -/
structure Reader where
  dskMeta : Bool
  fsOff : Nat
  blkbuf : Bytes
  indbuf : Bytes
  sbbuf : Bytes
  inomap : Nat
  blkmap : Nat
  indmap : Nat
  dp : Dinode
  spoiled : Bool

variable {S : Type} (layout : Layout) (dev : Dev S)

def trySuper : List Nat → Reader → S → Option Fs × Reader × S
  | [], r, s => (none, r, s)
  | loc :: rest, r, s =>
    match dev.dskread r.dskMeta s (loc / devBsize) (sblocksize / devBsize) r.sbbuf with
    | (false, sbbuf, s) => (none, { r with sbbuf }, s)
    | (true, sbbuf, s) =>
      if (layout.fs sbbuf).accepted loc then (some (layout.fs sbbuf), { r with sbbuf, dskMeta := true }, s)
      else trySuper rest { r with sbbuf } s

def readSuper (r : Reader) (s : S) : Option Fs × Reader × S :=
  if r.dskMeta then (some (layout.fs r.sbbuf), r, s) else trySuper layout dev sblockTry { r with inomap := 0 } s

/-- The dinode is read, unless it is that of the last call. The flag is true on success. -/
def readInode (fs : Fs) (inode : Nat) (r : Reader) (s : S) : Bool × Reader × S :=
  if r.inomap = inode then (true, r, s)
  else
    let n := fs.iPerVblk
    match dev.dskread r.dskMeta s (fs.inoToVba n inode) dbpervblk r.blkbuf with
    | (false, blkbuf, s) =>
      (false, { r with blkbuf, spoiled := r.spoiled || (r.inomap != 0 && r.blkmap != 0 && blkbuf != r.blkbuf) }, s)
    | (true, blkbuf, s) =>
      let dp := layout.dinode fs (slice (Fs.inoToVbo n inode * fs.dinodeSize) fs.dinodeSize blkbuf)
      (true, { r with blkbuf, dp, inomap := inode, fsOff := 0, blkmap := 0, indmap := 0 }, s)

def readIndirect (vbaddr : Nat) (r : Reader) (s : S) : Bool × Reader × S :=
  if r.indmap = vbaddr then (true, r, s)
  else
    match dev.dskread r.dskMeta s vbaddr dbpervblk r.indbuf with
    | (false, indbuf, s) => (false, { r with indbuf, spoiled := r.spoiled || (r.indmap != 0 && indbuf != r.indbuf) }, s)
    | (true, indbuf, s) => (true, { r with indbuf, indmap := vbaddr }, s)

def blockAddr (fs : Fs) (lbn : Nat) (r : Reader) (s : S) : Option Nat × Reader × S :=
  if lbn < ndaddr then (some (r.dp.db lbn), r, s)
  else if lbn < ndaddr + fs.nindir then
    let n := fs.indirPerVblk
    match readIndirect dev (fs.toDb r.dp.ib + (lbn - ndaddr) / n * dbpervblk) r s with
    | (false, r, s) => (none, r, s)
    | (true, r, s) => (some (fs.addrAt r.indbuf ((lbn - ndaddr) &&& (n - 1))), r, s)
  else (none, r, s)

def readBlock (vbaddr nblk : Nat) (r : Reader) (s : S) : Bool × Reader × S :=
  if r.blkmap = vbaddr then (true, r, s)
  else
    match dev.dskread r.dskMeta s vbaddr nblk r.blkbuf with
    | (false, blkbuf, s) => (false, { r with blkbuf, spoiled := r.spoiled || (r.blkmap != 0 && blkbuf != r.blkbuf) }, s)
    | (true, blkbuf, s) => (true, { r with blkbuf, blkmap := vbaddr }, s)

/-- One turn of the loop of fsread: the bytes that it copies, or none on an error. Sizes are 32 bits. -/
def turn (fs : Fs) (size nb : Nat) (r : Reader) (s : S) : Option Bytes × Reader × S :=
  let lbn := r.fsOff >>> fs.bshift
  let off := r.fsOff &&& fs.qbmask
  match blockAddr dev fs lbn r s with
  | (none, r, s) => (none, r, s)
  | (some addr, r, s) =>
    let vbaddr := fs.toDb addr + off / vblksize * dbpervblk
    let vboff := off % vblksize
    let n := min ((fs.sblksize size lbn + 2 ^ 32 - off / vblksize * vblksize) % 2 ^ 32) vblksize
    match readBlock dev vbaddr (n >>> devBshift) r s with
    | (false, r, s) => (none, r, s)
    | (true, r, s) =>
      let n := min ((n + 2 ^ 32 - vboff) % 2 ^ 32) nb
      (some (slice vboff n r.blkbuf), { r with fsOff := (r.fsOff + n) % 2 ^ 32 }, s)

/-- The result of fsread: a count with the bytes delivered, -1, or a loop in which no turn copies
anything. -/
inductive Result where
  | count (n : Nat) (bytes : Bytes)
  | failed
  | spinning
  deriving DecidableEq

/-- The loop of fsread with `nb` bytes to go and `out` copied so far; `fuel` turns that copy something
serve `fuel` bytes. -/
@[grind =] def copyLoop (fs : Fs) (size : Nat) : (fuel nb : Nat) → Bytes → Reader → S → Result × Reader × S
  | 0, nb, out, r, s => (if nb = 0 then .count out.length out else .spinning, r, s)
  | fuel + 1, nb, out, r, s =>
    if nb = 0 then (.count out.length out, r, s)
    else
      match turn dev fs size nb r s with
      | (none, r, s) => (.failed, r, s)
      | (some bytes, r, s) => copyLoop fs size fuel (nb - bytes.length) (out ++ bytes) r s

def fsread (inode nbyte : Nat) (r : Reader) (s : S) : Result × Reader × S :=
  match readSuper layout dev r s with
  | (none, r, s) => (.failed, r, s)
  | (some fs, r, s) =>
    if inode = 0 then (.count 0 [], r, s)
    else
      match readInode layout dev fs inode r s with
      | (false, r, s) => (.failed, r, s)
      | (true, r, s) =>
        let size := r.dp.size % 2 ^ 32
        let nbyte := min nbyte ((size + 2 ^ 32 - r.fsOff) % 2 ^ 32)
        copyLoop dev fs size nbyte nbyte [] r s

/-- What a boot block does with the reader: it sets fs_off, and calls fsread with a view to what comes
back. -/
inductive Client where
  | done
  | seek (off : Nat) (next : Client)
  | fsread (inode nbyte : Nat) (next : Result → Client)

structure Call where
  before : Reader
  inode : Nat
  nbyte : Nat
  result : Result
  after : Reader

def run : Client → Reader → S → List Call
  | .done, _, _ => []
  | .seek off next, r, s => run next { r with fsOff := off % 2 ^ 32 } s
  | .fsread inode nbyte next, r, s =>
    match fsread layout dev inode nbyte r s with
    | (result, after, s) => ⟨r, inode, nbyte, result, after⟩ :: run (next result) after s

def exec : Client → Reader → S → Reader × S
  | .done, r, s => (r, s)
  | .seek off next, r, s => exec next { r with fsOff := off % 2 ^ 32 } s
  | .fsread inode nbyte next, r, s =>
    match fsread layout dev inode nbyte r s with
    | (result, r, s) => exec (next result) r s

def dtDir : Nat := 4
def dtReg : Nat := 8

/-- The loop of fsfind over the entries in a buffer, from position `p` on: d_ino and d_type of the entry
with the name. With `ls` nothing is compared. The result is none when the loop stays at an entry with
d_reclen 0. -/
def scanDir (ls : Bool) (name buf : Bytes) : (fuel p : Nat) → Option (Option (Nat × Nat))
  | 0, p => if devBsize ≤ p then some none else none
  | fuel + 1, p =>
    if devBsize ≤ p then some none
    else if !ls && (buf.drop (p + 8)).takeWhile (· != 0) == name then some (some (le 4 p buf, le 1 (p + 6) buf))
    else scanDir ls name buf fuel (p + le 2 (p + 4) buf)

/-- The loop of fsfind, over at most `fuel` pieces of the directory; `buf` is static. -/
@[grind =] def fsfindLoop (ls : Bool) (name : Bytes) (ino : Nat) : (fuel : Nat) → Bytes → (Nat → Nat → Bytes → Client) → Client
  | 0, _, _ => .done
  | fuel + 1, buf, k =>
    .fsread ino devBsize fun result =>
      match result with
      | .count (_ + 1) bytes =>
        let buf := put 0 bytes buf
        match scanDir ls name buf devBsize 0 with
        | none => .done
        | some (some (found, type)) => k found type buf
        | some none => fsfindLoop ls name ino fuel buf k
      | _ => k ino 0 buf

def fsfind (fuel : Nat) (ls : Bool) (name : Bytes) (ino : Nat) (buf : Bytes) (k : Nat → Nat → Bytes → Client) : Client :=
  .seek 0 (fsfindLoop ls name ino fuel buf k)

/-- lookup, over at most `depth` components; the continuation gets the inode, or 0. -/
def lookup (fuel : Nat) (k : Nat → Bytes → Client) : (depth : Nat) → (path : Bytes) → (ino dt : Nat) → Bytes → Client
  | 0, _, _, _, _ => .done
  | depth + 1, path, ino, dt, buf =>
    let path := if path.head? = some 0x2f then path.tail else path
    if path = [] then k (if dt = dtReg then ino else 0) buf
    else
      let name := path.takeWhile (· != 0x2f)
      if maxnamlen < name.length ∨ dt ≠ dtDir then k 0 buf
      else
        fsfind fuel (path == [0x3f]) name ino buf fun ino dt buf =>
          if dt = 0 then k 0 buf else lookup fuel k depth (path.drop name.length) ino dt buf

end Pcbsd.Ufsread

/-! fsfind of boot/common/ufsread.c with the bytes it reads. Its buffer is at the addresses below 512 and anything may
lie behind it. -/

namespace Pcbsd.Ufsread
open Lib

abbrev Memory := Nat → UInt8

/-- strcmp of boot/common/util.c: the name against the string at `a`. -/
def tracedStrcmp (mem : Memory) : (name : Bytes) → (a : Nat) → Traced Nat Bool
  | [], a => do
    Traced.tell [a]
    return mem a == 0
  | c :: name, a => do
    Traced.tell [a]
    if mem a = c then tracedStrcmp mem name (a + 1) else return false

/-- printf of the string at `a`, for as many bytes as the buffer has at most. -/
def tracedPrint (mem : Memory) : (fuel a : Nat) → Traced Nat Unit
  | 0, _ => return ()
  | fuel + 1, a => do
    Traced.tell [a]
    if mem a = 0 then return () else tracedPrint mem fuel (a + 1)

inductive Scanned where
  | found (ino type : Nat)
  | passed
  | running
  deriving DecidableEq

def reclen (mem : Memory) (p : Nat) : Nat := leNat [mem (p + 4), mem (p + 5)]

def tracedEntry (mem : Memory) (ls : Bool) (name : Bytes) (p : Nat) : Traced Nat Bool :=
  if ls then do
    tracedPrint mem devBsize (p + 8)
    return false
  else tracedStrcmp mem name (p + 8)

/-- The loop of fsfind over a buffer, from position `p` on. -/
def tracedScan (mem : Memory) (ls : Bool) (name : Bytes) : (fuel p : Nat) → Traced Nat Scanned
  | 0, p => return if devBsize ≤ p then .passed else .running
  | fuel + 1, p =>
    if devBsize ≤ p then return .passed
    else do
      if ← tracedEntry mem ls name p then
        Traced.tell [p, p + 1, p + 2, p + 3, p + 6]
        return .found (leNat [mem p, mem (p + 1), mem (p + 2), mem (p + 3)]) (mem (p + 6)).toNat
      else
        Traced.tell [p + 4, p + 5]
        tracedScan mem ls name fuel (p + reclen mem p)

def memory (buf : Bytes) (behind : Memory) : Memory := fun a => if a < devBsize then buf.getD a 0 else behind a

/-- fsfind for the pieces of the directory that fsread delivers one after the other; `buf` is static. -/
def tracedFsfind (behind : Memory) (ls : Bool) (name : Bytes) (fuel : Nat) : (pieces : List Bytes) → (buf : Bytes) →
    Traced Nat Scanned
  | [], _ => return .passed
  | piece :: pieces, buf => do
    match ← tracedScan (memory (put 0 piece buf) behind) ls name fuel 0 with
    | .passed => tracedFsfind behind ls name fuel pieces (put 0 piece buf)
    | scanned => return scanned

end Pcbsd.Ufsread
