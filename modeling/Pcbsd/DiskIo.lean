import Pcbsd.Bioscd

/-! Blocks of a BIOS disk, boot/i386/libi386/biosdisk.c: bd_io and the two ways to ask. The disk and memory are arrays
of bytes. -/

namespace Pcbsd.DiskIo
open Lib Memory Bioscd

def biosdiskSecsize : Nat := 512
def floppyBouncebuf : Nat := 18
def bdModeint13 : Nat := 0
def bdModeedd1 : Nat := 1

structure OpenDisk where
  unit : Nat
  hds : Nat
  sec : Nat
  flags : Nat

/-- bd_getgeom, from the carry flag and the registers that int 0x13 with 0x800 returns: cylinders, heads, sectors. -/
def bdGetgeom (unit : Nat) (cy : Bool) (ecx edx : Nat) : Option (Nat × Nat × Nat) :=
  if cy = true ∨ edx &&& 0xff ≤ unit &&& 0x7f then none
  else some (((ecx &&& 0xc0) <<< 2) + ((ecx &&& 0xff00) >>> 8) + 1, ((edx &&& 0xff00) >>> 8) + 1, ecx &&& 0x3f)

/-- The registers of a transfer, and for an extended one the packet. -/
inductive Request where
  | edd (eax edx : Nat) (packet : Packet)
  | chs (eax ecx edx addr : Nat)
  deriving DecidableEq

namespace Request

/-- Cylinder, head and sector as the BIOS reads them from the registers. -/
def cylinder : Request → Nat
  | edd _ _ _ => 0
  | chs _ ecx _ _ => ecx / 2 ^ 8 % 2 ^ 8 + ecx / 2 ^ 6 % 2 ^ 2 * 2 ^ 8

def head : Request → Nat
  | edd _ _ _ => 0
  | chs _ _ edx _ => edx / 2 ^ 8 % 2 ^ 8

def sector : Request → Nat
  | edd _ _ _ => 0
  | chs _ ecx _ _ => ecx % 2 ^ 6

/-- The first block that the BIOS of a disk of that geometry takes. -/
def block (od : OpenDisk) : Request → Nat
  | edd _ _ packet => packet.lba
  | q@(chs _ _ _ _) => (q.cylinder * od.hds + q.head) * od.sec + (q.sector - 1)

def count : Request → Nat
  | edd _ _ packet => packet.count
  | chs eax _ _ _ => eax % 2 ^ 8

def addr : Request → Nat
  | edd _ _ packet => packet.addr
  | chs _ _ _ addr => addr

def writes : Request → Bool
  | edd eax _ _ => eax / 2 ^ 8 % 2 ^ 8 = 0x43
  | chs eax _ _ _ => eax / 2 ^ 8 % 2 ^ 8 = 0x03

def unit : Request → Nat
  | edd _ edx _ => edx % 2 ^ 8
  | chs _ _ edx _ => edx % 2 ^ 8

end Request

/-- The BIOS: whether its n-th transfer works, and what one that fails leaves behind. -/
structure Bios where
  ok : Nat → Bool
  left : Nat → Bytes

/-- A transfer that bd_io asked for: the block it meant, the registers, and whether it worked. -/
structure Call where
  dblk : Nat
  request : Request
  ok : Bool
  deriving DecidableEq

/-- The `log` of the transfers is not kept by the code. -/
structure Run where
  mem : Mem
  disk : Mem
  calls : Nat
  log : List Call

/-- v86int with a transfer. The result is the carry flag. -/
def v86int (od : OpenDisk) (bios : Bios) (dblk : Nat) (q : Request) (r : Run) : Bool × Run :=
  let start := q.block od * biosdiskSecsize
  let size := q.count * biosdiskSecsize
  let junk := (bios.left r.calls).take size
  if bios.ok r.calls then
    if q.writes then (false, ⟨r.mem, write r.disk start (bytesAt r.mem q.addr size), r.calls + 1, r.log ++ [⟨dblk, q, true⟩]⟩)
    else (false, ⟨write r.mem q.addr (bytesAt r.disk start size), r.disk, r.calls + 1, r.log ++ [⟨dblk, q, true⟩]⟩)
  else if q.writes then (true, ⟨r.mem, write r.disk start junk, r.calls + 1, r.log ++ [⟨dblk, q, false⟩]⟩)
  else (true, ⟨write r.mem q.addr junk, r.disk, r.calls + 1, r.log ++ [⟨dblk, q, false⟩]⟩)

def bdEddIo (od : OpenDisk) (bios : Bios) (dblk blks dest : Nat) (write : Bool) (r : Run) : Bool × Run :=
  let packet : Packet := ⟨dblk % 2 ^ 64, blks % 2 ^ 16, segOff dest⟩
  v86int od bios dblk (.edd (if write then 0x4300 else 0x4200) od.unit packet) r

/-- `dblk` is cut to an unsigned int on its way to x. -/
def bdChsIo (od : OpenDisk) (bios : Bios) (dblk blks dest : Nat) (write : Bool) (r : Run) : Bool × Run :=
  let bpc := od.sec * od.hds
  let x := dblk % 2 ^ 32
  let cyl := x / bpc
  let x := x % bpc
  let hd := x / od.sec
  let sec := x % od.sec + 1
  if cyl > 1023 then (true, r)
  else
    let eax := if write then 0x300 ||| blks else 0x200 ||| blks
    let ecx := ((cyl &&& 0xff) <<< 8) ||| ((cyl &&& 0x300) >>> 2) ||| sec
    let edx := (hd <<< 8) ||| od.unit
    v86int od bios dblk (.chs eax ecx edx (segOff dest)) r

def bdOnce (od : OpenDisk) (bios : Bios) (dblk blks dest : Nat) (write : Bool) : Run → Bool × Run :=
  if od.flags &&& bdModeedd1 ≠ 0 then bdEddIo od bios dblk blks dest write else bdChsIo od bios dblk blks dest write

/-- The loop over the attempts, `retry` of them to go; the drive is reset between them. -/
def attempts (once : Run → Bool × Run) : (retry : Nat) → Run → Bool × Run
  | 0, r => (true, r)
  | retry + 1, r =>
    match once r with
    | (false, r) => (false, r)
    | (true, r) => attempts once retry r

def bcopy (src dst n : Nat) (r : Run) : Run := { r with mem := Memory.write r.mem dst (bytesAt r.mem src n) }

/-- The loop of bd_io, with `resid` blocks to go; each turn takes at least one. -/
@[grind =] def ioLoop (od : OpenDisk) (bios : Bios) (write : Bool) (breg : Option Nat) (maxfer : Nat) :
    (fuel resid dblk p : Nat) → Run → Int × Run
  | 0, _, _, _, r => (0, r)
  | fuel + 1, resid, dblk, p, r =>
    if resid = 0 then (0, r)
    else
      let sec := dblk % od.sec
      let x := min (od.sec - sec) resid
      let x := if 0 < maxfer then min x maxfer else x
      let xp := breg.getD p
      let r := match breg with
        | some breg => if write then bcopy p breg (x * biosdiskSecsize) r else r
        | none => r
      match attempts (bdOnce od bios dblk x xp write) 3 r with
      | (true, r) => (-1, r)
      | (false, r) =>
        let r := match breg with
          | some breg => if write then r else bcopy breg p (x * biosdiskSecsize) r
          | none => r
        ioLoop od bios write breg maxfer fuel (resid - x) (dblk + x) (p + x * biosdiskSecsize) r

/-- The destination is above 1 MB, or a diskette would cross 64 KB. -/
def Bounces (od : OpenDisk) (dest blks : Nat) : Prop :=
  dest / 2 ^ 20 ≠ 0 ∨ od.unit < 0x80 ∧ dest / 2 ^ 16 ≠ (dest + blks * biosdiskSecsize) / 2 ^ 16

instance (od : OpenDisk) (dest blks : Nat) : Decidable (Bounces od dest blks) := inferInstanceAs (Decidable (_ ∨ _))

/-- The half of the buffer at `bbuf` that is used for `x` blocks. -/
def bounceRegion (bbuf x : Nat) : Nat :=
  if bbuf / 2 ^ 16 = (bbuf + x * biosdiskSecsize) / 2 ^ 16 then bbuf else bbuf + x * biosdiskSecsize

/-- bd_io. `stack` is the address that alloca gives. -/
def bdIo (od : OpenDisk) (bios : Bios) (stack dblk : Nat) (blks : Int) (dest : Nat) (write : Bool)
    (r : Run) : Int × Run :=
  if blks < 0 then (-1, r)
  else
    let resid := blks.toNat
    if Bounces od dest resid then
      let x := min floppyBouncebuf resid
      ioLoop od bios write (some (bounceRegion stack x)) x resid resid dblk dest r
    else ioLoop od bios write none 0 resid resid dblk dest r

end Pcbsd.DiskIo
