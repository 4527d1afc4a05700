import Pcbsd.Lib.Memory

/-! Reading a CD through the BIOS, boot/i386/libi386/bioscd.c, with physical memory. Addresses do not wrap around. -/

namespace Pcbsd.Bioscd
open Lib Memory

def bioscdSecsize : Nat := 2048
def cdBouncebuf : Nat := 8
def devBsize : Nat := 512

/-- The address that VTOPSEG and VTOPOFF of btxv86.h give, as the BIOS sees it. -/
def segOff (addr : Nat) : Nat := addr / 16 % 2 ^ 16 * 16 + addr % 16

theorem segOff_low {addr : Nat} (low : addr < 2 ^ 20) : segOff addr = addr := by
  rw [segOff, Nat.mod_eq_of_lt (by omega)]
  exact Nat.div_add_mod' addr 16

structure Packet where
  lba : Nat
  count : Nat
  addr : Nat
  deriving DecidableEq

/-- A drive behind int 0x13: its sectors, whether the n-th read works, and what a read that fails leaves in its
buffer. -/
structure Drive where
  sector : Nat → Bytes
  size : ∀ lba, (sector lba).length = bioscdSecsize
  ok : Nat → Bool
  left : Nat → Bytes

def Drive.sectors (cd : Drive) (lba count : Nat) : Bytes := (List.range count).flatMap fun i => cd.sector (lba + i)

/-- Memory, and the number of reads so far. `moved` is not kept by the code: the packets that were served. -/
structure Run where
  mem : Mem
  calls : Nat
  moved : List Packet

/-- v86int with a packet. The result is true without the carry flag. -/
def int13 (cd : Drive) (packet : Packet) (r : Run) : Bool × Run :=
  if cd.ok r.calls then
    (true, ⟨write r.mem packet.addr (cd.sectors packet.lba packet.count), r.calls + 1, r.moved ++ [packet]⟩)
  else (false, ⟨write r.mem packet.addr ((cd.left r.calls).take (packet.count * bioscdSecsize)), r.calls + 1, r.moved⟩)

/-- The loop over the attempts, `retry` of them to go; the drive is reset between them. -/
def attempts (cd : Drive) (packet : Packet) : (retry : Nat) → Run → Bool × Run
  | 0, r => (false, r)
  | retry + 1, r =>
    match int13 cd packet r with
    | (true, r) => (true, r)
    | (false, r) => attempts cd packet retry r

/-- The loop of bc_read, with `resid` sectors to go; each turn takes at least one. The result of the attempts is not
looked at. -/
def readLoop (cd : Drive) (bbuf : Option Nat) (maxfer : Nat) : (fuel resid dblk p : Nat) → Run → Run
  | 0, _, _, _, r => r
  | fuel + 1, resid, dblk, p, r =>
    if resid = 0 then r
    else
      let xp := bbuf.getD p
      let x := if 0 < maxfer then min resid maxfer else resid
      let (_, r) := attempts cd ⟨dblk % 2 ^ 64, x % 2 ^ 16, segOff xp⟩ 3 r
      let mem := match bbuf with
        | some bbuf => write r.mem p (bytesAt r.mem bbuf (x * bioscdSecsize))
        | none => r.mem
      readLoop cd bbuf maxfer fuel (resid - x) (dblk + x) (p + x * bioscdSecsize) { r with mem }

/-- bc_read of the drive `cd`. `stack` is the address that alloca gives. -/
def bcRead (cd : Drive) (stack : Nat) (dblk : Nat) (blks : Int) (dest : Nat) (r : Run) : Int × Run :=
  if blks < 0 then (-1, r)
  else if blks = 0 then (0, r)
  else if dest / 2 ^ 20 ≠ 0 then (0,
    readLoop cd (some stack) (min cdBouncebuf blks.toNat) blks.toNat blks.toNat dblk dest r)
  else (0, readLoop cd none 0 blks.toNat blks.toNat dblk dest r)

def bcUnit2bios (bcinfo : List Int) (unit : Int) : Int :=
  if 0 ≤ unit ∧ unit < bcinfo.length then bcinfo.getD unit.toNat 0 else -1

inductive Rw where
  | read
  | write
  deriving DecidableEq

inductive Errno where
  | einval
  | erofs
  | eio
  deriving DecidableEq

/-- bc_strategy: the error, *rsize where it is set, and what was done. -/
def bcStrategy (drives : Int → Drive) (bcinfo : List Int) (stack : Nat) (unit : Int) (rw : Rw)
    (dblk size buf : Nat) (r : Run) : Option Errno × Option Nat × Run :=
  if size % bioscdSecsize ≠ 0 then (some .einval, none, r)
  else if rw ≠ .read then (some .erofs, none, r)
  else if dblk % (bioscdSecsize / devBsize) ≠ 0 then (some .einval, none, r)
  else
    let blks := size / bioscdSecsize
    if blks = 0 then (none, some size, r)
    else
      match bcRead (drives (bcUnit2bios bcinfo unit)) stack (dblk / (bioscdSecsize / devBsize)) blks buf r with
      | (0, r) => (none, some size, r)
      | (_, r) => (some .eio, some 0, r)

end Pcbsd.Bioscd
