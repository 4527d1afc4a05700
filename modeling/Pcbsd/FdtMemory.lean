import Pcbsd.Lib.Bytes

/-! The memory node of the device tree, boot/fdt/fdt_loader_cmd.c: fdt_reg_valid and fixup_memory, on machines of
either byte order. -/

namespace Pcbsd.FdtMemory
open Lib

def einval : Nat := 22

def regCell (big : Bool) (reg : Bytes) (i : Nat) : Nat := ofNative big (slice (4 * i) 4 reg)

/-- cur_size of a tuple: an element of 32 bits is converted with fdt64_to_cpu or fdt32_to_cpu and kept in 32 bits. -/
def curSize (big : Bool) (reg : Bytes) (addrCells sizeCells i : Nat) : Nat :=
  if sizeCells = 2 then swapBe big 8 (regCell big reg (i * (addrCells + sizeCells) + 2)) % 2 ^ 32
  else swapBe big 4 (regCell big reg (i * (addrCells + sizeCells) + 1))

/-- fdt_reg_valid; the start of a tuple is only read for a message. -/
def fdtRegValid (big : Bool) (reg : Bytes) (addrCells sizeCells : Nat) : Nat :=
  let tuples := reg.length / ((addrCells + sizeCells) * 4)
  if tuples = 0 then einval
  else if (List.range tuples).any fun i => curSize big reg addrCells sizeCells i = 0 then einval
  else 0

structure MemRegion where
  start : Nat
  size : Nat
  deriving DecidableEq

/-- The memory regions of struct sys_info. There are UB_MAX_MR of them at most, and the length of the buffer is an int
by far. -/
structure SysInfo where
  mr : List MemRegion
  few : 16 * mr.length < 2 ^ 31

/-- What of the tree is read and written: two properties of the root, and the reg property of the node /memory, if
there is one. -/
structure Tree where
  addressCells : Option Nat
  sizeCells : Option Nat
  memory : Option (Option Bytes)

/-- Whether the calls of libfdt and of malloc succeed: to find the root, to add the node, to set device_type, to get
the buffer and to set reg. -/
structure Calls where
  root : Bool := true
  addSubnode : Bool := true
  deviceType : Bool := true
  malloc : Bool := true
  setReg : Bool := true

inductive FixupError where
  | noRoot
  | noMemoryNode
  | noCells (address size : Bool)
  | noRegions
  | notSet
  deriving DecidableEq

/-- A number as cpu_to_fdt64 or cpu_to_fdt32 and a store leave it. -/
def cellBytes (big : Bool) (cells v : Nat) : Bytes :=
  if cells = 2 then toNative big 8 (swapBe big 8 (v % 2 ^ 64)) else toNative big 4 (swapBe big 4 (v % 2 ^ 32))

/-- A store into the buffer; `none` when it goes beyond its end. -/
def store (pos : Nat) (new buf : Bytes) : Option Bytes :=
  if pos + new.length ≤ buf.length then some (put pos new buf) else none

def putRegion (big : Bool) (addrCells sizeCells : Nat) (s : Bytes × Nat) (curmr : MemRegion) : Option (Bytes × Nat) :=
  if curmr.size ≠ 0 then
    (store s.2 (cellBytes big addrCells curmr.start) s.1).bind fun buf =>
      (store (s.2 + 4 * addrCells) (cellBytes big sizeCells curmr.size) buf).map fun buf =>
        (buf, s.2 + 4 * addrCells + 4 * sizeCells)
  else some s

def realmrno (si : SysInfo) : Nat := si.mr.countP fun curmr => ¬ (curmr.start = 0 ∧ curmr.size = 0)

/-- The end of fixup_memory, from the buffer on. -/
def setRegions (big : Bool) (calls : Calls) (tree : Tree) (si : SysInfo) (addrCells sizeCells : Nat) :
    Option (Tree × Option FixupError) :=
  if calls.malloc then
    let buf := List.replicate ((addrCells + sizeCells) * realmrno si * 4) 0
    (si.mr.foldlM (putRegion big addrCells sizeCells) (buf, 0)).map fun s =>
      if calls.setReg then ({ tree with memory := some (some s.1) }, none) else (tree, some .notSet)
  else some (tree, none)

/-- fixup_memory from the properties of the root on, with the reg property of the node. -/
def fixupNode (big : Bool) (calls : Calls) (tree : Tree) (reg : Option Bytes) (si : SysInfo) :
    Option (Tree × Option FixupError) :=
  match tree.addressCells, tree.sizeCells with
  | some addrCells, some sizeCells =>
    if realmrno si = 0 then some (tree, some .noRegions)
    else if reg.any fun reg => fdtRegValid big reg addrCells sizeCells = 0 then some (tree, none)
    else setRegions big calls tree si addrCells sizeCells
  | addressCells, sizeCells => some (tree, some (.noCells addressCells.isNone sizeCells.isNone))

/-- fixup_memory: the tree and the message it leaves; `none` when it writes outside of its buffer. -/
def fixupMemory (big : Bool) (calls : Calls) (tree : Tree) (si : SysInfo) : Option (Tree × Option FixupError) :=
  if calls.root then
    match tree.memory with
    | some reg => fixupNode big calls tree reg si
    | none =>
      if calls.addSubnode then
        let tree := { tree with memory := some none }
        if calls.deviceType then fixupNode big calls tree none si else some (tree, none)
      else some (tree, some .noMemoryNode)
  else some (tree, some .noRoot)

end Pcbsd.FdtMemory
