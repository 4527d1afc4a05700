import Mathlib.Algebra.Order.Ring.Nat

/-! bios_getmem of boot/i386/libi386/biosmem.c and of boot/i386/zfsboot/zfsboot.c: the sizes of memory from what the
BIOS answers. The variables have 32 bits, base and length of an entry of the map 64. -/

namespace Pcbsd.Biosmem

def smapTypeMemory : Nat := 1
def mega : Nat := 0x100000
def heapMin : Nat := 3 * 1024 * 1024

structure Smap where
  base : Nat
  length : Nat
  type : Nat
  deriving DecidableEq

/-- What the BIOS answers: the entries up to the last or to an error, eax of int 0x12, ecx and edx of function 0xe801
if it works, and eax of function 0x88. -/
structure Answers where
  entries : List Smap
  int12 : Nat
  e801 : Option (Nat × Nat)
  ext88 : Nat

structure Vars where
  biosBasemem : Nat
  biosExtmem : Nat
  highHeapSize : Nat
  highHeapBase : Nat
  deriving DecidableEq

def AtMega (smap : Smap) : Prop := smap.type = smapTypeMemory ∧ smap.base = mega

def High (smap : Smap) : Prop := smap.type = smapTypeMemory ∧ mega < smap.base ∧ smap.base < 2 ^ 32

instance : DecidablePred AtMega := fun _ => inferInstanceAs (Decidable (_ ∧ _))

instance : DecidablePred High := fun _ => inferInstanceAs (Decidable (_ ∧ _))

def Smap.truncated (smap : Smap) : Nat :=
  if 2 ^ 32 < (smap.base + smap.length) % 2 ^ 64 then 2 ^ 32 - smap.base else smap.length

def lowEntry (v : Vars) (smap : Smap) : Vars :=
  if smap.type = smapTypeMemory ∧ smap.base = 0 ∧
    512 * 1024 ≤ smap.length then { v with biosBasemem := smap.length % 2 ^ 32 } else v

def extEntry (v : Vars) (smap : Smap) : Vars :=
  if AtMega smap then { v with biosExtmem := smap.length % 2 ^ 32 } else v

def highEntry (v : Vars) (smap : Smap) : Vars :=
  if High smap then
    if v.highHeapSize < smap.truncated then { v with highHeapSize := smap.truncated % 2 ^ 32, highHeapBase := smap.base % 2 ^ 32 } else v
  else v

def smapEntry (v : Vars) (smap : Smap) : Vars := highEntry (extEntry (lowEntry v smap) smap) smap

def e801Size (regs : Nat × Nat) : Nat := (regs.1 % 2 ^ 16 + regs.2 % 2 ^ 16 * 64) * 1024

def ext88Size (eax : Nat) : Nat := eax % 2 ^ 16 * 1024

def fallbacks (answers : Answers) (v : Vars) : Vars :=
  let v := if v.biosBasemem = 0 then { v with biosBasemem := answers.int12 % 2 ^ 16 * 1024 } else v
  let v := if v.biosExtmem = 0 then { v with biosExtmem := answers.e801.elim v.biosExtmem fun regs => e801Size regs % 2 ^ 32 } else v
  if v.biosExtmem = 0 then { v with biosExtmem := ext88Size answers.ext88 } else v

def sizes (answers : Answers) : Vars := fallbacks answers (answers.entries.foldl smapEntry ⟨0, 0, 0, 0⟩)

def memtopOf (v : Vars) : Nat := (mega + v.biosExtmem) % 2 ^ 32

/-- bios_getmem of libi386: memtop, which memtop_copyin starts as too, and the other variables. -/
def getmem (answers : Answers) : Nat × Vars :=
  let v := sizes answers
  let memtop := memtopOf v
  if heapMin ≤ v.biosExtmem ∧ v.highHeapSize < heapMin then
    (memtop, { v with highHeapSize := heapMin, highHeapBase := (memtop + 2 ^ 32 - heapMin) % 2 ^ 32 })
  else (memtop, v)

/-- bios_getmem of zfsboot, which has no memtop. -/
def zfsbootGetmem (answers : Answers) : Vars :=
  let v := sizes answers
  if heapMin ≤ v.biosExtmem ∧ v.highHeapSize < heapMin then
    { v with highHeapSize := heapMin, highHeapBase := (v.biosExtmem + mega + 2 ^ 32 - heapMin) % 2 ^ 32 }
  else v

end Pcbsd.Biosmem
