import Pcbsd.Lib.Memory

/-! Copies and reads into the memory of the machine, boot/i386/libi386/i386_copy.c. Addresses do not wrap
around. -/

namespace Pcbsd.I386Copy
open Lib Memory

/-- An open file: what read() returns at an offset and what it stores. A read that returns its length has stored that
many bytes of the file. -/
structure File where
  bytes : Bytes
  read : Nat → Nat → Int × Bytes
  whole : ∀ off len, (read off len).1 = len → (read off len).2 = slice off len bytes ∧ off + len ≤ bytes.length

/-- memtop_copyin is memtop, or lower where the heap is. -/
structure Machine where
  memtop : Nat
  memtopCopyin : Nat
  lower : memtopCopyin ≤ memtop

/-- i386_copyin; `none` is EFBIG. -/
def i386Copyin (memtop : Nat) (mem : Mem) (src : Bytes) (dest : Nat) : Option Mem :=
  if dest + src.length ≥ memtop then none else some (write mem dest src)

def copyin (memtop : Nat) (mem : Mem) (src : Bytes) (dest : Nat) : Mem := (i386Copyin memtop mem src dest).getD mem

/-- i386_readin, at an offset of the file. -/
def i386Readin (machine : Machine) (file : File) (mem : Mem) (off dest len : Nat) : Int × Mem :=
  if dest + len ≥ machine.memtopCopyin then (-1, mem) else ((file.read off len).1, write mem dest (file.read off len).2)

variable {memtop : Nat} {mem : Mem} {src : Bytes} {dest : Nat}

theorem copyin_fits (mem : Mem) (fits : dest + src.length < memtop) :
    copyin memtop mem src dest = write mem dest src := by
  rw [copyin, i386Copyin, if_neg (by omega), Option.getD_some]

theorem copyin_past (mem : Mem) (past : memtop ≤ dest + src.length) : copyin memtop mem src dest = mem := by
  rw [copyin, i386Copyin, if_pos past, Option.getD_none]

theorem copyin_outside {a : Nat} (outside : a < dest ∨ dest + src.length ≤ a) :
    copyin memtop mem src dest a = mem a := by
  by_cases fits : dest + src.length < memtop
  · rw [copyin_fits mem fits, write_outside outside]
  · rw [copyin_past mem (Nat.le_of_not_lt fits)]

theorem copyin_same (there : bytesAt mem dest src.length = src) : copyin memtop mem src dest = mem := by
  by_cases fits : dest + src.length < memtop
  · rw [copyin_fits mem fits, write_same there]
  · rw [copyin_past mem (Nat.le_of_not_lt fits)]

theorem i386Readin_whole {machine : Machine} {file : File} {off len : Nat}
    (result : (i386Readin machine file mem off dest len).1 = len) :
    (i386Readin machine file mem off dest len).2 = write mem dest (slice off len file.bytes) ∧
      dest + len < machine.memtop ∧ off + len ≤ file.bytes.length := by
  have lower := machine.lower
  rw [i386Readin] at result ⊢
  split at result
  next => cases result
  next fits =>
    obtain ⟨stored, inside⟩ := file.whole off len result
    rw [if_neg fits, stored]
    exact ⟨rfl, by omega, inside⟩

end Pcbsd.I386Copy
