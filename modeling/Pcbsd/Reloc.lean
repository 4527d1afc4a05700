import Pcbsd.Elf

/-! Relocation in the loader: reloc of boot/common/reloc_elf.c for i386 and amd64, reloc_ptr of load_elf.c, and
obj_reloc_ptr and obj_symaddr of load_elf_obj.c. A pointer is a number of the size of the machine's addresses, and
an access outside the data is none. -/

namespace Pcbsd.Reloc
open Lib Memory Elf

/-- The builds of reloc: for 32-bit images on i386, and for 64-bit images on i386 and amd64. -/
inductive Build where
  | i386
  | i386Elf64
  | amd64
  deriving DecidableEq

def Build.cls : Build → ElfClass
  | .i386 => .elf32
  | .i386Elf64 => .elf64
  | .amd64 => .elf64

def Build.word (build : Build) : Nat := build.cls.word

def Build.pointers : Build → Nat
  | .i386 => 2 ^ 32
  | .i386Elf64 => 2 ^ 32
  | .amd64 => 2 ^ 64

def Build.values (build : Build) : Nat := 256 ^ build.word

inductive RelType where
  | rel
  | rela
  | other
  deriving DecidableEq

structure Entry where
  offset : Nat
  info : Nat
  addend : Nat
  deriving DecidableEq

def Build.rtype (build : Build) (info : Nat) : Nat :=
  match build.cls with
  | .elf32 => info % 2 ^ 8
  | .elf64 => info % 2 ^ 32

def Build.symidx (build : Build) (info : Nat) : Nat :=
  match build.cls with
  | .elf32 => info / 2 ^ 8
  | .elf64 => info / 2 ^ 32

/-- R_386_32 and R_X86_64_64: S + A. -/
def rAbsolute : Nat := 1

/-- R_386_RELATIVE and R_X86_64_RELATIVE. -/
def rRelative : Nat := 8

def esrch : Nat := 3
def einval : Nat := 22
def eopnotsupp : Nat := 45
def eftype : Nat := 79

def readWord (build : Build) (i : Nat) (data : Bytes) : Option Nat :=
  if i + build.word ≤ data.length then some (le build.word i data) else none

def writeWord (build : Build) (i val : Nat) (data : Bytes) : Option Bytes :=
  if i + build.word ≤ data.length then some (put i (toLe build.word val) data) else none

/-- `(char *)data + relbase + r_offset - dataaddr`. -/
def place (build : Build) (e : Entry) (relbase dataaddr at_ : Nat) : Nat :=
  (at_ + relbase + e.offset + (build.values - dataaddr % build.values)) % build.pointers

/-- The value for `*where`, by the type of the relocation. The first component is the error. -/
def patched (build : Build) (symaddr : Nat → Nat) (e : Entry) (relbase addend : Nat) : Nat × Nat :=
  if build.rtype e.info = rAbsolute then
    let addr := symaddr (build.symidx e.info)
    if addr = 0 then (esrch, 0) else (0, (addr + addend) % build.values)
  else if build.rtype e.info = rRelative then (0, (addend + relbase) % build.values)
  else (eftype, 0)

/-- One relocation of the data at the address `at_`: the error, and the data behind it. -/
def reloc (build : Build) (symaddr : Nat → Nat) (reltype : RelType) (e : Entry) (relbase dataaddr at_ : Nat)
    (data : Bytes) : Option (Nat × Bytes) :=
  if reltype = .other then some (einval, data)
  else
    let where_ := place build e relbase dataaddr at_
    if where_ < at_ ∨ (at_ + data.length) % build.pointers ≤ where_ then some (0, data)
    else
      (if reltype = .rel then readWord build (where_ - at_) data else some e.addend).bind fun addend =>
        match patched build symaddr e relbase addend with
        | (0, val) => (writeWord build (where_ - at_) val data).map fun data => (0, data)
        | (error, _) => some (error, data)

def Build.entrySize (build : Build) (reltype : RelType) : Nat :=
  if reltype = .rela then 3 * build.word else 2 * build.word

def entryOf (build : Build) (reltype : RelType) (bs : Bytes) : Entry :=
  ⟨le build.word 0 bs, le build.word build.word bs, if reltype = .rela then le build.word (2 * build.word) bs else 0⟩

/-- The entries of a table at the address `table`, each by COPYOUT. -/
def entries (build : Build) (reltype : RelType) (mem : Mem) (table n : Nat) : List Entry :=
  (List.range n).map fun i =>
    entryOf build reltype (bytesAt mem ((table + i * build.entrySize reltype) % build.pointers) (build.entrySize reltype))

def relocAll (build : Build) (symaddr : Nat → Nat) (reltype : RelType) (relbase dataaddr at_ : Nat) :
    List Entry → Bytes → Option (Nat × Bytes)
  | [], data => some (0, data)
  | e :: rest, data =>
    (reloc build symaddr reltype e relbase dataaddr at_ data).bind fun (error, data) =>
      if error ≠ 0 then some (error, data) else relocAll build symaddr reltype relbase dataaddr at_ rest data

structure ElfFile where
  kernel : Bool
  off : Nat
  rel : Nat
  relsz : Nat
  rela : Nat
  relasz : Nat

def symaddr (_symidx : Nat) : Nat := 0

/-- reloc_ptr for the value of the address `p`, a copy of which is at `at_`. -/
def relocPtr (build : Build) (ef : ElfFile) (mem : Mem) (p at_ : Nat) (val : Bytes) : Option (Nat × Bytes) :=
  if ef.kernel then some (eopnotsupp, val)
  else
    let rels := entries build .rel mem ef.rel (ef.relsz / build.entrySize .rel)
    let relas := entries build .rela mem ef.rela (ef.relasz / build.entrySize .rela)
    (relocAll build symaddr .rel ef.off p at_ rels val).bind fun (error, val) =>
      if error ≠ 0 then some (error, val) else relocAll build symaddr .rela ef.off p at_ relas val

def shtRela : Nat := 4
def shtRel : Nat := 9

structure Shdr where
  type : Nat
  addr : Nat
  size : Nat
  info : Nat

structure ObjFile where
  shdrs : List Shdr
  symtabindex : Nat

/-- sizeof(Elf_Sym), and where st_value and st_shndx are in it. -/
def Build.symSize (build : Build) : Nat := match build.cls with | .elf32 => 16 | .elf64 => 24

def Build.symValue (build : Build) : Nat := match build.cls with | .elf32 => 4 | .elf64 => 8

def Build.symShndx (build : Build) : Nat := match build.cls with | .elf32 => 14 | .elf64 => 6

def intCount (n : Nat) : Nat := (Int.bmod n (2 ^ 32)).toNat

def objSymaddr (build : Build) (ef : ObjFile) (mem : Mem) (symidx : Nat) : Nat :=
  match ef.shdrs[ef.symtabindex]? with
  | none => 0
  | some symtab =>
    if (Int.bmod (symtab.size / build.symSize : Nat) (2 ^ 32) % build.values).toNat ≤ symidx then 0
    else
      let sym := bytesAt mem ((symtab.addr + symidx * build.symSize) % build.pointers) build.symSize
      let shndx := le 2 build.symShndx sym
      if shndx = 0 ∨ ef.shdrs.length ≤ shndx then 0
      else
        let base := (ef.shdrs[shndx]?.map Shdr.addr).getD 0
        if base = 0 then 0 else (base + le build.word build.symValue sym) % build.values

def Shdr.reltype (shdr : Shdr) : Option RelType :=
  if shdr.type = shtRela then some .rela else if shdr.type = shtRel then some .rel else none

/-- The loop of obj_reloc_ptr over the sections. A header behind the table is none. -/
def objRelocLoop (build : Build) (ef : ObjFile) (mem : Mem) (off at_ : Nat) : List Shdr → Bytes → Option (Nat × Bytes)
  | [], val => some (0, val)
  | shdr :: rest, val =>
    match shdr.reltype with
    | none => objRelocLoop build ef mem off at_ rest val
    | some reltype =>
      match ef.shdrs[shdr.info]? with
      | none => none
      | some target =>
        let base := target.addr
        if base = 0 ∨ shdr.addr = 0 then objRelocLoop build ef mem off at_ rest val
        else if off < base ∨ (base + target.size) % build.values < (off + val.length) % build.values then
          objRelocLoop build ef mem off at_ rest val
        else
          let table := entries build reltype mem shdr.addr (intCount (shdr.size / build.entrySize reltype))
          (relocAll build (objSymaddr build ef mem) reltype base off at_ table val).bind fun (error, val) =>
            if error ≠ 0 then some (error, val) else objRelocLoop build ef mem off at_ rest val

def objRelocPtr (build : Build) (ef : ObjFile) (mem : Mem) (p at_ : Nat) (val : Bytes) : Option (Nat × Bytes) :=
  objRelocLoop build ef mem p at_ ef.shdrs val

end Pcbsd.Reloc
