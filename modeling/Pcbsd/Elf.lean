import Pcbsd.I386Copy
import Pcbsd.Lib.Records

/-! An ELF image brought into memory, boot/common/load_elf.c on i386, with kern_pread and kern_bzero of
boot/common/misc.c. What is printed, and the dynamic section that is only read, are left out. -/

namespace Pcbsd.Elf
open Lib Memory Records I386Copy

inductive ElfClass where
  | elf32
  | elf64
  deriving DecidableEq

def ElfClass.word : ElfClass → Nat
  | .elf32 => 4
  | .elf64 => 8

structure Ehdr where
  phoff : Nat
  phnum : Nat
  shoff : Nat
  shentsize : Nat
  shnum : Nat

structure Phdr where
  type : Nat
  offset : Nat
  vaddr : Nat
  filesz : Nat
  memsz : Nat

structure Shdr where
  type : Nat
  offset : Nat
  size : Nat
  link : Nat

def ptLoad : Nat := 1
def shtSymtab : Nat := 2
def pageSize : Nat := 4096

/-- Elf_Ehdr at the start of the first page. -/
def ehdrOf (cls : ElfClass) (page : Bytes) : Ehdr :=
  match cls with
  | .elf32 => ⟨le 4 28 page, le 2 44 page, le 4 32 page, le 2 46 page, le 2 48 page⟩
  | .elf64 => ⟨le 8 32 page, le 2 56 page, le 8 40 page, le 2 58 page, le 2 60 page⟩

def ElfClass.phdrSize : ElfClass → Nat
  | .elf32 => 32
  | .elf64 => 56

def phdrOf (cls : ElfClass) (page : Bytes) (place : Nat) : Phdr :=
  match cls with
  | .elf32 => ⟨le 4 place page, le 4 (place + 4) page, le 4 (place + 8) page, le 4 (place + 16) page, le 4 (place + 20) page⟩
  | .elf64 => ⟨le 4 place page, le 8 (place + 8) page, le 8 (place + 16) page, le 8 (place + 32) page, le 8 (place + 40) page⟩

def ElfClass.shdrSize : ElfClass → Nat
  | .elf32 => 40
  | .elf64 => 64

def shdrOf (cls : ElfClass) (table : Bytes) (place : Nat) : Shdr :=
  match cls with
  | .elf32 => ⟨le 4 (place + 4) table, le 4 (place + 16) table, le 4 (place + 20) table, le 4 (place + 24) table⟩
  | .elf64 => ⟨le 4 (place + 4) table, le 8 (place + 24) table, le 8 (place + 32) table, le 4 (place + 40) table⟩

/-- elf_file_t, as far as loadimage looks at it: the file, whether it can be positioned, and as much of its first page
as was read. -/
structure ElfFile where
  cls : ElfClass
  file : File
  seek : Nat → Bool
  kernel : Bool
  firstlen : Nat
  first : firstlen ≤ file.bytes.length

def ElfFile.firstpage (ef : ElfFile) : Bytes := ef.file.bytes.take ef.firstlen

def ElfFile.ehdr (ef : ElfFile) : Ehdr := ehdrOf ef.cls ef.firstpage

def ElfFile.phdrs (ef : ElfFile) : List Phdr :=
  (List.range ef.ehdr.phnum).map fun i => phdrOf ef.cls ef.firstpage (ef.ehdr.phoff + i * ef.cls.phdrSize)

/-- The kernel is not loaded where it is linked to run. -/
def ElfFile.off (ef : ElfFile) (off : Nat) : Nat :=
  if ef.kernel then (2 ^ 64 - (off &&&
    match ef.cls with | .elf32 => 0xff000000 | .elf64 => 0xffffffffff000000)) % 2 ^ 64 else off

/-- p_vaddr + off, in 64 bits. -/
def Phdr.addr (off : Nat) (phdr : Phdr) : Nat := (phdr.vaddr + off) % 2 ^ 64

section

variable (machine : Machine) (ef : ElfFile)

/-- The loop of kern_bzero, `resid` bytes from `dest` on. -/
def bzeroLoop : (fuel : Nat) → Mem → (dest resid : Nat) → Mem
  | 0, mem, _, _ => mem
  | fuel + 1, mem, dest, resid =>
    if resid = 0 then mem
    else
      let chunk := min 256 resid
      bzeroLoop fuel (copyin machine.memtop mem (List.replicate chunk 0) dest) (dest + chunk) (resid - chunk)

/-- kern_bzero; every pass takes at least one byte. -/
def kernBzero (mem : Mem) (dest len : Nat) : Mem := bzeroLoop machine len mem dest len

/-- kern_pread; `none` is -1. -/
def kernPread (mem : Mem) (dest len off : Nat) : Option Mem :=
  if ef.seek off then
    let (result, mem) := i386Readin machine ef.file mem off dest len
    if result = len then some mem else none
  else none

structure Segments where
  mem : Mem
  firstaddr : Nat
  lastaddr : Nat

/-- One turn of the loop over the program headers; `none` is a read that failed. -/
def loadSegment (off : Nat) (s : Segments) (phdr : Phdr) : Option Segments :=
  if phdr.type ≠ ptLoad then some s
  else
    let addr := phdr.addr off
    let fpcopy := if ef.firstlen > phdr.offset then ef.firstlen - phdr.offset else 0
    let mem := if ef.firstlen > phdr.offset then copyin machine.memtop s.mem (ef.firstpage.drop phdr.offset) addr else s.mem
    let read := if phdr.filesz > fpcopy then kernPread machine ef mem (addr + fpcopy) (phdr.filesz - fpcopy) (phdr.offset + fpcopy) else some mem
    read.map fun mem =>
      { mem := if phdr.filesz < phdr.memsz then kernBzero machine mem (addr + phdr.filesz) (phdr.memsz - phdr.filesz) else mem
        firstaddr := if s.firstaddr = 0 ∨ s.firstaddr > addr then addr else s.firstaddr
        lastaddr := if s.lastaddr = 0 ∨ s.lastaddr < addr + phdr.memsz then addr + phdr.memsz else s.lastaddr }

/-- A symbol table that lies in a segment is loaded with it, and forgotten here. -/
def clearLoaded (phdrs : List Phdr) (shdr : Shdr) : Shdr :=
  if shdr.type = shtSymtab ∧ phdrs.any (fun phdr =>
    phdr.type = ptLoad ∧ shdr.offset ≥ phdr.offset ∧ shdr.offset + shdr.size ≤ phdr.offset + phdr.filesz)
  then { shdr with offset := 0, size := 0 } else shdr

def symtabIndex (shdrs : List Shdr) : Option Nat :=
  shdrs.zipIdx.foldl (fun found (shdr, i) => if shdr.type ≠ shtSymtab ∨ shdr.offset = 0 ∨
    shdr.size = 0 then found else some i) none

/-- The section headers, with alloc_pread. -/
def ElfFile.shdrs (ef : ElfFile) : Option (List Shdr) :=
  let chunk := ef.ehdr.shnum * ef.ehdr.shentsize
  let (result, table) := ef.file.read ef.ehdr.shoff chunk
  if chunk = 0 ∨ ef.ehdr.shoff = 0 ∨ ef.seek ef.ehdr.shoff = false ∨ result ≠ chunk then none
  else some ((List.range ef.ehdr.shnum).map fun i => shdrOf ef.cls table (i * ef.cls.shdrSize))

/-- A section behind its size, at lastaddr; an error is a read that failed. -/
def loadSection (mem : Mem) (lastaddr : Nat) (shdr : Shdr) : Except Mem (Mem × Nat) :=
  let mem := copyin machine.memtop mem (toLe ef.cls.word shdr.size) lastaddr
  let lastaddr := lastaddr + ef.cls.word
  if ef.seek shdr.offset = false then .error mem
  else
    let (result, mem) := i386Readin machine ef.file mem shdr.offset lastaddr shdr.size
    if result ≠ shdr.size then .error mem else .ok (mem, roundup (lastaddr + shdr.size) ef.cls.word)

/-- The symbol table and then its string table, from lastaddr on; without an error, the end of the second. -/
def loadSymbols (mem : Mem) (lastaddr : Nat) : Mem × Option Nat :=
  match ef.shdrs with
  | none => (mem, none)
  | some shdrs =>
    let shdrs := shdrs.map (clearLoaded ef.phdrs)
    match (symtabIndex shdrs).bind (shdrs[·]?) with
    | none => (mem, none)
    | some symtab =>
      match shdrs[symtab.link]? with
      | none => (mem, none)
      | some symstr =>
        match (loadSection machine ef mem lastaddr symtab).bind fun (mem, lastaddr) => loadSection machine ef mem
          lastaddr symstr with
        | .error mem => (mem, none)
        | .ok (mem, esym) => (mem, some esym)

end

/-- An image in memory: what loadimage returns, f_addr, and the metadata ssym and esym if there are any. -/
structure Loaded where
  mem : Mem
  ret : Int
  addr : Nat
  syms : Option (Nat × Nat)

/-- loadimage, as far as it writes; `none` is the return of 0. -/
def loadimage (machine : Machine) (ef : ElfFile) (off : Nat) (mem : Mem) : Option Loaded :=
  if ef.ehdr.phoff + ef.ehdr.phnum * ef.cls.phdrSize > ef.firstlen then none
  else (ef.phdrs.foldlM (loadSegment machine ef (ef.off off)) ⟨mem, 0, 0⟩).map fun s =>
    let ssym := roundup s.lastaddr 4
    let (mem, esym) := loadSymbols machine ef s.mem ssym
    ⟨mem, (esym.getD ssym : Int) - s.firstaddr, s.firstaddr, esym.map fun esym => (ssym, esym)⟩

end Pcbsd.Elf
