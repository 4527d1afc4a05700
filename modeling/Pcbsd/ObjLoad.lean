import Pcbsd.Reloc

/-! obj_loadimage of boot/common/load_elf_obj.c: where the sections of a relocatable object go, and the loop that
reads them. None is a division by zero; the inner none is `goto out`. -/

namespace Pcbsd.ObjLoad
open Lib Memory Elf Reloc List

def shtProgbits : Nat := 1
def shtStrtab : Nat := 3
def shtNobits : Nat := 8

/-- The members of a section header that are used here, without sh_addr. -/
structure Section where
  type : Nat
  offset : Nat
  size : Nat
  link : Nat
  addralign : Nat
  deriving DecidableEq

/-- A file that obj_loadfile accepts, with its section headers, what is at an offset of it and obj_parse_modmetadata,
which takes memory and the values of sh_addr. -/
structure Object where
  build : Build
  shdrs : List Section
  shstrndx : Nat
  pread : (size offset : Nat) → Option Bytes
  whole : ∀ size offset bs, pread size offset = some bs → bs.length = size
  parseModmetadata : Mem → (Nat → Nat) → Nat

variable (obj : Object)

def Object.shnum : Nat := obj.shdrs.length

def Object.shdr (i : Nat) : Section := obj.shdrs.getD i ⟨0, 0, 0, 0, 0⟩

/-- sh_addr of each section, and lastaddr. -/
structure Layout where
  addr : Nat → Nat
  last : Nat

/-- roundup to sh_addralign, and the assignment to a vm_offset_t. -/
def Object.roundup (x y : Nat) : Option Nat :=
  if y = 0 then none else some ((x + (y - 1)) % obj.build.values / y * y % obj.build.pointers)

/-- `shdr[i].sh_addr = lastaddr; lastaddr += shdr[i].sh_size`. -/
def Object.reserve (i : Nat) (s : Layout) : Layout :=
  ⟨Function.update s.addr i s.last, (s.last + (obj.shdr i).size) % obj.build.pointers⟩

def Object.place (i : Nat) (s : Layout) : Option Layout :=
  (obj.roundup s.last (obj.shdr i).addralign).map fun last => obj.reserve i { s with last }

def Object.placeAll (p : Section → Bool) : List Nat → Layout → Option Layout
  | [], s => some s
  | i :: rest, s => if p (obj.shdr i) then (obj.place i s).bind (Object.placeAll p rest) else Object.placeAll p rest s

def Section.contents (shdr : Section) : Bool := shdr.size ≠ 0 ∧ (shdr.type = shtProgbits ∨ shdr.type = shtNobits)

def Section.relocations (shdr : Section) : Bool := shdr.type = shtRel ∨ shdr.type = shtRela

def Object.symbolLoop : List Nat → Nat × Nat → Layout → (Nat × Nat) × Layout
  | [], found, s => (found, s)
  | i :: rest, (nsym, symtabindex), s =>
    if (obj.shdr i).type = shtSymtab then Object.symbolLoop rest (nsym + 1, i) (obj.reserve i s)
    else Object.symbolLoop rest (nsym, symtabindex) s

def Object.noStrings (i : Nat) : Prop := 2 ^ 31 ≤ i ∨ obj.shnum ≤ i ∨ (obj.shdr i).type ≠ shtStrtab

instance (i : Nat) : Decidable (obj.noStrings i) := inferInstanceAs (Decidable (_ ∨ _))

def Object.layout (firstaddr : Nat) : Option (Option Layout) :=
  (obj.placeAll Section.contents (range obj.shnum) ⟨fun _ => 0, firstaddr⟩).bind fun s =>
    match obj.symbolLoop (range obj.shnum) (0, 0) s with
    | ((nsym, symtabindex), s) =>
      if nsym ≠ 1 then some none
      else
        (obj.place symtabindex s).bind fun s =>
          let symstrindex := (obj.shdr symtabindex).link
          if obj.noStrings symstrindex then some none
          else
            (obj.place symstrindex s).bind fun s =>
              if obj.shstrndx = 0 ∨ obj.noStrings obj.shstrndx then some none
              else
                (obj.place obj.shstrndx s).bind fun s =>
                  (obj.placeAll Section.relocations (range obj.shnum) s).map some

/-- The loop for the section with the smallest offset above that of lshdr. -/
def Object.nextLoop (addr : Nat → Nat) (lshdr : Option Nat) : List Nat → Option Nat → Option Nat
  | [], cshdr => cshdr
  | i :: rest, cshdr =>
    if addr i = 0 ∨ (obj.shdr i).type = shtNobits then Object.nextLoop addr lshdr rest cshdr
    else if lshdr.any fun l => (obj.shdr i).offset ≤ (obj.shdr l).offset then Object.nextLoop addr lshdr rest cshdr
    else if cshdr = lshdr ∨ cshdr.any fun c => (obj.shdr i).offset <
      (obj.shdr c).offset then Object.nextLoop addr lshdr rest (some i)
    else Object.nextLoop addr lshdr rest cshdr

/-- The loop that reads the sections, from cshdr on. The second none is a failed read; the first one, that it has not
ended after `fuel` rounds. -/
def Object.loadLoop (addr : Nat → Nat) : Nat → Option Nat → Mem → Option (Option Mem)
  | 0, _, _ => none
  | fuel + 1, lshdr, mem =>
    match obj.nextLoop addr lshdr (range obj.shnum) lshdr with
    | none => some (some mem)
    | some c =>
      if some c = lshdr then some (some mem)
      else
        match obj.pread ((obj.shdr c).size % obj.build.pointers) (obj.shdr c).offset with
        | none => some none
        | some bs => Object.loadLoop addr fuel (some c) (write mem (addr c) bs)

/-- Memory with sh_addr of each section, f_addr and f_size. -/
structure Image where
  mem : Mem
  addr : Nat → Nat
  faddr : Nat
  fsize : Nat

def Object.size (n : Nat) : Nat := (Int.bmod n (2 ^ 32) % obj.build.pointers).toNat

def Object.objLoadimage (off : Nat) (mem : Mem) : Option (Option Image) :=
  let firstaddr := off % obj.build.pointers
  (obj.layout firstaddr).bind fun layout =>
    match layout with
    | none => some none
    | some s =>
      let len := (s.last + (obj.build.pointers - firstaddr)) % obj.build.pointers
      (obj.loadLoop s.addr (obj.shnum + 1) none (write mem firstaddr (replicate len 0))).bind fun read =>
        match read with
        | none => some none
        | some mem =>
          if obj.parseModmetadata mem s.addr ≠ 0 then some none else some (some ⟨mem, s.addr, firstaddr, obj.size len⟩)

end Pcbsd.ObjLoad
