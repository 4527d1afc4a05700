import Pcbsd.Reloc

/-! Where loadimage of boot/common/load_elf.c looks in the first page of a file and in its section headers. Sums and
pointers wrap as on the machine; an access outside of the page or of the buffer with the headers is none. -/

namespace Pcbsd.ElfAccess
open Lib Elf Reloc

/-- A file with what its reads say: alloc_pread, the kern_pread for a program header, and the read of a symbol table. -/
structure Image where
  build : Build
  firstpage : Bytes
  small : firstpage.length ≤ pageSize
  allocPread : (off chunk : Nat) → Option Bytes
  whole : ∀ off chunk buf, allocPread off chunk = some buf → buf.length = chunk
  kernPread : Nat → Bool
  readSymbols : (off size : Nat) → Bool

variable (img : Image)

def Image.ehdr : Ehdr := ehdrOf img.build.cls img.firstpage

def Image.phdrSize : Nat := img.build.cls.phdrSize

/-- phdr[i], whose first member is the first one that is read. -/
def Image.phdr (i : Nat) : Option Phdr :=
  let place := (img.ehdr.phoff + i * img.phdrSize) % img.build.pointers
  if place + img.phdrSize ≤ img.firstpage.length then some (phdrOf img.build.cls img.firstpage place) else none

/-- arch_copyin of `len` bytes from `off` in the first page on. -/
def Image.copyin (off len : Nat) : Option Bytes :=
  if off + len ≤ img.firstpage.length then some (slice off len img.firstpage) else none

/-- The loop over the program headers from `i` on; false is `goto out`. -/
def segmentLoop : List Nat → Option Bool
  | [] => some true
  | i :: rest =>
    (img.phdr i).bind fun phdr =>
      if phdr.type ≠ ptLoad then segmentLoop rest
      else if phdr.offset < img.firstpage.length then
        let fpcopy := img.firstpage.length - phdr.offset
        (img.copyin phdr.offset fpcopy).bind fun _ =>
          if fpcopy < phdr.filesz ∧ img.kernPread i = false then some false else segmentLoop rest
      else if 0 < phdr.filesz ∧ img.kernPread i = false then some false
      else segmentLoop rest

/-- `e_shnum * e_shentsize`, an int, in a size_t. -/
def Image.chunk : Nat := (Int.bmod (img.ehdr.shnum * img.ehdr.shentsize : Nat) (2 ^ 32) % img.build.pointers).toNat

/-- A member of shdr[i] that is at `off` in it and has `len` bytes. -/
def Image.member (shdrs : Bytes) (i off len : Nat) : Option Nat :=
  let place := (i * img.build.cls.shdrSize + off) % img.build.pointers
  if place + len ≤ shdrs.length then some (le len place shdrs) else none

def offsetOff : ElfClass → Nat | .elf32 => 16 | .elf64 => 24
def sizeOff : ElfClass → Nat | .elf32 => 20 | .elf64 => 32
def linkOff : ElfClass → Nat | .elf32 => 24 | .elf64 => 40

def Image.shType (shdrs : Bytes) (i : Nat) : Option Nat := img.member shdrs i 4 4
def Image.shOffset (shdrs : Bytes) (i : Nat) : Option Nat := img.member shdrs i (offsetOff img.build.cls) img.build.word
def Image.shSize (shdrs : Bytes) (i : Nat) : Option Nat := img.member shdrs i (sizeOff img.build.cls) img.build.word
def Image.shLink (shdrs : Bytes) (i : Nat) : Option Nat := img.member shdrs i (linkOff img.build.cls) 4

/-- The loop over the segments for shdr[i]: whether the section is in one of them. Its offset and size are zero then. -/
def coveredLoop (shdrs : Bytes) (i : Nat) : List Phdr → Option Bool
  | [] => some false
  | phdr :: rest =>
    if phdr.type ≠ ptLoad then coveredLoop shdrs i rest
    else
      (img.shOffset shdrs i).bind fun off =>
        if off < phdr.offset then coveredLoop shdrs i rest
        else
          (img.shSize shdrs i).bind fun size =>
            if (off + size) % img.build.values ≤ (phdr.offset + phdr.filesz) % img.build.values then some true
            else coveredLoop shdrs i rest

/-- The loop over the section headers for shdr[i]: sh_link, if it is a symbol table that is still to be loaded. -/
def headerStep (shdrs : Bytes) (phdrs : List Phdr) (i : Nat) : Option (Option Nat) :=
  (img.shType shdrs i).bind fun type =>
    if type ≠ shtSymtab then some none
    else
      (coveredLoop img shdrs i phdrs).bind fun covered =>
        if covered then some none
        else
          (img.shOffset shdrs i).bind fun off =>
            if off = 0 then some none
            else
              (img.shSize shdrs i).bind fun size =>
                if size = 0 then some none else (img.shLink shdrs i).map some

def headerLoop (shdrs : Bytes) (phdrs : List Phdr) : List Nat → Option (Nat × Nat) → Option (Option (Nat × Nat))
  | [], found => some found
  | i :: rest, found =>
    (headerStep img shdrs phdrs i).bind fun link =>
      headerLoop shdrs phdrs rest ((link.map fun link => (i, link)).or found)

/-- The size and the offset of shdr[i], as the loop that loads the symbols reads them. -/
def Image.section_ (shdrs : Bytes) (i : Nat) : Option (Nat × Nat) :=
  (img.shSize shdrs i).bind fun size => (img.shOffset shdrs i).map fun off => (off, size)

/-- The symbol table and its strings. A negative symstrindex is none. -/
def symbolLoop (shdrs : Bytes) (symtab link : Nat) : Option Unit :=
  if 2 ^ 31 ≤ link then some ()
  else
    (img.section_ shdrs symtab).bind fun (off, size) =>
      if img.readSymbols off size then (img.section_ shdrs link).map fun _ => () else some ()

/-- The part of loadimage behind the segments, up to nosyms. -/
def symbols (phdrs : List Phdr) : Option Unit :=
  if img.chunk = 0 ∨ img.ehdr.shoff = 0 then some ()
  else
    match img.allocPread img.ehdr.shoff img.chunk with
    | none => some ()
    | some shdrs =>
      (headerLoop img shdrs phdrs (List.range img.ehdr.shnum) none).bind fun found =>
        match found with
        | none => some ()
        | some (symtab, link) => symbolLoop img shdrs symtab link

/-- loadimage, as far as it looks at the first page and at the section headers. -/
def loadimage : Option Unit :=
  if img.firstpage.length < (img.ehdr.phoff + img.ehdr.phnum * img.phdrSize) % img.build.values then some ()
  else
    (segmentLoop img (List.range img.ehdr.phnum)).bind fun loaded =>
      if loaded then ((List.range img.ehdr.phnum).mapM img.phdr).bind (symbols img) else some ()

end Pcbsd.ElfAccess
