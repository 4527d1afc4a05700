import Pcbsd.Lib.Memory

/-! load of the boot blocks boot/i386/gptboot/gptboot.c, boot/i386/boot2/boot2.c and boot/i386/zfsboot/zfsboot.c, from
the first read of the file on. Headers are laid out as in sys/elf32.h and sys/imgact_aout.h. The variables of the boot
block are apart from the memory that it loads into. -/

namespace Pcbsd.KernelLoad
open Lib Memory

inductive Loader where
  | gptboot
  | boot2
  | zfsboot
  deriving DecidableEq

/-- fs_off has 32 bits, off_t has 64. -/
def Loader.offMod : Loader → Nat
  | .zfsboot => 2 ^ 64
  | _ => 2 ^ 32

def Loader.aoutSymbols : Loader → Bool
  | .boot2 => false
  | _ => true

/-- A file: what xfsread of `n` bytes at an offset says, and the bytes that come into the buffer. -/
structure Source where
  xfsread : (off n : Nat) → Bool × Bytes
  short : ∀ off n, (xfsread off n).2.length ≤ n
  whole : ∀ off n, (xfsread off n).1 = true → (xfsread off n).2.length = n

def Source.get (file : Source) (off n : Nat) : Option Bytes :=
  if (file.xfsread off n).1 then some (file.xfsread off n).2 else none

def zmagic : Nat := 0x10b
def pageSize : Nat := 4096
def ptLoad : Nat := 1

/-- roundup2 to PAGE_SIZE, in 32 bits. -/
def roundup2 (x : Nat) : Nat := (x + (pageSize - 1)) % 2 ^ 32 / pageSize * pageSize

def ahead (p n : Nat) : Nat := (p + n) % 2 ^ 32

section

variable (hdr : Bytes)

def isElf : Bool := slice 0 4 hdr == [0x7f, 0x45, 0x4c, 0x46]

def eEntry : Nat := le 4 24 hdr
def ePhoff : Nat := le 4 28 hdr
def eShoff : Nat := le 4 32 hdr
def ePhnum : Nat := le 2 44 hdr
def eShnum : Nat := le 2 48 hdr
def eShstrndx : Nat := le 2 50 hdr

end

def sizeofHdr : Nat := 52
def sizeofPhdr : Nat := 32
def sizeofShdr : Nat := 40

structure Phdr where
  type : Nat
  offset : Nat
  paddr : Nat
  filesz : Nat
  memsz : Nat
  deriving DecidableEq

def phdrOf (bytes : Bytes) : Phdr := ⟨le 4 0 bytes, le 4 4 bytes, le 4 12 bytes, le 4 16 bytes, le 4 20 bytes⟩

def Phdr.place (ph : Phdr) : Nat := ph.paddr &&& 0xffffff

def Phdr.stop (ph : Phdr) : Nat := ahead ph.place (roundup2 ph.memsz)

structure Shdr where
  offset : Nat
  size : Nat

def shdrOf (es : Bytes) (i : Nat) : Shdr := ⟨le 4 (sizeofShdr * i + 16) es, le 4 (sizeofShdr * i + 20) es⟩

structure Ep where
  first : Bytes
  second : Bytes

def Ep.fill (ep : Ep) (j : Nat) (bytes : Bytes) : Ep :=
  if j = 0 then { ep with first := put 0 bytes ep.first } else { ep with second := put 0 bytes ep.second }

def Ep.zero : Ep := ⟨List.replicate sizeofPhdr 0, List.replicate sizeofPhdr 0⟩

abbrev Store := Nat × Bytes

def stored (mem : Mem) (stores : List Store) : Mem := stores.foldl (fun mem store => write mem store.1 store.2) mem

/-- What __exec gets of a kernel: the entry, bi_symtab and bi_esymtab if load has set them, and what was stored
before. -/
structure Exec where
  addr : Nat
  symbols : Option (Nat × Nat)
  stores : List Store

variable (loader : Loader) (file : Source)

def Loader.past (off n : Nat) : Nat := (off + n) % loader.offMod

/-- The symbols of an a.out file behind its segments: their size, the table, and the strings with their size at the
start. -/
def loadAoutSymbols (syms off p : Nat) : Option (List Store × Nat) :=
  let size : Store := (p, toLe 4 syms)
  let p := ahead p 4
  if syms = 0 then some ([size], p)
  else do
    let table ← file.get off syms
    let len ← file.get (loader.past off syms) 4
    let x := (leNat len + 2 ^ 32 - 4) % 2 ^ 32
    let strings ← file.get (loader.past (loader.past off syms) 4) x
    let behind := ahead p syms
    return ([size, (p, table), (behind, len), (ahead behind 4, strings)], ahead (ahead behind 4) x)

def loadAout (hdr : Bytes) : Option Exec := do
  let aText := le 4 4 hdr
  let aData := le 4 8 hdr
  let addr := le 4 20 hdr &&& 0xffffff
  let off := loader.past pageSize aText
  let text ← file.get pageSize aText
  let data ← file.get off aData
  let p := ahead addr (roundup2 aText)
  let segments : List Store := [(addr, text), (p, data)]
  if loader.aoutSymbols then do
    let symtab := ahead p (aData + roundup2 (le 4 12 hdr))
    let (stores, esymtab) ← loadAoutSymbols loader file (le 4 16 hdr) (loader.past off aData) symtab
    return ⟨addr, some (symtab, esymtab), segments ++ stores⟩
  else return ⟨addr, none, segments⟩

/-- The loop over the program headers, with `left` of them to go: whether the reads succeed, and ep. -/
def readPhdrs : (left j off : Nat) → Ep → Bool × Ep
  | 0, _, _, ep => (true, ep)
  | left + 1, j, off, ep =>
    if 2 ≤ j then (true, ep)
    else
      let (ok, bytes) := file.xfsread off sizeofPhdr
      if ok then
        readPhdrs left (if (phdrOf bytes).type = ptLoad then j + 1 else j) (loader.past off sizeofPhdr) (ep.fill j bytes)
      else (false, ep.fill j bytes)

def loadSegment (ph : Phdr) : Option Store := (file.get ph.offset ph.filesz).map fun bytes => (ph.place, bytes)

def loadSection (shdr : Shdr) (p : Nat) : Option (List Store × Nat) :=
  (file.get shdr.offset shdr.size).map fun bytes =>
    ([(p, toLe 4 shdr.size), (ahead p 4, bytes)], ahead (ahead p 4) shdr.size)

def loadSections (hdr : Bytes) (p : Nat) : Option (List Store × Nat) :=
  if eShnum hdr = eShstrndx hdr + 3 then do
    let es ← file.get ((eShoff hdr + sizeofShdr * (eShstrndx hdr + 1)) % 2 ^ 32) (2 * sizeofShdr)
    let (first, p) ← loadSection file (shdrOf es 0) p
    let (second, p) ← loadSection file (shdrOf es 1) p
    return (first ++ second, p)
  else return ([], p)

def loadElf (hdr : Bytes) (ep : Ep) : Option Exec := do
  let first ← loadSegment file (phdrOf ep.first)
  let second ← loadSegment file (phdrOf ep.second)
  let symtab := (phdrOf ep.second).stop
  let (stores, esymtab) ← loadSections file hdr symtab
  return ⟨eEntry hdr &&& 0xffffff, some (symtab, esymtab), first :: second :: stores⟩

/-- load, for a kname that is found; without a kernel to execute it returns. -/
def load (ep : Ep) : Option Exec × Ep :=
  match file.get 0 sizeofHdr with
  | none => (none, ep)
  | some hdr =>
    if le 2 0 hdr = zmagic then (loadAout loader file hdr, ep)
    else if isElf hdr then
      let (ok, ep) := readPhdrs loader file (ePhnum hdr) 0 (ePhoff hdr) ep
      (if ok then loadElf file hdr ep else none, ep)
    else (none, ep)

def session (files : List Source) : Ep := files.foldl (fun ep file => (load loader file ep).2) Ep.zero

end Pcbsd.KernelLoad
