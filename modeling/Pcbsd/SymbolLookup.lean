import Pcbsd.Reloc

/-! lookup_symbol of boot/common/load_elf.c, with the hash table that loadimage finds in the dynamic section. -/

namespace Pcbsd.SymbolLookup
open Lib Memory Reloc

/-- elf_hash; an unsigned long is as large as a pointer. -/
def hashStep (build : Build) (h : Nat) (c : UInt8) : Nat :=
  let h := ((h <<< 4) + c.toNat) % build.pointers
  let g := h &&& 0xf0000000
  let h := if g ≠ 0 then h ^^^ (g >>> 24) else h
  h &&& (build.pointers - 1 - g)

def elfHash (build : Build) (name : Bytes) : Nat := name.foldl (hashStep build) 0

structure ElfFile where
  buckets : Nat
  chains : Nat
  nbuckets : Nat
  nchains : Nat
  symtab : Nat
  strtab : Nat
  deriving DecidableEq

def hashelt : Nat := 4

def readHashelt (build : Build) (mem : Mem) (addr : Nat) : Nat := leNat (bytesAt mem (addr % build.pointers) hashelt)

structure Sym where
  name : Nat
  info : Nat
  shndx : Nat
  value : Nat
  deriving DecidableEq

def symInfo (build : Build) : Nat := match build.cls with | .elf32 => 12 | .elf64 => 4

def symOf (build : Build) (bs : Bytes) : Sym :=
  ⟨le 4 0 bs, le 1 (symInfo build) bs, le 2 build.symShndx bs, le build.word build.symValue bs⟩

variable (build : Build) (mem : Mem) (ef : ElfFile)

def ElfFile.sym (symnum : Nat) : Sym :=
  symOf build (bytesAt mem ((ef.symtab + symnum * build.symSize) % build.pointers) build.symSize)

/-- The bytes up to the next NUL, if one of the next `count` bytes is one. -/
def stringFrom : Nat → Nat → Option Bytes
  | 0, _ => none
  | count + 1, addr =>
    let c := mem (addr % build.pointers)
    if c = 0 then some [] else (stringFrom count (addr + 1)).map (c :: ·)

def strdupout (str : Nat) : Option Bytes := stringFrom build mem build.pointers str

def sttFunc : Nat := 2

/-- sh_shndx is not SHN_UNDEF, or it is a function with a value. -/
def Sym.defined (sym : Sym) : Bool := sym.shndx ≠ 0 || (sym.value ≠ 0 && sym.info &&& 0xf = sttFunc)

def ElfFile.chain (symnum : Nat) : Nat := readHashelt build mem (ef.chains + symnum * hashelt)

/-- One turn of the loop: it returns the symbol, or ENOENT, or goes on with another symbol. -/
inductive Turn where
  | returns (found : Option Sym)
  | next (symnum : Nat)
  | hangs
  deriving DecidableEq

def turn (name : Bytes) (symnum : Nat) : Turn :=
  if symnum = 0 then .returns none
  else if ef.nchains ≤ symnum then .returns none
  else
    let sym := ef.sym build mem symnum
    if sym.name = 0 then .returns none
    else
      match strdupout build mem (ef.strtab + sym.name) with
      | none => .hangs
      | some strp => if name = strp then .returns (if sym.defined then some sym else none) else .next (ef.chain build mem symnum)

inductive Outcome where
  | returned (found : Option Sym)
  | divides
  | running
  deriving DecidableEq

@[grind =] def lookupLoop (name : Bytes) : Nat → Nat → Outcome
  | 0, _ => .running
  | fuel + 1, symnum =>
    match turn build mem ef name symnum with
    | .returns found => .returned found
    | .next symnum => lookupLoop name fuel symnum
    | .hangs => .running

def ElfFile.bucket (name : Bytes) : Nat :=
  readHashelt build mem (ef.buckets + elfHash build name % ef.nbuckets * hashelt)

/-- lookup_symbol, at most `fuel` turns of its loop. -/
def lookupSymbol (name : Bytes) (fuel : Nat) : Outcome :=
  if ef.nbuckets = 0 then .divides else lookupLoop build mem ef name fuel (ef.bucket build mem name)

end Pcbsd.SymbolLookup
