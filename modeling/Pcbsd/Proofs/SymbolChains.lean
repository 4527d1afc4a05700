import Mathlib.Data.Fintype.EquivFin
import Pcbsd.Lib.Orbit
import Pcbsd.SymbolLookup

/-! When lookup_symbol comes to an end, and what it finds then. -/

namespace Pcbsd.SymbolLookup
open Lib Memory Reloc Option

variable (build : Build) (mem : Mem) (ef : ElfFile) (name : Bytes)

def follow (symnum : Nat) : Option Nat :=
  match turn build mem ef name symnum with
  | .next symnum => some symnum
  | _ => none

def visited (n : Nat) : Option Nat := after (follow build mem ef name) n (ef.bucket build mem name)

def Returns (found : Option Sym) : Prop := ∃ fuel, lookupSymbol build mem ef name fuel = .returned found

def chainStep (symnum : Nat) : Option Nat := if symnum = 0 then none else some (ef.chain build mem symnum)

def chained (n : Nat) : Option Nat := after (chainStep build mem ef) n (ef.bucket build mem name)

def ElfFile.symName (symnum : Nat) : Option Bytes := strdupout build mem (ef.strtab + (ef.sym build mem symnum).name)

structure WellFormed : Prop where
  buckets : ef.nbuckets ≠ 0
  inside : ∀ name n symnum, chained build mem ef name n = some symnum → symnum = 0 ∨ symnum < ef.nchains
  named : ∀ symnum, 0 < symnum → symnum < ef.nchains → (ef.sym build mem symnum).name ≠ 0 ∧
    (ef.symName build mem symnum).isSome
  acyclic : ∀ name i j symnum, chained build mem ef name i = some symnum →
    chained build mem ef name j = some symnum → i = j
  reachable : ∀ symnum, 0 < symnum → symnum < ef.nchains → (ef.sym build mem symnum).defined →
    ∀ name, ef.symName build mem symnum = some name → ∃ n, chained build mem ef name n = some symnum

def FirstNamed (symnum : Nat) : Prop :=
  symnum ≠ 0 ∧ ef.symName build mem symnum = some name ∧
    ∃ n, chained build mem ef name n = some symnum ∧
      ∀ m < n, ∀ other, chained build mem ef name m = some other → ef.symName build mem other ≠ some name

variable {build mem ef name} {fuel start symnum n : Nat} {found : Option Sym}

variable (wellFormed : WellFormed build mem ef)

include wellFormed

omit wellFormed

variable (build mem ef name) in
structure Exact : Prop where
  total : ∃ found, Returns build mem ef name found
  first : WellFormed build mem ef → ∀ sym, Returns build mem ef name (some sym) ↔
    ∃ symnum, FirstNamed build mem ef name symnum ∧ (ef.sym build mem symnum).defined ∧ ef.sym build mem symnum = sym

end Pcbsd.SymbolLookup
