import Pcbsd.Modpath

/-! mod_search_hints of boot/common/module.c, on the bytes of a linker.hints file. A pointer into
d_hints is the distance from it; reading outside of the buffer is a fault. -/

namespace Pcbsd.Preload
open Lib

def mdtVersion : Int := 3

/-- INT_ALIGN, relative to the start of the buffer. -/
def intAlign (p : Int) : Int := (p + 3) / 4 * 4

/-- The variables of mod_search_hints; cp and clen mean something only where a record is parsed and once
the version that was asked for is found. -/
structure HintSearch where
  recptr : Int
  cp : Int
  clen : Nat
  best : Option Int
  blen : Nat
  bestver : Int
  found : Bool
  deriving DecidableEq

def HintSearch.start : HintSearch := ⟨0, 0, 0, none, 0, 0, false⟩

namespace Hints

variable {w : Nat} (hints : Hints w) (order : ByteOrder)

def size : Int := hints.bytes.length

def range (p : Int) (n : Nat) : Option Bytes :=
  if 0 ≤ p ∧ p + n ≤ hints.size then some (slice p.toNat n hints.bytes) else none

def char (p : Int) : Option Nat := (hints.range p 1).map leNat

def int (p : Int) : Option Int := (hints.range p 4).map order.int

def advance (recptr reclen : Int) : Int := (hints.addr + recptr + reclen + 4) % 2 ^ w - hints.addr

section

variable (modname : Bytes) (verinfo : Option ModDepend)

/-- The body of the loop for a record of type MDT_VERSION; cp is behind the type. -/
def versionRecord (s : HintSearch) : Option HintSearch := do
  let clen ← hints.char s.cp
  let cp := s.cp + 1
  if clen ≠ modname.length then some { s with cp, clen }
  else
    let name ← hints.range cp clen
    if name ≠ modname then some { s with cp, clen }
    else
      let cp := intAlign (cp + clen)
      let ival ← hints.int order cp
      let clen ← hints.char (cp + 4)
      let cp := cp + 4 + 1
      match verinfo with
      | none => some { s with cp, clen, found := true }
      | some depend =>
        if ival = depend.preferred then some { s with cp, clen, found := true }
        else if depend.minimum ≤ ival ∧ ival ≤ depend.maximum ∧ s.bestver < ival then
          some { s with cp, clen, bestver := ival, best := some cp, blen := clen }
        else some { s with cp, clen }

def searchRecord (s : HintSearch) : Option HintSearch := do
  let reclen ← hints.int order s.recptr
  let ival ← hints.int order (s.recptr + 4)
  let parsed ←
    if ival = mdtVersion then hints.versionRecord order modname verinfo { s with cp := s.recptr + 8 }
    else some { s with cp := s.recptr + 8 }
  some { parsed with recptr := hints.advance s.recptr reclen }

@[grind =] def searchLoop : Nat → HintSearch → Outcome HintSearch
  | 0, _ => .running
  | fuel + 1, s =>
    if s.recptr < hints.size ∧ s.found = false then
      match hints.searchRecord order modname verinfo s with
      | none => .fault
      | some s => searchLoop fuel s
    else .returned s

end

/-- The file name that file_lookup gets: none if it is not in the buffer, `some none` if there is none. -/
def kld (s : HintSearch) : Option (Option Bytes) :=
  if s.found then (hints.range s.cp s.clen).map some
  else
    match s.best with
    | some best => (hints.range best s.blen).map some
    | none => some none

end Hints

section

variable {w n : Nat} {σ : Type} (env : Libstand w σ) (machine : Machine w n σ)

/-- The end of mod_search_hints, after the loop. -/
def searchEnd (mdp : Moduledir w) (hints : Hints w) (modname : Bytes) (s : HintSearch) (outside : σ) :
    Outcome (Option Bytes) × σ :=
  match hints.kld s with
  | none => (.fault, outside)
  | some kld =>
    let (result, outside) :=
      match kld with
      | some kld => fileLookup machine mdp.path kld emptyextlist outside
      | none => (none, outside)
    if s.found = false ∧ s.bestver = 0 ∧ result = none then
      let (result, outside) := fileLookup machine mdp.path modname kldExtList outside
      (.returned result, outside)
    else (.returned result, outside)

/-- mod_search_hints, for at most `fuel` records; the directory comes back with its hints. -/
def Moduledir.modSearchHints (fuel : Nat) (mdp : Moduledir w) (modname : Bytes) (verinfo : Option ModDepend)
    (outside : σ) : Outcome (Option Bytes) × Moduledir w × σ :=
  let (mdp, outside) := moduledirReadhints env mdp outside
  match mdp.hints with
  | none =>
    let (result, outside) := fileLookup machine mdp.path modname kldExtList outside
    (.returned result, mdp, outside)
  | some hints =>
    match hints.searchLoop env.order modname verinfo fuel .start with
    | .fault => (.fault, mdp, outside)
    | .running => (.running, mdp, outside)
    | .returned s =>
      let (result, outside) := searchEnd machine mdp hints modname s outside
      (result, mdp, outside)

end

end Pcbsd.Preload
