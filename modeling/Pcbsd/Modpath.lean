import Pcbsd.Module

/-! The directories of module_path and their linker.hints files, boot/common/module.c. -/

namespace Pcbsd.Preload
open Lib

/-- The content of a linker.hints file behind its version word, at the address that malloc gave. -/
structure Hints (w : Nat) where
  bytes : Bytes
  addr : Nat
  room : addr + bytes.length < 2 ^ w
  least : 4 ≤ bytes.length
  most : bytes.length ≤ 100 * 1024 - 4

/-- A struct moduledir; `removed` and `nohints` are the bits of d_flags. -/
structure Moduledir (w : Nat) where
  path : Bytes
  hints : Option (Hints w)
  removed : Bool
  nohints : Bool

inductive ByteOrder where
  | little
  | big
  deriving DecidableEq

def ByteOrder.int (order : ByteOrder) (bytes : Bytes) : Int :=
  Int.bmod (leNat (match order with | .little => bytes | .big => bytes.reverse)) (2 ^ 32)

/-- What these functions call. What malloc gives ends before the last address; stat gives st_size, and
the path it gets is none for NULL; read gives what it has read. -/
structure Libstand (w : Nat) (σ : Type) where
  order : ByteOrder
  sizeofModuledir : Nat
  getenv : σ → Bytes → Option Bytes
  malloc : σ → (size : Nat) → Option { addr : Nat // addr + size < 2 ^ w } × σ
  stat : σ → Option Bytes → Option Int × σ
  openFile : σ → Option Bytes → Option Nat × σ
  read : σ → Nat → Nat → Option Bytes × σ
  close : σ → Nat → σ

structure Modpath (w : Nat) (σ : Type) where
  moduledirList : List (Moduledir w)
  outside : σ

def charSemicolon : UInt8 := 0x3b

def linkerHintsVersion : Int := 1

def modulePath : Bytes := ascii ("module_path".toList)
def defaultSearchpath : Bytes := ascii ("/boot/kernel;/boot/modules".toList)
def linkerHints : Bytes := ascii ("linker.hints".toList)

def trimSlashes (cp : Bytes) : Nat → Nat
  | 0 => 0
  | cplen + 1 => if 1 < cplen + 1 ∧ cp[cplen]? = some charSlash then trimSlashes cp cplen else cplen + 1

section

variable {w : Nat} {σ : Type} (env : Libstand w σ)

/-- The search of the list for a directory, which loses its mark; none if it is not there. -/
def unmark (dir : Bytes) : List (Moduledir w) → Option (List (Moduledir w))
  | [] => none
  | mdp :: mdps => if mdp.path = dir then some ({ mdp with removed := false } :: mdps) else (unmark dir mdps).map (mdp :: ·)

/-- One directory of the value; false if there is no memory for it. -/
def noteDir (dir : Bytes) (s : Modpath w σ) : Bool × Modpath w σ :=
  match unmark dir s.moduledirList with
  | some mdps => (true, { s with moduledirList := mdps })
  | none =>
    match env.malloc s.outside (env.sizeofModuledir + dir.length + 1) with
    | (none, outside) => (false, { s with outside })
    | (some _, outside) => (true, ⟨s.moduledirList ++ [⟨dir, none, false, false⟩], outside⟩)

/-- The loop over the value; false if the function returns inside. -/
def rebuildLoop (ep : Bytes) (s : Modpath w σ) : Bool × Modpath w σ :=
  if _empty : ep = [] then (true, s)
  else
    let cp := ep.takeWhile (· ≠ charSemicolon)
    match noteDir env (cp.take (trimSlashes cp cp.length)) s with
    | (false, s) => (false, s)
    | (true, s) =>
      let rest := ep.dropWhile (· ≠ charSemicolon)
      if rest = [] then (true, s) else rebuildLoop rest.tail s
  termination_by ep.length
  decreasing_by
    rw [List.length_tail]
    exact lt_of_le_of_lt (Nat.sub_le_sub_right (List.dropWhile_sublist _).length_le 1)
      (Nat.sub_lt (List.length_pos_of_ne_nil _empty) Nat.one_pos)

def searchpath (outside : σ) : Bytes := (env.getenv outside modulePath).getD defaultSearchpath

def moduledirRebuild (s : Modpath w σ) : Modpath w σ :=
  match rebuildLoop env (searchpath env s.outside)
    { s with moduledirList := s.moduledirList.map ({ · with removed := true }) } with
  | (false, s) => s
  | (true, s) => { s with moduledirList := s.moduledirList.filter (!·.removed) }

def moduledirFullpath (mdp : Moduledir w) (fname : Bytes) (outside : σ) : Option Bytes × σ :=
  match env.malloc outside (mdp.path.length + fname.length + 2) with
  | (none, outside) => (none, outside)
  | (some _, outside) => (some (mdp.path ++ [charSlash] ++ fname), outside)

/-- The hints behind the version word of an open file with `size` bytes more. -/
def readHints (fd size : Nat) (least : 4 ≤ size) (most : size ≤ 100 * 1024 - 4) (outside : σ) : Option (Hints w) × σ :=
  match env.read outside fd 4 with
  | (none, outside) => (none, outside)
  | (some version, outside) =>
    if version.length ≠ 4 ∨ env.order.int version ≠ linkerHintsVersion then (none, outside)
    else
      match env.malloc outside size with
      | (none, outside) => (none, outside)
      | (some addr, outside) =>
        match env.read outside fd size with
        | (none, outside) => (none, outside)
        | (some bytes, outside) =>
          if same : bytes.length = size then
            (some ⟨bytes, addr, same ▸ addr.2, same ▸ least, same ▸ most⟩, outside)
          else (none, outside)

def moduledirReadhints (mdp : Moduledir w) (outside : σ) : Moduledir w × σ :=
  if mdp.hints.isSome ∨ mdp.nohints = true then (mdp, outside)
  else
    let (path, outside) := moduledirFullpath env mdp linkerHints outside
    match env.stat outside path with
    | (none, outside) => ({ mdp with nohints := true }, outside)
    | (some size, outside) =>
      if bounds : size < 8 ∨ 100 * 1024 < size then ({ mdp with nohints := true }, outside)
      else
        match env.openFile outside path with
        | (none, outside) => ({ mdp with nohints := true }, outside)
        | (some fd, outside) =>
          match readHints env fd (size.toNat - 4) (by omega) (by omega) outside with
          | (none, outside) => ({ mdp with nohints := true }, env.close outside fd)
          | (some hints, outside) => ({ mdp with hints := some hints }, env.close outside fd)

theorem moduledirReadhints_path (mdp : Moduledir w) (outside : σ) :
    (moduledirReadhints env mdp outside).1.path = mdp.path := by
  rw [moduledirReadhints]
  repeat' split
  all_goals rfl

end

/-- What happens between the start of the loader and a call: the list is rebuilt, the hints of a
directory are read, and what these functions call changes (a value is set, a file is written). -/
inductive PathEvent (σ : Type) where
  | rebuild
  | readhints (path : Bytes)
  | outside (change : σ → σ)

section

variable {w : Nat} {σ : Type} (env : Libstand w σ)

/-- moduledir_readhints for the directory of the list with this path. -/
def readhintsOf (path : Bytes) : List (Moduledir w) → σ → List (Moduledir w) × σ
  | [], outside => ([], outside)
  | mdp :: mdps, outside =>
    if mdp.path = path then
      let (mdp, outside) := moduledirReadhints env mdp outside
      (mdp :: mdps, outside)
    else
      let (mdps, outside) := readhintsOf path mdps outside
      (mdp :: mdps, outside)

def pathEvent (s : Modpath w σ) : PathEvent σ → Modpath w σ
  | .rebuild => moduledirRebuild env s
  | .readhints path =>
    let (mdps, outside) := readhintsOf env path s.moduledirList s.outside
    ⟨mdps, outside⟩
  | .outside change => { s with outside := change s.outside }

def pathRun (outside : σ) (events : List (PathEvent σ)) : Modpath w σ := events.foldl (pathEvent env) ⟨[], outside⟩

end

def Machine.withModpath {w n : Nat} {σ : Type} (machine : Machine w n (Modpath w σ)) (env : Libstand w σ) :
    Machine w n (Modpath w σ) :=
  { machine with
    moduledirs := fun s =>
      let s := moduledirRebuild env s
      (s.moduledirList.map Moduledir.path, s) }

end Pcbsd.Preload
