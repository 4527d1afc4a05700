import Pcbsd.Modpath

/-! The boot command, boot/common/boot.c, over the files that the loader keeps. An argument vector is a list; the first
element is the name of the command. -/

namespace Pcbsd.Preload
open Lib

def charDash : UInt8 := 0x2d

def defaultBootfiles : Bytes := ascii ['k', 'e', 'r', 'n', 'e', 'l']

def behindSemi (spec : Bytes) : Option Bytes :=
  match spec.dropWhile (· ≠ charSemicolon) with
  | [] => none
  | _ :: rest => some rest

def skipTries : Nat → Bytes → Option Bytes
  | 0, spec => some spec
  | count + 1, spec => (behindSemi spec).bind (skipTries count)

/-- getbootfile, for the value of $bootfile. -/
def getbootfile (bootfile : Option Bytes) (try_ : Nat) : Option Bytes :=
  match skipTries try_ (bootfile.getD defaultBootfiles) with
  | none => none
  | some spec =>
    let name := spec.takeWhile (· ≠ charSemicolon)
    if name = [] then none else some name

variable {w n : Nat} {σ : Type}

/-- The loop of loadakernel from a try on, at most `tries` of them. -/
def loadakernel (machine : Machine w n σ) (bootfile : σ → Option Bytes) (fuel : Nat) (argv : List Bytes) :
    Nat → Nat → World w n σ → Outcome Bool × World w n σ
  | 0, _, world => (.running, world)
  | tries + 1, try_, world =>
    match getbootfile (bootfile world.outside) try_ with
    | none => (.returned false, world)
    | some name =>
      match modLoadkld machine fuel name (argv.drop 1) world with
      | (.returned (some _), world) => loadakernel machine bootfile fuel argv tries (try_ + 1) world
      | (.returned none, world) => (.returned true, world)
      | (.fault, world) => (.fault, world)
      | (.running, world) => (.running, world)

/-- command_boot from the test for a loaded kernel on. The result is the file that l_exec is called with. The
arch_autoload of every machine returns 0 at once. -/
def bootLoaded (argv : List Bytes) (world : World w n σ) : Outcome (Option (Fin n)) × World w n σ :=
  match world.files with
  | none => (.fault, world)
  | some files =>
    match fileFindfile files none none with
    | none => (.returned none, world)
    | some fp =>
      if 1 < argv.length then
        match world.heap fp with
        | none => (.fault, world)
        | some file => (.returned (some fp), world.set fp { file with args := unargv (argv.drop 1) })
      else (.returned (some fp), world)

def bootKernel (machine : Machine w n σ) (bootfile : σ → Option Bytes) (fuel : Nat) (argv : List Bytes)
    (world : World w n σ) : Outcome (Option (Fin n)) × World w n σ :=
  match world.files with
  | none => (.fault, world)
  | some files =>
    if (fileFindfile files none none).isSome then bootLoaded argv world
    else
      match loadakernel machine bootfile fuel (argv.drop 1) fuel 0 world with
      | (.returned loaded, world) => bootLoaded (if loaded then argv.take 1 else argv) world
      | (.fault, world) => (.fault, world)
      | (.running, world) => (.running, world)

def explicitKernel (argv : List Bytes) : Option Bytes :=
  match argv with
  | _ :: name :: _ => if name.head? = some charDash then none else some name
  | _ => none

def commandBoot (machine : Machine w n σ) (bootfile : σ → Option Bytes) (fuel : Nat) (argv : List Bytes)
    (world : World w n σ) : Outcome (Option (Fin n)) × World w n σ :=
  match explicitKernel argv with
  | none => bootKernel machine bootfile fuel argv world
  | some name =>
    match world.files with
    | none => (.fault, world)
    | some files =>
      if (fileFindfile files none none).isSome then (.returned none, world)
      else
        match modLoadkld machine fuel name (argv.drop 2) world with
        | (.returned none, world) => bootKernel machine bootfile fuel (argv.take 1) world
        | (.returned (some _), world) => (.returned none, world)
        | (.fault, world) => (.fault, world)
        | (.running, world) => (.running, world)

end Pcbsd.Preload
