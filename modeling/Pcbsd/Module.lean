import Pcbsd.Lib.Bytes
import Pcbsd.Lib.Stailq

/-! The files the loader keeps in memory, boot/common/module.c. The preloaded_file structures live
on a heap with room for `n` of them and are linked by pointers into it, and addresses have `w` bits.
Following NULL or a pointer to freed memory is a fault. The format loaders, the file systems and the
machine's copy routines are parameters. -/

namespace Pcbsd.Preload
open Lib Function

inductive Errno where
  | enoent
  | eftype
  | other (code : Nat)
  deriving DecidableEq

structure ModDepend where
  minimum : Int
  preferred : Int
  maximum : Int
  deriving DecidableEq

structure KernelModule where
  name : Bytes
  version : Int
  deriving DecidableEq

/-- A file_metadata: an MODINFOMD_DEPLIST record, or one of another type. -/
inductive Metadata where
  | deplist (verinfo : ModDepend) (dmodname : Bytes)
  | other (type : Nat) (data : Bytes)
  deriving DecidableEq

structure PreloadedFile (w n : Nat) where
  name : Bytes
  type : Bytes
  args : Option Bytes
  metadata : List Metadata
  loader : Int
  addr : BitVec w
  size : BitVec w
  modules : List KernelModule
  next : Option (Fin n)
  deriving DecidableEq

def PreloadedFile.limit {w n : Nat} (file : PreloadedFile w n) : BitVec w := file.addr + file.size

abbrev Memory (w : Nat) := BitVec w → UInt8

def Memory.bytes {w : Nat} (memory : Memory w) (addr size : BitVec w) : Bytes :=
  (List.range size.toNat).map fun i => memory (addr + BitVec.ofNat w i)

/-- `image` is not kept by the loader and nothing here reads it: the bytes that stood in a file's range
when the file was read. -/
structure World (w n : Nat) (σ : Type) where
  preloadedFiles : Option (Fin n)
  heap : Fin n → Option (PreloadedFile w n)
  loadaddr : BitVec w
  memory : Memory w
  image : Fin n → Bytes
  outside : σ

variable {w n : Nat} {σ : Type}

/-- What an l_load returns. The structure it passes out is one that malloc gave it. -/
inductive Loaded (world : World w n σ) where
  | failed (error : Errno) (memory : Memory w) (outside : σ)
  | loaded (fp : Fin n) (unused : world.heap fp = none) (file : PreloadedFile w n) (memory : Memory w) (outside : σ)

inductive Stat where
  | missing
  | regular
  | irregular
  deriving DecidableEq

/-- A record of a linker.hints file: MDT_VERSION, or one of another type. -/
inductive Hint where
  | version (modname : Bytes) (version : Int) (kld : Bytes)
  | other
  deriving DecidableEq

/-- What module.c is linked with. `archLoadaddr` is arch_loadaddr(LOAD_RAW, ..), `onDevice` says that
arch_getdev moves the pointer behind a device name, `moduledirs` and `readhints` are moduledir_rebuild
and moduledir_readhints. -/
structure Machine (w n : Nat) (σ : Type) where
  fileFormats : List ((world : World w n σ) → Bytes → BitVec w → Loaded world)
  fileAlloc : (world : World w n σ) → Option { fp : Fin n // world.heap fp = none }
  archLoadaddr : Option (Bytes → BitVec w → BitVec w)
  archReadin : σ → Memory w → Nat → BitVec w → Nat → Int × Memory w × σ
  onDevice : σ → Bytes → Bool
  stat : σ → Bytes → Stat × σ
  openFile : σ → Bytes → Option Nat × σ
  close : σ → Nat → σ
  moduledirs : σ → List Bytes × σ
  readhints : σ → Bytes → Option (List Hint) × σ
  unsetenv : σ → Bytes → σ

/-- How a function ends: it returns, it follows a pointer that leads nowhere, or it is still running
when the fuel is spent. -/
inductive Outcome (α : Type) where
  | returned (value : α)
  | fault
  | running
  deriving DecidableEq

namespace World

def links (world : World w n σ) : Fin n → Option (Fin n) := fun fp => (world.heap fp).bind PreloadedFile.next

/-- The structures on the way from `start`, or none if one of them has been freed. -/
def chain (world : World w n σ) (start : Option (Fin n)) : Option (List (Fin n × PreloadedFile w n)) :=
  (Stailq.walk world.links n start).mapM fun fp => (world.heap fp).map fun file => (fp, file)

def files (world : World w n σ) : Option (List (Fin n × PreloadedFile w n)) := world.chain world.preloadedFiles

def set (world : World w n σ) (fp : Fin n) (file : PreloadedFile w n) : World w n σ :=
  { world with heap := update world.heap fp (some file) }

end World

def charSlash : UInt8 := 0x2f

def kldExtList : List Bytes := [ascii ['.', 'k', 'o'], [], ascii ['.', 'd', 'e', 'b', 'u', 'g']]
def emptyextlist : List Bytes := [[]]

def unargv (argv : List Bytes) : Option Bytes :=
  if argv.isEmpty then none else some (List.intercalate [0x20] argv)

section

variable (machine : Machine w n σ)

def fileHavepath (outside : σ) (name : Bytes) : Bool := machine.onDevice outside name || name.contains charSlash

def lookupExt (base : Bytes) : List Bytes → σ → Option Bytes × σ
  | [], outside => (none, outside)
  | ext :: extlist, outside =>
    match machine.stat outside (base ++ ext) with
    | (.regular, outside) => (some (base ++ ext), outside)
    | (_, outside) => lookupExt base extlist outside

def fileLookup (path name : Bytes) (extlist : List Bytes) (outside : σ) : Option Bytes × σ :=
  let path := if path ≠ [] ∧ path.getLast? ≠ some charSlash then path ++ [charSlash] else path
  lookupExt machine (path ++ name) extlist outside

/-- The first directory of the module path in which `lookup` finds something. -/
def searchDirs (lookup : Bytes → σ → Option Bytes × σ) : List Bytes → σ → Option Bytes × σ
  | [], outside => (none, outside)
  | dir :: dirs, outside =>
    match lookup dir outside with
    | (some result, outside) => (some result, outside)
    | (none, outside) => searchDirs lookup dirs outside

def fileSearch (name : Bytes) (extlist : List Bytes) (outside : σ) : Option Bytes × σ :=
  if name = [] then (some name, outside)
  else if fileHavepath machine outside name then
    match machine.stat outside name with
    | (.missing, outside) => (none, outside)
    | (_, outside) => (some name, outside)
  else
    let (dirs, outside) := machine.moduledirs outside
    searchDirs (fun dir => fileLookup machine dir name extlist) dirs outside

/-- The loop of mod_search_hints: the file of the version that was asked for, and the best version
passed on the way with its file. -/
def scanHints (modname : Bytes) (verinfo : Option ModDepend) (best : Option Bytes) (bestver : Int) :
    List Hint → Option Bytes × Option Bytes
  | [] => (none, best)
  | .other :: hints => scanHints modname verinfo best bestver hints
  | .version name version kld :: hints =>
    if name ≠ modname then scanHints modname verinfo best bestver hints
    else
      match verinfo with
      | none => (some kld, best)
      | some depend =>
        if version = depend.preferred then (some kld, best)
        else if depend.minimum ≤ version ∧ version ≤ depend.maximum ∧ bestver < version then
          scanHints modname verinfo (some kld) version hints
        else scanHints modname verinfo best bestver hints

def modSearchHints (modname : Bytes) (verinfo : Option ModDepend) (dir : Bytes) (outside : σ) : Option Bytes × σ :=
  let (hints, outside) := machine.readhints outside dir
  match scanHints modname verinfo none 0 (hints.getD []) with
  | (some kld, _) => fileLookup machine dir kld emptyextlist outside
  | (none, some kld) => fileLookup machine dir kld emptyextlist outside
  | (none, none) => fileLookup machine dir modname kldExtList outside

def modSearchmodule (name : Bytes) (verinfo : Option ModDepend) (outside : σ) : Option Bytes × σ :=
  let (dirs, outside) := machine.moduledirs outside
  searchDirs (modSearchHints machine name verinfo) dirs outside

end

/-- file_findfile; none is the wildcard. -/
def fileFindfile (files : List (Fin n × PreloadedFile w n)) (name type : Option Bytes) : Option (Fin n) :=
  (files.find? fun entry =>
    (name.all fun name => name == entry.2.name) && (type.all fun type => type == entry.2.type)).map Prod.fst

/-- The loop of file_findmodule over the modules of one file. -/
def bestModule (modname : Bytes) (verinfo : Option ModDepend) (best : Option KernelModule) (bestver : Int) :
    List KernelModule → Option KernelModule
  | [] => best
  | mp :: modules =>
    if mp.name ≠ modname then bestModule modname verinfo best bestver modules
    else
      match verinfo with
      | none => some mp
      | some depend =>
        if mp.version = depend.preferred then some mp
        else if depend.minimum ≤ mp.version ∧ mp.version ≤ depend.maximum ∧ bestver < mp.version then
          bestModule modname verinfo (some mp) mp.version modules
        else bestModule modname verinfo best bestver modules

/-- file_findmodule(NULL, ..). -/
def fileFindmodule (files : List (Fin n × PreloadedFile w n)) (modname : Bytes) (verinfo : Option ModDepend) :
    Option KernelModule :=
  files.findSome? fun entry => bestModule modname verinfo none 0 entry.2.modules

/-- The loop of file_load over file_formats, from the format with index `i` on. -/
@[grind =] def loadFormats (filename : Bytes) (dest : BitVec w) :
    List ((world : World w n σ) → Bytes → BitVec w → Loaded world) → Int → World w n σ →
      Except Errno (Fin n) × World w n σ
  | [], _, world => (.error .eftype, world)
  | load :: formats, i, world =>
    match load world filename dest with
    | .loaded fp _ file memory outside =>
      let image := update world.image fp (memory.bytes file.addr file.size)
      (.ok fp, { world.set fp { file with loader := i } with memory, outside, image })
    | .failed .eftype memory outside => loadFormats filename dest formats (i + 1) { world with memory, outside }
    | .failed error memory outside => (.error error, { world with memory, outside })

/-- The destination after arch_loadaddr, if the machine has one. -/
def Machine.dest (machine : Machine w n σ) (name : Bytes) (dest : BitVec w) : BitVec w :=
  match machine.archLoadaddr with
  | none => dest
  | some archLoadaddr => archLoadaddr name dest

def fileLoad (machine : Machine w n σ) (filename : Bytes) (dest : BitVec w) (world : World w n σ) :
    Except Errno (Fin n) × World w n σ :=
  loadFormats filename (machine.dest filename dest) machine.fileFormats 0 world

/-- The result is none if the list leads to freed memory. -/
def fileInsertTail (fp : Fin n) (world : World w n σ) : Option (World w n σ) := do
  let file ← world.heap fp
  let world := world.set fp { file with next := none }
  let files ← world.files
  match files.getLast? with
  | none => some { world with preloadedFiles := some fp }
  | some (cm, last) => some (world.set cm { last with next := some fp })

/-- The loops that hand every structure from `start` on to file_discard. -/
def discardFrom (start : Option (Fin n)) (world : World w n σ) : Option (World w n σ) := do
  let files ← world.chain start
  some { world with heap := fun fp => if fp ∈ files.map Prod.fst then none else world.heap fp }

/-- The loop of file_load_dependencies over the MODINFOMD_DEPLIST records. -/
@[grind =] def dependLoop (load : Bytes → Option ModDepend → World w n σ → Outcome (Option Errno) × World w n σ) :
    List Metadata → World w n σ → Outcome (Option Errno) × World w n σ
  | [], world => (.returned none, world)
  | .other _ _ :: rest, world => dependLoop load rest world
  | .deplist verinfo dmodname :: rest, world =>
    match world.files with
    | none => (.fault, world)
    | some files =>
      if (fileFindmodule files dmodname (some verinfo)).isSome then dependLoop load rest world
      else
        match load dmodname (some verinfo) world with
        | (.returned none, world) =>
          match world.files with
          | none => (.fault, world)
          | some files =>
            if (fileFindmodule files dmodname (some verinfo)).isSome then dependLoop load rest world
            else (.returned (some .enoent), world)
        | ended => ended

def fileLoadDependencies (load : Bytes → Option ModDepend → World w n σ → Outcome (Option Errno) × World w n σ)
    (base : Fin n) (world : World w n σ) : Outcome (Option Errno) × World w n σ :=
  match world.heap base with
  | none => (.fault, world)
  | some file =>
    match dependLoop load file.metadata world with
    | (.returned (some error), world) =>
      match discardFrom (some base) world with
      | none => (.fault, world)
      | some world => (.returned (some error), world)
    | ended => ended

/-- mod_load, over the mod_loadkld that it calls. -/
def modLoad (machine : Machine w n σ)
    (loadkld : Bytes → List Bytes → World w n σ → Outcome (Option Errno) × World w n σ)
    (modname : Bytes) (verinfo : Option ModDepend) (argv : List Bytes) (world : World w n σ) :
    Outcome (Option Errno) × World w n σ :=
  if fileHavepath machine world.outside modname then loadkld modname argv world
  else
    match world.files with
    | none => (.fault, world)
    | some files =>
      if (fileFindmodule files modname verinfo).isSome then (.returned none, world)
      else
        match modSearchmodule machine modname verinfo world.outside with
        | (none, outside) => (.returned (some .enoent), { world with outside })
        | (some filename, outside) => loadkld filename argv { world with outside }

/-- What mod_loadkld does with a file that it has read: the file enters the list, and what it depends
on is loaded. `lastFile` was the last of the list before. -/
def addLoaded (load : Bytes → Option ModDepend → World w n σ → Outcome (Option Errno) × World w n σ)
    (lastFile : Option (Fin n)) (argv : List Bytes) (fp : Fin n) (world : World w n σ) :
    Outcome (Option Errno) × World w n σ :=
  match world.heap fp with
  | none => (.fault, world)
  | some file =>
    match fileInsertTail fp { world.set fp { file with args := unargv argv } with loadaddr := file.limit } with
    | none => (.fault, world)
    | some world =>
      match fileLoadDependencies load fp world with
      | (.returned (some _), world) =>
        match lastFile with
        | none => (.fault, world)
        | some last =>
          match world.heap last with
          | none => (.fault, world)
          | some file =>
            (.returned (some .enoent), { world.set last { file with next := none } with loadaddr := file.limit })
      | ended => ended

/-- mod_loadkld calls itself, through file_load_dependencies and mod_load, at most `fuel` deep. -/
@[grind =] def modLoadkld (machine : Machine w n σ) : Nat → Bytes → List Bytes → World w n σ →
    Outcome (Option Errno) × World w n σ
  | 0, _, _, world => (.running, world)
  | fuel + 1, kldname, argv, world =>
    match fileSearch machine kldname kldExtList world.outside with
    | (none, outside) => (.returned (some .enoent), { world with outside })
    | (some filename, outside) =>
      match ({ world with outside } : World w n σ).files with
      | none => (.fault, { world with outside })
      | some files =>
        if (fileFindfile files (some filename) none).isSome then (.returned none, { world with outside })
        else
          match fileLoad machine filename world.loadaddr { world with outside } with
          | (.error error, world) => (.returned (some error), world)
          | (.ok fp, world) =>
            addLoaded (fun modname verinfo => modLoad machine (modLoadkld machine fuel) modname verinfo [])
              (files.getLast?.map Prod.fst) argv fp world

inductive CmdResult where
  | ok
  | error
  deriving DecidableEq

/-- The loop of file_loadraw, at most `fuel` chunks; the address behind the last one, or none after an
error. -/
def readChunks (machine : Machine w n σ) (fd : Nat) : Nat → BitVec w → World w n σ →
    Outcome (Option (BitVec w)) × World w n σ
  | 0, _, world => (.running, world)
  | fuel + 1, laddr, world =>
    match machine.archReadin world.outside world.memory fd laddr 4096 with
    | (got, memory, outside) =>
      if got = 0 then (.returned (some laddr), { world with memory, outside })
      else if got < 0 then (.returned none, { world with memory, outside })
      else readChunks machine fd fuel (laddr + BitVec.ofInt w got) { world with memory, outside }

def readRaw (machine : Machine w n σ) (fuel : Nat) (type name : Bytes) (fd : Nat) (world : World w n σ) :
    Outcome CmdResult × World w n σ :=
  let loadaddr := machine.dest name world.loadaddr
  match readChunks machine fd fuel loadaddr { world with loadaddr } with
  | (.fault, world) => (.fault, world)
  | (.running, world) => (.running, world)
  | (.returned none, world) => (.returned .error, { world with outside := machine.close world.outside fd })
  | (.returned (some laddr), world) =>
    match machine.fileAlloc world with
    | none => (.fault, world)
    | some ⟨fp, _⟩ =>
      let file : PreloadedFile w n :=
        { name, type, args := none, metadata := [], loader := -1, addr := world.loadaddr,
          size := laddr - world.loadaddr, modules := [], next := none }
      let image := update world.image fp (world.memory.bytes file.addr file.size)
      match fileInsertTail fp { world.set fp file with loadaddr := laddr, image } with
      | none => (.fault, world)
      | some world => (.returned .ok, { world with outside := machine.close world.outside fd })

def fileLoadraw (machine : Machine w n σ) (fuel : Nat) (type name : Bytes) (world : World w n σ) :
    Outcome CmdResult × World w n σ :=
  match world.files with
  | none => (.fault, world)
  | some files =>
    if fileFindfile files none none = none then (.returned .error, world)
    else
      match fileSearch machine name emptyextlist world.outside with
      | (none, outside) => (.returned .error, { world with outside })
      | (some filename, outside) =>
        match machine.openFile outside filename with
        | (none, outside) => (.returned .error, { world with outside })
        | (some fd, outside) => readRaw machine fuel type filename fd { world with outside }

def kernelname : Bytes := ascii ['k', 'e', 'r', 'n', 'e', 'l', 'n', 'a', 'm', 'e']

def commandUnload (machine : Machine w n σ) (world : World w n σ) : Outcome CmdResult × World w n σ :=
  match discardFrom world.preloadedFiles world with
  | none => (.fault, world)
  | some world =>
    (.returned .ok,
      { world with preloadedFiles := none, loadaddr := 0, outside := machine.unsetenv world.outside kernelname })

/-- A load command after its options have been read, and the unload command. -/
inductive Command where
  | load (dokld : Bool) (name : Bytes) (argv : List Bytes)
  | loadType (type name : Bytes)
  | unload
  deriving DecidableEq

def Outcome.cmd : Outcome (Option Errno) → Outcome CmdResult
  | .returned none => .returned .ok
  | .returned (some _) => .returned .error
  | .fault => .fault
  | .running => .running

def command (machine : Machine w n σ) (fuel : Nat) (cmd : Command) (world : World w n σ) :
    Outcome CmdResult × World w n σ :=
  match cmd with
  | .load dokld name argv =>
    if dokld || fileHavepath machine world.outside name then
      let (ended, world) := modLoadkld machine fuel name argv world
      (ended.cmd, world)
    else
      let (ended, world) := modLoad machine (modLoadkld machine fuel) name none argv world
      (ended.cmd, world)
  | .loadType type name =>
    if type = [] then (.returned .error, world) else fileLoadraw machine fuel type name world
  | .unload => commandUnload machine world

/-- Commands one after the other, whatever each of them returns. -/
def commands (machine : Machine w n σ) (fuel : Nat) : List Command → World w n σ → Outcome Unit × World w n σ
  | [], world => (.returned (), world)
  | cmd :: rest, world =>
    match command machine fuel cmd world with
    | (.returned _, world) => commands machine fuel rest world
    | (.fault, world) => (.fault, world)
    | (.running, world) => (.running, world)

end Pcbsd.Preload
