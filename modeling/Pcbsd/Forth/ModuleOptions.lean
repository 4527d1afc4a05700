import Pcbsd.Forth.Support
import Pcbsd.Lib.Stailq

/-! module_options of boot/forth/support.4th as it is in memory, with the words that process_assignment comes to. A
pointer that is zero is none. Memory is not exhausted, so that ENOMEM does not occur. -/

namespace Pcbsd.Forth.ModuleOptions
open Lib Function

variable {ι : Type} [DecidableEq ι]

/-- The modules, module_options and last_module_option. `given` are the addresses of all modules there are. -/
structure Options (ι : Type) where
  entry : ι → ModuleOption
  next : ι → Option ι
  list : Stailq.Head ι
  given : List ι

/-- allocate for a module; modules are never freed. -/
structure Allocator (ι : Type) where
  allocate : List ι → ι
  fresh : ∀ given, allocate given ∉ given

/-- The variables of support.4th that process_assignment uses. -/
structure Settings (ι : Type) where
  name : Bytes := []
  value : Bytes := []
  nextboot : Bool := false
  verbose : Bool := false
  nextbootConfFile : Bytes := []
  confFiles : Bytes := []
  env : Env
  options : Options ι

/-- evaluate, which is false when it throws. set leaves the modules alone. -/
structure Commands (ι : Type) where
  evaluate : Bytes → Settings ι → Bool × Settings ι
  set_leaves : ∀ text s, (evaluate (setCommand ++ [bl] ++ text) s).2.options = s.options

/-- The members of a module that an assignment can set. -/
inductive Member where
  | flag
  | loadname
  | type
  | args
  | beforeload
  | afterload
  | loaderror
  deriving DecidableEq

def Member.suffix : Member → Bytes
  | .flag => loadModuleSuffix
  | .loadname => moduleLoadnameSuffix
  | .type => moduleTypeSuffix
  | .args => moduleArgsSuffix
  | .beforeload => moduleBeforeloadSuffix
  | .afterload => moduleAfterloadSuffix
  | .loaderror => moduleLoaderrorSuffix

def Member.set (member : Member) (value : Bytes) (entry : ModuleOption) : ModuleOption :=
  match member with
  | .flag => { entry with flag := yesValue value }
  | .loadname => { entry with loadname := unquote value }
  | .type => { entry with type := unquote value }
  | .args => { entry with args := unquote value }
  | .beforeload => { entry with beforeload := unquote value }
  | .afterload => { entry with afterload := unquote value }
  | .loaderror => { entry with loaderror := unquote value }

/-- append_to_module_options_list. None if it writes to address zero. -/
def appendToModuleOptionsList (addr : ι) (o : Options ι) : Option (Options ι) :=
  match o.list.first, o.list.last with
  | none, _ => some { o with list := ⟨some addr, some addr⟩ }
  | some _, none => none
  | some first, some last => some { o with next := update o.next last (some addr), list := ⟨some first, some addr⟩ }

/-- The loop of find_module_option from `addr` on; none if it has not ended after `fuel` rounds. -/
def findModuleOption (o : Options ι) (name : Bytes) : Nat → Option ι → Option (Option ι)
  | _, none => some none
  | 0, some _ => none
  | fuel + 1, some addr => if (o.entry addr).name = name then some (some addr) else findModuleOption o name fuel (o.next addr)

/-- erase, and then set_module_name at the end of new_module_option. -/
def newModuleOption (allocator : Allocator ι) (name : Bytes) (o : Options ι) : Option (ι × Options ι) :=
  let addr := allocator.allocate o.given
  let erased := { o with
    entry := update o.entry addr { name := [] }, next := update o.next addr none, given := addr :: o.given }
  (appendToModuleOptionsList addr erased).map fun o =>
    (addr, { o with entry := update o.entry addr { o.entry addr with name } })

def getModuleOption (allocator : Allocator ι) (name : Bytes) (o : Options ι) : Option (ι × Options ι) :=
  (findModuleOption o name (o.given.length + 1) o.list.first).bind fun found =>
    match found with
    | some addr => some (addr, o)
    | none => newModuleOption allocator name o

/-- The set_module_ words: the name loses its suffix, and a member of the module is set. -/
def setMember (allocator : Allocator ι) (member : Member) (s : Settings ι) : Option (Settings ι) :=
  let name := s.name.take (s.name.length - member.suffix.length)
  (getModuleOption allocator name s.options).map fun (addr, o) =>
    { s with name, options := { o with entry := update o.entry addr (member.set s.value (o.entry addr)) } }

def setModuleFlag (allocator : Allocator ι) : Settings ι → Option (Settings ι) := setMember allocator .flag
def setModuleLoadname (allocator : Allocator ι) : Settings ι → Option (Settings ι) := setMember allocator .loadname
def setModuleType (allocator : Allocator ι) : Settings ι → Option (Settings ι) := setMember allocator .type
def setModuleArgs (allocator : Allocator ι) : Settings ι → Option (Settings ι) := setMember allocator .args
def setModuleBeforeload (allocator : Allocator ι) : Settings ι → Option (Settings ι) := setMember allocator .beforeload
def setModuleAfterload (allocator : Allocator ι) : Settings ι → Option (Settings ι) := setMember allocator .afterload
def setModuleLoaderror (allocator : Allocator ι) : Settings ι → Option (Settings ι) := setMember allocator .loaderror

def setEnvironmentVariable (commands : Commands ι) (s : Settings ι) : Option Exception × Settings ι :=
  match commands.evaluate (setCommand ++ [bl] ++ (s.name ++ [charAssign] ++ s.value)) s with
  | (true, s) => (none, s)
  | (false, s) => (some .eseterror, s)

def setConfFiles (commands : Commands ι) (s : Settings ι) : Option Exception × Settings ι :=
  match setEnvironmentVariable commands s with
  | (none, s) => (none, { s with confFiles := (s.env loaderConfFiles).getD [] })
  | failed => failed

def executeCommand (commands : Commands ι) (s : Settings ι) : Option Exception × Settings ι :=
  match commands.evaluate (unquote s.value) s with
  | (true, s) => (none, s)
  | (false, s) => (some .eexec, s)

/-- process_assignment; none if it does not end or uses a pointer that is zero. -/
def processAssignment (commands : Commands ι) (allocator : Allocator ι) (s : Settings ι) :
    Option (Option Exception × Settings ι) :=
  if s.name = [] then some (none, s)
  else if s.name = loaderConfFiles then some (setConfFiles commands s)
  else if s.name = nextbootEnable then some (none, { s with nextboot := yesValue s.value })
  else if s.name = nextbootConf then some (none, { s with nextbootConfFile := unquote s.value })
  else if s.name = verboseLoading then some (none, { s with verbose := yesValue s.value })
  else if s.name = exec then some (executeCommand commands s)
  else if suffixType loadModuleSuffix s.name then (setModuleFlag allocator s).map (none, ·)
  else if suffixType moduleLoadnameSuffix s.name then (setModuleLoadname allocator s).map (none, ·)
  else if suffixType moduleTypeSuffix s.name then (setModuleType allocator s).map (none, ·)
  else if suffixType moduleArgsSuffix s.name then (setModuleArgs allocator s).map (none, ·)
  else if suffixType moduleBeforeloadSuffix s.name then (setModuleBeforeload allocator s).map (none, ·)
  else if suffixType moduleAfterloadSuffix s.name then (setModuleAfterload allocator s).map (none, ·)
  else if suffixType moduleLoaderrorSuffix s.name then (setModuleLoaderror allocator s).map (none, ·)
  else some (setEnvironmentVariable commands s)

/-- process_assignment of a name and a value, and free_buffers. The exception is caught by then. -/
def assign (commands : Commands ι) (allocator : Allocator ι) (s : Settings ι) (assignment : Bytes × Bytes) :
    Option (Settings ι) :=
  (processAssignment commands allocator { s with name := assignment.1, value := assignment.2 }).map fun (_, s) =>
    { s with name := [], value := [] }

def assignAll (commands : Commands ι) (allocator : Allocator ι) : List (Bytes × Bytes) → Settings ι →
    Option (Settings ι)
  | [], s => some s
  | assignment :: rest, s => (assign commands allocator s assignment).bind (assignAll commands allocator rest)

def enableModuleCommand : Bytes := ascii ['e', 'n', 'a', 'b', 'l', 'e', '-', 'm', 'o', 'd', 'u', 'l', 'e']

def enableModule (name : Bytes) (s : Settings ι) : Settings ι :=
  match findModuleOption s.options name (s.options.given.length + 1) s.options.list.first with
  | some (some addr) =>
    { s with options := { s.options with entry := update s.options.entry addr { s.options.entry addr with flag := true } } }
  | _ => s

end Pcbsd.Forth.ModuleOptions
