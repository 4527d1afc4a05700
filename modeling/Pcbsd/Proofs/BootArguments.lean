import Pcbsd.BootCommand
import Pcbsd.Proofs.ModuleRanges

/-! Which of the arguments of the boot command reach the kernel. -/

namespace Pcbsd.Preload
open Lib List Option

variable {w n : Nat} {σ : Type} {machine : Machine w n σ} {bootfile : σ → Option Bytes} {fuel : Nat}
    {world world' : World w n σ}
  {ps : List (Fin n)} {argv : List Bytes}

def userArgs (argv : List Bytes) : List Bytes := if (explicitKernel argv).isSome then argv.drop 2 else argv.drop 1

theorem userArgs_unnamed (unnamed : explicitKernel argv = none) : userArgs argv = argv.drop 1 := by
  rw [userArgs, unnamed]
  rfl

def World.kernelArgs (world : World w n σ) : Option Bytes :=
  (world.preloadedFiles.bind world.heap).bind PreloadedFile.args

def wantedArgs (argv : List Bytes) (world : World w n σ) : Option Bytes :=
  if userArgs argv = [] then world.kernelArgs else unargv (userArgs argv)

def Autoloads (argv : List Bytes) (world : World w n σ) : Prop :=
  world.preloadedFiles = none ∧ explicitKernel argv = none ∧ argv.drop 1 ≠ []

section

theorem closed_any (machine : Machine w n σ) : Closed machine fun _ => True where
  failed _ _ _ _ _ _ _ _ _ _ _ := trivial
  loaded _ _ _ _ _ _ _ _ _ _ _ _ _ := trivial
  undone _ _ _ _ _ _ := trivial

theorem modLoadkld_did_any (fuel : Nat) (kldname : Bytes) (argv : List Bytes) (holds : world.Holds ps) :
    Did machine (fun _ => True) fuel world ps (modLoadkld machine fuel kldname argv world) :=
  modLoadkld_did (closed_any machine) fuel kldname argv world ps holds trivial

variable {kldname : Bytes} {fp : Fin n}

theorem World.Grown.kernelArgs {added : List (Fin n)} (grown : world.Grown world' (fp :: ps) added) :
    world'.kernelArgs = (world.heap fp).bind PreloadedFile.args := by
  have early : fp ∉ added := fun late =>
    (nodup_append.mp grown.holds.chain.nodup).2.2 fp mem_cons_self fp late rfl
  have args (file : Option (PreloadedFile w n)) : (file.map PreloadedFile.unlinked).bind PreloadedFile.args =
    file.bind PreloadedFile.args := by
    cases file <;> rfl
  have first : world'.preloadedFiles = some fp := grown.holds.chain.start_eq
  rw [World.kernelArgs, first, bind_some, ← args, grown.kept fp early, args]

theorem addLoaded_args {filename : Bytes} {tried : World w n σ} {file : PreloadedFile w n} {loader : Int}
    {load : Bytes → Option ModDepend → World w n σ → Outcome (Option Errno) × World w n σ} {last : Option (Fin n)}
    {world₂ : World w n σ}
    (did : ∀ modname verinfo (world : World w n σ) ps, world.Holds ps → True →
      Did machine (fun _ => True) fuel world ps (load modname verinfo world)) (holds : world.Holds [])
    (read : Read machine (fun _ => True) filename world [] fp world' tried file loader)
    (ended : addLoaded load last argv fp world' = (.returned none, world₂)) : world₂.kernelArgs = unargv argv := by
  have here : world'.heap fp = some { file with loader } := by rw [read.heap, Function.update_self]
  obtain ⟨world₁, inserted, fileHere, grown, -⟩ := read.insert holds (unargv argv)
  have inserted' : fileInsertTail fp { world'.set fp { file with loader, args := unargv argv } with
      loadaddr := PreloadedFile.limit { file with loader } } = some world₁ := inserted
  have dependencies := dependLoop_did (P := fun _ => True) did file.metadata grown.holds trivial
  rw [addLoaded, here] at ended
  dsimp only at ended
  rw [inserted'] at ended
  dsimp only at ended
  rw [fileLoadDependencies, fileHere] at ended
  dsimp only at ended
  generalize dependLoop load file.metadata world₁ = result at dependencies ended
  obtain ⟨outcome, world₃⟩ := result
  cases outcome with
  | fault => cases ended
  | running => cases ended
  | returned error =>
    obtain ⟨_, grown', -⟩ := dependencies
    cases error with
    | none =>
      cases ended
      rw [World.Grown.kernelArgs grown', fileHere]
      rfl
    | some error =>
      dsimp only at ended
      generalize discardFrom (some fp) world₃ = discarded at ended
      cases discarded with
      | none => cases ended
      | some _ =>
        cases last with
        | none => cases ended
        | some last =>
          dsimp only at ended
          split at ended <;> cases ended

theorem modLoadkld_args (holds : world.Holds [])
    (loaded : modLoadkld machine fuel kldname argv world = (.returned none, world')) :
    world'.kernelArgs = unargv argv := by
  cases fuel with
  | zero => cases loaded
  | succ fuel =>
    rw [modLoadkld] at loaded
    split at loaded
    next => cases loaded
    next filename outside _ =>
      have searched : ({ world with outside } : World w n σ).Holds [] := ⟨holds.chain, holds.live⟩
      obtain ⟨entries, found, names, -⟩ := searched.files_eq
      obtain rfl : entries = [] := map_eq_nil_iff.mp names
      rw [found] at loaded
      have absent : ¬(fileFindfile ([] : List (Fin n × PreloadedFile w n)) (some filename) none).isSome = true :=
        Bool.false_ne_true
      dsimp only at loaded
      rw [if_neg absent] at loaded
      have read : DidLoad machine (fun _ => True) filename { world with outside } [] _ := fileLoad_did
        (closed_any machine) filename _ trivial
      generalize fileLoad machine filename world.loadaddr { world with outside } = result at read loaded
      obtain ⟨ended, _⟩ := result
      cases ended with
      | error error => cases loaded
      | ok _ =>
        obtain ⟨_, _, _, read⟩ := read
        have loads (modname : Bytes) (verinfo : Option ModDepend) (world : World w n σ) (ps : List (Fin n))
          (holds : world.Holds ps) (layout : True) : Did machine (fun _ => True) fuel world ps
            (modLoad machine (modLoadkld machine fuel) modname verinfo [] world) :=
          modLoad_did (modLoadkld_did (closed_any machine) fuel) modname verinfo [] holds layout
        exact addLoaded_args loads searched read loaded

theorem fileFindfile_first {entries : List (Fin n × PreloadedFile w n)} (names : entries.map Prod.fst = ps) :
    fileFindfile entries none none = ps.head? := by
  subst names
  cases entries <;> rfl

theorem modLoadkld_failed {error : Errno} (holds : world.Holds ps)
    (failed : modLoadkld machine fuel kldname argv world = (.returned (some error), world')) : world'.Holds ps := by
  have did : Did machine (fun _ => True) fuel world ps _ := modLoadkld_did_any fuel kldname argv holds
  rw [failed] at did
  exact did.1.holds holds

theorem modLoadkld_holds (holds : world.Holds ps)
    (loaded : modLoadkld machine fuel kldname argv world = (.returned none, world')) : ∃ ps, world'.Holds ps := by
  have did : Did machine (fun _ => True) fuel world ps _ := modLoadkld_did_any fuel kldname argv holds
  rw [loaded] at did
  obtain ⟨_, grown, -⟩ := did
  exact ⟨_, grown.holds⟩

/-- What loadakernel leaves: a kernel with the arguments behind the first one that it gets, or no file. -/
def Tried (argv : List Bytes) : Bool → World w n σ → Prop
  | true, world => (∃ ps, world.Holds ps) ∧ world.kernelArgs = unargv (argv.drop 1)
  | false, world => world.Holds []

theorem loadakernel_tried {tries : Nat} {loaded : Bool} (try_ : Nat) (holds : world.Holds [])
    (ended : loadakernel machine bootfile fuel argv tries try_ world = (.returned loaded, world')) :
    Tried argv loaded world' := by
  induction tries generalizing try_ world with
  | zero => cases ended
  | succ tries ih =>
    rw [loadakernel] at ended
    split at ended
    next =>
      cases ended
      exact holds
    next name _ =>
      generalize called : modLoadkld machine fuel name (argv.drop 1) world = result at ended
      obtain ⟨outcome, _⟩ := result
      cases outcome with
      | fault => cases ended
      | running => cases ended
      | returned error =>
        cases error with
        | some error => exact ih (try_ + 1) (modLoadkld_failed holds called) ended
        | none =>
          cases ended
          exact ⟨modLoadkld_holds holds called, modLoadkld_args holds called⟩

/-- l_exec is called for the first file of a list, whose arguments are these. -/
def Execs (fp : Fin n) (args : Option Bytes) (world : World w n σ) : Prop :=
  ∃ file, world.heap fp = some file ∧ file.args = args

theorem World.Holds.kernelArgs {file : PreloadedFile w n} (holds : world.Holds ps) (first : ps.head? = some fp)
    (here : world.heap fp = some file) : world.kernelArgs = file.args := by
  rw [World.kernelArgs, holds.chain.start_eq, first, bind_some, here, bind_some]

theorem bootLoaded_execs (holds : world.Holds ps) (ended : bootLoaded argv world = (.returned (some fp), world')) :
    Execs fp (if 1 < argv.length then unargv (argv.drop 1) else world.kernelArgs) world' := by
  obtain ⟨_, found, names, -⟩ := holds.files_eq
  rw [bootLoaded, found] at ended
  dsimp only at ended
  rw [fileFindfile_first names] at ended
  rcases first : ps.head? with _ | head
  · rw [first] at ended
    cases ended
  · obtain ⟨file, here⟩ := isSome_iff_exists.mp (holds.live head (mem_of_head? first))
    rw [first] at ended
    dsimp only at ended
    split at ended
    next more =>
      rw [here] at ended
      cases ended
      rw [if_pos more]
      exact ⟨_, Function.update_self .., rfl⟩
    next fewer =>
      cases ended
      rw [if_neg fewer]
      exact ⟨file, here, (holds.kernelArgs first here).symm⟩

theorem bootLoaded_none (holds : world.Holds []) : bootLoaded argv world = (.returned none, world) := by
  obtain ⟨_, found, names, -⟩ := holds.files_eq
  rw [bootLoaded, found]
  dsimp only
  rw [fileFindfile_first names]
  rfl

theorem bootKernel_execs (holds : world.Holds ps)
    (ended : bootKernel machine bootfile fuel argv world = (.returned (some fp), world')) :
    Execs fp (if world.preloadedFiles = none then unargv (argv.drop 2)
      else if 1 < argv.length then unargv (argv.drop 1) else world.kernelArgs) world' := by
  obtain ⟨_, found, names, -⟩ := holds.files_eq
  have start := holds.chain.start_eq
  rw [bootKernel, found] at ended
  dsimp only at ended
  rw [fileFindfile_first names] at ended
  rw [start]
  rcases ps with _ | ⟨_, _⟩
  · generalize called : loadakernel machine bootfile fuel (argv.drop 1) fuel 0 world = result at ended
    obtain ⟨outcome, world₁⟩ := result
    cases outcome with
    | fault => cases ended
    | running => cases ended
    | returned loaded =>
      have tried := loadakernel_tried 0 holds called
      cases loaded with
      | false =>
        have refused : bootLoaded argv world₁ = (.returned (some fp), world') := ended
        rw [bootLoaded_none tried] at refused
        cases refused
      | true =>
        obtain ⟨⟨ps, holds₁⟩, args⟩ := tried
        have execs := bootLoaded_execs holds₁ ended
        have consumed : ¬1 < (argv.take 1).length := by
          rw [length_take]
          omega
        rw [if_pos rfl, if_neg consumed, args, drop_drop] at execs
        exact execs
  · exact bootLoaded_execs holds (by simpa using ended)

theorem commandBoot_execs (holds : world.Holds ps)
    (ended : commandBoot machine bootfile fuel argv world = (.returned (some fp), world')) :
    Execs fp (if world.preloadedFiles = none then unargv (argv.drop 2)
      else if 1 < argv.length then unargv (argv.drop 1) else world.kernelArgs) world' ∧
        (world.preloadedFiles = none ∨ explicitKernel argv = none) := by
  rw [commandBoot] at ended
  split at ended
  next unnamed => exact ⟨bootKernel_execs holds ended, .inr unnamed⟩
  next name _ =>
    obtain ⟨_, found, names, -⟩ := holds.files_eq
    rw [found] at ended
    dsimp only at ended
    rw [fileFindfile_first names] at ended
    have start := holds.chain.start_eq
    rw [start]
    rcases ps with _ | ⟨head, _⟩
    · refine ⟨?_, .inl head?_nil⟩
      generalize called : modLoadkld machine fuel name (argv.drop 2) world = result at ended
      obtain ⟨outcome, _⟩ := result
      cases outcome with
      | fault => cases ended
      | running => cases ended
      | returned error =>
        cases error with
        | some error => cases ended
        | none =>
          obtain ⟨ps, holds₁⟩ := modLoadkld_holds holds called
          have args := modLoadkld_args holds called
          have execs := bootKernel_execs holds₁ ended
          have consumed : ¬1 < (argv.take 1).length := by
            rw [length_take]
            omega
          rw [if_neg consumed, args] at execs
          split at execs
          next unloaded =>
            have nothing : (argv.take 1).drop 2 = [] := drop_eq_nil_of_le (by rw [length_take]; omega)
            rw [World.kernelArgs, unloaded] at args
            rw [nothing] at execs
            rw [← args]
            exact execs
          next => exact execs
    · rw [if_pos (by exact rfl)] at ended
      cases ended

theorem unargv_cons (arg : Bytes) (rest : List Bytes) :
    unargv (arg :: rest) = some (intercalate [0x20] (arg :: rest)) := rfl

theorem unargv_drop {arg : Bytes} (some_ : arg ≠ []) (rest : List Bytes) : unargv rest ≠ unargv (arg :: rest) := by
  cases rest with
  | nil => exact (some_ne_none _).symm
  | cons next _ =>
    intro same
    rw [unargv_cons, unargv_cons, Option.some.injEq, intercalate_cons_cons] at same
    have lengths := congrArg length same
    rw [length_append] at lengths
    have positive := length_pos_iff.mpr some_
    rw [length_append] at lengths
    omega

theorem lost_first (unnamed : explicitKernel argv = none) (given : argv.drop 1 ≠ []) :
    unargv (argv.drop 2) ≠ unargv (argv.drop 1) := by
  rcases argv with _ | ⟨_, _ | ⟨arg, rest⟩⟩
  · exact absurd rfl given
  · exact absurd rfl given
  · have dash : arg.head? = some charDash := by
      by_contra plain
      rw [explicitKernel, if_neg plain] at unnamed
      cases unnamed
    exact unargv_drop (fun empty => by rw [empty] at dash; cases dash) rest

/-- The kernel gets the arguments of the user exactly if it is not the command that loads it by $bootfile when there are
arguments: the first of them is lost then. -/
theorem commandBoot_args_iff {fp : Fin n} (holds : world.Holds ps)
    (ended : commandBoot machine bootfile fuel argv world = (.returned (some fp), world')) :
    Execs fp (wantedArgs argv world) world' ↔ ¬Autoloads argv world := by
  obtain ⟨⟨file, here, args⟩, route⟩ := commandBoot_execs holds ended
  have decided (wanted : Option Bytes) : Execs fp wanted world' ↔ file.args = wanted := by
    constructor
    · rintro ⟨_, there, rfl⟩
      rw [here] at there
      rw [some.inj there]
    · exact fun same => ⟨file, here, same⟩
  rw [decided, args, wantedArgs, Autoloads]
  by_cases unloaded : world.preloadedFiles = none
  · have nothing : world.kernelArgs = none := by rw [World.kernelArgs, unloaded, bind_none, bind_none]
    rw [if_pos unloaded, nothing, and_iff_right unloaded]
    by_cases explicit : explicitKernel argv = none
    · rw [userArgs_unnamed explicit, and_iff_right explicit, not_not]
      by_cases given : argv.drop 1 = []
      · have fewer : argv.drop 2 = [] := by rw [← (drop_drop : (argv.drop 1).drop 1 = argv.drop 2), given, drop_nil]
        rw [if_pos given, fewer]
        exact iff_of_true rfl given
      · rw [if_neg given]
        refine iff_of_false ?_ given
        exact lost_first explicit given
    · have named := isSome_iff_ne_none.mpr explicit
      rw [userArgs, if_pos named]
      refine iff_of_true ?_ fun both => explicit both.1
      split
      next none_ => rw [none_]; rfl
      next => rfl
  · have unnamed := route.resolve_left unloaded
    rw [if_neg unloaded, userArgs_unnamed unnamed]
    refine iff_of_true ?_ fun both => unloaded both.1
    by_cases given : argv.drop 1 = []
    · have short : ¬1 < argv.length := by
        have lengths := congrArg length given
        rw [length_drop, length_nil] at lengths
        omega
      rw [if_pos given, if_neg short]
    · have long : 1 < argv.length := by
        have lengths := length_pos_iff.mpr given
        rw [length_drop] at lengths
        omega
      rw [if_neg given, if_pos long]

end

/-- "boot", with its arguments. -/
def bootCommand (args : List Bytes) : List Bytes := ascii ("boot".toList) :: args

def slashK : Bytes := [0x2f, 0x6b]

def dashS : Bytes := [charDash, 0x73]

/-- "boot /k -s". -/
theorem commandBoot_explicit :
    Execs 0 (wantedArgs (bootCommand [slashK, dashS]) nothingLoaded)
        (commandBoot twoFormats (fun _ => none) 3 (bootCommand [slashK, dashS]) nothingLoaded).2 ↔
      ¬Autoloads (bootCommand [slashK, dashS]) nothingLoaded :=
  commandBoot_args_iff (show nothingLoaded.Holds [] from ⟨rfl, fun _ inside => (not_mem_nil inside).elim⟩)
    (Prod.ext (by decide) rfl)

/-- "boot -s" with $bootfile naming the same kernel: it gets no arguments. -/
theorem commandBoot_dash :
    (commandBoot twoFormats (fun _ => some slashK) 3 (bootCommand [dashS]) nothingLoaded).1 = .returned (some 0) ∧
      ((commandBoot twoFormats (fun _ => some slashK) 3 (bootCommand [dashS]) nothingLoaded).2.heap 0 |>.map PreloadedFile.args) =
      some none ∧
      wantedArgs (bootCommand [dashS]) nothingLoaded = some dashS := by
  decide

end Pcbsd.Preload
