import Mathlib.Data.Fintype.Card
import Mathlib.Data.Fintype.Basic
import Mathlib.Data.List.Nodup
import Pcbsd.Module

/-! The list of preloaded files through a load. Whatever mod_loadkld has loaded on the way stands
behind the files that were there, and when it fails it takes its own files off again. A property of
the list that survives each single step of the recursion survives the call. -/

namespace Pcbsd.Preload
open Lib List Option Function

variable {w n : Nat} {σ : Type}

def PreloadedFile.unlinked (file : PreloadedFile w n) : PreloadedFile w n := { file with next := none }

structure World.Holds (world : World w n σ) (ps : List (Fin n)) : Prop where
  chain : Stailq.Chain world.links world.preloadedFiles ps
  live : ∀ p ∈ ps, (world.heap p).isSome

/-- The files `added` have been loaded behind `ps`, and of the others only links have changed. -/
structure World.Grown (world world' : World w n σ) (ps added : List (Fin n)) : Prop where
  holds : world'.Holds (ps ++ added)
  fresh : ∀ p ∈ added, world.heap p = none
  kept : ∀ p ∉ added, (world'.heap p).map PreloadedFile.unlinked = (world.heap p).map PreloadedFile.unlinked
  other : ∀ p ∉ ps ++ added, world'.heap p = world.heap p

structure World.Same (world world' : World w n σ) : Prop where
  files : world'.preloadedFiles = world.preloadedFiles
  heap : world'.heap = world.heap

variable {world world' world'' : World w n σ} {ps added more : List (Fin n)}

namespace World

variable {file : PreloadedFile w n} {l : List (Fin n)} {last : Fin n}

theorem links_of_heap {p : Fin n} (found : world.heap p = some file) :
    world.links p = file.next := by
  rw [links, found, bind_some]

@[simp] theorem set_heap (p : Fin n) (file : PreloadedFile w n) :
    (world.set p file).heap = update world.heap p (some file) := rfl

theorem set_links (p : Fin n) (file : PreloadedFile w n) :
    (world.set p file).links = update world.links p file.next := by
  funext q
  by_cases same : q = p
  · subst same
    simp [links]
  · simp [links, same]

theorem Same.links (same : world.Same world') : world'.links = world.links := by
  funext p
  rw [World.links, World.links, same.heap]

theorem Same.holds (same : world.Same world') (holds : world.Holds ps) : world'.Holds ps := by
  refine ⟨?_, ?_⟩
  · rw [same.links, same.files]
    exact holds.chain
  · rw [same.heap]
    exact holds.live

private theorem mapM_live (live : ∀ p ∈ l, (world.heap p).isSome) :
    ∃ entries, l.mapM (fun p => (world.heap p).map fun file => (p, file)) = some entries ∧
      entries.map Prod.fst = l ∧ ∀ entry ∈ entries, world.heap entry.1 = some entry.2 := by
  induction l with
  | nil => exact ⟨[], rfl, rfl, by simp⟩
  | cons p l ih =>
    obtain ⟨entries, found, names, heap⟩ := ih fun q member => live q (mem_cons_of_mem _ member)
    obtain ⟨file, here⟩ := isSome_iff_exists.mp (live p mem_cons_self)
    refine ⟨(p, file) :: entries, ?_, ?_, ?_⟩
    · simp [mapM_cons, here, found]
    · rw [map_cons, names]
    · simpa [here] using heap

theorem chain_eq {start : Option (Fin n)} (chain : Stailq.Chain world.links start l)
    (live : ∀ p ∈ l, (world.heap p).isSome) :
    ∃ entries, world.chain start = some entries ∧ entries.map Prod.fst = l ∧
      ∀ entry ∈ entries, world.heap entry.1 = some entry.2 := by
  have room : l.length ≤ n := by simpa using chain.nodup.length_le_card
  rw [World.chain, chain.walk_eq room]
  exact mapM_live live

theorem Holds.files_eq (holds : world.Holds ps) :
    ∃ entries, world.files = some entries ∧ entries.map Prod.fst = ps ∧
      ∀ entry ∈ entries, world.heap entry.1 = some entry.2 :=
  chain_eq holds.chain holds.live

theorem Holds.grown (holds : world.Holds ps) : world.Grown world ps [] where
  holds := by simpa using holds
  fresh := by simp
  kept _ _ := rfl
  other _ _ := rfl

theorem Grown.trans (first : world.Grown world' ps added) (second : world'.Grown world'' (ps ++ added) more) :
    world.Grown world'' ps (added ++ more) where
  holds := by simpa using second.holds
  fresh p member := by
    rcases mem_append.mp member with early | late
    · exact first.fresh p early
    · have free := second.fresh p late
      have new : p ∉ added := by
        intro early
        have live := first.holds.live p (mem_append_right _ early)
        simp [free] at live
      have same := first.kept p new
      rw [free] at same
      simpa using same.symm
  kept p outside := by
    rw [mem_append, not_or] at outside
    rw [second.kept p outside.2, first.kept p outside.1]
  other p outside := by
    rw [← append_assoc] at outside
    rw [second.other p outside, first.other p fun early => outside (mem_append_left _ early)]

theorem Same.grown (same : world.Same world') (grown : world'.Grown world'' ps added) :
    world.Grown world'' ps added where
  holds := grown.holds
  fresh := by simpa [same.heap] using grown.fresh
  kept p outside := by rw [grown.kept p outside, same.heap]
  other p outside := by rw [grown.other p outside, same.heap]

/-- Both worlds hold the same list, so that the links agree with what the files contain. -/
theorem same_of_unlinked (holds : world.Holds (ps ++ [last])) (other : world'.Holds (ps ++ [last]))
    (kept : ∀ p, (world'.heap p).map PreloadedFile.unlinked = (world.heap p).map PreloadedFile.unlinked)
    (outside : ∀ p ∉ ps ++ [last], world'.heap p = world.heap p) : world.Same world' where
  files := by rw [holds.chain.start_eq, other.chain.start_eq]
  heap := by
    funext p
    by_cases member : p ∈ ps ++ [last]
    · have links := holds.chain.links_eq other.chain p member
      obtain ⟨file, here⟩ := isSome_iff_exists.mp (holds.live p member)
      obtain ⟨file', there⟩ := isSome_iff_exists.mp (other.live p member)
      have content := kept p
      rw [links_of_heap here, links_of_heap there] at links
      rw [here, there] at content ⊢
      simp only [map_some, Option.some.injEq, PreloadedFile.unlinked, PreloadedFile.mk.injEq] at content
      cases file
      cases file'
      simp_all
    · exact outside p member

theorem Grown.undo (holds : world.Holds (ps ++ [last])) (grown : world.Grown world' (ps ++ [last]) added)
    (lastHere : world'.heap last = some file) (files : world''.preloadedFiles = world'.preloadedFiles)
    (heap : world''.heap = update (fun p => if p ∈ added then none else world'.heap p) last
      (some { file with next := none })) : world.Same world'' := by
  have distinct := grown.holds.chain.nodup
  rw [nodup_append] at distinct
  have apart : ∀ p ∈ ps ++ [last], p ∉ added := fun p member late => distinct.2.2 p member p late rfl
  have notLast : ∀ p ∈ ps, p ≠ last := by
    rintro p member rfl
    exact (nodup_append.mp distinct.1).2.2 p member p (by simp) rfl
  have before : ∀ p ∈ ps, world''.heap p = world'.heap p := by
    intro p member
    rw [heap, update_of_ne (notLast p member), if_neg (apart p (mem_append_left _ member))]
  have here : world''.heap last = some { file with next := none } := by rw [heap, update_self]
  refine same_of_unlinked holds ⟨?_, ?_⟩ ?_ ?_
  · have chain := grown.holds.chain
    rw [append_assoc, singleton_append] at chain
    rw [files]
    refine chain.cut ?_ ?_
    · intro p member
      rw [links, links, before p member]
    · rw [links_of_heap here]
  · intro p member
    rcases mem_append.mp member with early | final
    · rw [before p early]
      exact grown.holds.live p (mem_append_left _ member)
    · rw [mem_singleton.mp final, here]
      rfl
  · intro p
    by_cases same : p = last
    · subst same
      rw [here, ← grown.kept p (apart p (by simp)), lastHere]
      rfl
    · rw [heap, update_of_ne same]
      split
      next late => rw [grown.fresh p late]
      next early => rw [grown.kept p early]
  · intro p outside
    have same : p ≠ last := by
      rintro rfl
      exact outside (by simp)
    rw [heap, update_of_ne same]
    split
    next late => rw [grown.fresh p late]
    next early => exact grown.other p (by simp_all)

end World

theorem fileInsertTail_eq {fp : Fin n} {file : PreloadedFile w n} (holds : world.Holds ps) (new : fp ∉ ps)
    (here : world.heap fp = some file) :
    ∃ heap preloadedFiles, fileInsertTail fp world = some { world with heap, preloadedFiles } ∧
      ({ world with heap, preloadedFiles } : World w n σ).Holds (ps ++ [fp]) ∧
      heap fp = some { file with next := none } ∧
      (∀ p ≠ fp, (heap p).map PreloadedFile.unlinked = (world.heap p).map PreloadedFile.unlinked) ∧
      ∀ p ∉ ps ++ [fp], heap p = world.heap p := by
  have set : (world.set fp { file with next := none }).Holds ps := by
    refine ⟨?_, ?_⟩
    · refine holds.chain.congr ?_
      intro p member
      rw [World.set_links, update_of_ne]
      rintro rfl
      exact new member
    · intro p member
      rw [World.set_heap]
      by_cases same : p = fp
      · simp [same]
      · rw [update_of_ne same]
        exact holds.live p member
  obtain ⟨entries, found, names, heap⟩ := set.files_eq
  rcases eq_nil_or_concat entries with rfl | ⟨_, ⟨cm, last⟩, rfl⟩
  · subst names
    refine ⟨update world.heap fp (some { file with next := none }), some fp, ?_, ?_, ?_, ?_, ?_⟩
    · rw [fileInsertTail, here]
      dsimp only [bind, Option.bind]
      rw [found]
      rfl
    · refine ⟨⟨rfl, ?_⟩, by simp⟩
      simp [Stailq.Chain, World.links]
    · simp
    · intro p other
      rw [update_of_ne other]
    · intro p outside
      rw [update_of_ne (by simpa using outside)]
  · rw [concat_eq_append] at found names heap
    rw [map_append, map_singleton] at names
    subst names
    have lastHere := heap (cm, last) (by simp)
    have other : cm ≠ fp := by
      rintro rfl
      exact new (by simp)
    refine ⟨update (update world.heap fp (some { file with next := none })) cm
        (some { last with next := some fp }), world.preloadedFiles, ?_, ⟨?_, ?_⟩, ?_, ?_, ?_⟩
    · rw [fileInsertTail, here]
      dsimp only [bind, Option.bind]
      rw [found]
      dsimp only
      rw [getLast?_concat]
      rfl
    · have extended := holds.chain.extend new
      have links : (World.set (World.set world fp { file with next := none }) cm { last with next := some fp }).links
          = update (update world.links fp none) cm (some fp) := by
        rw [World.set_links, World.set_links]
      rw [← links] at extended
      exact extended
    · intro p member
      by_cases final : p = cm
      · simp [final]
      by_cases added : p = fp
      · subst added
        simp [Ne.symm other]
      · dsimp only
        rw [update_of_ne final, update_of_ne added]
        exact holds.live p (by simp_all)
    · rw [update_of_ne (Ne.symm other), update_self]
    · intro p apart
      by_cases final : p = cm
      · subst final
        rw [World.set_heap, update_of_ne other] at lastHere
        rw [update_self, lastHere]
        rfl
      · rw [update_of_ne final, update_of_ne apart]
    · intro p outside
      rw [update_of_ne, update_of_ne]
      · rintro rfl
        exact outside (by simp)
      · rintro rfl
        exact outside (by simp)

end Pcbsd.Preload

/-! mod_loadkld over the recursion through the dependencies. What it does to memory is a stack of
placements: a format loader adds one or fails, and a failed load drops the newest ones and goes back
to the end of the last one left. A property of such stacks that these three moves keep holds after
every call. -/

namespace Pcbsd.Preload
open Lib List Option Function

variable {w n : Nat} {σ : Type}

structure Placement (w : Nat) where
  addr : BitVec w
  size : BitVec w
  image : Bytes

def Placement.limit (placement : Placement w) : BitVec w := placement.addr + placement.size

structure Layout (w : Nat) where
  loadaddr : BitVec w
  memory : Memory w
  placements : List (Placement w)

def World.placement (world : World w n σ) (p : Fin n) : Option (Placement w) :=
  (world.heap p).map fun file => ⟨file.addr, file.size, world.image p⟩

def World.layout (world : World w n σ) (ps : List (Fin n)) : Layout w :=
  ⟨world.loadaddr, world.memory, ps.filterMap world.placement⟩

structure Closed (machine : Machine w n σ) (P : Layout w → Prop) : Prop where
  failed : ∀ load ∈ machine.fileFormats, ∀ (world : World w n σ) filename addr error memory outside placements,
    P ⟨addr, world.memory, placements⟩ →
    load world filename (machine.dest filename addr) = .failed error memory outside → P ⟨addr, memory, placements⟩
  loaded : ∀ load ∈ machine.fileFormats, ∀ (world : World w n σ) filename addr fp unused file memory outside placements,
    P ⟨addr, world.memory, placements⟩ →
    load world filename (machine.dest filename addr) = .loaded fp unused file memory outside →
    P ⟨file.limit, memory, placements ++ [⟨file.addr, file.size, memory.bytes file.addr file.size⟩]⟩
  undone : ∀ addr memory placements last more, P ⟨addr, memory, placements ++ last :: more⟩ →
    P ⟨last.limit, memory, placements ++ [last]⟩

/-- The only files that can be loaded are those of `names`, and each keeps its name. -/
def Named (machine : Machine w n σ) (names : List Bytes) : Prop :=
  ∀ load ∈ machine.fileFormats, ∀ (world : World w n σ) filename dest fp unused file memory outside,
    load world filename dest = .loaded fp unused file memory outside → file.name = filename ∧ filename ∈ names

def KernelFirst (machine : Machine w n σ) : Prop :=
  ∀ load ∈ machine.fileFormats, ∀ (world : World w n σ) filename dest fp unused file memory outside,
    world.preloadedFiles = none → load world filename dest = .loaded fp unused file memory outside →
      ∀ verinfo dmodname, .deplist verinfo dmodname ∉ file.metadata

def World.names (world : World w n σ) (ps : List (Fin n)) : List Bytes :=
  ps.filterMap fun p => (world.heap p).map PreloadedFile.name

def missing (names loaded : List Bytes) : Nat := (names.filter fun name => name ∉ loaded).length

variable {loaded' loaded names : List Bytes}

theorem missing_le_of_subset (subset : loaded ⊆ loaded') :
    missing names loaded' ≤ missing names loaded := by
  refine List.Sublist.length_le (monotone_filter_right names ?_)
  intro name absent
  simp only [decide_eq_true_eq] at absent ⊢
  exact fun member => absent (subset member)

theorem missing_lt_of_subset {name : Bytes} (subset : loaded ⊆ loaded') (known : name ∈ names)
    (before : name ∉ loaded) (after : name ∈ loaded') :
    missing names loaded' < missing names loaded := by
  have sublist : (names.filter fun name => name ∉ loaded').Sublist (names.filter fun name => name ∉ loaded) := by
    refine monotone_filter_right names ?_
    intro name absent
    simp only [decide_eq_true_eq] at absent ⊢
    exact fun member => absent (subset member)
  refine Nat.lt_of_le_of_ne sublist.length_le ?_
  intro same
  have equal := sublist.eq_of_length same
  have member : name ∈ names.filter fun name => name ∉ loaded := mem_filter.mpr ⟨known, by simpa using before⟩
  rw [← equal] at member
  simpa [after] using (mem_filter.mp member).2

variable {world world' world'' : World w n σ} {ps added more : List (Fin n)}

namespace World

theorem Grown.name (grown : world.Grown world' ps added) {p : Fin n} (old : p ∉ added) :
    (world'.heap p).map PreloadedFile.name = (world.heap p).map PreloadedFile.name := by
  have kept := congrArg (Option.map PreloadedFile.name) (grown.kept p old)
  simpa [Option.map_map, comp_def, PreloadedFile.unlinked] using kept

theorem Grown.names_subset (grown : world.Grown world' ps added) : world.names ps ⊆ world'.names (ps ++ added) := by
  intro name member
  obtain ⟨p, inside, named⟩ := mem_filterMap.mp member
  refine mem_filterMap.mpr ⟨p, mem_append_left _ inside, ?_⟩
  rw [grown.name, named]
  intro late
  rw [grown.fresh p late] at named
  cases named

theorem Same.refl (world : World w n σ) : world.Same world := ⟨rfl, rfl⟩

theorem Same.trans (first : world.Same world') (second : world'.Same world'') : world.Same world'' :=
  ⟨second.files.trans first.files, second.heap.trans first.heap⟩

theorem Holds.unused (holds : world.Holds ps) {p : Fin n} (free : world.heap p = none) : p ∉ ps := by
  intro member
  have live := holds.live p member
  simp [free] at live

end World

variable {machine : Machine w n σ} {P : Layout w → Prop}

/-- What file_load has done to the world when it returns a file: some formats have failed, and one has
read the file into a structure of its own. -/
structure Read (machine : Machine w n σ) (P : Layout w → Prop) (filename : Bytes) (world : World w n σ)
    (ps : List (Fin n))
    (fp : Fin n) (world' : World w n σ) (tried : World w n σ) (file : PreloadedFile w n) (loader : Int) : Prop where
  same : world.Same tried
  loadaddr : tried.loadaddr = world.loadaddr
  unused : tried.heap fp = none
  heap : world'.heap = update tried.heap fp (some { file with loader })
  files : world'.preloadedFiles = tried.preloadedFiles
  image : world'.image = update tried.image fp (world'.memory.bytes file.addr file.size)
  layout : P ⟨file.limit, world'.memory,
    (tried.layout ps).placements ++ [⟨file.addr, file.size, world'.memory.bytes file.addr file.size⟩]⟩
  named : ∀ names, Named machine names → file.name = filename ∧ filename ∈ names
  first : KernelFirst machine → world.preloadedFiles = none →
    ∀ verinfo dmodname, .deplist verinfo dmodname ∉ file.metadata

def DidLoad (machine : Machine w n σ) (P : Layout w → Prop) (filename : Bytes) (world : World w n σ)
    (ps : List (Fin n)) : Except Errno (Fin n) × World w n σ → Prop
  | (.error _, world') => world.Same world' ∧ world'.loadaddr = world.loadaddr ∧ P (world'.layout ps)
  | (.ok fp, world') => ∃ tried file loader, Read machine P filename world ps fp world' tried file loader

private theorem loadFormats_did (closed : Closed machine P) (filename : Bytes)
    (formats : List ((world : World w n σ) → Bytes → BitVec w → Loaded world)) (listed : formats ⊆ machine.fileFormats)
    (i : Int) (start world : World w n σ) (same : start.Same world) (loadaddr : world.loadaddr = start.loadaddr)
    (layout : P (world.layout ps)) :
    DidLoad machine P filename start ps
      (loadFormats filename (machine.dest filename start.loadaddr) formats i world) := by
  induction formats generalizing i world with
  | nil => exact ⟨same, loadaddr, layout⟩
  | cons load formats ih =>
    have known : load ∈ machine.fileFormats := listed mem_cons_self
    rw [loadFormats]
    split
    next fp unused file memory outside ran =>
      refine ⟨world, file, i, same, loadaddr, unused, rfl, rfl, rfl, ?_, ?_, ?_⟩
      · refine closed.loaded load known world filename world.loadaddr fp unused file memory outside _ layout ?_
        rw [loadaddr]
        exact ran
      · intro names named
        exact named load known world filename _ fp unused file memory outside ran
      · intro first empty
        exact first load known world filename _ fp unused file memory outside (same.files.trans empty) ran
    next memory outside ran =>
      refine ih (fun _ member => listed (mem_cons_of_mem _ member)) (i + 1) _ ⟨same.files, same.heap⟩ loadaddr ?_
      refine closed.failed load known world filename world.loadaddr .eftype memory outside _ layout ?_
      rw [loadaddr]
      exact ran
    next error memory outside _ ran =>
      refine ⟨⟨same.files, same.heap⟩, loadaddr, ?_⟩
      refine closed.failed load known world filename world.loadaddr error memory outside _ layout ?_
      rw [loadaddr]
      exact ran

theorem fileLoad_did (closed : Closed machine P) (filename : Bytes) (world : World w n σ)
    (layout : P (world.layout ps)) :
    DidLoad machine P filename world ps (fileLoad machine filename world.loadaddr world) :=
  loadFormats_did closed filename _ (List.Subset.refl _) 0 world world (World.Same.refl world) rfl layout

def Did (machine : Machine w n σ) (P : Layout w → Prop) (fuel : Nat) (world : World w n σ) (ps : List (Fin n)) :
    Outcome (Option Errno) × World w n σ → Prop
  | (.returned none, world') => ∃ added, world.Grown world' ps added ∧ P (world'.layout (ps ++ added))
  | (.returned (some _), world') => world.Same world' ∧ P (world'.layout ps)
  | (.running, world') => (∃ added, world.Grown world' ps added ∧ P (world'.layout (ps ++ added))) ∧
      ∀ names, Named machine names → fuel ≤ missing names (world.names ps)
  | (.fault, _) => ¬KernelFirst machine

def DidLoop (machine : Machine w n σ) (P : Layout w → Prop) (fuel : Nat) (world : World w n σ) (ps : List (Fin n)) :
    Outcome (Option Errno) × World w n σ → Prop
  | (.returned _, world') => ∃ added, world.Grown world' ps added ∧ P (world'.layout (ps ++ added))
  | (.running, world') => (∃ added, world.Grown world' ps added ∧ P (world'.layout (ps ++ added))) ∧
      ∀ names, Named machine names → fuel ≤ missing names (world.names ps)
  | (.fault, _) => ¬KernelFirst machine

variable {fuel : Nat} {load : Bytes → Option ModDepend → World w n σ → Outcome (Option Errno) × World w n σ}

private theorem grown_after (grown : world.Grown world' ps added)
    (next : ∃ more, world'.Grown world'' (ps ++ added) more ∧ P (world''.layout (ps ++ added ++ more))) :
    ∃ added, world.Grown world'' ps added ∧ P (world''.layout (ps ++ added)) := by
  obtain ⟨more, further, layout⟩ := next
  rw [append_assoc] at layout
  exact ⟨added ++ more, grown.trans further, layout⟩

variable {file : PreloadedFile w n} {result : Outcome (Option Errno) × World w n σ} {filename : Bytes} {fp : Fin n}
  {tried : World w n σ} {loader : Int}

private theorem DidLoop.after (grown : world.Grown world' ps added)
    (did : DidLoop machine P fuel world' (ps ++ added) result) : DidLoop machine P fuel world ps result := by
  obtain ⟨ended, _⟩ := result
  cases ended with
  | returned _ => exact grown_after grown did
  | fault => exact did
  | running =>
    refine ⟨grown_after grown did.1, ?_⟩
    intro names named
    exact (did.2 names named).trans (missing_le_of_subset grown.names_subset)

theorem dependLoop_did
    (did : ∀ modname verinfo (world : World w n σ) ps, world.Holds ps → P (world.layout ps) →
      Did machine P fuel world ps (load modname verinfo world))
    (metadata : List Metadata) (holds : world.Holds ps) (layout : P (world.layout ps)) :
    DidLoop machine P fuel world ps (dependLoop load metadata world) := by
  induction metadata generalizing world ps with
  | nil => exact ⟨[], holds.grown, by simpa using layout⟩
  | cons md metadata ih =>
    cases md with
    | other _ _ => exact ih holds layout
    | deplist verinfo dmodname =>
      obtain ⟨entries, found, -, -⟩ := holds.files_eq
      rw [dependLoop, found]
      dsimp only
      split
      · exact ih holds layout
      · have called := did dmodname (some verinfo) world ps holds layout
        generalize load dmodname (some verinfo) world = result at called ⊢
        obtain ⟨ended, _⟩ := result
        cases ended with
        | fault => exact called
        | running => exact called
        | returned error =>
          cases error with
          | some error => exact ⟨[], by simpa using called.1.grown (called.1.holds holds).grown, by simpa using called.2⟩
          | none =>
            obtain ⟨added, grown, layout'⟩ := called
            obtain ⟨entries, found, -, -⟩ := grown.holds.files_eq
            dsimp only
            rw [found]
            dsimp only
            split
            · exact DidLoop.after grown (ih grown.holds layout')
            · exact ⟨added, grown, layout'⟩

theorem dependLoop_none {metadata : List Metadata} (free : ∀ verinfo dmodname, .deplist verinfo dmodname ∉ metadata) :
    dependLoop load metadata world = (.returned none, world) := by
  induction metadata with
  | nil => rfl
  | cons md metadata ih =>
    cases md with
    | other _ _ => exact ih fun verinfo dmodname member => free verinfo dmodname (mem_cons_of_mem _ member)
    | deplist verinfo dmodname => exact absurd mem_cons_self (free verinfo dmodname)

theorem discardFrom_eq (holds : world.Holds (ps ++ fp :: more)) :
    discardFrom (some fp) world =
      some { world with heap := fun p => if p ∈ fp :: more then none else world.heap p } := by
  have chain : Stailq.Chain world.links (some fp) (fp :: more) := ⟨rfl, holds.chain.after⟩
  obtain ⟨_, found, names, -⟩ := World.chain_eq chain fun p member => holds.live p (mem_append_right _ member)
  rw [discardFrom, found]
  simp only [bind, Option.bind, names]

theorem insert_grown {bytes : Bytes} (world' : World w n σ) (holds : world.Holds ps) (unused : world.heap fp = none)
    (files : world'.preloadedFiles = world.preloadedFiles)
    (heap : world'.heap = update world.heap fp (some file))
    (image : world'.image = update world.image fp bytes) :
    ∃ world₁, fileInsertTail fp world' = some world₁ ∧ world₁.heap fp = some { file with next := none } ∧
      world.Grown world₁ ps [fp] ∧
      world₁.layout (ps ++ [fp])
        = ⟨world'.loadaddr, world'.memory, (world.layout ps).placements ++ [⟨file.addr, file.size, bytes⟩]⟩ := by
  have new := holds.unused unused
  have tail : world'.Holds ps := by
    refine ⟨?_, ?_⟩
    · rw [files]
      refine holds.chain.congr ?_
      intro p member
      have apart : p ≠ fp := by
        rintro rfl
        exact new member
      simp [World.links, heap, apart]
    · intro p member
      rw [heap]
      by_cases same : p = fp
      · simp [same]
      · rw [update_of_ne same]
        exact holds.live p member
  have here : world'.heap fp = some file := by rw [heap, update_self]
  obtain ⟨heap₁, first, inserted, holds₁, here₁, kept, other⟩ := fileInsertTail_eq tail new here
  rw [heap] at kept other
  refine ⟨_, inserted, here₁, ⟨holds₁, by simpa using unused, ?_, ?_⟩, ?_⟩
  · intro p apart
    rw [mem_singleton] at apart
    rw [kept p apart, update_of_ne apart]
  · intro p outside
    have apart : p ≠ fp := by
      rintro rfl
      exact outside (by simp)
    dsimp only
    rw [other p outside, update_of_ne apart]
  · have old : ∀ p ∈ ps, ({ world' with heap := heap₁, preloadedFiles := first } : World w n σ).placement p
        = world.placement p := by
      intro p member
      have apart : p ≠ fp := by
        rintro rfl
        exact new member
      have content := kept p apart
      rw [update_of_ne apart] at content
      have ranges := congrArg (Option.map fun file => (⟨file.addr, file.size, world.image p⟩ : Placement w)) content
      simp only [Option.map_map, comp_def, PreloadedFile.unlinked] at ranges
      simp only [World.placement, image, update_of_ne apart]
      exact ranges
    rw [World.layout, filterMap_append, filterMap_congr old, filterMap_cons, filterMap_nil]
    simp only [World.placement, here₁, map_some, image, update_self]
    rfl

theorem Read.insert (holds : world.Holds ps) (read : Read machine P filename world ps fp world' tried file loader)
    (args : Option Bytes) :
    ∃ world₁, fileInsertTail fp
        { world'.set fp { file with loader, args } with loadaddr := file.limit } = some world₁ ∧
      world₁.heap fp = some { file with loader, args, next := none } ∧
      world.Grown world₁ ps [fp] ∧ P (world₁.layout (ps ++ [fp])) := by
  have heap : update world'.heap fp (some { file with loader, args })
      = update tried.heap fp (some { file with loader, args }) := by rw [read.heap, update_idem]
  obtain ⟨world₁, inserted, here, grown, layout⟩ :=
    insert_grown { world'.set fp { file with loader, args } with loadaddr := file.limit }
      (read.same.holds holds) read.unused read.files heap read.image
  refine ⟨world₁, inserted, here, read.same.grown grown, ?_⟩
  rw [layout]
  exact read.layout

private theorem undone_did {last : Fin n} (closed : Closed machine P) (holds : world.Holds (ps ++ [last]))
    (grown : world.Grown world' (ps ++ [last]) (fp :: more)) (layout : P (world'.layout (ps ++ [last] ++ fp :: more)))
    (lastHere : world'.heap last = some file) :
    let freed : World w n σ := { world' with heap := fun p => if p ∈ fp :: more then none else world'.heap p }
    let undone : World w n σ := { freed.set last { file with next := none } with loadaddr := file.limit }
    world.Same undone ∧ P (undone.layout (ps ++ [last])) := by
  intro freed undone
  have same : world.Same undone := grown.undo holds lastHere rfl rfl
  refine ⟨same, ?_⟩
  have old : ∀ p ∈ ps ++ [last], undone.placement p = world'.placement p := by
    intro p member
    have early : p ∉ fp :: more := fun late => (nodup_append.mp grown.holds.chain.nodup).2.2 p member p late rfl
    have ranges := congrArg (Option.map fun file => (⟨file.addr, file.size, world'.image p⟩ : Placement w)) (grown.kept p early)
    simp only [Option.map_map, comp_def, PreloadedFile.unlinked] at ranges
    rw [World.placement, World.placement, same.heap, ranges]
    rfl
  have final : world'.placement last = some ⟨file.addr, file.size, world'.image last⟩ := by
    rw [World.placement, lastHere]
    rfl
  rw [World.layout, append_assoc, filterMap_append, singleton_append, filterMap_cons, final] at layout
  rw [World.layout, filterMap_congr old, filterMap_append, filterMap_cons, final, filterMap_nil]
  exact closed.undone _ _ _ _ _ layout

theorem addLoaded_did (closed : Closed machine P)
    (did : ∀ modname verinfo (world : World w n σ) ps, world.Holds ps → P (world.layout ps) →
      Did machine P fuel world ps (load modname verinfo world)) (holds : world.Holds ps)
    (new : filename ∉ world.names ps) (read : Read machine P filename world ps fp world' tried file loader)
    (argv : List Bytes) :
    Did machine P (fuel + 1) world ps (addLoaded load ps.getLast? argv fp world') := by
  have here : world'.heap fp = some { file with loader } := by rw [read.heap, update_self]
  obtain ⟨world₁, inserted, fileHere, grown, layout⟩ := read.insert holds (unargv argv)
  have dependencies := dependLoop_did did file.metadata grown.holds layout
  have loops : ps = [] → KernelFirst machine → dependLoop load file.metadata world₁ = (.returned none, world₁) := by
    rintro rfl first
    exact dependLoop_none (read.first first holds.chain)
  have inserted' : fileInsertTail fp { world'.set fp { file with loader, args := unargv argv } with
      loadaddr := PreloadedFile.limit { file with loader } } = some world₁ := inserted
  rw [addLoaded, here]
  dsimp only
  rw [inserted']
  dsimp only
  rw [fileLoadDependencies, fileHere]
  dsimp only
  generalize dependLoop load file.metadata world₁ = result at dependencies loops ⊢
  obtain ⟨ended, world₂⟩ := result
  cases ended with
  | fault => exact dependencies
  | running =>
    refine ⟨grown_after grown dependencies.1, ?_⟩
    intro names named
    obtain ⟨sameName, known⟩ := read.named names named
    have inside : filename ∈ world₁.names (ps ++ [fp]) := by
      refine mem_filterMap.mpr ⟨fp, by simp, ?_⟩
      rw [fileHere]
      exact congrArg some sameName
    exact (dependencies.2 names named).trans_lt (missing_lt_of_subset grown.names_subset known new inside)
  | returned error =>
    obtain ⟨added, grown', layout'⟩ := dependencies
    cases error with
    | none => exact grown_after grown ⟨added, grown', layout'⟩
    | some error =>
      have all : world.Grown world₂ ps (fp :: added) := grown.trans grown'
      rw [append_assoc] at layout'
      dsimp only
      rw [discardFrom_eq all.holds]
      rcases eq_nil_or_concat ps with rfl | ⟨_, last, rfl⟩
      · intro first
        cases loops rfl first
      · rw [concat_eq_append] at *
        obtain ⟨_, lastHere⟩ := isSome_iff_exists.mp (all.holds.live last (by simp))
        have early : last ∉ fp :: added := by
          intro late
          exact (nodup_append.mp all.holds.chain.nodup).2.2 last (by simp) last late rfl
        rw [getLast?_concat]
        dsimp only
        rw [if_neg early, lastHere]
        exact undone_did closed holds all layout' lastHere

private theorem Did.of_outside (outside : σ)
    (did : Did machine P fuel { world with outside } ps result) : Did machine P fuel world ps result := by
  obtain ⟨ended, _⟩ := result
  have same : world.Same { world with outside } := ⟨rfl, rfl⟩
  cases ended with
  | fault => exact did
  | running =>
    obtain ⟨⟨added, grown, layout⟩, spent⟩ := did
    exact ⟨⟨added, same.grown grown, layout⟩, spent⟩
  | returned error =>
    cases error with
    | some error => exact ⟨same.trans did.1, did.2⟩
    | none =>
      obtain ⟨added, grown, layout⟩ := did
      exact ⟨added, same.grown grown, layout⟩

private theorem holds_outside (holds : world.Holds ps) (outside : σ) :
    ({ world with outside } : World w n σ).Holds ps :=
  ⟨holds.chain, holds.live⟩

theorem modLoad_did {loadkld : Bytes → List Bytes → World w n σ → Outcome (Option Errno) × World w n σ}
    (did : ∀ kldname argv (world : World w n σ) ps, world.Holds ps → P (world.layout ps) →
      Did machine P fuel world ps (loadkld kldname argv world))
    (modname : Bytes) (verinfo : Option ModDepend) (argv : List Bytes) (holds : world.Holds ps) (layout : P (world.layout ps)) :
    Did machine P fuel world ps (modLoad machine loadkld modname verinfo argv world) := by
  rw [modLoad]
  split
  · exact did modname argv world ps holds layout
  · obtain ⟨_, found, -, -⟩ := holds.files_eq
    rw [found]
    dsimp only
    split
    · exact ⟨[], holds.grown, by simpa using layout⟩
    · split
      next outside _ => exact ⟨⟨rfl, rfl⟩, layout⟩
      next filename outside _ => exact Did.of_outside outside (did filename argv _ ps (holds_outside holds outside) layout)

theorem fileFindfile_isSome {entries : List (Fin n × PreloadedFile w n)} (names : entries.map Prod.fst = ps)
    (heap : ∀ entry ∈ entries, world.heap entry.1 = some entry.2) :
    (fileFindfile entries (some filename) none).isSome ↔ filename ∈ world.names ps := by
  subst names
  rw [fileFindfile, isSome_map, find?_isSome, World.names, mem_filterMap]
  constructor
  · rintro ⟨entry, member, same⟩
    have named : filename = entry.2.name := by simpa using same
    refine ⟨entry.1, mem_map_of_mem member, ?_⟩
    rw [heap entry member, named]
    rfl
  · rintro ⟨_, member, named⟩
    obtain ⟨entry, inside, rfl⟩ := List.mem_map.mp member
    refine ⟨entry, inside, ?_⟩
    rw [heap entry inside] at named
    simpa using (some.inj named).symm

theorem modLoadkld_did (closed : Closed machine P) (fuel : Nat) (kldname : Bytes) (argv : List Bytes)
    (world : World w n σ) (ps : List (Fin n)) (holds : world.Holds ps) (layout : P (world.layout ps)) :
    Did machine P fuel world ps (modLoadkld machine fuel kldname argv world) := by
  induction fuel generalizing kldname argv world ps with
  | zero => exact ⟨⟨[], holds.grown, by simpa using layout⟩, fun _ _ => Nat.zero_le _⟩
  | succ fuel ih =>
    rw [modLoadkld]
    split
    next outside _ => exact ⟨⟨rfl, rfl⟩, layout⟩
    next filename outside _ =>
      have searched := holds_outside holds outside
      obtain ⟨_, found, names, heap⟩ := searched.files_eq
      rw [found]
      dsimp only
      split
      · refine Did.of_outside outside ⟨[], searched.grown, ?_⟩
        rw [append_nil]
        exact layout
      next absent =>
        refine Did.of_outside outside ?_
        rw [fileFindfile_isSome names heap] at absent
        have loaded : DidLoad machine P filename { world with outside } ps _ := fileLoad_did closed filename _ layout
        generalize fileLoad machine filename world.loadaddr { world with outside } = result at loaded ⊢
        obtain ⟨ended, _⟩ := result
        cases ended with
        | error error => exact ⟨loaded.1, loaded.2.2⟩
        | ok _ =>
          obtain ⟨_, _, _, read⟩ := loaded
          rw [← getLast?_map, names]
          refine addLoaded_did closed ?_ searched absent read argv
          intro modname verinfo world ps holds layout
          exact modLoad_did ih modname verinfo [] holds layout

def World.Settled (world : World w n σ) (ps : List (Fin n)) : Prop :=
  world.loadaddr = (ps.getLast?.bind world.heap).elim 0 PreloadedFile.limit

private def Layout.Settled (layout : Layout w) : Prop :=
  layout.loadaddr = layout.placements.getLast?.elim 0 Placement.limit

private theorem settled_closed (machine : Machine w n σ) : Closed machine Layout.Settled where
  failed _ _ _ _ _ _ _ _ _ settled _ := settled
  loaded _ _ _ _ _ _ _ _ _ _ _ _ _ := by simp [Layout.Settled, Placement.limit, PreloadedFile.limit]
  undone _ _ _ _ _ _ := by simp [Layout.Settled]

private theorem settled_iff (holds : world.Holds ps) : (world.layout ps).Settled ↔ world.Settled ps := by
  rw [Layout.Settled, World.Settled, World.layout]
  rcases eq_nil_or_concat ps with rfl | ⟨_, last, rfl⟩
  · rfl
  · rw [concat_eq_append] at *
    obtain ⟨_, here⟩ := isSome_iff_exists.mp (holds.live last (by simp))
    rw [filterMap_append, filterMap_cons, getLast?_concat, bind_some, here, World.placement, here]
    simp [Placement.limit, PreloadedFile.limit]

/-- mod_loadkld returns, and if it returns an error it leaves the list and loadaddr as they were. -/
theorem modLoadkld_error_undone {names : List Bytes} (named : Named machine names) (first : KernelFirst machine)
    (world : World w n σ) (ps : List (Fin n)) (holds : world.Holds ps) (settled : world.Settled ps)
    (kldname : Bytes) (argv : List Bytes) (fuel : Nat) (enough : names.length < fuel) :
    ∃ result world', modLoadkld machine fuel kldname argv world = (.returned result, world') ∧
      (result ≠ none → world'.preloadedFiles = world.preloadedFiles ∧ world'.heap = world.heap ∧
        world'.files = world.files ∧ world'.loadaddr = world.loadaddr) := by
  have did := modLoadkld_did (settled_closed machine) fuel kldname argv world ps holds ((settled_iff holds).mpr settled)
  generalize modLoadkld machine fuel kldname argv world = ran at did ⊢
  obtain ⟨ended, world'⟩ := ran
  cases ended with
  | fault => exact absurd first did
  | running =>
    have spent := did.2 names named
    have bound : missing names (world.names ps) ≤ names.length := length_filter_le ..
    omega
  | returned result =>
    refine ⟨result, world', rfl, ?_⟩
    intro error
    cases result with
    | none => exact absurd rfl error
    | some result =>
      obtain ⟨same, layout⟩ := did
      have settled' := (settled_iff (same.holds holds)).mp layout
      refine ⟨same.files, same.heap, ?_, ?_⟩
      · rw [World.files, World.files, World.chain, World.chain, same.links, same.files, same.heap]
      · rw [settled', settled, same.heap]

def kernelFile (n : Nat) : PreloadedFile 8 n :=
  { name := [0x2f, 0x6b], type := [], args := none, metadata := [], loader := 0, addr := 0x10, size := 4, modules := [],
    next := none }

def moduleFile (n : Nat) (filename : Bytes) (dest : BitVec 8) : PreloadedFile 8 n :=
  { kernelFile n with name := filename, addr := dest, metadata := [.deplist ⟨1, 1, 1⟩ [0x78]] }

def fill (memory : Memory 8) (dest : BitVec 8) : Memory 8 := fun a => if a < dest then memory a else 7

def kernelFormat (world : World 8 2 Unit) (filename : Bytes) (dest : BitVec 8) : Loaded world :=
  if world.preloadedFiles ≠ none ∨ filename ≠ [0x2f, 0x6b] ∨ 0x10 < dest then .failed .eftype world.memory ()
  else if unused : world.heap 0 = none then .loaded 0 unused (kernelFile 2) (fill world.memory 0x10) ()
  else .failed (.other 12) world.memory ()

/-- Reads one file, which needs a module that does not exist, behind a kernel. -/
def moduleFormat (world : World 8 2 Unit) (filename : Bytes) (dest : BitVec 8) : Loaded world :=
  if world.preloadedFiles = none ∨ filename ≠ [0x2f, 0x6d] ∨ 0xf0 < dest then .failed .eftype world.memory ()
  else if unused : world.heap 1 = none then .loaded 1 unused (moduleFile 2 filename dest) (fill world.memory dest) ()
  else .failed (.other 12) world.memory ()

def twoFormats : Machine 8 2 Unit where
  fileFormats := [kernelFormat, moduleFormat]
  fileAlloc world :=
    if unused : world.heap 0 = none then some ⟨0, unused⟩ else if unused : world.heap 1 = none then some ⟨1, unused⟩ else none
  archLoadaddr := none
  archReadin _ memory _ _ _ := (0, memory, ())
  onDevice _ _ := false
  stat _ _ := (.regular, ())
  openFile _ _ := (some 3, ())
  close _ _ := ()
  moduledirs _ := ([], ())
  readhints _ _ := (none, ())
  unsetenv _ _ := ()

def kernelLoaded : World 8 2 Unit where
  preloadedFiles := some 0
  heap := update (fun _ => none) 0 (some (kernelFile 2))
  loadaddr := 0x14
  memory _ := 0
  image _ := [0, 0, 0, 0]
  outside := ()

private theorem twoFormats_named : Named twoFormats [[0x2f, 0x6b], [0x2f, 0x6d]] := by
  intro load member world filename dest fp unused file memory outside ran
  have formats : load = kernelFormat ∨ load = moduleFormat := by simpa [twoFormats] using member
  cases formats with
  | inl kernel =>
    subst kernel
    rw [kernelFormat] at ran
    split at ran
    · cases ran
    next known =>
      split at ran
      · cases ran
        have same : filename = [0x2f, 0x6b] := by simpa using (not_or.mp (not_or.mp known).2).1
        exact ⟨same.symm, by simp [same]⟩
      · cases ran
  | inr other =>
    subst other
    rw [moduleFormat] at ran
    split at ran
    · cases ran
    next known =>
      split at ran
      · cases ran
        have same : filename = [0x2f, 0x6d] := by simpa using (not_or.mp (not_or.mp known).2).1
        exact ⟨rfl, by simp [same]⟩
      · cases ran

theorem twoFormats_kernelFirst : KernelFirst twoFormats := by
  intro load member world filename dest fp unused file memory outside empty ran
  have formats : load = kernelFormat ∨ load = moduleFormat := by simpa [twoFormats] using member
  cases formats with
  | inl kernel =>
    subst kernel
    rw [kernelFormat] at ran
    split at ran
    · cases ran
    · split at ran
      · cases ran
        simp [kernelFile]
      · cases ran
  | inr other =>
    subst other
    rw [moduleFormat, if_pos (Or.inl empty)] at ran
    cases ran

theorem modLoadkld_error_undone_missing_module :
    (modLoadkld twoFormats 3 [0x2f, 0x6d] [] kernelLoaded).1 = .returned (some .enoent) ∧
      ∃ result world', modLoadkld twoFormats 3 [0x2f, 0x6d] [] kernelLoaded = (.returned result, world') ∧
        (result ≠ none → world'.preloadedFiles = kernelLoaded.preloadedFiles ∧ world'.heap = kernelLoaded.heap ∧
          world'.files = kernelLoaded.files ∧ world'.loadaddr = kernelLoaded.loadaddr) :=
  ⟨by decide, modLoadkld_error_undone twoFormats_named twoFormats_kernelFirst kernelLoaded [0]
    ⟨⟨rfl, rfl⟩, by decide⟩ rfl [0x2f, 0x6d] [] 3 (by decide)⟩

end Pcbsd.Preload
