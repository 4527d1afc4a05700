import Mathlib.Data.List.Pairwise
import Pcbsd.Proofs.ModuleUndo

/-! The files in memory over a whole run of load and unload commands: they stand one behind the
other, nothing is at or above loadaddr, and each still consists of the bytes that were read. -/

namespace Pcbsd.Preload
open Lib List

variable {w n : Nat} {σ : Type}

/-- A format loader works at or above the destination that it is given, and puts a file there without
wrapping around. -/
def Places (machine : Machine w n σ) : Prop :=
  ∀ load ∈ machine.fileFormats, ∀ (world : World w n σ) filename dest,
    (∀ error memory outside, load world filename dest = .failed error memory outside →
      ∀ a < dest, memory a = world.memory a) ∧
    ∀ fp unused file memory outside, load world filename dest = .loaded fp unused file memory outside →
      dest ≤ file.addr ∧ file.addr.toNat + file.size.toNat < 2 ^ w ∧ ∀ a < dest, memory a = world.memory a

def Raises (machine : Machine w n σ) : Prop :=
  ∀ archLoadaddr, machine.archLoadaddr = some archLoadaddr → ∀ name addr, addr ≤ archLoadaddr name addr

/-- arch_readin writes from its destination on, and refuses what would wrap around. -/
def ReadsIn (machine : Machine w n σ) : Prop :=
  ∀ outside memory fd dest len got memory' outside',
    machine.archReadin outside memory fd dest len = (got, memory', outside') →
      (∀ a < dest, memory' a = memory a) ∧ (0 < got → dest.toNat + got.toNat < 2 ^ w)

/-- The placements stand in ascending order below loadaddr, with their bytes in memory. -/
structure Layout.Apart (layout : Layout w) : Prop where
  ascending : layout.placements.Pairwise fun p q => p.addr.toNat + p.size.toNat ≤ q.addr.toNat
  below : ∀ p ∈ layout.placements, p.addr.toNat + p.size.toNat ≤ layout.loadaddr.toNat
  image : ∀ p ∈ layout.placements, layout.memory.bytes p.addr p.size = p.image

theorem Memory.bytes_congr {memory memory' : Memory w} {addr size limit : BitVec w}
    (below : addr.toNat + size.toNat ≤ limit.toNat) (same : ∀ a < limit, memory' a = memory a) :
    memory'.bytes addr size = memory.bytes addr size := by
  refine map_congr_left ?_
  intro i inside
  refine same _ ?_
  have short := mem_range.mp inside
  rw [BitVec.lt_def, BitVec.toNat_add, BitVec.toNat_ofNat, Nat.mod_eq_of_lt (by omega : i < 2 ^ w),
    Nat.mod_eq_of_lt (by omega)]
  omega

namespace Layout.Apart

variable {loadaddr loadaddr' : BitVec w} {memory memory' : Memory w} {placements more : List (Placement w)}

theorem raise (apart : Apart ⟨loadaddr, memory, placements⟩) (up : loadaddr ≤ loadaddr')
    (same : ∀ a < loadaddr, memory' a = memory a) : Apart ⟨loadaddr', memory', placements⟩ where
  ascending := apart.ascending
  below p member := (apart.below p member).trans up
  image p member := by
    rw [← apart.image p member]
    exact Memory.bytes_congr (apart.below p member) same

theorem add {addr size : BitVec w} (apart : Apart ⟨loadaddr, memory, placements⟩) (above : loadaddr ≤ addr)
    (room : addr.toNat + size.toNat < 2 ^ w) :
    Apart ⟨addr + size, memory, placements ++ [⟨addr, size, memory.bytes addr size⟩]⟩ where
  ascending := by
    rw [pairwise_append]
    refine ⟨apart.ascending, pairwise_singleton _ _, ?_⟩
    intro p old q new
    rw [mem_singleton.mp new]
    exact (apart.below p old).trans above
  below p member := by
    rw [BitVec.toNat_add, Nat.mod_eq_of_lt room]
    rcases mem_append.mp member with old | new
    · have under := (apart.below p old).trans above
      omega
    · rw [mem_singleton.mp new]
  image p member := by
    rcases mem_append.mp member with old | new
    · exact apart.image p old
    · rw [mem_singleton.mp new]

theorem drop {last : Placement w} (apart : Apart ⟨loadaddr, memory, placements ++ last :: more⟩) :
    Apart ⟨last.limit, memory, placements ++ [last]⟩ where
  ascending := by
    refine apart.ascending.sublist ?_
    exact List.Sublist.append_left (singleton_sublist.mpr mem_cons_self) _
  below p member := by
    have final := apart.below last (by simp)
    rw [Placement.limit, BitVec.toNat_add, Nat.mod_eq_of_lt (by omega)]
    rcases mem_append.mp member with old | new
    · have before := (pairwise_append.mp apart.ascending).2.2 p old last mem_cons_self
      omega
    · rw [mem_singleton.mp new]
  image p member := by
    refine apart.image p ?_
    rcases mem_append.mp member with old | new
    · exact mem_append_left _ old
    · rw [mem_singleton.mp new]
      simp

end Layout.Apart

variable {machine : Machine w n σ}

theorem Raises.dest_le (raises : Raises machine) (filename : Bytes) (addr : BitVec w) :
    addr ≤ machine.dest filename addr := by
  rw [Machine.dest]
  split
  · exact BitVec.le_refl addr
  next archLoadaddr given => exact raises archLoadaddr given filename addr

theorem apart_closed (places : Places machine) (raises : Raises machine) : Closed machine Layout.Apart where
  failed load known world filename addr error memory outside placements apart ran := by
    have kept := (places load known world filename _).1 error memory outside ran
    refine apart.raise (BitVec.le_refl addr) ?_
    intro a inside
    exact kept a (Nat.lt_of_lt_of_le inside (raises.dest_le filename addr))
  loaded load known world filename addr fp unused file memory outside placements apart ran := by
    obtain ⟨above, room, kept⟩ := (places load known world filename _).2 fp unused file memory outside ran
    have up := raises.dest_le filename addr
    refine Layout.Apart.add (apart.raise (BitVec.le_refl addr) ?_) (BitVec.le_trans up above) room
    intro a inside
    exact kept a (Nat.lt_of_lt_of_le inside up)
  undone _ _ _ _ _ apart := apart.drop

/-- The heap has room for a structure. -/
def HeapRoom (world : World w n σ) : Prop := ∃ fp, world.heap fp = none

/-- file_alloc gets a structure where the heap has room for one. -/
def Allocates (machine : Machine w n σ) : Prop := ∀ world, HeapRoom world → (machine.fileAlloc world).isSome

/-- What file_loadraw takes from the heap. -/
def Command.Fits (cmd : Command) (world : World w n σ) : Prop := ∀ type name, cmd = .loadType type name → HeapRoom world

/-- The heap has room for a structure whenever a command of the run is to take one with file_alloc. -/
def Roomy (machine : Machine w n σ) (fuel : Nat) : List Command → World w n σ → Prop
  | [], _ => True
  | cmd :: rest, world => cmd.Fits world ∧
    match command machine fuel cmd world with
    | (.returned _, world) => Roomy machine fuel rest world
    | _ => True

def Arranged (world : World w n σ) : Prop := ∃ ps, world.Holds ps ∧ (world.layout ps).Apart

/-- The files are left as they are to stand; with `safe` there is no fault. -/
def Keeps {α : Type} (safe : Prop) : Outcome α × World w n σ → Prop
  | (.fault, _) => ¬safe
  | (_, world) => Arranged world

variable {world world' : World w n σ} {ps : List (Fin n)}

private theorem arranged_same (holds : world.Holds ps) (apart : (world.layout ps).Apart) (outside : σ) :
    Arranged { world with outside } := ⟨ps, ⟨holds.chain, holds.live⟩, apart⟩

private theorem chunk_le {got : Int} {laddr : BitVec w} (some : 0 < got) (room : laddr.toNat + got.toNat < 2 ^ w) :
    laddr ≤ laddr + BitVec.ofInt w got := by
  have small : (BitVec.ofInt w got).toNat = got.toNat := by
    rw [BitVec.toNat_ofInt, Int.emod_eq_of_lt (by omega) (by omega)]
  rw [BitVec.le_def, BitVec.toNat_add, small, Nat.mod_eq_of_lt room]
  omega

private theorem readChunks_spec (readsIn : ReadsIn machine) (fd fuel : Nat) (laddr : BitVec w) (world : World w n σ) :
    ∃ ended memory outside, readChunks machine fd fuel laddr world = (ended, { world with memory, outside }) ∧
      (∀ a < laddr, memory a = world.memory a) ∧ ended ≠ .fault ∧
      ∀ laddr', ended = .returned (some laddr') → laddr ≤ laddr' := by
  induction fuel generalizing laddr world with
  | zero => exact ⟨.running, world.memory, world.outside, rfl, fun _ _ => rfl, by simp, by simp⟩
  | succ fuel ih =>
    obtain ⟨⟨got, memory, outside⟩, ran⟩ : ∃ chunk, machine.archReadin world.outside world.memory fd laddr 4096 = chunk :=
      ⟨_, rfl⟩
    obtain ⟨kept, room⟩ := readsIn _ _ _ _ _ _ _ _ ran
    rw [readChunks, ran]
    dsimp only
    split
    · refine ⟨.returned (some laddr), memory, outside, rfl, kept, by simp, ?_⟩
      intro laddr' same
      cases same
      exact BitVec.le_refl laddr
    · split
      · exact ⟨.returned none, memory, outside, rfl, kept, by simp, by simp⟩
      · have up := chunk_le (by omega) (room (by omega))
        obtain ⟨ended, memory', outside', rest, kept', noFault, final⟩ :=
          ih (laddr + BitVec.ofInt w got) { world with memory, outside }
        refine ⟨ended, memory', outside', rest, ?_, noFault, ?_⟩
        · intro a inside
          rw [kept' a (Nat.lt_of_lt_of_le inside up)]
          exact kept a inside
        · intro laddr' same
          exact BitVec.le_trans up (final laddr' same)

private theorem insertRaw_arranged {fp : Fin n} {laddr : BitVec w} (file : PreloadedFile w n) (holds : world.Holds ps)
    (apart : (world.layout ps).Apart) (unused : world.heap fp = none) (up : world.loadaddr ≤ laddr)
    (addr : file.addr = world.loadaddr) (size : file.size = laddr - world.loadaddr) :
    ∃ world₁, fileInsertTail fp { world.set fp file with
        loadaddr := laddr,
        image := Function.update world.image fp (world.memory.bytes file.addr file.size) } = some world₁ ∧
      ∀ outside : σ, Arranged { world₁ with outside } := by
  obtain ⟨world₁, inserted, -, grown, layout⟩ := insert_grown { world.set fp file with
    loadaddr := laddr, image := Function.update world.image fp (world.memory.bytes file.addr file.size) }
    holds unused rfl rfl rfl
  refine ⟨world₁, inserted, ?_⟩
  have length : file.size.toNat = laddr.toNat - world.loadaddr.toNat := by rw [size, BitVec.toNat_sub_of_le up]
  have added := apart.add (BitVec.le_of_eq addr.symm)
    (by rw [addr, length]; omega : file.addr.toNat + file.size.toNat < 2 ^ w)
  have ends : file.addr + file.size = laddr := by rw [addr, size, BitVec.add_comm, BitVec.sub_add_cancel]
  rw [ends] at added
  have whole : (world₁.layout (ps ++ [fp])).Apart := by
    rw [layout]
    exact added
  exact arranged_same grown.holds whole

private theorem readRaw_keeps (raises : Raises machine) (readsIn : ReadsIn machine) (fuel : Nat) (type name : Bytes) (fd : Nat)
    (holds : world.Holds ps) (apart : (world.layout ps).Apart) :
    Keeps (Allocates machine ∧ HeapRoom world) (readRaw machine fuel type name fd world) := by
  have up := raises.dest_le name world.loadaddr
  obtain ⟨ended, memory, outside, ran, kept, noFault, final⟩ :=
    readChunks_spec readsIn fd fuel (machine.dest name world.loadaddr) { world with loadaddr := machine.dest name world.loadaddr }
  have raised : (World.layout { world with loadaddr := machine.dest name world.loadaddr, memory, outside } ps).Apart := by
    refine apart.raise up ?_
    intro a inside
    exact kept a (Nat.lt_of_lt_of_le inside up)
  have holds' : World.Holds { world with loadaddr := machine.dest name world.loadaddr, memory, outside } ps :=
    ⟨holds.chain, holds.live⟩
  rw [readRaw, ran]
  cases ended with
  | fault => exact absurd rfl noFault
  | running => exact ⟨ps, holds', raised⟩
  | returned laddr =>
    cases laddr with
    | none => exact arranged_same holds' raised _
    | some laddr =>
      dsimp only
      split
      next spent =>
        rintro ⟨allocates, room⟩
        have some := allocates { world with loadaddr := machine.dest name world.loadaddr, memory, outside } room
        rw [spent] at some
        cases some
      next _ unused _ =>
        obtain ⟨_, inserted, arranged⟩ := insertRaw_arranged
          { name, type, args := none, metadata := [], loader := -1, addr := machine.dest name world.loadaddr,
            size := laddr - machine.dest name world.loadaddr, modules := [], next := none }
          holds' raised unused (final laddr rfl) rfl rfl
        rw [inserted]
        exact arranged _

private theorem fileLoadraw_keeps (raises : Raises machine) (readsIn : ReadsIn machine) (fuel : Nat) (type name : Bytes)
    (holds : world.Holds ps) (apart : (world.layout ps).Apart) :
    Keeps (Allocates machine ∧ HeapRoom world) (fileLoadraw machine fuel type name world) := by
  obtain ⟨_, found, -, -⟩ := holds.files_eq
  rw [fileLoadraw, found]
  dsimp only
  split
  · exact ⟨ps, holds, apart⟩
  · split
    next outside _ => exact arranged_same holds apart outside
    next filename outside _ =>
      split
      next outside _ => exact arranged_same holds apart outside
      next fd outside _ =>
        have holds' : World.Holds { world with outside } ps := ⟨holds.chain, holds.live⟩
        exact readRaw_keeps raises readsIn fuel type filename fd holds' apart

private theorem commandUnload_keeps {safe : Prop} (holds : world.Holds ps) :
    Keeps safe (commandUnload machine world) := by
  obtain ⟨_, found, -, -⟩ := holds.files_eq
  have freed : ∃ heap, discardFrom world.preloadedFiles world = some { world with heap } := by
    rw [discardFrom]
    rw [World.files] at found
    rw [found]
    exact ⟨_, rfl⟩
  obtain ⟨heap, freed⟩ := freed
  rw [commandUnload, freed]
  refine ⟨[], ⟨rfl, by simp⟩, ?_⟩
  constructor <;> simp [World.layout]

private theorem Did.keeps {fuel : Nat} {result : Outcome (Option Errno) × World w n σ} (holds : world.Holds ps)
    (did : Did machine Layout.Apart fuel world ps result) : Keeps (KernelFirst machine) (result.1.cmd, result.2) := by
  obtain ⟨ended, _⟩ := result
  cases ended with
  | fault => exact did
  | running =>
    obtain ⟨⟨added, grown, apart⟩, -⟩ := did
    exact ⟨ps ++ added, grown.holds, apart⟩
  | returned error =>
    cases error with
    | some error => exact ⟨ps, did.1.holds holds, did.2⟩
    | none =>
      obtain ⟨added, grown, apart⟩ := did
      exact ⟨ps ++ added, grown.holds, apart⟩

private theorem Keeps.weaken {α : Type} {safe safer : Prop} {result : Outcome α × World w n σ}
    (keeps : Keeps safe result) (weaker : safer → safe) : Keeps safer result := by
  obtain ⟨ended, _⟩ := result
  cases ended with
  | fault => exact fun safer => keeps (weaker safer)
  | running => exact keeps
  | returned _ => exact keeps

theorem command_keeps (places : Places machine) (raises : Raises machine) (readsIn : ReadsIn machine) (fuel : Nat)
    (cmd : Command) (arranged : Arranged world) :
    Keeps (KernelFirst machine ∧ Allocates machine ∧ cmd.Fits world) (command machine fuel cmd world) := by
  obtain ⟨ps, holds, apart⟩ := arranged
  have loads := modLoadkld_did (apart_closed places raises) fuel
  cases cmd with
  | load _ name argv =>
    rw [command]
    split
    · exact (Did.keeps holds (loads name argv world ps holds apart)).weaken And.left
    · exact (Did.keeps holds (modLoad_did loads name none argv holds apart)).weaken And.left
  | loadType type name =>
    rw [command]
    split
    · exact ⟨ps, holds, apart⟩
    · exact (fileLoadraw_keeps raises readsIn fuel type name holds apart).weaken fun safe => ⟨safe.2.1, safe.2.2 type name rfl⟩
  | unload => exact commandUnload_keeps holds

theorem commands_keeps (places : Places machine) (raises : Raises machine) (readsIn : ReadsIn machine) (fuel : Nat)
    (cmds : List Command) (arranged : Arranged world) :
    Keeps (KernelFirst machine ∧ Allocates machine ∧ Roomy machine fuel cmds world) (commands machine fuel cmds world) := by
  induction cmds generalizing world with
  | nil => exact arranged
  | cons cmd cmds ih =>
    have step := command_keeps places raises readsIn fuel cmd arranged
    rw [commands, Roomy]
    generalize command machine fuel cmd world = result at step ⊢
    obtain ⟨ended, _⟩ := result
    cases ended with
    | fault => exact fun safe => step ⟨safe.1, safe.2.1, safe.2.2.1⟩
    | running => exact step
    | returned _ => exact (ih step).weaken fun safe => ⟨safe.1, safe.2.1, safe.2.2.2⟩

/-- After any load and unload commands, in whatever way each of them ended, the files stand in ascending
order without overlap, loadaddr is behind them, and their bytes are those that were read. No pointer
leads astray where the kernel has no dependencies and memory for the structures does not run out. -/
theorem loaded_files_apart (places : Places machine) (raises : Raises machine) (readsIn : ReadsIn machine)
    (world : World w n σ) (empty : world.preloadedFiles = none) (fuel : Nat) (cmds : List Command) :
    let ended := (commands machine fuel cmds world).1
    let world' := (commands machine fuel cmds world).2
    (ended ≠ .fault → ∃ files, world'.files = some files ∧
      files.Pairwise (fun entry later => entry.2.addr.toNat + entry.2.size.toNat ≤ later.2.addr.toNat) ∧
      (∀ entry ∈ files, entry.2.addr.toNat + entry.2.size.toNat ≤ world'.loadaddr.toNat) ∧
      ∀ entry ∈ files, world'.memory.bytes entry.2.addr entry.2.size = world'.image entry.1) ∧
    (KernelFirst machine → Allocates machine → Roomy machine fuel cmds world → ended ≠ .fault) := by
  have start : Arranged world := by
    refine ⟨[], ⟨empty, by simp⟩, ?_⟩
    constructor <;> simp [World.layout]
  have kept := commands_keeps places raises readsIn fuel cmds start
  generalize commands machine fuel cmds world = result at kept ⊢
  obtain ⟨ended, world'⟩ := result
  refine ⟨?_, ?_⟩
  · intro noFault
    have arranged : Arranged world' := by
      cases ended with
      | fault => exact absurd rfl noFault
      | returned _ => exact kept
      | running => exact kept
    obtain ⟨ps, holds, apart⟩ := arranged
    obtain ⟨entries, found, names, heap⟩ := holds.files_eq
    have placements : (world'.layout ps).placements
        = entries.map fun entry => ⟨entry.2.addr, entry.2.size, world'.image entry.1⟩ := by
      rw [World.layout, ← names, filterMap_map, ← filterMap_eq_map]
      refine filterMap_congr ?_
      intro entry member
      simp [World.placement, heap entry member]
    obtain ⟨ascending, below, image⟩ := apart
    rw [placements] at ascending below image
    refine ⟨entries, found, pairwise_map.mp ascending, ?_, ?_⟩
    · intro entry member
      exact below _ (mem_map_of_mem member)
    · intro entry member
      exact image _ (mem_map_of_mem member)
  · rintro first allocates roomy rfl
    exact kept ⟨first, allocates, roomy⟩

private theorem fill_below (memory : Memory 8) (dest : BitVec 8) : ∀ a < dest, fill memory dest a = memory a :=
  fun _ inside => if_pos inside

private theorem twoFormats_places : Places twoFormats := by
  intro load member world filename dest
  have formats : load = kernelFormat ∨ load = moduleFormat := by simpa [twoFormats] using member
  cases formats with
  | inl kernel =>
    subst kernel
    rw [kernelFormat]
    split
    · refine ⟨?_, by simp⟩
      rintro _ _ _ ⟨⟩
      simp
    next known =>
      have low : dest ≤ 0x10 := BitVec.not_lt.mp (not_or.mp (not_or.mp known).2).2
      split
      · refine ⟨by simp, ?_⟩
        rintro _ _ _ _ _ ⟨⟩
        refine ⟨low, by decide, ?_⟩
        intro a inside
        exact fill_below _ _ a (Nat.lt_of_lt_of_le inside low)
      · refine ⟨?_, by simp⟩
        rintro _ _ _ ⟨⟩
        simp
  | inr other =>
    subst other
    rw [moduleFormat]
    split
    · refine ⟨?_, by simp⟩
      rintro _ _ _ ⟨⟩
      simp
    next known =>
      have low : dest ≤ 0xf0 := BitVec.not_lt.mp (not_or.mp (not_or.mp known).2).2
      split
      · refine ⟨by simp, ?_⟩
        rintro _ _ _ _ _ ⟨⟩
        refine ⟨BitVec.le_refl dest, ?_, fill_below _ _⟩
        have bound : dest.toNat ≤ 0xf0 := low
        have length : (moduleFile 2 filename dest).size.toNat = 4 := rfl
        change dest.toNat + (moduleFile 2 filename dest).size.toNat < 2 ^ 8
        omega
      · refine ⟨?_, by simp⟩
        rintro _ _ _ ⟨⟩
        simp

def nothingLoaded : World 8 2 Unit where
  preloadedFiles := none
  heap _ := none
  loadaddr := 0
  memory _ := 0
  image _ := []
  outside := ()

private theorem twoFormats_allocates : Allocates twoFormats := by
  rintro _ ⟨fp, free⟩
  rw [twoFormats]
  dsimp only
  split
  · rfl
  next taken =>
    have second : fp = 1 := by
      rcases Fin.exists_fin_two.mp ⟨fp, rfl⟩ with first | second
      · exact absurd (first ▸ free) taken
      · exact second
    rw [dif_pos (second ▸ free)]
    rfl

/-- A kernel, a module that is not left in memory as it lacks another, and a file of a type. -/
def threeLoads : List Command := [.load true [0x2f, 0x6b] [], .load true [0x2f, 0x6d] [], .loadType [0x74] [0x2f, 0x74]]

theorem loaded_files_apart_two_loads :
    let ended := (commands twoFormats 3 threeLoads nothingLoaded).1
    let world' := (commands twoFormats 3 threeLoads nothingLoaded).2
    ended ≠ .fault ∧ ∃ files, world'.files = some files ∧
      files.Pairwise (fun entry later => entry.2.addr.toNat + entry.2.size.toNat ≤ later.2.addr.toNat) ∧
      (∀ entry ∈ files, entry.2.addr.toNat + entry.2.size.toNat ≤ world'.loadaddr.toNat) ∧
      ∀ entry ∈ files, world'.memory.bytes entry.2.addr entry.2.size = world'.image entry.1 := by
  have readsIn : ReadsIn twoFormats := by
    rintro _ _ _ _ _ _ _ _ ⟨⟩
    exact ⟨fun _ _ => rfl, by simp⟩
  have apart := loaded_files_apart twoFormats_places (by intro _ given; cases given) readsIn nothingLoaded
    rfl 3 threeLoads
  have loads (name : Bytes) (world : World 8 2 Unit) : (Command.load true name []).Fits world := by
    rintro _ _ ⟨⟩
  have roomy : Roomy twoFormats 3 threeLoads nothingLoaded := ⟨loads _ _, loads _ _, fun _ _ _ => ⟨1, rfl⟩, trivial⟩
  have noFault := apart.2 twoFormats_kernelFirst twoFormats_allocates roomy
  exact ⟨noFault, apart.1 noFault⟩

end Pcbsd.Preload
