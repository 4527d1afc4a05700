import Pcbsd.Proofs.UfsSequential
import Pcbsd.Lib.Paths

/-! Which inode lookup finds for a path, on a partition without errors. -/

namespace Pcbsd.Ufsread
open Lib List Option

structure Direct where
  ino : Nat
  type : UInt8
  name : Bytes
  pad : Bytes
  small : ino < 2 ^ 32
  plain : (0 : UInt8) ∉ name
  short : name.length ≤ maxnamlen

namespace Direct

def reclen (e : Direct) : Nat := 9 + e.name.length + e.pad.length

def bytes (e : Direct) : Bytes :=
  toLe 4 e.ino ++ (toLe 2 e.reclen ++ ([e.type] ++ ([UInt8.ofNat e.name.length] ++ (e.name ++ 0 :: e.pad))))

theorem length_bytes (e : Direct) : e.bytes.length = e.reclen := by
  simp only [bytes, reclen, length_append, length_toLe, length_cons, length_nil]
  omega

end Direct

structure DirBlock where
  entries : List Direct
  tiles : (entries.flatMap Direct.bytes).length = devBsize

def DirBlock.bytes (block : DirBlock) : Bytes := block.entries.flatMap Direct.bytes

/-- A file that is a directory of such blocks, no two entries in use with one name. -/
structure Directory (layout : Layout) (disk : Nat → UInt8) (fs : Fs) (d : Nat) (blocks : List DirBlock) : Prop where
  file : WholeFile layout disk fs d
  contents : fileBytes disk fs (fileInode layout disk fs d) 0 (fileInode layout disk fs d).size = blocks.flatMap DirBlock.bytes
  distinct : ((blocks.flatMap DirBlock.entries).filter (·.ino ≠ 0)).Pairwise fun e e' => e.name ≠ e'.name

structure FileSystem (layout : Layout) (disk : Nat → UInt8) (fs : Fs) (dirs : Nat → List DirBlock)
    (isDir : Nat → Prop) : Prop where
  root : isDir rootino
  unused : dirs 0 = []
  directory : ∀ d, isDir d → Directory layout disk fs d (dirs d)
  down : ∀ d, isDir d → ∀ e ∈ (dirs d).flatMap DirBlock.entries, e.ino ≠ 0 → e.type.toNat = dtDir → isDir e.ino

def reach (fs : Fs) : Nat := (ndaddr + fs.nindir) * fs.bsize / devBsize

def entriesOf (fs : Fs) (blocks : List DirBlock) : List Direct := (blocks.take (reach fs)).flatMap DirBlock.entries

theorem le_at {bs xs : Bytes} {n p v : Nat} (placed : At bs p (toLe n v ++ xs)) (small : v < 256 ^ n) : le n p bs = v := by
  have field := (at_append.mp placed).1.slice
  rw [length_toLe] at field
  rw [le, field, leNat_toLe n v small]

theorem entry_at {bs : Bytes} {p : Nat} {e : Direct} (placed : At bs p e.bytes) (fits : e.reclen ≤ devBsize) :
    le 4 p bs = e.ino ∧ le 2 (p + 4) bs = e.reclen ∧ le 1 (p + 6) bs = e.type.toNat ∧
    (bs.drop (p + 8)).takeWhile (· != 0) = e.name := by
  have at_reclen := (at_append.mp placed).2
  have at_type := (at_append.mp at_reclen).2
  have at_namlen := (at_append.mp at_type).2
  have at_name := (at_append.mp at_namlen).2
  have type := (at_append.mp at_type).1.slice
  refine ⟨le_at placed e.small, le_at at_reclen (Nat.lt_of_le_of_lt fits (by decide)), ?_, ?_⟩
  · rw [le, show slice (p + 6) 1 bs = [e.type] from type]
    exact Nat.add_zero _
  · obtain ⟨_, whole⟩ := at_name
    change _ = bs.drop (p + 8) at whole
    have named : ∀ c ∈ e.name, (c != 0) = true := fun c inside => bne_iff_ne.mpr fun zero => e.plain (zero ▸ inside)
    rw [← whole, append_assoc, takeWhile_append_of_pos named, cons_append, takeWhile_cons_of_neg (by decide),
      append_nil]

def firstNamed (ls : Bool) (name : Bytes) (entries : List Direct) : Option Direct :=
  entries.find? fun e => !ls && e.name == name

theorem scanDir_entries (ls : Bool) (name : Bytes) (entries : List Direct) : ∀ (before : Bytes) fuel,
    (before ++ entries.flatMap Direct.bytes).length = devBsize → devBsize ≤ before.length + fuel →
    scanDir ls name (before ++ entries.flatMap Direct.bytes) fuel before.length =
      some ((firstNamed ls name entries).map fun e => (e.ino, e.type.toNat)) := by
  induction entries with
  | nil =>
    intro before fuel length _
    rw [flatMap_nil, append_nil] at length
    cases fuel with
    | zero =>
      rw [scanDir, if_pos (Nat.le_of_eq length.symm)]
      rfl
    | succ fuel =>
      rw [scanDir, if_pos (Nat.le_of_eq length.symm)]
      rfl
  | cons e entries ih =>
    intro before fuel length enough
    rw [flatMap_cons] at length ⊢
    have size := e.length_bytes
    have least : 9 ≤ e.reclen := by
      rw [Direct.reclen]
      omega
    simp only [length_append] at length
    have placed : At (before ++ (e.bytes ++ entries.flatMap Direct.bytes)) before.length e.bytes := by
      rw [At, drop_left]
      exact prefix_append _ _
    obtain ⟨ino, reclen, type, named⟩ := entry_at placed (by omega)
    cases fuel with
    | zero => omega
    | succ fuel =>
      rw [scanDir, if_neg (by omega), ino, reclen, type, named, firstNamed, List.find?_cons]
      cases (!ls && e.name == name) with
      | true => rfl
      | false =>
        have next := ih (before ++ e.bytes) fuel (by
          simp only [length_append]
          omega) (by
          simp only [length_append]
          omega)
        rw [append_assoc, length_append, size] at next
        exact next

theorem scanDir_block (ls : Bool) (name : Bytes) (block : DirBlock) :
    scanDir ls name block.bytes devBsize 0 = some ((firstNamed ls name block.entries).map fun e => (e.ino, e.type.toNat)) :=
  scanDir_entries ls name block.entries [] devBsize block.tiles (Nat.le_add_left _ _)

section

variable {σ : Type} {layout : Layout} {part : Partition σ} {fs : Fs} {d : Nat} {blocks : List DirBlock}

theorem DirBlock.length_bytes (block : DirBlock) : block.bytes.length = devBsize := block.tiles

variable {disk : Nat → UInt8} {r : Reader} {fuel : Nat} {buf : Bytes} {i : Nat}

theorem Directory.size (directory : Directory layout disk fs d blocks) :
    (fileInode layout disk fs d).size = blocks.length * devBsize := by
  have length := congrArg List.length directory.contents
  rwa [length_fileBytes, length_flatMap_of_sized DirBlock.length_bytes] at length

theorem Directory.piece (directory : Directory layout disk fs d blocks) (less : i < blocks.length) :
    fileBytes disk fs (fileInode layout disk fs d) (devBsize * i) devBsize = blocks[i].bytes := by
  have size := directory.size
  have inside : devBsize * i + devBsize ≤ (fileInode layout disk fs d).size := by
    rw [size, devBsize]
    omega
  have cut := @slice_bytesAt (fileByte disk fs (fileInode layout disk fs d)) 0 _ _ _ inside
  have whole : bytesAt (fileByte disk fs (fileInode layout disk fs d)) 0 (fileInode layout disk fs d).size =
    blocks.flatMap DirBlock.bytes :=
    directory.contents
  rw [whole, Nat.zero_add, ← append_nil (blocks.flatMap _), slice_flatMap DirBlock.length_bytes [] less] at cut
  exact cut.symm

/-- A piece of a directory ends beyond what fsread reaches if the reach is no longer than what is before it. -/
theorem endsBeyond_piece (geometry : Geometry fs) (i : Nat) : EndsBeyond fs (devBsize * i) devBsize ↔ reach fs ≤ i := by
  obtain ⟨m, bsize⟩ : ∃ m, fs.bsize = devBsize * m := by
    obtain ⟨k, shift⟩ := Nat.exists_eq_add_of_le (Nat.le_trans (by decide : 9 ≤ 12) geometry.least)
    exact ⟨2 ^ k, by rw [geometry.bsize, shift, Nat.pow_add]; rfl⟩
  have some : 0 < m := by
    have positive : 0 < fs.bsize := by rw [geometry.bsize]; exact Nat.two_pow_pos _
    exact Nat.pos_of_ne_zero fun zero => by rw [bsize, zero] at positive; cases positive
  have last : devBsize * i + devBsize - 1 = devBsize * i + 511 := rfl
  have block : (devBsize * i + 511) / fs.bsize = i / m := by
    rw [bsize, ← Nat.div_div_eq_div_mul, devBsize]
    exact congrArg (· / m) (by omega)
  have cut : reach fs = (ndaddr + fs.nindir) * m := by
    rw [reach, bsize, ← Nat.mul_assoc, Nat.mul_comm _ devBsize, Nat.mul_assoc, Nat.mul_div_cancel_left _ (by decide)]
  rw [EndsBeyond, Beyond, last, block, cut, Nat.le_div_iff_mul_le some]
  exact and_iff_right (by decide)

structure Settled (layout : Layout) (disk : Nat → UInt8) (fs : Fs) (r : Reader) : Prop where
  coherent : Coherent layout disk fs r
  clean : r.spoiled = false

structure Scanning (layout : Layout) (disk : Nat → UInt8) (fs : Fs) (d i : Nat) (r : Reader) : Prop where
  between : Between layout disk fs d r
  start : startOff r d = devBsize * i

theorem fsread_piece (noErrors : NoErrors part) (file_system : superOf layout part.contents sblockTry = some fs)
    (geometry : Geometry fs) (directory : Directory layout part.contents fs d blocks) (within : i ≤ blocks.length)
    (scanning : Scanning layout part.contents fs d i r) (s : σ) : ∃ result r' s',
      fsread layout part.dev d devBsize r s = (result, r', s') ∧ Settled layout part.contents fs r' ∧
        (∀ block, (blocks.take (reach fs))[i]? = some block →
          result = .count devBsize block.bytes ∧ Scanning layout part.contents fs d (i + 1) r') ∧
        ((blocks.take (reach fs))[i]? = none → result = .count 0 [] ∨ result = .failed) := by
  obtain ⟨result, r', s', ran, between, known, inomap, delivers⟩ :=
    fsread_works part noErrors file_system geometry directory.file scanning.between devBsize s
  have size := directory.size
  have near := delivers.near
  have beyond := delivers.beyond
  rw [scanning.start] at near beyond
  refine ⟨result, r', s', ran, ⟨between.coherent, between.spoiled⟩, fun block found => ?_, fun none => ?_⟩
  · obtain ⟨less, same⟩ := List.getElem?_eq_some_iff.mp found
    rw [length_take] at less
    have whole : min devBsize ((fileInode layout part.contents fs d).size - devBsize * i) = devBsize := by
      rw [size, devBsize]
      omega
    rw [whole, endsBeyond_piece geometry, directory.piece (by omega)] at near
    obtain ⟨counted, fsOff⟩ := near (by omega)
    rw [getElem_take] at same
    rw [same] at counted
    exact ⟨counted, between, (if_pos ⟨known, inomap⟩).trans fsOff⟩
  · have past := List.getElem?_eq_none_iff.mp none
    rw [length_take] at past
    by_cases more : i < blocks.length
    · have whole : min devBsize ((fileInode layout part.contents fs d).size - devBsize * i) = devBsize := by
        rw [size, devBsize]
        omega
      rw [whole, endsBeyond_piece geometry] at beyond
      exact Or.inr (beyond (by omega))
    · have nothing : min devBsize ((fileInode layout part.contents fs d).size - devBsize * i) = 0 := by
        rw [size, devBsize]
        omega
      rw [nothing] at near
      exact Or.inl (near fun ends => absurd ends.1 (Nat.lt_irrefl 0)).1

variable (layout part fs) in
def Continues (client : (Nat → Nat → Bytes → Client) → Client) (r : Reader) (s : σ) (ino type : Nat) : Prop :=
  ∃ buf r' s', Settled layout part.contents fs r' ∧ buf.length = devBsize ∧
    ∀ k, exec layout part.dev (client k) r s = exec layout part.dev (k ino type buf) r' s'

theorem firstNamed_append (ls : Bool) (name : Bytes) (entries more : List Direct) :
    firstNamed ls name (entries ++ more) = (firstNamed ls name entries).or (firstNamed ls name more) :=
  List.find?_append

def answer (d : Nat) (found : Option Direct) : Nat × Nat := found.elim (d, 0) fun e => (e.ino, e.type.toNat)

theorem fsfindLoop_finds (noErrors : NoErrors part) (file_system : superOf layout part.contents sblockTry = some fs)
    (geometry : Geometry fs)
    (directory : Directory layout part.contents fs d blocks) (ls : Bool) (name : Bytes) (fuel : Nat) : ∀ i r s buf,
      i ≤ blocks.length → blocks.length - i < fuel → Scanning layout part.contents fs d i r → buf.length = devBsize →
      let found := answer d (firstNamed ls name (((blocks.take (reach fs)).drop i).flatMap DirBlock.entries))
      Continues layout part fs (fsfindLoop ls name d fuel buf) r s found.1 found.2 := by
  induction fuel with
  | zero => exact fun _ _ _ _ _ none => absurd none (Nat.not_lt_zero _)
  | succ fuel ih =>
    intro i r s buf within enough scanning room
    obtain ⟨_, r', s', ran, settled, some, none⟩ :=
      fsread_piece noErrors file_system geometry directory within scanning s
    cases piece : (blocks.take (reach fs))[i]? with
    | none =>
      have past := List.getElem?_eq_none_iff.mp piece
      rw [drop_eq_nil_of_le past]
      refine ⟨buf, r', s', settled, room, fun k => ?_⟩
      rw [fsfindLoop, exec, ran]
      rcases none piece with rfl | rfl
      · rfl
      · rfl
    | some block =>
      obtain ⟨rfl, next⟩ := some block piece
      obtain ⟨less, same⟩ := List.getElem?_eq_some_iff.mp piece
      have fills := put_zero (block.length_bytes.trans room.symm)
      have turn : ∀ k, exec layout part.dev (fsfindLoop ls name d (fuel + 1) buf k) r s =
          exec layout part.dev ((firstNamed ls name block.entries).elim (fsfindLoop ls name d fuel block.bytes k)
            fun e => k e.ino e.type.toNat block.bytes) r' s' := by
        intro k
        have scan := scanDir_block ls name block
        rw [fsfindLoop, exec, ran]
        rw [devBsize] at scan ⊢
        dsimp only
        rw [fills, scan]
        cases firstNamed ls name block.entries with
        | none => rfl
        | some e => rfl
      rw [drop_eq_getElem_cons less, same, flatMap_cons, firstNamed_append]
      cases found : firstNamed ls name block.entries with
      | some e =>
        refine ⟨block.bytes, r', s', settled, block.length_bytes, fun k => ?_⟩
        rw [turn, found]
        rfl
      | none =>
        rw [length_take] at less
        obtain ⟨buf', r'', s'', settled', room', rest⟩ :=
          ih (i + 1) r' s' block.bytes (by omega) (by omega) next block.length_bytes
        refine ⟨buf', r'', s'', settled', room', fun k => ?_⟩
        rw [turn, found]
        exact rest k

def mostPieces : Nat := 2 ^ 32 / devBsize

theorem fsfind_finds (noErrors : NoErrors part) (file_system : superOf layout part.contents sblockTry = some fs)
    (geometry : Geometry fs) (directory : Directory layout part.contents fs d blocks) (ls : Bool) (name : Bytes)
    (enough : mostPieces ≤ fuel) (settled : Settled layout part.contents fs r) (s : σ) (room : buf.length = devBsize) :
    let found := answer d (firstNamed ls name (entriesOf fs blocks))
    Continues layout part fs (fsfind fuel ls name d buf) r s found.1 found.2 := by
  have size := directory.size
  have small := directory.file.small
  rw [devBsize] at size
  have start : startOff { r with fsOff := 0 % 2 ^ 32 } d = devBsize * 0 := by
    rw [startOff]
    split <;> rfl
  refine fsfindLoop_finds noErrors file_system geometry directory ls name fuel 0 { r with fsOff := 0 % 2 ^ 32 } s buf
    (Nat.zero_le _) ?_ ⟨⟨settled.coherent.seek _, settled.clean, Nat.zero_le _⟩, start⟩ room
  rw [mostPieces, devBsize] at enough
  omega

theorem fsfind_unused (noErrors : NoErrors part) (file_system : superOf layout part.contents sblockTry = some fs)
    (ls : Bool) (name : Bytes) (some : 0 < fuel) (settled : Settled layout part.contents fs r) (s : σ)
    (room : buf.length = devBsize) : Continues layout part fs (fsfind fuel ls name 0 buf) r s 0 0 := by
  have coherent := settled.coherent.seek (0 % 2 ^ 32)
  obtain ⟨r', s', searched⟩ := readSuper_works noErrors file_system coherent s
  have clean := readSuper_clean layout noErrors { r with fsOff := 0 % 2 ^ 32 } s
  rw [searched] at clean
  obtain ⟨_, ready⟩ := (readSuper_spec file_system coherent searched).2 fs rfl
  refine ⟨buf, r', s', ⟨ready.coherent, clean.trans settled.clean⟩, room, fun k => ?_⟩
  obtain ⟨fuel, rfl⟩ := Nat.exists_eq_succ_of_ne_zero (Nat.ne_of_gt some)
  rw [fsfind, exec, fsfindLoop, exec, fsread, searched]
  rfl

end

/-- The inode of the regular file that names lead to, when `pick` says which entry of a directory has a name; 0
without one. -/
def follow (pick : Nat → Bytes → Option Direct) : (ino type : Nat) → List Bytes → Nat
  | ino, type, [] => if type = dtReg then ino else 0
  | ino, type, name :: names =>
    if type = dtDir then (pick ino name).elim 0 fun e => follow pick e.ino e.type.toNat names else 0

section

variable {pick : Nat → Bytes → Option Direct}

theorem follow_other (type : Nat) (notDir : type ≠ dtDir) (notReg : type ≠ dtReg) (ino : Nat) (names : List Bytes) :
    follow pick ino type names = 0 := by
  cases names with
  | nil => rw [follow, if_neg notReg]
  | cons => rw [follow, if_neg notDir]

theorem follow_unused (none : ∀ name, pick 0 name = none) (type : Nat) (names : List Bytes) : follow pick 0 type names = 0 := by
  cases names with
  | nil =>
    rw [follow]
    split <;> rfl
  | cons name names =>
    rw [follow, none name]
    split <;> rfl

end

/-- "?", which asks for a listing at the end of a path. -/
def question : Bytes := [0x3f]

section

variable {σ : Type} {layout : Layout} {part : Partition σ} {fs : Fs} {dirs : Nat → List DirBlock} {isDir : Nat → Prop}

variable (fs dirs) in
def firstEntry (d : Nat) (name : Bytes) : Option Direct := (entriesOf fs (dirs d)).find? fun e => e.name == name

variable (fs dirs) in
def liveEntry (d : Nat) (name : Bytes) : Option Direct :=
  (entriesOf fs (dirs d)).find? fun e => e.name == name && e.ino != 0

theorem mem_entriesOf {blocks : List DirBlock} {e : Direct} (inside : e ∈ entriesOf fs blocks) :
    e ∈ blocks.flatMap DirBlock.entries := by
  obtain ⟨block, taken, there⟩ := mem_flatMap.mp inside
  exact mem_flatMap.mpr ⟨block, mem_of_mem_take taken, there⟩

theorem firstEntry_unused (fs : Fs) (unused : dirs 0 = []) (name : Bytes) : firstEntry fs dirs 0 name = none := by
  rw [firstEntry, unused, entriesOf, take_nil]
  rfl

variable (layout part fs) in
def Returns (client : (Nat → Bytes → Client) → Client) (r : Reader) (s : σ) (ino : Nat) : Prop :=
  ∃ buf r' s', Settled layout part.contents fs r' ∧ buf.length = devBsize ∧
    ∀ k, exec layout part.dev (client k) r s = exec layout part.dev (k ino buf) r' s'

theorem lookup_cons {name : Bytes} (some : name ≠ []) (noSlash : slash ∉ name) (names : List Bytes)
    (fuel depth ino type : Nat) (buf : Bytes) (k : Nat → Bytes → Client) :
    lookup fuel k (depth + 1) (slashed slash (name :: names)) ino type buf =
      if maxnamlen < name.length ∨ type ≠ dtDir then k 0 buf
      else fsfind fuel (decide (name = question ∧ names = [])) name ino buf fun ino dt buf =>
        if dt = 0 then k 0 buf else lookup fuel k depth (slashed slash names) ino dt buf := by
  have path : slashed slash (name :: names) = slash :: (name ++ slashed slash names) := by
    rw [slashed, flatMap_cons, cons_append]
    rfl
  have nonempty : name ++ slashed slash names ≠ [] := fun none => some (append_eq_nil_iff.mp none).1
  have plain : ∀ c ∈ name, (c != 0x2f) = true := fun c inside => bne_iff_ne.mpr fun same =>
    noSlash ((show c = slash from same) ▸ inside)
  have cut : (name ++ slashed slash names).takeWhile (· != 0x2f) = name := by
    rw [takeWhile_append_of_pos plain]
    cases names with
    | nil => exact append_nil _
    | cons next names => exact append_nil _
  have asks : (name ++ slashed slash names == [0x3f]) = decide (name = question ∧ names = []) := by
    refine Bool.eq_iff_iff.mpr (beq_iff_eq.trans (Iff.trans ?_ decide_eq_true_iff.symm))
    constructor
    · intro same
      obtain ⟨c, _, rfl⟩ := exists_cons_of_ne_nil some
      obtain ⟨rfl, none⟩ := List.cons.inj same
      obtain ⟨rfl, none⟩ := append_eq_nil_iff.mp none
      refine ⟨rfl, ?_⟩
      cases names with
      | nil => rfl
      | cons => cases none
    · rintro ⟨rfl, rfl⟩
      rfl
  rw [path, lookup]
  have stripped : (if (slash :: (name ++ slashed slash names)).head? =
    Option.some 0x2f then (slash :: (name ++ slashed slash names)).tail
      else slash :: (name ++ slashed slash names)) = name ++ slashed slash names := if_pos rfl
  simp only [stripped, if_neg nonempty, cut, asks, drop_left]

theorem firstEntry_long {name : Bytes} (long : maxnamlen < name.length) (d : Nat) : firstEntry fs dirs d name = none := by
  rw [firstEntry, List.find?_eq_none]
  intro e _ same
  have short := e.short
  rw [beq_iff_eq.mp same] at short
  omega

section

variable {client : (Nat → Bytes → Client) → Client} {r : Reader} {s : σ} {v : Nat} {buf : Bytes}

theorem Returns.of_eq {client' : (Nat → Bytes → Client) → Client} (same : ∀ k, client k = client' k)
    (returns : Returns layout part fs client' r s v) : Returns layout part fs client r s v := by
  rw [funext same]
  exact returns

theorem returns_here (settled : Settled layout part.contents fs r) (room : buf.length = devBsize) (v : Nat) :
    Returns layout part fs (fun k => k v buf) r s v := ⟨buf, r, s, settled, room, fun _ => rfl⟩

theorem Continues.returns {find : (Nat → Nat → Bytes → Client) → Client} {ino type : Nat}
    (continues : Continues layout part fs find r s ino type)
    (next : (Nat → Bytes → Client) → Nat → Nat → Bytes → Client)
    (rest : ∀ r' s' buf', Settled layout part.contents fs r' → buf'.length = devBsize →
      Returns layout part fs (fun k => next k ino type buf') r' s' v) :
    Returns layout part fs (fun k => find (next k)) r s v := by
  obtain ⟨buf', r', s', settled, room, found⟩ := continues
  obtain ⟨buf'', r'', s'', settled', room', returned⟩ := rest r' s' buf' settled room
  exact ⟨buf'', r'', s'', settled', room', fun k => (found (next k)).trans (returned k)⟩

end

variable {name : Bytes} {e : Direct} {d : Nat}

theorem value_cons {names : List Bytes} (goes : ¬ (name = question ∧ names = [])) (v : Nat) :
    (if (name :: names).getLast? = some question then 0 else v) = if names.getLast? = some question then 0 else v := by
  cases names with
  | nil => rw [List.getLast?_singleton, if_neg fun same => goes ⟨some.inj same, rfl⟩, List.getLast?_nil, if_neg (by decide)]
  | cons next names => rw [List.getLast?_cons_cons]

theorem firstNamed_listing (name : Bytes) (entries : List Direct) : firstNamed true name entries = none :=
  List.find?_eq_none.mpr fun _ _ same => Bool.false_ne_true same

theorem lookup_names_first (part : Partition σ) (noErrors : NoErrors part)
    (file_system : superOf layout part.contents sblockTry = some fs) (geometry : Geometry fs)
    (tree : FileSystem layout part.contents fs dirs isDir) {fuel : Nat} (enough : mostPieces ≤ fuel)
    (names : List Bytes) : ∀ depth ino type r s buf, (∀ name ∈ names, name ≠ [] ∧ slash ∉ name) → names.length < depth →
      (type = dtDir → isDir ino ∨ ino = 0) → Settled layout part.contents fs r → buf.length = devBsize →
      Returns layout part fs (fun k => lookup fuel k depth (slashed slash names) ino type buf) r s
        (if names.getLast? = some question then 0 else follow (firstEntry fs dirs) ino type names) := by
  induction names with
  | nil =>
    intro depth ino type r s buf _ deep _ settled room
    obtain ⟨depth, rfl⟩ := Nat.exists_eq_succ_of_ne_zero (Nat.ne_of_gt deep)
    exact ⟨buf, r, s, settled, room, fun k => rfl⟩
  | cons name names ih =>
    intro depth ino type r s buf plain deep dir settled room
    obtain ⟨depth, rfl⟩ := Nat.exists_eq_succ_of_ne_zero (Nat.ne_of_gt (Nat.lt_of_le_of_lt (Nat.zero_le _) deep))
    obtain ⟨some, noSlash⟩ := plain name mem_cons_self
    refine Returns.of_eq (lookup_cons some noSlash names fuel depth ino type buf) ?_
    by_cases refused : maxnamlen < name.length ∨ type ≠ dtDir
    · have nothing : follow (firstEntry fs dirs) ino type (name :: names) = 0 := by
        rw [follow]
        split
        next same => rw [firstEntry_long (refused.resolve_right (not_not.mpr same)), elim_none]
        next => rfl
      rw [nothing, ite_self]
      exact Returns.of_eq (fun k => if_pos refused) (returns_here settled room 0)
    · refine Returns.of_eq (fun k => if_neg refused) ?_
      have same : type = dtDir := not_not.mp (not_or.mp refused).2
      rcases dir same with directory | rfl
      · have found := fsfind_finds noErrors file_system geometry (tree.directory ino directory)
          (decide (name = question ∧ names = [])) name enough settled s room
        by_cases listing : name = question ∧ names = []
        · rw [decide_eq_true listing, firstNamed_listing] at found
          rw [decide_eq_true listing, listing.1, listing.2, if_pos (by rfl)]
          rw [listing.1] at found
          exact found.returns _ fun r' s' buf' settled room => returns_here settled room 0
        · rw [decide_eq_false listing] at found ⊢
          change Continues layout part fs _ r s (answer ino (firstEntry fs dirs ino name)).1
            (answer ino (firstEntry fs dirs ino name)).2 at found
          rw [follow, if_pos same]
          cases entry : firstEntry fs dirs ino name with
          | none =>
            rw [entry] at found
            rw [elim_none, ite_self]
            exact found.returns _ fun r' s' buf' settled room => returns_here settled room 0
          | some e =>
            rw [entry] at found
            rw [elim_some, value_cons listing]
            refine found.returns _ fun r' s' buf' settled room => ?_
            by_cases unknown : e.type.toNat = 0
            · rw [unknown, follow_other 0 (by decide) (by decide), ite_self]
              exact Returns.of_eq (fun k => if_pos unknown) (returns_here settled room 0)
            · refine Returns.of_eq (fun k => if_neg unknown) ?_
              refine ih depth e.ino e.type.toNat r' s' buf' (fun other inside => plain other (mem_cons_of_mem _ inside))
                (Nat.lt_of_succ_lt_succ deep) (fun isDirectory => ?_) settled room
              by_cases unused : e.ino = 0
              · exact Or.inr unused
              · exact Or.inl (tree.down ino directory e (mem_entriesOf (mem_of_find?_eq_some entry)) unused isDirectory)
      · rw [follow_unused (firstEntry_unused fs tree.unused), ite_self]
        have found := fsfind_unused noErrors file_system (decide (name = question ∧ names = [])) name
          (Nat.lt_of_lt_of_le (by decide) enough) settled s room
        exact found.returns _ fun r' s' buf' settled room => returns_here settled room 0

theorem first_of_live (live : liveEntry fs dirs d name = some e) :
    e.ino ≠ 0 ∧ firstEntry fs dirs d name ≠ none := by
  have both := List.find?_some live
  rw [Bool.and_eq_true, bne_iff_ne] at both
  exact ⟨both.2, fun none => List.find?_eq_none.mp none e (mem_of_find?_eq_some live) both.1⟩

theorem live_of_first (first : firstEntry fs dirs d name = some e) (used : e.ino ≠ 0) :
    liveEntry fs dirs d name = some e := by
  obtain ⟨named, before, after, split, others⟩ := List.find?_eq_some_iff_append.mp first
  rw [liveEntry, split]
  refine List.find?_eq_some_iff_append.mpr ⟨Bool.and_eq_true_iff.mpr ⟨named, bne_iff_ne.mpr used⟩, before, after, rfl,
    fun e' inside => ?_⟩
  have other := others e' inside
  rw [Bool.not_eq_true'] at other ⊢
  rw [other, Bool.false_and]

variable (fs dirs) in
/-- On the way along the names, no removed entry has the name of an entry in use behind it. -/
def Clear : (ino : Nat) → List Bytes → Prop
  | _, [] => True
  | ino, name :: names =>
    ∀ e, liveEntry fs dirs ino name = some e → firstEntry fs dirs ino name = some e ∧ (e.type.toNat = dtDir → Clear e.ino names)

theorem follow_first_iff (unused : dirs 0 = []) (names : List Bytes) : ∀ ino type,
    follow (firstEntry fs dirs) ino type names = follow (liveEntry fs dirs) ino type names ↔
      follow (liveEntry fs dirs) ino type names = 0 ∨ (type = dtDir → Clear fs dirs ino names) := by
  have none_there := follow_unused (firstEntry_unused fs unused)
  induction names with
  | nil => exact fun ino type => iff_of_true rfl (Or.inr fun _ => trivial)
  | cons name names ih =>
    intro ino type
    rw [follow, follow]
    by_cases isDirectory : type = dtDir
    · rw [if_pos isDirectory, if_pos isDirectory, Clear]
      cases live : liveEntry fs dirs ino name with
      | none =>
        refine iff_of_true ?_ (Or.inl rfl)
        cases first : firstEntry fs dirs ino name with
        | none => rfl
        | some e =>
          have dead : e.ino = 0 := by
            by_contra used
            rw [live_of_first first used] at live
            cases live
          rw [elim_some, dead, none_there, elim_none]
      | some e =>
        obtain ⟨used, found⟩ := first_of_live live
        obtain ⟨e', first⟩ := ne_none_iff_exists'.mp found
        rw [first, elim_some, elim_some]
        by_cases dead : e'.ino = 0
        · rw [dead, none_there]
          refine ⟨fun zero => Or.inl zero.symm, fun cases => (cases.resolve_right fun clear => ?_).symm⟩
          obtain rfl := some.inj (clear isDirectory e rfl).1
          exact used dead
        · have same := live_of_first first dead
          obtain rfl : e' = e := some.inj (same.symm.trans live)
          rw [ih]
          refine or_congr_right ⟨fun clear _ other is => ?_, fun clear => (clear isDirectory e' rfl).2⟩
          obtain rfl := some.inj is
          exact ⟨rfl, clear⟩
    · rw [if_neg isDirectory, if_neg isDirectory]
      exact iff_of_true rfl (Or.inl rfl)

/-- lookup returns what the entries in use say, where the way is clear; a path that asks for a listing has no inode. -/
theorem lookup_names_live (part : Partition σ) (noErrors : NoErrors part)
    (file_system : superOf layout part.contents sblockTry = some fs) (geometry : Geometry fs)
    (tree : FileSystem layout part.contents fs dirs isDir) (names : List Bytes)
    (plain : ∀ name ∈ names, name ≠ [] ∧ slash ∉ name) (clear : Clear fs dirs rootino names) {fuel depth : Nat}
    (enough : mostPieces ≤ fuel) (deep : names.length < depth) {r : Reader}
    (settled : Settled layout part.contents fs r) (s : σ) {buf : Bytes} (room : buf.length = devBsize) :
    Returns layout part fs (fun k => lookup fuel k depth (slashed slash names) rootino dtDir buf) r s
      (if names.getLast? = some question then 0 else follow (liveEntry fs dirs) rootino dtDir names) := by
  rw [← (follow_first_iff tree.unused names rootino dtDir).mpr (Or.inr fun _ => clear)]
  exact lookup_names_first part noErrors file_system geometry tree enough names depth rootino dtDir r s buf plain deep
    (fun _ => Or.inl tree.root) settled room

end

/-- The superblock from above, and a root directory with the files "?" and "k". -/
def askBytes : List (Nat × UInt8) :=
  holeyBytes.take 16 ++
    [(82449, 2), (82544, 152), (77824, 17), (77828, 12), (77830, 8), (77831, 1), (77832, 0x3f),
      (77836, 16), (77840, 0xf4), (77841, 1), (77842, 8), (77843, 1), (77844, 0x6b)]

def askDisk (pos : Nat) : UInt8 := (askBytes.lookup pos).getD 0

def askRoot : DirBlock where
  entries :=
    [⟨17, 8, question, [0, 0], by decide, by decide, by decide⟩,
      ⟨16, 8, [0x6b], List.replicate 490 0, by decide, by decide, by decide⟩]
  tiles := by
    simp only [flatMap_cons, flatMap_nil, length_append, Direct.length_bytes, Direct.reclen, length_replicate]
    rfl

def askDirs (d : Nat) : List DirBlock := if d = rootino then [askRoot] else []

theorem ask_found : superOf onDisk askDisk sblockTry = some holeyFs := by
  have super : onDisk.fs (bytesAt askDisk 65536 sblocksize) = holeyFs := by
    simp (disch := decide) only [onDisk, sblocksize, le_bytesAt]
    decide
  rw [sblockTry, superOf, show 65536 / devBsize * devBsize = 65536 from rfl, super]
  rfl

theorem askRoot_size : (fileInode onDisk askDisk holeyFs rootino).size = devBsize := by
  rw [(holeyFs_dinode askDisk rootino 0 (by decide)).1]
  decide

theorem askRoot_block : blockOf askDisk holeyFs (fileInode onDisk askDisk holeyFs rootino) 0 = 152 := by
  rw [blockOf, if_pos (by decide), (holeyFs_dinode askDisk rootino 0 (by decide)).2]
  decide

theorem askRoot_directory : Directory onDisk askDisk holeyFs rootino [askRoot] where
  file := by
    refine ⟨by decide, by rw [askRoot_size]; decide, NoOverlap.single (by rw [sizeOf, askRoot_size]; decide), fun lbn _ inside => ?_⟩
    rw [askRoot_size, devBsize, show holeyFs.bsize = 4096 from rfl] at inside
    obtain rfl : lbn = 0 := by omega
    rw [askRoot_block]
    decide
  contents := by
    have bytes : ∀ i ∈ List.range devBsize,
        fileByte askDisk holeyFs (fileInode onDisk askDisk holeyFs rootino) (0 + i) = askDisk (77824 + i) := by
      intro i inside
      have less := mem_range.mp inside
      rw [devBsize] at less
      have first : i / 4096 = 0 := by omega
      have rest : i % 4096 = i := by omega
      rw [fileByte, Nat.zero_add, show holeyFs.bsize = 4096 from rfl, first, askRoot_block, rest]
      rfl
    rw [askRoot_size, fileBytes, map_congr_left bytes]
    decide +kernel
  distinct := by decide

theorem ask_tree : FileSystem onDisk askDisk holeyFs askDirs (· = rootino) where
  root := rfl
  unused := by decide
  directory d root := by
    obtain rfl := root
    exact askRoot_directory
  down d root e inside used isDirectory := by
    obtain rfl := root
    have files : ∀ e ∈ (askDirs rootino).flatMap DirBlock.entries, e.type.toNat ≠ dtDir := by decide
    exact absurd isDirectory (files e inside)

theorem unread_settled : Settled onDisk askDisk holeyFs unread := ⟨Coherent.start unread_buffers rfl, rfl⟩

theorem lookup_names_live_k :
    follow (liveEntry holeyFs askDirs) rootino dtDir [[0x6b]] = 16 ∧
    Returns onDisk (calm askDisk) holeyFs
      (fun k => lookup mostPieces k 2 (slashed slash [[0x6b]]) rootino dtDir (List.replicate devBsize 0))
      unread () (if [[0x6b]].getLast? = some question then 0 else follow (liveEntry holeyFs askDirs) rootino dtDir
        [[0x6b]]) := by
  refine ⟨by decide, lookup_names_live (calm askDisk) (fun _ _ _ =>
    rfl) ask_found holeyFs_geometry ask_tree [[0x6b]] (by decide) ?_
    (Nat.le_refl _) (by decide) unread_settled () length_replicate⟩
  intro e live
  refine ⟨?_, fun _ => trivial⟩
  rw [← live]
  rfl

theorem Returns.unique {σ : Type} {layout : Layout} {part : Partition σ} {fs : Fs}
    {client : (Nat → Bytes → Client) → Client} {r : Reader} {s : σ} {v w : Nat}
    (one : Returns layout part fs client r s v) (other : Returns layout part fs client r s w) :
    v % 2 ^ 32 = w % 2 ^ 32 := by
  obtain ⟨_, _, _, _, _, returned⟩ := one
  obtain ⟨_, _, _, _, _, returned'⟩ := other
  have same := (returned fun v _ => .seek v .done).symm.trans (returned' fun v _ => .seek v .done)
  exact congrArg (fun state => state.1.fsOff) same

/-- The regular file "/?" is not found. -/
theorem lookup_misses_question :
    ¬ ∀ (part : Partition Unit) (fs : Fs) (dirs : Nat → List DirBlock) (isDir : Nat → Prop), NoErrors part →
    superOf onDisk part.contents sblockTry = some fs → Geometry fs → FileSystem onDisk part.contents fs dirs isDir →
    ∀ names : List Bytes, (∀ name ∈ names, name ≠ [] ∧ slash ∉ name) → ∀ r, Settled onDisk part.contents fs r →
      ∀ buf : Bytes, buf.length = devBsize →
        Returns onDisk part fs (fun k => lookup mostPieces k (names.length + 1) (slashed slash names) rootino dtDir buf)
          r () (follow (liveEntry fs dirs) rootino dtDir names) := by
  intro all
  have claimed := all (calm askDisk) holeyFs askDirs (· = rootino) (fun _ _ _ => rfl) ask_found holeyFs_geometry
    ask_tree [question] (by decide) unread unread_settled (List.replicate devBsize 0) length_replicate
  have returned := lookup_names_first (calm askDisk) (fun _ _ _ => rfl) ask_found holeyFs_geometry ask_tree
    (Nat.le_refl mostPieces)
    [question] 2 rootino dtDir unread () (List.replicate devBsize 0) (by decide) (by decide)
      (fun _ => Or.inl rfl) unread_settled
    length_replicate
  exact absurd (claimed.unique returned) (by decide)

end Pcbsd.Ufsread
