import Mathlib.Data.List.TakeWhile
import Pcbsd.Bootinfo

/-! The directory and the environment that a kernel finds, against the files and the variables that the
loader has. -/

namespace Pcbsd.Bootinfo
open Lib Memory Records I386Copy List Option

structure Module where
  name : Bytes
  type : Bytes := []
  args : Option Bytes := none
  addr : Nat := 0
  size : Nat := 0
  metadata : List (Nat × Bytes) := []
  deriving DecidableEq

def cstring (data : Bytes) : Bytes := data.takeWhile (· ≠ 0)

def Module.add (module : Module) (record : Record) : Option Module :=
  if record.tag = modinfoType then some { module with type := cstring record.data }
  else if record.tag = modinfoArgs then some { module with args := some (cstring record.data) }
  else if record.tag = modinfoAddr then some { module with addr := leNat record.data }
  else if record.tag = modinfoSize then some { module with size := leNat record.data }
  else if modinfoMetadata ≤ record.tag then
    some { module with metadata := module.metadata ++ [(record.tag - modinfoMetadata, record.data)] }
  else none

def modules : Option Module → List Record → Option (List Module)
  | last, [] => some last.toList
  | last, record :: records =>
    if record.tag = modinfoName then (modules (some { name := cstring record.data }) records).map (last.toList ++ ·)
    else last.bind fun last => (last.add record).bind fun last => modules (some last) records

def readModules (format : Format) (mem : Mem) (fuel addr : Nat) : Option (List Module × Nat) :=
  (read format.word mem fuel addr).bind fun (records, stop) => (modules none records).map fun modules => (modules, stop)

/-- The variables of an environment: "<name>=<value>" with a NUL behind each, and one more. -/
def variablesOf (block : Bytes) : List (Bytes × Bytes) :=
  ((block.splitOn 0).takeWhile (· ≠ [])).map fun entry =>
    (entry.takeWhile (· ≠ 0x3d), (entry.dropWhile (· ≠ 0x3d)).drop 1)

def PreloadedFile.module (fp : PreloadedFile) : Module where
  name := fp.name.val
  type := fp.type.val
  args := fp.args.map Subtype.val
  addr := fp.addr
  size := fp.size
  metadata := (fp.metadata.filter (·.type &&& modinfomdNocopy = 0)).map fun md => (md.type.toNat, md.data)

def EnvVar.pair (ep : EnvVar) : Bytes × Bytes := (ep.name.val, (ep.value.map Subtype.val).getD [])

def Boot.envp (boot : Boot) : Nat := roundup (lastAddr boot.files) pageSize

def Boot.directory (boot : Boot) (format : Format) (kernend : Nat) : List PreloadedFile :=
  ((format.findKernel boot.files).map fun kfp => boot.files.modify kfp fun fp =>
    { fp with
      metadata := boot.smap.elim [] (fun (base, attr) => attr.elim [] (fun attr => [⟨modinfomdSmapXattr, attr⟩]) ++
      [⟨modinfomdSmap, base⟩]) ++
        [⟨modinfomdKernend, toLe format.word kernend⟩, ⟨modinfomdEnvp, toLe format.word boot.envp⟩,
          ⟨modinfomdHowto, toLe 4 boot.howto⟩] ++ fp.metadata }).getD boot.files

structure Faithful (format : Format) (boot : Boot) (mem : Mem) (done : HandOff) : Prop where
  measured : done.moduleEnd = done.modulep + done.size
  modules : readModules format done.mem (done.kernend - done.modulep) done.modulep =
    some ((boot.directory format done.kernend).map PreloadedFile.module, done.moduleEnd)
  environ : variablesOf (bytesAt done.mem done.envp (done.kernend - done.envp)) = boot.environ.map EnvVar.pair
  files : ∀ fp ∈ boot.files, fp.addr + fp.size ≤ done.envp
  order : done.envp < done.envEnd ∧ done.envEnd ≤ done.modulep ∧ done.modulep < done.moduleEnd ∧
    done.moduleEnd ≤ done.kernend
  kept : ∀ a, a < done.envp ∨ done.moduleEnd ≤ a → done.mem a = mem a

def EnvVar.text (ep : EnvVar) : Bytes := ep.name.val ++ 0x3d :: (ep.value.map Subtype.val).getD [] ++ [0]

def environText (environ : List EnvVar) : Bytes := environ.flatMap EnvVar.text ++ [0]

def FileMetadata.record (md : FileMetadata) : Record := ⟨modinfoMetadata ||| md.type.toNat, md.data⟩

def PreloadedFile.records (word : Nat) (fp : PreloadedFile) : List Record :=
  [⟨modinfoName, fp.name.val ++ [0]⟩, ⟨modinfoType, fp.type.val ++ [0]⟩] ++
    fp.args.elim [] (fun args => [⟨modinfoArgs, args.val ++ [0]⟩]) ++
      [⟨modinfoAddr, toLe word fp.addr⟩, ⟨modinfoSize, toLe word fp.size⟩] ++
    (fp.metadata.filter (·.type &&& modinfomdNocopy = 0)).map FileMetadata.record

def Boot.modulep (boot : Boot) : Nat := roundup (boot.envp + (environText boot.environ).length) pageSize

def Boot.moduleEnd (boot : Boot) (format : Format) : Nat :=
  boot.modulep + room format.word ((boot.directory format 0).flatMap (PreloadedFile.records format.word)) + 8

theorem cstring_text (str : CString) : cstring (str.val ++ [0]) = str.val := by
  rw [cstring, takeWhile_append_of_pos]
  · simp
  · intro c member
    have other : c ≠ 0 := fun zero => str.property (zero ▸ member)
    simpa using other

theorem nocopy_small {type : UInt16} (copied : type &&& modinfomdNocopy = 0) : type.toNat < 2 ^ 15 := by
  have bits := congrArg UInt16.toNat copied
  have bounded := type.toNat_lt
  rw [UInt16.toNat_and, show modinfomdNocopy.toNat = 2 ^ 15 from rfl, UInt16.toNat_zero] at bits
  have bit := congrArg (Nat.testBit · 15) bits
  rw [Nat.testBit_and, Nat.testBit_two_pow_self, Bool.and_true, Nat.zero_testBit, Nat.testBit_eq_decide_div_mod_eq,
    decide_eq_false_iff_not] at bit
  omega

theorem record_tag {md : FileMetadata} (copied : md.type &&& modinfomdNocopy = 0) :
    md.record.tag = 2 ^ 15 + md.type.toNat := by
  have small := nocopy_small copied
  have sum := Nat.two_pow_add_eq_or_of_lt small 1
  exact sum.symm

theorem modules_metadata {mds : List FileMetadata} (copied : ∀ md ∈ mds, md.type &&& modinfomdNocopy = 0)
    (module : Module) (records : List Record) : modules (some module) (mds.map FileMetadata.record ++ records) =
      modules (some { module with metadata := module.metadata ++ mds.map fun md => (md.type.toNat, md.data) })
        records := by
  induction mds generalizing module with
  | nil =>
    rw [map_nil, map_nil, append_nil]
    rfl
  | cons md mds ih =>
    have tag := record_tag (copied md mem_cons_self)
    have name : md.record.tag ≠ modinfoName := by rw [tag, modinfoName]; omega
    have type : md.record.tag ≠ modinfoType := by rw [tag, modinfoType]; omega
    have args : md.record.tag ≠ modinfoArgs := by rw [tag, modinfoArgs]; omega
    have addr : md.record.tag ≠ modinfoAddr := by rw [tag, modinfoAddr]; omega
    have size : md.record.tag ≠ modinfoSize := by rw [tag, modinfoSize]; omega
    have flag : modinfoMetadata ≤ md.record.tag := by rw [tag, modinfoMetadata]; omega
    have value : md.record.tag - modinfoMetadata = md.type.toNat := by rw [tag, modinfoMetadata]; omega
    rw [map_cons, cons_append, modules, if_neg name, bind_some, Module.add, if_neg type, if_neg args, if_neg addr,
      if_neg size, if_pos flag, bind_some, value, ih fun other member => copied other (mem_cons_of_mem md member)]
    simp only [map_cons, append_assoc, singleton_append]
    rfl

def PreloadedFile.Fits (word : Nat) (fp : PreloadedFile) : Prop := fp.addr < 256 ^ word ∧ fp.size < 256 ^ word

theorem modules_file {word : Nat} {fp : PreloadedFile} (fits : fp.Fits word) (last : Option Module)
    (records : List Record) :
    modules last (fp.records word ++ records) = (modules (some fp.module) records).map (last.toList ++ ·) := by
  have behind := fun module => @modules_metadata (fp.metadata.filter (·.type &&& modinfomdNocopy = 0))
    (fun md member => by simpa using (mem_filter.mp member).2) module records
  have name (data : Bytes) (rest : List Record) : modules last (⟨modinfoName, data⟩ :: rest) =
      (modules (some { name := cstring data }) rest).map (last.toList ++ ·) := rfl
  have type (module : Module) (data : Bytes) (rest : List Record) :
    modules (some module) (⟨modinfoType, data⟩ :: rest) =
      modules (some { module with type := cstring data }) rest := rfl
  have args (module : Module) (data : Bytes) (rest : List Record) :
    modules (some module) (⟨modinfoArgs, data⟩ :: rest) =
      modules (some { module with args := some (cstring data) }) rest := rfl
  have addr (module : Module) (data : Bytes) (rest : List Record) :
    modules (some module) (⟨modinfoAddr, data⟩ :: rest) = modules (some { module with addr := leNat data }) rest := rfl
  have size (module : Module) (data : Bytes) (rest : List Record) :
    modules (some module) (⟨modinfoSize, data⟩ :: rest) = modules (some { module with size := leNat data }) rest := rfl
  rw [PreloadedFile.records]
  cases its : fp.args with
  | none =>
    simp only [elim_none, append_nil, cons_append, nil_append]
    rw [name, type, addr, size, behind, leNat_toLe word fp.addr fits.1, leNat_toLe word fp.size fits.2, cstring_text,
      cstring_text, PreloadedFile.module, its]
    rfl
  | some _ =>
    simp only [elim_some, cons_append, nil_append]
    rw [name, type, args, addr, size, behind, leNat_toLe word fp.addr fits.1, leNat_toLe word fp.size fits.2,
      cstring_text, cstring_text, cstring_text, PreloadedFile.module, its]
    rfl

theorem modules_files {word : Nat} {files : List PreloadedFile} (fits : ∀ fp ∈ files, fp.Fits word) (last : Option Module) :
    modules last (files.flatMap (PreloadedFile.records word)) = some (last.toList ++ files.map PreloadedFile.module) := by
  induction files generalizing last with
  | nil =>
    rw [flatMap_nil, map_nil, append_nil]
    rfl
  | cons fp files ih =>
    rw [flatMap_cons, modules_file (fits fp mem_cons_self),
      ih fun other member => fits other (mem_cons_of_mem fp member)]
    rfl

theorem splitOn_text (ep : EnvVar) (rest : Bytes) :
    (ep.text ++ rest).splitOn 0 = (ep.name.val ++ 0x3d :: (ep.value.map Subtype.val).getD []) :: rest.splitOn 0 := by
  have whole : (0 : UInt8) ∉ ep.name.val ++ 0x3d :: (ep.value.map Subtype.val).getD [] := by
    rw [mem_append, mem_cons]
    rintro (name | equals | value)
    · exact ep.name.property name
    · cases equals
    · cases its : ep.value with
      | none => rw [its] at value; cases value
      | some str => rw [its] at value; exact str.property value
  rw [EnvVar.text, append_assoc, singleton_append, splitOn_append_cons_self_of_not_mem whole]

theorem entry_pair {ep : EnvVar} (plain : (0x3d : UInt8) ∉ ep.name.val) (value : Bytes) :
    (ep.name.val ++ 0x3d :: value).takeWhile (· ≠ 0x3d) = ep.name.val ∧
    ((ep.name.val ++ 0x3d :: value).dropWhile (· ≠ 0x3d)).drop 1 = value := by
  have all : ∀ c ∈ ep.name.val, (decide (c ≠ 0x3d)) = true := fun c member => decide_eq_true fun equal =>
    plain (equal ▸ member)
  rw [takeWhile_append_of_pos all, dropWhile_append_of_pos all]
  simp

theorem variablesOf_text {environ : List EnvVar} (plain : ∀ ep ∈ environ, (0x3d : UInt8) ∉ ep.name.val) (rest : Bytes) :
    variablesOf (environText environ ++ rest) = environ.map EnvVar.pair := by
  induction environ with
  | nil =>
    have split : (([] : Bytes) ++ 0 :: rest).splitOn 0 = [] :: rest.splitOn 0 :=
      splitOn_append_cons_self_of_not_mem not_mem_nil rest
    rw [environText, flatMap_nil, append_assoc, singleton_append, variablesOf, split]
    rfl
  | cons ep environ ih =>
    obtain ⟨name, value⟩ := entry_pair (plain ep mem_cons_self) ((ep.value.map Subtype.val).getD [])
    have text : environText (ep :: environ) ++ rest = ep.text ++ (environText environ ++ rest) := by
      simp only [environText, flatMap_cons, append_assoc]
    rw [text, variablesOf, splitOn_text, takeWhile_cons_of_pos (by simp), map_cons, name, value, map_cons,
      ← ih fun other member => plain other (mem_cons_of_mem ep member)]
    rfl

theorem variablesOf_name {block : Bytes} {pair : Bytes × Bytes} (member : pair ∈ variablesOf block) :
    (0x3d : UInt8) ∉ pair.1 := by
  obtain ⟨_, _, rfl⟩ := List.mem_map.mp member
  intro inside
  have other := mem_takeWhile_imp inside
  simp at other

section

variable {memtop : Nat}

structure Copy.Moves (s s' : Copy) : Prop where
  forward : s.addr ≤ s'.addr
  kept : ∀ a, a < s.addr ∨ s'.addr ≤ a → s'.mem a = s.mem a

theorem Copy.Moves.refl (s : Copy) : s.Moves s := ⟨Nat.le_refl _, fun _ _ => rfl⟩

theorem Copy.Moves.trans {s t u : Copy} (first : s.Moves t) (second : t.Moves u) : s.Moves u := by
  have forward := first.forward
  have further := second.forward
  refine ⟨Nat.le_trans forward further, fun a outside => ?_⟩
  rw [second.kept a (by omega), first.kept a (by omega)]

theorem foldl_moves {α : Type} {step : Copy → α → Copy} (moves : ∀ (s : Copy) a, s.Moves (step s a)) (l : List α)
    (s : Copy) :
    s.Moves (l.foldl step s) := by
  induction l generalizing s with
  | nil => exact Copy.Moves.refl s
  | cons a l ih => exact (moves s a).trans (ih (step s a))

theorem put_moves (s : Copy) (src : Bytes) : s.Moves (s.put memtop src) :=
  ⟨Nat.le_add_right _ _, fun _ outside => copyin_outside outside⟩

@[simp] theorem put_addr (s : Copy) (src : Bytes) : (s.put memtop src).addr = s.addr + src.length := rfl

theorem put_put {s : Copy} {front back : Bytes} (fits : s.addr + front.length + back.length < memtop) :
    (s.put memtop front).put memtop back = s.put memtop (front ++ back) := by
  have whole : s.addr + (front ++ back).length < memtop := by rw [length_append]; omega
  have first : s.addr + front.length < memtop := by omega
  rw [Copy.put, Copy.put, Copy.put, copyin_fits s.mem first, copyin_fits s.mem whole, copyin_fits _ fits, write_append,
    length_append, Nat.add_assoc]

theorem copyenvVar_moves (s : Copy) (ep : EnvVar) : s.Moves (copyenvVar memtop s ep) := by
  have equals : s.Moves ((s.put memtop ep.name.val).put memtop [0x3d]) := (put_moves s _).trans (put_moves _ _)
  rw [copyenvVar]
  cases ep.value with
  | none => exact equals.trans (put_moves _ [0])
  | some value => exact (equals.trans (put_moves _ value.val)).trans (put_moves _ [0])

theorem copyenvVar_addr (s : Copy) (ep : EnvVar) : (copyenvVar memtop s ep).addr = s.addr + ep.text.length := by
  rw [copyenvVar, EnvVar.text]
  cases ep.value with
  | none =>
    simp only [elim_none, Copy.put, length_append, length_cons, length_nil, map_none, getD_none]
    omega
  | some value =>
    simp only [elim_some, Copy.put, length_append, length_cons, length_nil, map_some, getD_some]
    omega

theorem copyenvVar_text {s : Copy} {ep : EnvVar} (fits : s.addr + ep.text.length < memtop) :
    copyenvVar memtop s ep = s.put memtop ep.text := by
  rw [EnvVar.text] at fits ⊢
  rw [copyenvVar]
  cases its : ep.value with
  | none =>
    simp only [map_none, getD_none, length_append, length_cons, length_nil] at fits ⊢
    rw [elim_none, put_put (by simp only [put_addr, length_singleton]; omega),
      put_put (by simp only [length_append, length_singleton]; omega)]
    simp only [append_assoc]
  | some value =>
    rw [its] at fits
    simp only [map_some, getD_some, length_append, length_cons, length_nil] at fits ⊢
    rw [elim_some, put_put (by simp only [put_addr, length_singleton]; omega),
      put_put (by simp only [put_addr, length_append, length_singleton]; omega),
      put_put (by simp only [length_append, length_singleton]; omega)]
    simp only [append_assoc, cons_append, nil_append]

theorem biCopyenv_moves (environ : List EnvVar) (s : Copy) : s.Moves (biCopyenv memtop environ s) :=
  (foldl_moves copyenvVar_moves environ s).trans (put_moves _ [0])

theorem biCopyenv_addr (environ : List EnvVar) (s : Copy) :
    (biCopyenv memtop environ s).addr = s.addr + (environText environ).length := by
  have vars : (environ.foldl (copyenvVar memtop) s).addr = s.addr + (environ.flatMap EnvVar.text).length := by
    induction environ generalizing s with
    | nil => rfl
    | cons _ environ ih => rw [foldl_cons, ih, copyenvVar_addr, flatMap_cons, length_append, Nat.add_assoc]
  rw [biCopyenv, Copy.put, vars, environText, length_append, Nat.add_assoc]

theorem biCopyenv_text {environ : List EnvVar} {s : Copy} (fits : s.addr + (environText environ).length < memtop) :
    biCopyenv memtop environ s = s.put memtop (environText environ) := by
  induction environ generalizing s with
  | nil => rfl
  | cons ep environ ih =>
    have text : environText (ep :: environ) = ep.text ++ environText environ := by
      rw [environText, flatMap_cons, append_assoc]
      rfl
    rw [text, length_append] at fits
    have first := @copyenvVar_text memtop s ep (by omega)
    have rest : biCopyenv memtop (ep :: environ) s = biCopyenv memtop environ (copyenvVar memtop s ep) := rfl
    rw [rest, ih (by rw [copyenvVar_addr]; omega), first, put_put (by omega), text]

variable {word : Nat}

def copyRecord (memtop word : Nat) (c : Bool) (s : Copy) (record : Record) : Copy :=
  modData memtop word c s record.tag record.data

theorem copymodule_records (c : Bool) (s : Copy) (fp : PreloadedFile) :
    copymodule memtop word c s fp = (fp.records word).foldl (copyRecord memtop word c) s := by
  have metadata (s : Copy) :
    fp.metadata.foldl (fun s md => if md.type &&& modinfomdNocopy = 0 then modMetadata memtop word c s md else s) s =
      ((fp.metadata.filter (·.type &&& modinfomdNocopy = 0)).map FileMetadata.record).foldl
        (copyRecord memtop word c) s := by
    rw [foldl_map, foldl_filter]
    simp only [decide_eq_true_eq]
    rfl
  rw [copymodule, PreloadedFile.records]
  simp only [metadata, foldl_append]
  cases fp.args <;> rfl

theorem biCopymodules_records (files : List PreloadedFile) (s : Copy) :
    biCopymodules memtop word files s =
      modEnd memtop (s.addr ≠ 0)
        ((files.flatMap (PreloadedFile.records word)).foldl (copyRecord memtop word (s.addr ≠ 0)) s) := by
  have each (c : Bool) (s : Copy) : files.foldl (copymodule memtop word c) s =
      (files.flatMap (PreloadedFile.records word)).foldl (copyRecord memtop word c) s := by
    induction files generalizing s with
    | nil => rfl
    | cons _ files ih => rw [foldl_cons, flatMap_cons, foldl_append, ih, copymodule_records]
  rw [biCopymodules, each]

theorem copy32_moves (c : Bool) (s : Copy) (v : Nat) : s.Moves (copy32 memtop c s v) := by
  refine ⟨Nat.le_add_right _ _, fun a outside => ?_⟩
  cases c with
  | false => rfl
  | true => exact copyin_outside (by rw [length_toLe]; exact outside)

theorem copyRecord_addr (c : Bool) (s : Copy) (record : Record) :
    (copyRecord memtop word c s record).addr = s.addr + record.room word := by
  change s.addr + 4 + 4 + roundup record.data.length word = s.addr + (8 + roundup record.data.length word)
  omega

theorem copyRecord_moves (positive : 0 < word) (c : Bool) (s : Copy) (record : Record) :
    s.Moves (copyRecord memtop word c s record) := by
  have padded := le_roundup record.data.length positive
  refine ((copy32_moves c s record.tag).trans (copy32_moves c _ record.data.length)).trans ⟨Nat.le_add_right _ _,
    fun a outside => ?_⟩
  cases c with
  | false => rfl
  | true =>
    have place : a < s.addr + 4 + 4 ∨ s.addr + 4 + 4 + roundup record.data.length word ≤ a := outside
    exact copyin_outside (show a < s.addr + 4 + 4 ∨ s.addr + 4 + 4 + record.data.length ≤ a by omega)

theorem copyRecords_moves (positive : 0 < word) (c : Bool) (s : Copy) (records : List Record) :
    s.Moves (records.foldl (copyRecord memtop word c) s) := foldl_moves (copyRecord_moves positive c) records s

theorem copyRecords_addr (c : Bool) (s : Copy) (records : List Record) :
    (records.foldl (copyRecord memtop word c) s).addr = s.addr + room word records := by
  induction records generalizing s with
  | nil => rfl
  | cons _ records ih => rw [foldl_cons, ih, copyRecord_addr, room_cons, Nat.add_assoc]

theorem copyRecord_stored {s : Copy} {record : Record} (fits : s.addr + 8 + record.data.length < memtop) :
    StoredRecord (copyRecord memtop word true s record).mem s.addr record := by
  have tag : copyin memtop s.mem (toLe 4 record.tag) s.addr = write s.mem s.addr (toLe 4 record.tag) :=
    copyin_fits _ (by rw [length_toLe]; omega)
  have size (mem : Mem) : copyin memtop mem (toLe 4 record.data.length) (s.addr + 4) =
    write mem (s.addr + 4) (toLe 4 record.data.length) :=
    copyin_fits _ (by rw [length_toLe]; omega)
  have data (mem : Mem) : copyin memtop mem record.data (s.addr + 8) = write mem (s.addr + 8) record.data :=
    copyin_fits _ fits
  have result : (copyRecord memtop word true s record).mem =
    copyin memtop (copyin memtop (copyin memtop s.mem (toLe 4 record.tag) s.addr)
      (toLe 4 record.data.length) (s.addr + 4)) record.data (s.addr + 8) := rfl
  rw [result, tag, size, data]
  refine ⟨?_, ?_, bytesAt_write _ _ _⟩
  · rw [bytesAt_write_other (Or.inl (by omega)), bytesAt_write_other (Or.inl (by omega))]
    exact bytesAt_write s.mem s.addr (toLe 4 record.tag)
  · rw [bytesAt_write_other (Or.inl (by omega))]
    exact bytesAt_write _ (s.addr + 4) (toLe 4 record.data.length)

theorem copyRecord_kept {s : Copy} {record : Record} (stored : StoredRecord s.mem s.addr record) :
    (copyRecord memtop word true s record).mem = s.mem := by
  have tag : copyin memtop s.mem (toLe 4 record.tag) s.addr = s.mem :=
    copyin_same (by rw [length_toLe]; exact stored.tag)
  have size : copyin memtop s.mem (toLe 4 record.data.length) (s.addr + 4) = s.mem :=
    copyin_same (by rw [length_toLe]; exact stored.size)
  have result : (copyRecord memtop word true s record).mem =
    copyin memtop (copyin memtop (copyin memtop s.mem (toLe 4 record.tag) s.addr)
      (toLe 4 record.data.length) (s.addr + 4)) record.data (s.addr + 8) := rfl
  rw [result, tag, size, copyin_same stored.data]

theorem copyRecords_stored (positive : 0 < word) {s : Copy} {records : List Record}
    (fits : s.addr + room word records < memtop) :
    Stored word (records.foldl (copyRecord memtop word true) s).mem s.addr records := by
  induction records generalizing s with
  | nil => trivial
  | cons record records ih =>
    have length := record.length_le_room positive
    have next : (copyRecord memtop word true s record).addr = s.addr + record.room word := copyRecord_addr true s record
    rw [room_cons] at fits
    have rest := @ih (copyRecord memtop word true s record) (by rw [next]; omega)
    have moves := @copyRecords_moves memtop word positive true (copyRecord memtop word true s record) records
    refine ⟨(copyRecord_stored (by omega)).congr fun a _ high => moves.kept a (Or.inl (by rw [next]; omega)), ?_⟩
    rw [next] at rest
    exact rest

theorem copyRecords_kept {s : Copy} {records : List Record} (stored : Stored word s.mem s.addr records) :
    (records.foldl (copyRecord memtop word true) s).mem = s.mem := by
  induction records generalizing s with
  | nil => rfl
  | cons record records ih =>
    have same := @copyRecord_kept memtop word _ _ stored.1
    have next : (copyRecord memtop word true s record).addr = s.addr + record.room word := copyRecord_addr true s record
    rw [foldl_cons, ih (by rw [same, next]; exact stored.2), same]

theorem modEnd_moves (c : Bool) (s : Copy) : s.Moves (modEnd memtop c s) :=
  (copy32_moves c s modinfoEnd).trans (copy32_moves c _ 0)

theorem modEnd_fits {s : Copy} (fits : s.addr + 8 < memtop) :
    bytesAt (modEnd memtop true s).mem s.addr 4 = toLe 4 0 ∧ bytesAt (modEnd memtop true s).mem (s.addr + 4) 4 = toLe 4 0 := by
  have result : (modEnd memtop true s).mem = write (write s.mem s.addr (toLe 4 0)) (s.addr + 4) (toLe 4 0) := by
    change copyin memtop (copyin memtop s.mem (toLe 4 0) s.addr) (toLe 4 0) (s.addr + 4) = _
    rw [copyin_fits _ (by rw [length_toLe]; omega), copyin_fits _ (by rw [length_toLe]; omega)]
  rw [result]
  refine ⟨?_, bytesAt_write _ (s.addr + 4) (toLe 4 0)⟩
  rw [bytesAt_write_other (Or.inl (by omega))]
  exact bytesAt_write _ s.addr (toLe 4 0)

theorem modEnd_past {s : Copy} (past : memtop ≤ s.addr + 8) (tag : bytesAt s.mem s.addr 4 = toLe 4 0) :
    (modEnd memtop true s).mem = s.mem := by
  change copyin memtop (copyin memtop s.mem (toLe 4 0) s.addr) (toLe 4 0) (s.addr + 4) = _
  rw [copyin_past _ (by rw [length_toLe]; omega), copyin_same (by rw [length_toLe]; exact tag)]

theorem biCopymodules_addr (files : List PreloadedFile) (s : Copy) :
    (biCopymodules memtop word files s).addr = s.addr + room word (files.flatMap (PreloadedFile.records word)) + 8 := by
  rw [biCopymodules_records, modEnd, copy32, copy32, copyRecords_addr]

theorem biCopymodules_moves (positive : 0 < word) (files : List PreloadedFile) (s : Copy) :
    s.Moves (biCopymodules memtop word files s) := by
  rw [biCopymodules_records]
  exact (copyRecords_moves positive _ s _).trans (modEnd_moves _ _)

theorem readModules_copied {format : Format} {files : List PreloadedFile} (fits : ∀ fp ∈ files, fp.Fits format.word)
    (legal : ∀ record ∈ files.flatMap (PreloadedFile.records format.word), record.Legal) {s : Copy}
    (placed : s.addr ≠ 0) (space : (biCopymodules memtop format.word files s).addr < memtop) {fuel : Nat}
    (enough : (biCopymodules memtop format.word files s).addr ≤ s.addr + fuel) :
    readModules format (biCopymodules memtop format.word files s).mem fuel s.addr =
      some (files.map PreloadedFile.module, (biCopymodules memtop format.word files s).addr) := by
  have positive : 0 < format.word := by cases format <;> decide
  rw [biCopymodules_addr] at space enough ⊢
  have copied := @biCopymodules_records memtop format.word files s
  rw [decide_eq_true placed] at copied
  have count := @length_le_room format.word (files.flatMap (PreloadedFile.records format.word))
  have next : ((files.flatMap (PreloadedFile.records format.word)).foldl (copyRecord memtop format.word true) s).addr =
    s.addr + room format.word (files.flatMap (PreloadedFile.records format.word)) := copyRecords_addr true s _
  have stored := @copyRecords_stored memtop _ positive s (files.flatMap (PreloadedFile.records format.word)) (by omega)
  have ending := @modEnd_fits memtop
    ((files.flatMap (PreloadedFile.records format.word)).foldl (copyRecord memtop format.word true) s) (by omega)
  have moves := @modEnd_moves memtop true
    ((files.flatMap (PreloadedFile.records format.word)).foldl (copyRecord memtop format.word true) s)
  have there := stored.congr positive fun a _ high => moves.kept a (Or.inl (by rw [next]; exact high))
  obtain ⟨_, rfl⟩ := Nat.exists_eq_add_of_le (show (files.flatMap (PreloadedFile.records format.word)).length + 1 ≤
    fuel by omega)
  rw [next] at ending
  rw [copied, readModules, Nat.add_assoc, read_stored legal there, Nat.add_comm 1, read_end ending.1, ending.2,
    leNat_toLe 4 0 (by omega), if_pos rfl]
  simp only [map_some, bind_some, append_nil]
  rw [modules_files fits]
  rfl

end

section

variable (format : Format) (memtop : Nat) (boot : Boot)

theorem word_positive : 0 < format.word := by cases format <;> decide

theorem lastAddr_le {files : List PreloadedFile} {fp : PreloadedFile} (member : fp ∈ files) :
    fp.addr + fp.size ≤ lastAddr files := by
  have grows (files : List PreloadedFile) (start : Nat) : start ≤
      files.foldl (fun addr xp => if addr < xp.addr + xp.size then xp.addr + xp.size else addr) start ∧
        ∀ fp ∈ files, fp.addr + fp.size ≤
        files.foldl (fun addr xp => if addr < xp.addr + xp.size then xp.addr + xp.size else addr) start := by
    induction files generalizing start with
    | nil => exact ⟨Nat.le_refl _, fun _ member => nomatch member⟩
    | cons first files ih =>
      obtain ⟨low, inside⟩ := ih (if start < first.addr + first.size then first.addr + first.size else start)
      have step : start ≤ (if start < first.addr + first.size then first.addr + first.size else start) ∧
          first.addr + first.size ≤ (if start < first.addr + first.size then first.addr + first.size else start) := by
        split <;> omega
      refine ⟨Nat.le_trans step.1 low, fun fp member => ?_⟩
      rcases mem_cons.mp member with rfl | member
      · exact Nat.le_trans step.2 low
      · exact inside fp member
  exact (grows files 0).2 fp member

theorem map_modify {α β : Type} {f : α → α} {g : α → β} (same : ∀ a, g (f a) = g a) (l : List α) (i : Nat) :
    (l.modify i f).map g = l.map g := by
  induction l generalizing i with
  | nil => cases i <;> rfl
  | cons a l ih =>
    cases i with
    | zero => rw [modify_zero_cons, map_cons, map_cons, same]
    | succ i => rw [modify_succ_cons, map_cons, map_cons, ih]

theorem room_modify {word : Nat} {f g : PreloadedFile → PreloadedFile}
    (same : ∀ fp, room word ((f fp).records word) = room word ((g fp).records word)) (files : List PreloadedFile)
    (i : Nat) :
    room word ((files.modify i f).flatMap (PreloadedFile.records word)) =
      room word ((files.modify i g).flatMap (PreloadedFile.records word)) := by
  induction files generalizing i with
  | nil => cases i <;> rfl
  | cons fp files ih =>
    cases i with
    | zero => rw [modify_zero_cons, modify_zero_cons, flatMap_cons, flatMap_cons, room_append, room_append, same]
    | succ i => rw [modify_succ_cons, modify_succ_cons, flatMap_cons, flatMap_cons, room_append, room_append, ih]

theorem room_metadata {word : Nat} {fp : PreloadedFile} {front back : List FileMetadata} {type : UInt16}
    {data data' : Bytes} (length : data.length = data'.length) :
    room word (PreloadedFile.records word { fp with metadata := front ++ ⟨type, data⟩ :: back }) =
      room word (PreloadedFile.records word { fp with metadata := front ++ ⟨type, data'⟩ :: back }) := by
  simp only [PreloadedFile.records, filter_append, map_append, room_append, filter_cons]
  split
  · simp only [map_cons, room_cons, Record.room, FileMetadata.record, length]
  · rfl

theorem room_directory (kernend : Nat) :
    room format.word ((boot.directory format kernend).flatMap (PreloadedFile.records format.word)) =
      room format.word ((boot.directory format 0).flatMap (PreloadedFile.records format.word)) := by
  rw [Boot.directory, Boot.directory]
  cases format.findKernel boot.files with
  | none => rfl
  | some kfp =>
    refine room_modify (fun fp => ?_) boot.files kfp
    simp only [append_assoc, cons_append, nil_append]
    exact room_metadata ((length_toLe _ _).trans (length_toLe _ _).symm)

theorem addMetadata_eq (fp : PreloadedFile) (kernend envp : Bytes) :
    biosAddsmapdata boot.smap (fileAddmetadata modinfomdKernend kernend (fileAddmetadata modinfomdEnvp envp
      (fileAddmetadata modinfomdHowto (toLe 4 boot.howto) fp))) =
    { fp with
      metadata := boot.smap.elim [] (fun (base, attr) => attr.elim [] (fun attr => [⟨modinfomdSmapXattr, attr⟩]) ++
        [⟨modinfomdSmap, base⟩]) ++
        [⟨modinfomdKernend, kernend⟩, ⟨modinfomdEnvp, envp⟩, ⟨modinfomdHowto, toLe 4 boot.howto⟩] ++ fp.metadata } := by
  cases boot.smap with
  | none => rfl
  | some smap =>
    obtain ⟨base, attr⟩ := smap
    cases attr <;> rfl

theorem patchMetadata_eq (kernend envp : Bytes) (mds : List FileMetadata) :
    patchMetadata modinfomdKernend kernend (boot.smap.elim [] (fun (base, attr) =>
        attr.elim [] (fun attr => [⟨modinfomdSmapXattr, attr⟩]) ++ [⟨modinfomdSmap, base⟩]) ++
      [⟨modinfomdKernend, toLe kernend.length 0⟩, ⟨modinfomdEnvp, envp⟩, ⟨modinfomdHowto, toLe 4 boot.howto⟩] ++ mds) =
    boot.smap.elim [] (fun (base, attr) => attr.elim [] (fun attr => [⟨modinfomdSmapXattr, attr⟩]) ++
      [⟨modinfomdSmap, base⟩]) ++
      [⟨modinfomdKernend, kernend⟩, ⟨modinfomdEnvp, envp⟩, ⟨modinfomdHowto, toLe 4 boot.howto⟩] ++ mds := by
  have own (rest : List FileMetadata) :
    patchMetadata modinfomdKernend kernend (⟨modinfomdKernend, toLe kernend.length 0⟩ :: rest) =
      ⟨modinfomdKernend, kernend⟩ :: rest := by
    rw [patchMetadata, if_pos rfl, drop_eq_nil_of_le (by rw [length_toLe]), append_nil]
  have smap (data : Bytes) (rest : List FileMetadata) :
    patchMetadata modinfomdKernend kernend (⟨modinfomdSmap, data⟩ :: rest) =
      ⟨modinfomdSmap, data⟩ :: patchMetadata modinfomdKernend kernend rest := rfl
  have xattr (data : Bytes) (rest : List FileMetadata) :
    patchMetadata modinfomdKernend kernend (⟨modinfomdSmapXattr, data⟩ :: rest) =
      ⟨modinfomdSmapXattr, data⟩ :: patchMetadata modinfomdKernend kernend rest := rfl
  cases boot.smap with
  | none => exact own _
  | some found =>
    obtain ⟨base, attr⟩ := found
    cases attr with
    | none =>
      simp only [elim_some, elim_none, nil_append, cons_append]
      rw [smap, own]
    | some attr =>
      simp only [elim_some, nil_append, cons_append]
      rw [xattr, smap, own]

theorem biLoad_eq {kfp : Nat} (kernel : format.findKernel boot.files = some kfp) (mem : Mem) :
    biLoad format memtop boot mem = some
      { mem := (biCopymodules memtop format.word (boot.directory format (roundup (boot.moduleEnd format) pageSize))
          ⟨(biCopyenv memtop boot.environ ⟨mem, boot.envp⟩).mem, boot.modulep⟩).mem
        envp := boot.envp
        envEnd := boot.envp + (environText boot.environ).length
        modulep := boot.modulep
        size := boot.moduleEnd format - boot.modulep
        moduleEnd := boot.moduleEnd format
        kernend := roundup (boot.moduleEnd format) pageSize } := by
  have added : boot.files.modify kfp
    (fun fp => biosAddsmapdata boot.smap (fileAddmetadata modinfomdKernend (toLe format.word 0)
      (fileAddmetadata modinfomdEnvp (toLe format.word boot.envp)
      (fileAddmetadata modinfomdHowto (toLe 4 boot.howto) fp)))) =
      boot.directory format 0 := by
    rw [Boot.directory, kernel, map_some, getD_some]
    exact congrArg (boot.files.modify kfp) (funext fun fp => addMetadata_eq boot fp _ _)
  have patched (kernend : Nat) : (boot.directory format 0).modify kfp (fun fp =>
      { fp with metadata := patchMetadata modinfomdKernend (toLe format.word kernend) fp.metadata }) =
      boot.directory format kernend := by
    rw [Boot.directory, Boot.directory, kernel, map_some, getD_some, map_some, getD_some, modify_modify_eq]
    refine congrArg (boot.files.modify kfp) (funext fun fp => ?_)
    have patch := patchMetadata_eq boot (toLe format.word kernend) (toLe format.word boot.envp) fp.metadata
    rw [length_toLe] at patch
    rw [Function.comp, patch]
  have size : (biCopymodules memtop format.word (boot.directory format 0)
    ⟨(biCopyenv memtop boot.environ ⟨mem, boot.envp⟩).mem, 0⟩).addr =
      room format.word ((boot.directory format 0).flatMap (PreloadedFile.records format.word)) + 8 := by
    rw [biCopymodules_addr, Nat.zero_add]
  have env : (biCopyenv memtop boot.environ ⟨mem, boot.envp⟩).addr = boot.envp + (environText boot.environ).length :=
    biCopyenv_addr _ _
  have stop : boot.modulep +
    (room format.word ((boot.directory format 0).flatMap (PreloadedFile.records format.word)) + 8) =
      boot.moduleEnd format := (Nat.add_assoc _ _ _).symm
  have modulep : roundup (boot.envp + (environText boot.environ).length) pageSize = boot.modulep := rfl
  have envp : roundup (lastAddr boot.files) pageSize = boot.envp := rfl
  rw [biLoad, kernel, map_some]
  dsimp only
  have last (kernend : Nat) (mem : Mem) :
    (biCopymodules memtop format.word (boot.directory format kernend) ⟨mem, boot.modulep⟩).addr =
      boot.moduleEnd format := by
    rw [biCopymodules_addr, room_directory]
    rfl
  have difference : room format.word ((boot.directory format 0).flatMap (PreloadedFile.records format.word)) + 8 =
      boot.moduleEnd format - boot.modulep := by omega
  rw [envp, added, size, env, modulep, stop, patched, last, difference]

theorem mem_directory {kernend : Nat} {fp : PreloadedFile} (member : fp ∈ boot.directory format kernend) :
    ∃ file ∈ boot.files, fp.addr = file.addr ∧ fp.size = file.size := by
  have same : (boot.directory format kernend).map (fun fp => (fp.addr, fp.size)) = boot.files.map fun fp =>
    (fp.addr, fp.size) := by
    rw [Boot.directory]
    cases format.findKernel boot.files with
    | none => rfl
    | some _ =>
      rw [map_some, getD_some]
      apply map_modify
      intro fp
      rfl
  have listed := same ▸ mem_map_of_mem member
  obtain ⟨file, present, equal⟩ := List.mem_map.mp listed
  exact ⟨file, present, (Prod.mk.inj equal).1.symm, (Prod.mk.inj equal).2.symm⟩

theorem room_mem {pad : Nat} {records : List Record} {record : Record} (member : record ∈ records) :
    record.room pad ≤ room pad records := by
  induction records with
  | nil => cases member
  | cons _ records ih =>
    rcases mem_cons.mp member with rfl | member
    · exact Nat.le_add_right _ _
    · exact Nat.le_trans (ih member) (Nat.le_add_left _ _)

theorem records_tag {word : Nat} {fp : PreloadedFile} {record : Record} (member : record ∈ fp.records word) :
    record.tag ≠ 0 ∧ record.tag < 2 ^ 32 := by
  have named (tag : Nat) (data : Bytes) (small : tag ≠ 0 ∧ tag < 2 ^ 32) (same : record = ⟨tag, data⟩) :
    record.tag ≠ 0 ∧ record.tag < 2 ^ 32 := by
    rw [same]
    exact small
  rw [PreloadedFile.records] at member
  simp only [mem_append, mem_cons, not_mem_nil, or_false] at member
  rcases member with (((name | type) | args) | addr | size) | metadata
  · exact named _ _ (by decide) name
  · exact named _ _ (by decide) type
  · cases its : fp.args with
    | none => rw [its] at args; cases args
    | some _ => rw [its] at args; exact named _ _ (by decide) (mem_singleton.mp args)
  · exact named _ _ (by decide) addr
  · exact named _ _ (by decide) size
  · obtain ⟨md, kept, rfl⟩ := List.mem_map.mp metadata
    have tag := record_tag (by simpa using (mem_filter.mp kept).2)
    have small := md.type.toNat_lt
    omega

section

theorem modulep_positive :
    boot.envp + (environText boot.environ).length ≤ boot.modulep ∧ 0 < (environText boot.environ).length := by
  refine ⟨le_roundup _ (by decide), ?_⟩
  rw [environText, length_append]
  exact Nat.lt_add_left _ Nat.one_pos

theorem moduleEnd_eq (kernend : Nat) : boot.moduleEnd format =
    boot.modulep + room format.word ((boot.directory format kernend).flatMap (PreloadedFile.records format.word)) + 8 := by
  rw [room_directory]
  rfl

theorem moduleEnd_le : boot.moduleEnd format ≤ roundup (boot.moduleEnd format) pageSize := le_roundup _ (by decide)

variable {format boot}

theorem directory_fits (low : roundup (boot.moduleEnd format) pageSize < 2 ^ 32) {kernend : Nat} {fp : PreloadedFile}
    (member : fp ∈ boot.directory format kernend) : fp.Fits format.word := by
  obtain ⟨_, present, addr, size⟩ := mem_directory format boot member
  have last := lastAddr_le present
  have envp : lastAddr boot.files ≤ boot.envp := le_roundup _ (by decide)
  have modulep := modulep_positive boot
  have needed := moduleEnd_le format boot
  have stop := moduleEnd_eq format boot 0
  have words : 2 ^ 32 ≤ 256 ^ format.word := by cases format <;> decide
  rw [PreloadedFile.Fits, addr, size]
  omega

theorem directory_legal (low : roundup (boot.moduleEnd format) pageSize < 2 ^ 32) {kernend : Nat} {record : Record}
    (member : record ∈ (boot.directory format kernend).flatMap (PreloadedFile.records format.word)) : record.Legal := by
  obtain ⟨_, _, its⟩ := mem_flatMap.mp member
  obtain ⟨tagged, small⟩ := records_tag its
  have inside := @room_mem format.word _ _ member
  have length := record.length_le_room (word_positive format)
  have needed := moduleEnd_le format boot
  have stop := moduleEnd_eq format boot kernend
  exact ⟨tagged, small, by omega⟩

end

theorem readModules_endless {mem : Mem} {addr fuel : Nat} {records : List Record}
    (legal : ∀ record ∈ records, record.Legal) (stored : Stored format.word mem addr records)
    (tag : bytesAt mem (addr + room format.word records) 4 = toLe 4 0)
    (size : bytesAt mem (addr + room format.word records + 4) 4 = toLe 4 1) (enough : records.length < fuel) :
    readModules format mem fuel addr = none := by
  obtain ⟨_, rfl⟩ := Nat.exists_eq_add_of_le (Nat.succ_le_of_lt enough)
  rw [readModules, Nat.succ_eq_add_one, Nat.add_assoc, read_stored legal stored, Nat.add_comm 1, read_end tag, size,
    leNat_toLe 4 1 (by omega), if_neg Nat.one_ne_zero]
  rfl

/-- The memory that is left over can hold another directory, of which the last word is not overwritten. -/
theorem exists_endless (low : roundup (boot.moduleEnd format) pageSize < 2 ^ 32)
    (past : memtop ≤ boot.moduleEnd format) :
    ∃ mem, ∀ fuel, boot.moduleEnd format ≤ boot.modulep + fuel → readModules format (biCopymodules memtop format.word
      (boot.directory format (roundup (boot.moduleEnd format) pageSize))
      ⟨(biCopyenv memtop boot.environ ⟨mem, boot.envp⟩).mem, boot.modulep⟩).mem fuel boot.modulep = none := by
  have stop := moduleEnd_eq format boot (roundup (boot.moduleEnd format) pageSize)
  have legal : ∀ record ∈ (boot.directory format (roundup (boot.moduleEnd format) pageSize)).flatMap
    (PreloadedFile.records format.word), record.Legal := fun record member => directory_legal low member
  have count := @length_le_room format.word
    ((boot.directory format (roundup (boot.moduleEnd format) pageSize)).flatMap (PreloadedFile.records format.word))
  have place := modulep_positive boot
  revert stop legal count
  generalize (boot.directory format (roundup (boot.moduleEnd format) pageSize)) = files
  intro stop legal count
  let whole : Copy := (files.flatMap (PreloadedFile.records format.word)).foldl
    (copyRecord (boot.moduleEnd format + 1) format.word true) ⟨fun _ => 0, boot.modulep⟩
  have next : whole.addr = boot.modulep + room format.word (files.flatMap (PreloadedFile.records format.word)) :=
    copyRecords_addr true _ _
  have stored : Stored format.word whole.mem boot.modulep (files.flatMap (PreloadedFile.records format.word)) :=
    copyRecords_stored (word_positive format) (by dsimp only; omega)
  let ended : Mem := write whole.mem whole.addr (toLe 4 0 ++ toLe 4 1)
  let env : Copy := biCopyenv memtop boot.environ ⟨ended, boot.envp⟩
  have envEnd : env.addr = boot.envp + (environText boot.environ).length := biCopyenv_addr _ _
  have kept (a : Nat) (behind : boot.modulep ≤ a) : env.mem a = ended a :=
    (biCopyenv_moves boot.environ ⟨ended, boot.envp⟩).kept a
      (Or.inr (by rw [show (biCopyenv memtop boot.environ ⟨ended, boot.envp⟩).addr = _ from envEnd]; omega))
  have there : Stored format.word env.mem boot.modulep (files.flatMap (PreloadedFile.records format.word)) :=
    stored.congr (word_positive format) fun a low high => by
      rw [kept a low]
      exact write_outside (Or.inl (by omega))
  have ending : bytesAt env.mem whole.addr 8 = toLe 4 0 ++ toLe 4 1 := by
    have written := bytesAt_write whole.mem whole.addr (toLe 4 0 ++ toLe 4 1)
    rw [← written]
    exact bytesAt_congr fun a low _ => kept a (by omega)
  rw [bytesAt_append _ _ 4 4] at ending
  obtain ⟨tag, size⟩ := append_inj ending (by rw [length_bytesAt, length_toLe])
  refine ⟨ended, fun fuel enough => ?_⟩
  have copied := @biCopymodules_records memtop format.word files ⟨env.mem, boot.modulep⟩
  have nonzero : boot.modulep ≠ 0 := by omega
  have unchanged := @copyRecords_kept memtop _ ⟨env.mem, boot.modulep⟩ _ there
  have addr : ((files.flatMap (PreloadedFile.records format.word)).foldl (copyRecord memtop format.word true) ⟨env.mem,
    boot.modulep⟩).addr = whole.addr := (copyRecords_addr true _ _).trans next.symm
  have last : (biCopymodules memtop format.word files ⟨env.mem, boot.modulep⟩).mem = env.mem := by
    rw [copied, decide_eq_true nonzero, modEnd_past (by rw [addr]; omega) (by rw [addr, unchanged]; exact tag),
      unchanged]
  rw [last]
  rw [next] at tag size
  exact readModules_endless format legal there tag size (by omega)

variable {format memtop boot} in
/-- Nothing else would do: a directory that does not fit is not always there, and a name ends at its first equals
sign. -/
theorem needs_of_handed (kernel : format.findKernel boot.files ≠ none)
    (low : roundup (boot.moduleEnd format) pageSize < 2 ^ 32)
    (all : ∀ mem, ∃ done, biLoad format memtop boot mem = some done ∧ Faithful format boot mem done) :
    boot.moduleEnd format < memtop ∧ ∀ ep ∈ boot.environ, (0x3d : UInt8) ∉ ep.name.val := by
  obtain ⟨_, found⟩ := ne_none_iff_exists'.mp kernel
  have needed := moduleEnd_le format boot
  refine ⟨?_, fun ep member => ?_⟩
  · by_contra past
    obtain ⟨mem, endless⟩ := exists_endless format memtop boot low (Nat.le_of_not_lt past)
    obtain ⟨done, loaded, faithful⟩ := all mem
    rw [biLoad_eq format memtop boot found mem, some_inj] at loaded
    have modules := faithful.modules
    rw [← loaded] at modules
    dsimp only at modules
    rw [endless _ (by omega)] at modules
    cases modules
  · obtain ⟨done, _, faithful⟩ := all fun _ => 0
    have pair : ep.pair ∈ boot.environ.map EnvVar.pair := mem_map_of_mem member
    rw [← faithful.environ] at pair
    exact variablesOf_name pair

/-- A kernel finds what the loader has exactly when the memory does not end before the directory does and no name of a
variable has an equals sign in it. -/
theorem handed_over_iff (kernel : format.findKernel boot.files ≠ none)
    (low : roundup (boot.moduleEnd format) pageSize < 2 ^ 32) :
    (∀ mem, ∃ done, biLoad format memtop boot mem = some done ∧ Faithful format boot mem done) ↔
      boot.moduleEnd format < memtop ∧ ∀ ep ∈ boot.environ, (0x3d : UInt8) ∉ ep.name.val := by
  obtain ⟨_, found⟩ := ne_none_iff_exists'.mp kernel
  have load := biLoad_eq format memtop boot found
  have stop := moduleEnd_eq format boot (roundup (boot.moduleEnd format) pageSize)
  have needed := moduleEnd_le format boot
  obtain ⟨_, _⟩ := modulep_positive boot
  constructor
  · exact needs_of_handed kernel low
  · rintro ⟨space, plain⟩ mem
    refine ⟨_, load mem, ?_⟩
    have env := @biCopyenv_text memtop boot.environ ⟨mem, boot.envp⟩ (by dsimp only; omega)
    have envMoves := @biCopyenv_moves memtop boot.environ ⟨mem, boot.envp⟩
    have envEnd : (biCopyenv memtop boot.environ ⟨mem, boot.envp⟩).addr = boot.envp +
      (environText boot.environ).length := biCopyenv_addr _ _
    have moves := @biCopymodules_moves memtop _ (word_positive format)
      (boot.directory format (roundup (boot.moduleEnd format) pageSize))
      ⟨(biCopyenv memtop boot.environ ⟨mem, boot.envp⟩).mem, boot.modulep⟩
    have last : (biCopymodules memtop format.word (boot.directory format (roundup (boot.moduleEnd format) pageSize))
        ⟨(biCopyenv memtop boot.environ ⟨mem, boot.envp⟩).mem, boot.modulep⟩).addr = boot.moduleEnd format := by
      rw [biCopymodules_addr, ← stop]
    have nonzero : boot.modulep ≠ 0 := by omega
    refine ⟨by dsimp only; omega, ?_, ?_, ?_, by dsimp only; omega, ?_⟩
    · have read := @readModules_copied memtop format _ (fun fp member => directory_fits low member)
        (fun record member => directory_legal low member) ⟨(biCopyenv memtop boot.environ ⟨mem, boot.envp⟩).mem,
          boot.modulep⟩ nonzero
        (by rw [last]; exact space) (roundup (boot.moduleEnd format) pageSize - boot.modulep)
          (by rw [last]; dsimp only; omega)
      rw [last] at read
      exact read
    · have text : roundup (boot.moduleEnd format) pageSize - boot.envp = (environText boot.environ).length +
          (roundup (boot.moduleEnd format) pageSize - boot.envp - (environText boot.environ).length) := by omega
      have written : bytesAt (biCopyenv memtop boot.environ ⟨mem, boot.envp⟩).mem boot.envp
        (environText boot.environ).length = environText boot.environ := by
        rw [env, Copy.put, copyin_fits mem (by dsimp only; omega)]
        exact bytesAt_write mem boot.envp (environText boot.environ)
      dsimp only
      rw [text, bytesAt_append, bytesAt_congr (fun a _ high => moves.kept a (Or.inl (by dsimp only; omega))), written]
      exact variablesOf_text plain _
    · intro fp member
      exact Nat.le_trans (lastAddr_le member) (le_roundup _ (by decide))
    · intro a outside
      dsimp only at outside ⊢
      rw [moves.kept a (by rw [last]; dsimp only; omega), envMoves.kept a (by rw [envEnd]; dsimp only; omega)]

theorem onePage_name : (0 : UInt8) ∉ ascii ['k'] := by decide

theorem onePage_type : (0 : UInt8) ∉ elfKernel := by decide

theorem onePage_variable : (0 : UInt8) ∉ ascii ['b', 'o', 'o', 't'] := by decide

/-- A kernel of one page at 1 MB, and the variable "boot" that is set without a value. -/
def onePage : Boot where
  files := [{ name := ⟨ascii ['k'], onePage_name⟩, type := ⟨elfKernel, onePage_type⟩, args := none, metadata := [],
              addr := 0x100000, size := 0x1000 }]
  environ := [⟨⟨ascii ['b', 'o', 'o', 't'], onePage_variable⟩, none⟩]
  howto := 0
  smap := none

theorem onePage_handed_over_iff :
    (∀ mem, ∃ done, biLoad .elf64 0x200000 onePage mem = some done ∧ Faithful .elf64 onePage mem done) ↔
      onePage.moduleEnd .elf64 < 0x200000 ∧ ∀ ep ∈ onePage.environ, (0x3d : UInt8) ∉ ep.name.val :=
  handed_over_iff .elf64 0x200000 onePage (by decide +kernel) (by decide +kernel)

/-- The memory ends half a page behind the kernel: what is copied in there is dropped, and nobody asks. -/
theorem onePage_dropped :
    ¬∀ mem, ∃ done, biLoad .elf32 0x101800 onePage mem = some done ∧ Faithful .elf32 onePage mem done := fun all =>
  absurd (needs_of_handed (by decide +kernel) (by decide +kernel) all).1 (by decide +kernel)

end

end Pcbsd.Bootinfo
