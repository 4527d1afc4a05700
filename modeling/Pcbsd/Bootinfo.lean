import Pcbsd.Lib.Records
import Pcbsd.I386Copy

/-! What the loader for i386 hands over to a kernel: the environment and the directory of the loaded files,
boot/i386/libi386/bootinfo.c, bootinfo32.c and bootinfo64.c. Addresses do not wrap around. -/

namespace Pcbsd.Bootinfo
open Lib Memory Records I386Copy

abbrev CString := { str : Bytes // (0 : UInt8) ∉ str }

structure FileMetadata where
  type : UInt16
  data : Bytes
  deriving DecidableEq

structure PreloadedFile where
  name : CString
  type : CString
  args : Option CString
  metadata : List FileMetadata
  addr : Nat
  size : Nat
  deriving DecidableEq

structure EnvVar where
  name : CString
  value : Option CString
  deriving DecidableEq

def modinfoEnd : Nat := 0x0000
def modinfoName : Nat := 0x0001
def modinfoType : Nat := 0x0002
def modinfoAddr : Nat := 0x0003
def modinfoSize : Nat := 0x0004
def modinfoArgs : Nat := 0x0006
def modinfoMetadata : Nat := 0x8000

def modinfomdEnvp : UInt16 := 0x0006
def modinfomdHowto : UInt16 := 0x0007
def modinfomdKernend : UInt16 := 0x0008
def modinfomdSmap : UInt16 := 0x1001
def modinfomdSmapXattr : UInt16 := 0x1002
def modinfomdNocopy : UInt16 := 0x8000

def pageSize : Nat := 4096

structure Copy where
  mem : Mem
  addr : Nat

section

variable (memtop : Nat)

/-- i386_copyin, and the address moved behind. -/
def Copy.put (s : Copy) (src : Bytes) : Copy := ⟨copyin memtop s.mem src s.addr, s.addr + src.length⟩

def copyenvVar (s : Copy) (ep : EnvVar) : Copy :=
  let s := s.put memtop ep.name.val
  let s := s.put memtop [0x3d]
  let s := ep.value.elim s fun value => s.put memtop value.val
  s.put memtop [0]

def biCopyenv (environ : List EnvVar) (s : Copy) : Copy := (environ.foldl (copyenvVar memtop) s).put memtop [0]

/-- COPY32: without `c`, only the address moves. -/
def copy32 (c : Bool) (s : Copy) (v : Nat) : Copy :=
  ⟨if c then copyin memtop s.mem (toLe 4 v) s.addr else s.mem, s.addr + 4⟩

variable (word : Nat)

/-- What MOD_STR, MOD_VAR and MOD_METADATA have in common. -/
def modData (c : Bool) (s : Copy) (type : Nat) (data : Bytes) : Copy :=
  let s := copy32 memtop c s type
  let s := copy32 memtop c s data.length
  ⟨if c then copyin memtop s.mem data s.addr else s.mem, s.addr + roundup data.length word⟩

def modStr (c : Bool) (s : Copy) (type : Nat) (str : CString) : Copy := modData memtop word c s type (str.val ++ [0])

def modVar (c : Bool) (s : Copy) (type : Nat) (v : Nat) : Copy := modData memtop word c s type (toLe word v)

def modMetadata (c : Bool) (s : Copy) (md : FileMetadata) : Copy :=
  modData memtop word c s (modinfoMetadata ||| md.type.toNat) md.data

def modEnd (c : Bool) (s : Copy) : Copy := copy32 memtop c (copy32 memtop c s modinfoEnd) 0

def copymodule (c : Bool) (s : Copy) (fp : PreloadedFile) : Copy :=
  let s := modStr memtop word c s modinfoName fp.name
  let s := modStr memtop word c s modinfoType fp.type
  let s := fp.args.elim s fun args => modStr memtop word c s modinfoArgs args
  let s := modVar memtop word c s modinfoAddr fp.addr
  let s := modVar memtop word c s modinfoSize fp.size
  fp.metadata.foldl (fun s md => if md.type &&& modinfomdNocopy = 0 then modMetadata memtop word c s md else s) s

/-- bi_copymodules32 with words of 4 bytes, and bi_copymodules64 with words of 8. -/
def biCopymodules (files : List PreloadedFile) (s : Copy) : Copy :=
  let c := s.addr ≠ 0
  modEnd memtop c (files.foldl (copymodule memtop word c) s)

end

def fileFindfile (files : List PreloadedFile) (type : Bytes) : Option Nat := files.findIdx? (·.type.val = type)

def fileAddmetadata (type : UInt16) (data : Bytes) (fp : PreloadedFile) : PreloadedFile :=
  { fp with metadata := ⟨type, data⟩ :: fp.metadata }

def patchMetadata (type : UInt16) (bytes : Bytes) : List FileMetadata → List FileMetadata
  | [] => []
  | md :: mds => if md.type = type then { md with data := bytes ++ md.data.drop bytes.length } :: mds else md ::
      patchMetadata type bytes mds

/-- The BIOS's map of the memory with its extended attributes, if they were read. -/
def biosAddsmapdata (smap : Option (Bytes × Option Bytes)) (kfp : PreloadedFile) : PreloadedFile :=
  smap.elim kfp fun (base, attr) =>
    let kfp := fileAddmetadata modinfomdSmap base kfp
    attr.elim kfp fun attr => fileAddmetadata modinfomdSmapXattr attr kfp

def elfKernel : Bytes := ascii ['e', 'l', 'f', ' ', 'k', 'e', 'r', 'n', 'e', 'l']
def elf32Kernel : Bytes := ascii ['e', 'l', 'f', '3', '2', ' ', 'k', 'e', 'r', 'n', 'e', 'l']
def elf64Kernel : Bytes := ascii ['e', 'l', 'f', '6', '4', ' ', 'k', 'e', 'r', 'n', 'e', 'l']

structure Boot where
  files : List PreloadedFile
  environ : List EnvVar
  howto : Nat
  smap : Option (Bytes × Option Bytes)

structure HandOff where
  mem : Mem
  envp : Nat
  envEnd : Nat
  modulep : Nat
  size : Nat
  moduleEnd : Nat
  kernend : Nat

def lastAddr (files : List PreloadedFile) : Nat :=
  files.foldl (fun addr xp => if addr < xp.addr + xp.size then xp.addr + xp.size else addr) 0

/-- What bi_load32 and bi_load64 differ in: the size of vm_offset_t and of u_int64_t, and the other type of a kernel. -/
inductive Format where
  | elf32
  | elf64
  deriving DecidableEq

def Format.word : Format → Nat
  | .elf32 => 4
  | .elf64 => 8

def Format.kerneltype : Format → Bytes
  | .elf32 => elf32Kernel
  | .elf64 => elf64Kernel

def Format.findKernel (format : Format) (files : List PreloadedFile) : Option Nat :=
  (fileFindfile files elfKernel).or (fileFindfile files format.kerneltype)

/-- From "find the last module in the chain" on; `none` is the panic without a kernel. -/
def biLoad (format : Format) (memtop : Nat) (boot : Boot) (mem : Mem) : Option HandOff :=
  let word := format.word
  let envp := roundup (lastAddr boot.files) pageSize
  let env := biCopyenv memtop boot.environ ⟨mem, envp⟩
  let modulep := roundup env.addr pageSize
  (format.findKernel boot.files).map fun kfp =>
    let files := boot.files.modify kfp fun fp =>
      biosAddsmapdata boot.smap (fileAddmetadata modinfomdKernend (toLe word 0) (fileAddmetadata modinfomdEnvp (toLe word envp)
        (fileAddmetadata modinfomdHowto (toLe 4 boot.howto) fp)))
    let size := (biCopymodules memtop word files ⟨env.mem, 0⟩).addr
    let kernend := roundup (modulep + size) pageSize
    let files := files.modify kfp fun fp => { fp with metadata := patchMetadata modinfomdKernend (toLe word kernend) fp.metadata }
    let modules := biCopymodules memtop word files ⟨env.mem, modulep⟩
    ⟨modules.mem, envp, env.addr, modulep, size, modules.addr, kernend⟩

def biLoad32 := biLoad .elf32
def biLoad64 := biLoad .elf64

end Pcbsd.Bootinfo
