import Mathlib.Data.List.TakeWhile
import Pcbsd.Lib.Numeral

/-! The values of device-tree properties as text, boot/fdt/fdt_loader_cmd.c: what `fdt prop` prints
and what it reads. A long has 32 bits; libfdt stores what it is given. -/

namespace Pcbsd.Fdt
open Lib Numeral

inductive Form where
  | strings
  | cells
  | bytes
  deriving DecidableEq

structure Formatted where
  form : Form
  text : Bytes
  allocated : Nat
  deriving DecidableEq

def isprint (c : UInt8) : Bool := 0x20 ≤ c && c ≤ 0x7e

def fdtIsprint (data : Bytes) : Bool :=
  data.getLast? == some 0 && (isprint (data.headD 0) && data.all fun ch => isprint ch || ch == 0)

def join (separator : Bytes) : List Bytes → Bytes
  | [] => []
  | [piece] => piece
  | piece :: more => piece ++ separator ++ join separator more

def strings (data : Bytes) : List Bytes := (data.splitOn 0).dropLast

def fdtDataStr (data : Bytes) : Formatted :=
  let count := data.count 0
  let bufLen := (if 1 < count then data.length - (count - 1) + count * 2 else data.length) + count * 2
  ⟨.strings, join [0x2c, 0x20] ((strings data).map fun str => 0x22 :: str ++ [0x22]), bufLen⟩

/-- fdt32_to_cpu of four bytes. -/
def beWord (a b c d : UInt8) : Nat := ((a.toNat * 256 + b.toNat) * 256 + c.toNat) * 256 + d.toNat

/-- cpu_to_fdt32 -/
def beBytes (v : Nat) : Bytes :=
  [UInt8.ofNat (v / 2 ^ 24), UInt8.ofNat (v / 2 ^ 16), UInt8.ofNat (v / 2 ^ 8), UInt8.ofNat v]

def words : Bytes → List Nat
  | a :: b :: c :: d :: data => beWord a b c d :: words data
  | _ => []

/-- "0x%0wx" -/
def hexToken (w n : Nat) : Bytes := 0x30 :: 0x78 :: printPadded 16 w n

def fdtDataCell (data : Bytes) : Formatted :=
  let count := data.length / 4
  let l := data.length * 2 + (if 1 < count then count - 1 else 0) + count * 2 + 3
  ⟨.cells, 0x3c :: join [0x20] ((words data).map (hexToken 8)) ++ [0x3e], l⟩

/-- A char passed to sprintf and printed as an unsigned int. -/
def charArg (charSigned : Bool) (c : UInt8) : Nat := if charSigned ∧ 0x80 ≤ c then 0xffffff00 + c.toNat else c.toNat

def fdtDataBytes (charSigned : Bool) (data : Bytes) : Formatted :=
  let len := data.length
  let l := len * 2 + (if 1 < len then len - 1 else 0) + len * 2 + 3
  ⟨.bytes, 0x5b :: join [0x20] (data.map fun c => hexToken 2 (charArg charSigned c)) ++ [0x5d], l⟩

/-- fdt_data_fmt; `charSigned` tells whether char is signed on the machine. -/
def fdtDataFmt (charSigned : Bool) (data : Bytes) : Option Formatted :=
  if data.length = 0 then none
  else if fdtIsprint data then some (fdtDataStr data)
  else if data.length % 4 = 0 then some (fdtDataCell data)
  else some (fdtDataBytes charSigned data)

def isxdigit (c : UInt8) : Bool := isDigitIn 16 c

/-- `while (p(*buf) && buf < end) buf++`, where buf < end says that more than two characters are left. -/
def skip (p : UInt8 → Bool) : Bytes → Bytes
  | [] => []
  | c :: buf => if p c ∧ 2 < (c :: buf).length then skip p buf else c :: buf

/-- The loop of _fdt_strtovect: the numbers that it stores, and its count. `fuel` bounds the rounds. -/
def strtovectLoop (base lim : Nat) : Nat → Nat → List Int → Bytes → List Int × Nat
  | 0, cnt, stored, _ => (stored, cnt)
  | fuel + 1, cnt, stored, buf =>
    if 2 < buf.length then
      let buf := skip (fun c => !isxdigit c) buf
      let stored := stored ++ [strtol base buf]
      if cnt + 1 ≤ lim - 1 then
        strtovectLoop base lim fuel (cnt + 1) stored (skip (fun c => isxdigit c || c == 0x78) buf.tail)
      else (stored, cnt)
    else (stored, cnt)

/-- fdt_strtovect, which leaves the base to the numbers. -/
def fdtStrtovect (str : Bytes) (lim : Nat) : List Int :=
  if lim = 0 then []
  else
    let (stored, cnt) := strtovectLoop 0 lim str.length 0 [] str
    stored.take cnt

def cellsLimit : Nat := 100

def toWord (n : Int) : Nat := (n % 2 ^ 32).toNat

def toByte (n : Int) : UInt8 := UInt8.ofNat (n % 256).toNat

/-- fdt_modprop: the value that the property gets, or none for phandles. An error is CMD_ERROR. -/
def fdtModprop (present : Bool) (mode : Nat) (value : Bytes) : Except Unit (Option Bytes) :=
  if present ∧ mode = 1 then .error ()
  else if ¬present ∧ mode = 0 then .error ()
  else if value.head? = some 0x26 then .ok none
  else if value.head? = some 0x3c then .ok (some ((fdtStrtovect value cellsLimit).flatMap fun n => beBytes (toWord n)))
  else if value.head? = some 0x5b then .ok (some ((fdtStrtovect value cellsLimit).map toByte))
  else .ok (some (value ++ [0]))

end Pcbsd.Fdt

/-! Paths in the commands on a device tree, boot/fdt/fdt_loader_cmd.c: fdt_cmd_cd and fdt_extract_nameloc, over a tree
of libfdt. -/

namespace Pcbsd.FdtPath
open Lib

def components (path : Bytes) : List Bytes := (path.splitOn slash).filter (· ≠ [])

def walk {Node : Type} (subnode : Node → Bytes → Option Node) (node : Node) (names : List Bytes) : Option Node :=
  names.foldlM subnode node

/-- What libfdt finds in a tree: the root, the subnode of a name, the node that an alias stands for, and that of a
path. Its fdt_path_offset starts from the root, or from the node of an alias. -/
structure DeviceTree (Node : Type) where
  root : Node
  subnode : Node → Bytes → Option Node
  aliasNode : Bytes → Option Node
  fdtPathOffset : Bytes → Option Node
  fromRoot : ∀ path, path.head? = some slash → fdtPathOffset path = walk subnode root (components path)
  fromAlias : ∀ path, path.head? ≠ some slash → fdtPathOffset path =
    (aliasNode (path.takeWhile (· ≠ slash))).bind fun node => walk subnode node (components (path.dropWhile (· ≠ slash)))

def fdtCwdLen : Nat := 256

structure Cwd where
  path : Bytes
  absolute : path.head? = some slash
  fits : path.length < fdtCwdLen

theorem root_fits : [slash].length < fdtCwdLen := by decide

def Cwd.initial : Cwd := ⟨[slash], rfl, root_fits⟩

def Cwd.join (cwd : Cwd) (path : Bytes) : Bytes := cwd.path ++ slash :: path

theorem Cwd.join_absolute (cwd : Cwd) (path : Bytes) : (cwd.join path).head? = some slash := by
  rw [join, List.head?_append, cwd.absolute]
  rfl

inductive PathError where
  | notFound (path : Bytes)
  | tooLong (len : Nat)
  | noName
  deriving DecidableEq

structure Nameloc (Node : Type) where
  path : Bytes
  name : Bytes
  nodeoff : Node

variable {Node : Type} (tree : DeviceTree Node)

/-- The end of fdt_cmd_cd, for an absolute path. -/
def changeTo (path : Bytes) (absolute : path.head? = some slash) : Except PathError Cwd :=
  if fits : path.length < fdtCwdLen then
    if (tree.fdtPathOffset path).isSome then .ok ⟨path, absolute, fits⟩ else .error (.notFound path)
  else .error (.tooLong path.length)

/-- fdt_cmd_cd; without an argument it goes to the root. -/
def fdtCmdCd (cwd : Cwd) (arg : Option Bytes) : Except PathError Cwd :=
  let path := arg.getD [slash]
  if absolute : path.head? = some slash then changeTo tree path absolute
  else changeTo tree (cwd.join path) (cwd.join_absolute path)

def strrchr (path : Bytes) : Option (Bytes × Bytes) :=
  if slash ∈ path then
    some (((path.reverse.dropWhile (· ≠ slash)).drop 1).reverse, (path.reverse.takeWhile (· ≠ slash)).reverse)
  else none

def fdtExtractNameloc (cwd : Cwd) (arg : Bytes) : Except PathError (Nameloc Node) :=
  let parts := (strrchr arg).getD ([], arg)
  -- a path in which nothing is before the slash is also taken for one in the current directory
  let path := if parts.1.length = 0 then cwd.path else parts.1
  if parts.2.length = 0 then .error .noName
  else (tree.fdtPathOffset path).elim (.error (.notFound path)) fun o => .ok ⟨path, parts.2, o⟩

end Pcbsd.FdtPath
