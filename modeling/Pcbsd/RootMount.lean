import Pcbsd.Lib.Numeral

/-! getrootmount of boot/common/boot.c. fgetstr is libstand's: it stores a line without its carriage returns and NULs,
and a NUL behind it. A pointer into the line buffer has the bytes in front of it and those from it on; one that leaves
the buffer reads nothing. -/

namespace Pcbsd.RootMount
open Lib Numeral

def charSlash : UInt8 := 0x2f
def charHash : UInt8 := 0x23
def charColon : UInt8 := 0x3a

def sizeofLbuf : Nat := 128

structure Line where
  text : Bytes
  plain : 0 ∉ text
  fits : text.length < sizeofLbuf

def fgetstr (text buf : Bytes) : Bytes := put 0 (text ++ [0]) buf

structure Pointer where
  passed : Bytes
  ahead : Bytes

def Pointer.buf (cp : Pointer) : Bytes := cp.passed ++ cp.ahead

/-- `while ((*cp != 0) && goes(*cp)) cp++`, and what it passes. -/
def Pointer.skip (goes : UInt8 → Bool) (cp : Pointer) : Option (Bytes × Pointer) :=
  let skipped := cp.ahead.takeWhile fun c => c != 0 && goes c
  match cp.ahead.dropWhile fun c => c != 0 && goes c with
  | [] => none
  | c :: rest => some (skipped, ⟨cp.passed ++ skipped, c :: rest⟩)

def isText (c : UInt8) : Bool := !isSpace c

def Pointer.step (n : Nat) (cp : Pointer) : Pointer := ⟨cp.passed ++ cp.ahead.take n, cp.ahead.drop n⟩

def Pointer.delimit (cp : Pointer) : Pointer := ⟨cp.passed ++ [0], cp.ahead.drop 1⟩

structure Mount where
  dev : Bytes
  fstyp : Bytes
  options : Bytes
  deriving DecidableEq

/-- What a line says, if it is the one for the root, and the buffer behind it. -/
abbrev Looked := Option (Option Mount × Bytes)

def mountOptions (dev fstyp : Bytes) (cp : Pointer) : Looked :=
  (cp.skip isSpace).bind fun (_, cp) =>
    if cp.ahead.head? = some 0 then some (none, cp.buf)
    else (cp.skip isText).bind fun (options, cp) => some (some ⟨dev, fstyp, options⟩, cp.delimit.buf)

def mountType (dev : Bytes) (cp : Pointer) : Looked :=
  (cp.skip isSpace).bind fun (_, cp) =>
    if cp.ahead.head? = some 0 then some (none, cp.buf)
    else (cp.skip isText).bind fun (fstyp, cp) => mountOptions dev fstyp cp.delimit

def mountPoint (dev : Bytes) (cp : Pointer) : Looked :=
  (cp.skip isSpace).bind fun (_, cp) =>
    if cp.ahead.head? = some charSlash then
      cp.ahead[1]?.bind fun c => if isSpace c then mountType dev (cp.step 2) else some (none, cp.buf)
    else some (none, cp.buf)

def mountLine (lbuf : Bytes) : Looked :=
  if lbuf.head? = some 0 ∨ lbuf.head? = some charHash then some (none, lbuf)
  else
    (Pointer.skip isText ⟨[], lbuf⟩).bind fun (dev, cp) =>
      if cp.ahead.head? = some 0 then some (none, cp.buf) else mountPoint dev cp.delimit

def mountLoop : Nat → List Line → Bytes → Option (Option (Nat × Mount))
  | _, [], _ => some none
  | n, line :: rest, lbuf =>
    (mountLine (fgetstr line.text lbuf)).bind fun (found, lbuf) =>
      match found with
      | some mount => some (some (n, mount))
      | none => mountLoop (n + 1) rest lbuf

/-- vfs.root.mountfrom, vfs.root.mountfrom.options, currdev -/
structure Environment where
  mountfrom : Option Bytes
  options : Option Bytes
  currdev : Option Bytes
  deriving DecidableEq

def Mount.source (mount : Mount) : Bytes := mount.fstyp ++ charColon :: mount.dev

def Environment.setMount (mount : Mount) (env : Environment) : Environment :=
  { env with mountfrom := some mount.source, options := some (env.options.getD mount.options) }

def zfsColon : Bytes := ascii ['z', 'f', 's', ':']

def notfound (env : Environment) : Nat × Environment :=
  match env.currdev with
  | none => (1, env)
  | some currdev => if zfsColon <+: currdev then (0, { env with mountfrom := some currdev.dropLast }) else (1, env)

/-- The error and the environment. `lbuf` is what the line buffer holds when /etc/fstab, if there is one, has been
opened. -/
def getrootmount (fstab : Option (List Line)) (lbuf : Bytes) (env : Environment) : Option (Nat × Environment) :=
  if env.mountfrom.isSome then some (0, env)
  else
    match fstab with
    | none => some (notfound env)
    | some lines =>
      (mountLoop 0 lines lbuf).map fun found =>
        match found with
        | none => notfound env
        | some (_, mount) => (0, env.setMount mount)

end Pcbsd.RootMount
