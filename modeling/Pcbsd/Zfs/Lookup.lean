import Pcbsd.Lib.Strcpy
import Pcbsd.Zfs.Dataset
import Pcbsd.Zfs.Readdir

/-! zfs_lookup of boot/zfs/zfsimpl.c. -/

namespace Pcbsd.Zfs
open Lib

def emlink : Int := 31

def sIslnk (mode : Nat) : Bool := mode / 0o10000 % 16 = 10

/-- The object numbers, the name and the types of zfsimpl.h that zfs_lookup uses. -/
structure LookupLayout extends DnodeLayout where
  dmuOstZfs : Nat
  masterNodeObj : Nat
  zfsRootObj : Bytes
  direntObj : Nat → Nat
  znodeSize : Nat
  bonus : Bytes → Bonus

/-- Where the rest of the path is: in the caller's string, which is shown by its rest, or in the buffer path. -/
inductive PathPtr where
  | caller (rest : Bytes)
  | buffer (off : Nat)

def PathPtr.advance (n : Nat) : PathPtr → PathPtr
  | .caller rest => .caller (rest.drop n)
  | .buffer off => .buffer (off + n)

def PathPtr.text (path : Bytes) : PathPtr → Bytes
  | .caller rest => rest
  | .buffer off => bufString (path.drop off)

/-- What zfs_lookup keeps over a turn: dn is in the cache's memory, and its bytes are here. -/
structure LookupState (σ : Type) where
  st : DnodeCache σ
  dn : Bytes
  objnum : Nat
  p : Option PathPtr
  path : Bytes
  symlinksFollowed : Nat

/-- The tail of the path behind the place of a link value of `size` bytes. -/
def copyTail (p : Option PathPtr) (path : Bytes) (size : Nat) : Option Bytes :=
  match p with
  | none => if size < path.length then some (put size [0] path) else none
  | some (.caller rest) => if size + rest.length < path.length then some (put size (rest ++ [0]) path) else none
  | some (.buffer off) => strcpy path size off

namespace Env

variable {δ σ : Type} (env : Env δ σ) (stats : Layout) (layout : ZapLayout) (zapHash : ZapHash) (fsl : LookupLayout)

/-- objset_get_dnode into dn, which is at `var`. -/
def getDn (os var : Nat) (st : DnodeCache σ) (objnum : Nat) (dn : Bytes) : Int × Bytes × DnodeCache σ :=
  match env.objsetGetDnode fsl.toDnodeLayout st os objnum with
  | (rc, out, st) => (rc, put 0 out dn, st.fill var (fsl.dnodePhys (put 0 out dn)))

/-- The new path: the value of the link in dn, and the tail. -/
def linkPath (var : Nat) (st : DnodeCache σ) (dn : Bytes) (sb : Stat) (p : Option PathPtr)
    (path : Bytes) : ZapResult Bytes × DnodeCache σ :=
  if sb.size < 0 then (.fault, st)
  else
    match copyTail p path sb.size.toNat with
    | none => (.fault, st)
    | some path =>
      if sb.size.toNat + fsl.znodeSize ≤ (fsl.bonus dn).len then
        (.ok (put 0 (slice fsl.znodeSize sb.size.toNat (fsl.bonus dn).bytes) path), st)
      else
        match env.dnodeRead st var 0 sb.size.toNat with
        | (rc, out, st) => if rc ≠ 0 then (.error rc, st) else (.ok (put 0 out path), st)

/-- From the check for a symlink on: the object that was found is in dn. -/
def followLink (os var rootnum parentnum : Nat) (s : LookupState σ) : ZapResult Unit × LookupState σ :=
  match env.zfsDnodeStat stats (fsl.bonus s.dn) s.st.world with
  | (.error rc, w) => (.error rc, { s with st := { s.st with world := w } })
  | (.ok sb, w) =>
    let s := { s with st := { s.st with world := w } }
    if !sIslnk sb.mode then (.ok (), s)
    else if 10 < s.symlinksFollowed then (.error emlink, s)
    else
      match env.linkPath fsl var s.st s.dn sb s.p s.path with
      | (.error rc, st) => (.error rc, { s with st := st })
      | (.fault, st) => (.fault, { s with st := st })
      | (.ok path, st) =>
        let objnum := if path.head? = some slash then rootnum else parentnum
        match env.getDn fsl os var st objnum s.dn with
        | (_, dn, st) => (.ok (), ⟨st, dn, objnum, some (.buffer 0), path, s.symlinksFollowed + 1⟩)

def lookupElement (os var rootnum : Nat) (s : LookupState σ) (element : Bytes) : ZapResult Unit × LookupState σ :=
  match env.zfsDnodeStat stats (fsl.bonus s.dn) s.st.world with
  | (.error rc, w) => (.error rc, { s with st := { s.st with world := w } })
  | (.ok sb, w) =>
    if !sIsdir sb.mode then (.error enotdir, { s with st := { s.st with world := w } })
    else
      match env.zapLookup layout zapHash { s.st with world := w } var element with
      | (.error rc, st) => (.error rc, { s with st := st })
      | (.fault, st) => (.fault, { s with st := st })
      | (.ok value, st) =>
        match env.getDn fsl os var st (fsl.direntObj value) s.dn with
        | (rc, dn, st) =>
          if rc ≠ 0 then (.error rc, { s with st := st })
          else env.followLink stats fsl os var rootnum s.objnum { s with st := st, dn := dn, objnum := fsl.direntObj value }

@[grind =] def lookupLoop (os var rootnum : Nat) : Nat → LookupState σ → ZapResult Bytes × DnodeCache σ
  | 0, s => (.fault, s.st)
  | fuel + 1, s =>
    match s.p with
    | none => (.ok s.dn, s.st)
    | some p =>
      let slashes := ((p.text s.path).takeWhile (· = slash)).length
      let rest := (p.text s.path).drop slashes
      if rest = [] then (.ok s.dn, s.st)
      else
        let element := rest.takeWhile (· ≠ slash)
        -- no room in the buffer
        if 256 ≤ element.length then (.fault, s.st)
        else
          let p := if element.length < rest.length then some (p.advance (slashes + element.length)) else none
          match env.lookupElement stats layout zapHash fsl os var rootnum { s with p := p } element with
          | (.ok (), s) => lookupLoop os var rootnum fuel s
          | (.error rc, s) => (.error rc, s.st)
          | (.fault, s) => (.fault, s.st)

end Env

end Pcbsd.Zfs
