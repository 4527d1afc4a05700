import Pcbsd.Zfs.File
import Pcbsd.Zfs.Zap

/-! zfs_readdir of boot/zfs/zfs.c, and zap_list of boot/zfs/zfsimpl.c, which prints the same names. -/

namespace Pcbsd.Zfs
open Lib

def enotdir : Int := 20

def sIsdir (mode : Nat) : Bool := mode / 0o10000 % 16 = 4

/-- What zfs_readdir uses of the headers besides: the places of mz_chunk and zap_num_leafs, a chunk of a microzap
by itself, the parts of a directory value, and the size of d_name. -/
structure DirLayout extends ZapLayout where
  mzChunkOffset : Nat
  numLeafsOffset : Nat
  mzapEnt : Bytes → MzapEnt
  direntObj : Nat → Nat
  direntType : Nat → Nat
  nameSize : Nat

structure DirFile where
  seekp : Nat
  dnode : Nat
  bonus : Bonus
  zapType : Nat
  numLeafs : Nat
  zapLeaf : Bytes

/-- A struct dirent; `name` is the buffer d_name. -/
structure Dirent where
  fileno : Nat
  type : Nat
  name : Bytes
  namlen : Nat
  deriving DecidableEq

abbrev DirReply (σ : Type) := ZapResult Dirent × DirFile × DnodeCache σ

namespace Env

variable {δ σ : Type} (env : Env δ σ) (stats : Layout) (layout : DirLayout)

def direntOf (value : Nat) (name : Bytes) : Dirent :=
  ⟨layout.direntObj value, layout.direntType value, name, (bufString name).length⟩

def readdirFirst (fp : DirFile) (st : DnodeCache σ) : Int × DirFile × DnodeCache σ :=
  let bsize := (st.dnodes fp.dnode).bsize
  match env.dnodeRead st fp.dnode 0 8 with
  | (rc, zapType, st) =>
    if rc ≠ 0 then (rc, fp, st)
    else
      let fp := { fp with zapType := le 8 0 zapType }
      if fp.zapType = layout.zbtMicro then (0, { fp with seekp := layout.mzChunkOffset }, st)
      else
        match env.dnodeRead st fp.dnode layout.numLeafsOffset 8 with
        | (rc, numLeafs, st) =>
          if rc ≠ 0 then (rc, fp, st)
          else
            let fp := { fp with numLeafs := le 8 0 numLeafs, seekp := bsize }
            match env.dnodeRead st fp.dnode bsize bsize with
            | (rc, leaf, st) => (rc, { fp with zapLeaf := leaf }, st)

/-- From mzap_next on. A turn moves on by one chunk. -/
def mzapNext (d : Dirent) : Nat → DirFile → DnodeCache σ → DirReply σ
  | 0, fp, st => (.fault, fp, st)
  | fuel + 1, fp, st =>
    if (st.dnodes fp.dnode).bsize ≤ fp.seekp then (.error enoent, fp, st)
    else
      match env.dnodeRead st fp.dnode fp.seekp layout.mzapEntLen with
      | (rc, buf, st) =>
        if rc ≠ 0 then (.error rc, fp, st)
        else
          let fp := { fp with seekp := fp.seekp + layout.mzapEntLen }
          let mze := layout.mzapEnt buf
          if mze.name = [] then mzapNext d fuel fp st
          else (.ok (direntOf layout mze.value (put 0 (mze.name ++ [0]) d.name)), fp, st)

/-- The name of an entry pasted together in d_name, and its value. -/
def leafDirent (zl : ZapLeaf) (zc : LeafChunk) (d : Dirent) : ZapResult Dirent :=
  let namelen := min zc.entry.nameLength layout.nameSize
  match layout.nameCopyLoop zl namelen namelen zc.entry.nameChunk [], layout.fzapLeafValue zl zc with
  | .ok copied, .ok value => .ok (direntOf layout value (put (layout.nameSize - 1) [0] (put 0 copied d.name)))
  | _, _ => .fault

/-- The chunk that f_seekp stands for, of the leaf that is in the buffer or of the next one. ENOENT comes at the
end of the leaves. -/
def seekLeaf (bs : Nat) (fp : DirFile) (st : DnodeCache σ) : Int × DirFile × DnodeCache σ × Nat :=
  let bsize := (st.dnodes fp.dnode).bsize
  let chunk := fp.seekp &&& (bsize - 1)
  if chunk = layout.leafNumchunks bs then
    let fp := { fp with seekp := fp.seekp - chunk + bsize }
    if bsize * fp.numLeafs ≤ fp.seekp then (enoent, fp, st, 0)
    else
      match env.dnodeRead st fp.dnode fp.seekp bsize with
      | (rc, leaf, st) => (rc, { fp with zapLeaf := leaf }, st, 0)
  else (0, fp, st, chunk)

/-- From fzap_next on, with blocks of 2^bs bytes. A turn moves on by one chunk. -/
@[grind =] def fzapNext (bs : Nat) (d : Dirent) : Nat → DirFile → DnodeCache σ → DirReply σ
  | 0, fp, st => (.fault, fp, st)
  | fuel + 1, fp, st =>
    match env.seekLeaf layout bs fp st with
    | (rc, fp, st, chunk) =>
      if rc ≠ 0 then (.error rc, fp, st)
      else
        match layout.chunk ⟨bs, fp.zapLeaf⟩ chunk with
        | none => (.fault, fp, st)
        | some zc =>
          let fp := { fp with seekp := fp.seekp + 1 }
          if zc.entry.type ≠ layout.chunkEntry then fzapNext bs d fuel fp st
          else (leafDirent layout ⟨bs, fp.zapLeaf⟩ zc d, fp, st)

def readdirFuel (fp : DirFile) (st : DnodeCache σ) : Nat := (st.dnodes fp.dnode).bsize * (fp.numLeafs + 1) + 1

/-- zfs_readdir behind the first read. -/
def readdirNext (fp : DirFile) (st : DnodeCache σ) (d : Dirent) : DirReply σ :=
  if fp.zapType = layout.zbtMicro then env.mzapNext layout d (readdirFuel fp st) fp st
  else
    match ilog2 (st.dnodes fp.dnode).bsize with
    | none => (.fault, fp, st)
    | some bs => env.fzapNext layout bs d (readdirFuel fp st) fp st

def zfsReaddir (fp : DirFile) (st : DnodeCache σ) (d : Dirent) : DirReply σ :=
  match env.zfsDnodeStat stats fp.bonus st.world with
  | (.error rc, w) => (.error rc, fp, { st with world := w })
  | (.ok sb, w) =>
    if !sIsdir sb.mode then (.error enotdir, fp, { st with world := w })
    else if fp.seekp = 0 then
      match env.readdirFirst layout fp { st with world := w } with
      | (rc, fp, st) => if rc ≠ 0 then (.error rc, fp, st) else env.readdirNext layout fp st d
    else env.readdirNext layout fp { st with world := w } d

/-- `n` calls one after the other, each with the same struct dirent. -/
def readdirCalls : Nat → DirFile → DnodeCache σ → Dirent → List (ZapResult Dirent)
  | 0, _, _, _ => []
  | n + 1, fp, st, d =>
    match env.zfsReaddir stats layout fp st d with
    | (.ok d, fp, st) => .ok d :: readdirCalls n fp st d
    | (reply, fp, st) => reply :: readdirCalls n fp st d

def mzapList (size : Nat) (scratch : Bytes) : List Bytes :=
  ((layout.mzapChunks size scratch).filter (·.name ≠ [])).map (·.name)

/-- The names of these chunks of a leaf, pasted together in a buffer of 256 bytes. -/
@[grind =] def leafNames (zl : ZapLeaf) : List Nat → ZapResult (List Bytes)
  | [] => .ok []
  | j :: js =>
    match layout.chunk zl j with
    | none => .fault
    | some zc =>
      if zc.entry.type ≠ layout.chunkEntry then leafNames zl js
      else
        match layout.nameCopyLoop zl (min zc.entry.nameLength 256) (min zc.entry.nameLength 256) zc.entry.nameChunk [],
          layout.fzapLeafValue zl zc,
          leafNames zl js with
        | .ok copied, .ok _, .ok names => .ok (bufString copied :: names)
        | _, _, _ => .fault

@[grind =] def fzapListLoop (bs dnode : Nat) : List Nat → DnodeCache σ → ZapResult (List Bytes) × DnodeCache σ
  | [], st => (.ok [], st)
  | i :: is, st =>
    match env.dnodeRead st dnode ((i + 1) <<< bs) (st.dnodes dnode).bsize with
    | (rc, leaf, st) =>
      if rc ≠ 0 then (.error eio, st)
      else
        match leafNames layout ⟨bs, leaf⟩ (List.range (layout.leafNumchunks bs)), fzapListLoop bs dnode is st with
        | .ok names, (.ok more, st) => (.ok (names ++ more), st)
        | .ok _, (reply, st) => (reply, st)
        | reply, _ => (reply, st)

def zapList (st : DnodeCache σ) (dnode : Nat) : ZapResult (List Bytes) × DnodeCache σ :=
  match env.dnodeRead st dnode 0 (st.dnodes dnode).bsize with
  | (rc, scratch, st) =>
    if rc ≠ 0 then (.error eio, st)
    else if le 8 0 scratch = layout.zbtMicro then (.ok (mzapList layout (st.dnodes dnode).bsize scratch), st)
    else if (layout.zapPhys scratch).magic ≠ layout.zapMagic then (.error eio, st)
    else
      match ilog2 (st.dnodes dnode).bsize with
      | none => (.fault, st)
      | some bs => env.fzapListLoop layout bs dnode (List.range (layout.zapPhys scratch).numLeafs) st

end Env

end Pcbsd.Zfs
