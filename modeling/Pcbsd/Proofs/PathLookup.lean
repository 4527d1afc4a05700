import Pcbsd.Proofs.DatasetNames
import Pcbsd.Proofs.FileAccess
import Pcbsd.Zfs.Lookup

/-! zfs_lookup against the resolution of paths component by component. -/

namespace Pcbsd.Zfs
open Lib List

variable {δ σ : Type} {env : Env δ σ} {stats : Layout} {layout : ZapLayout} {zapHash : ZapHash} {fsl : LookupLayout}

/-- The tail of a path can be copied behind the value of a link. In the buffer, where the whole path has `total` bytes,
the value must not be longer than what comes before the tail, or else longer than the whole path. -/
def Copies (total : Option Nat) (size : Nat) (tail : Bytes) : Prop :=
  size + tail.length < 1024 ∧ (tail = [] ∨ ∀ t, total = some t → size + tail.length ≤ t ∨ t < size)

instance (total : Option Nat) (size : Nat) (tail : Bytes) : Decidable (Copies total size tail) :=
  inferInstanceAs (Decidable (_ ∧ (_ ∨ ∀ t ∈ total, _)))

section

variable (fs : Fs) (answer : Nat → Bytes → ZapResult Nat) (seen : Nat → Except Int Bytes)

/-- On with what is read for the value of a link. The new path ends at the first zero. -/
def readLink (again : List Nat → Bytes → ZapResult Nat) (cwd : List Nat) (tail : Bytes) : Except Int Bytes →
    ZapResult Nat
  | .ok value => again (fs.linkStart value cwd) (bufString (value ++ tail))
  | .error rc => .error rc

/-- The way of zfs_lookup through the tree. `answer` is what zap_lookup answers in the directories, `seen` what lies
where zfs_lookup looks for the values of the links; a copy out of its buffers is a fault. -/
def lookupWalk (links : Nat) (again : List Nat → Bytes → ZapResult Nat) (total : Option Nat) :
    List Nat → List (Bytes × Bytes) → ZapResult Nat
  | [], _ => .fault
  | here :: _, [] => .ok here
  | here :: up, (name, tail) :: rest =>
    if 256 ≤ name.length then .fault
    else
      match fs.node here with
      | .dir _ =>
        match answer here name with
        | .fault => .fault
        | .error rc => .error rc
        | .ok obj =>
          match fs.node obj with
          | .link target =>
            if links = 0 then .error emlink
            else if Copies total target.length tail then readLink fs again (here :: up) tail (seen obj)
            else .fault
          | _ => lookupWalk links again total (obj :: here :: up) rest
      | _ => .error enotdir

def lookupFrom : Nat → Option Nat → List Nat → List (Bytes × Bytes) → ZapResult Nat
  | 0, total => lookupWalk fs answer seen 0 (fun _ _ => .fault) total
  | links + 1, total =>
    lookupWalk fs answer seen (links + 1) (fun cwd text => lookupFrom links (some text.length) cwd (segments slash text)) total

def lookupBehind : Nat → List Nat → Bytes → ZapResult Nat
  | 0 => fun _ _ => .fault
  | links + 1 => fun cwd text => lookupFrom fs answer seen links (some text.length) cwd (segments slash text)

variable {fs answer seen} {links here obj : Nat} {total : Option Nat} {up : List Nat} {entries : List (Bytes × Nat)}
  {name tail target : Bytes} {rest : List (Bytes × Bytes)}

end

def errno : ResolveError → Int
  | .noEntry => enoent
  | .notDirectory => enotdir
  | .tooManyLinks => emlink

/-- What resolving a path gives, with `dnode` of the object. -/
def told (dnode : Nat → Bytes) : Except ResolveError Nat → ZapResult Bytes
  | .ok obj => .ok (dnode obj)
  | .error e => .error (errno e)

section

variable (fs : Fs) (answer : Nat → Bytes → ZapResult Nat) (seen : Nat → Except Int Bytes) (dnode : Nat → Bytes)

/-- The way through the directories. A wrong ENOENT does not matter where the path leads to it anyway. A link's value is
where zfs_lookup looks for it, or else what is read there happens to lead to the same. -/
def clearWalk (links : Nat) (again : List Nat → Bytes → Prop) (total : Option Nat) : List Nat →
    List (Bytes × Bytes) → Prop
  | [], _ => True
  | _, [] => True
  | here :: up, (name, tail) :: rest =>
    name.length < 256 ∧
      match fs.node here with
      | .dir _ =>
        match answer here name with
        | .fault => False
        | .error _ => fs.resolveFrom links (here :: up) (name :: rest.map Prod.fst) = .error .noEntry
        | .ok obj =>
          match fs.node obj with
          | .link target => links = 0 ∨ (Copies total target.length tail ∧
              if seen obj = .ok target then again (fs.linkStart target (here :: up)) (target ++ tail)
              else (readLink fs (lookupBehind fs answer seen links) (here :: up) tail (seen obj)).map dnode =
                told dnode (fs.resolveFrom links (here :: up) (name :: rest.map Prod.fst)))
          | _ => clearWalk links again total (obj :: here :: up) rest
      | _ => True

def ClearFrom : Nat → Option Nat → List Nat → List (Bytes × Bytes) → Prop
  | 0, total => clearWalk fs answer seen dnode 0 (fun _ _ => True) total
  | links + 1, total =>
    clearWalk fs answer seen dnode (links + 1)
      (fun cwd text => ClearFrom links (some text.length) cwd (segments slash text)) total

def Clear (upath : Bytes) : Prop := ClearFrom fs answer seen dnode 11 none [fs.root] (segments slash upath)

/-- What zap_lookup may answer in the directories of the tree, and how its links are spelt. -/
structure Answered : Prop where
  entry : ∀ dir entries, fs.Live dir → fs.node dir = .dir entries → ∀ name, name ≠ [] →
    (∀ rc, answer dir name = .error rc → rc = enoent) ∧ ∀ obj, answer dir name = .ok obj →
      fs.Live obj ∧ name ≠ dot ∧ name ≠ dotDot ∧ entries.find? (·.1 = name) = some (name, obj)
  target : ∀ obj value, fs.Live obj → fs.node obj = .link value → value ≠ [] ∧ (0 : UInt8) ∉ value

variable {fs answer seen dnode} {links here obj : Nat} {total : Option Nat} {up : List Nat}
    {entries : List (Bytes × Nat)}
  {name tail text : Bytes} {rest : List (Bytes × Bytes)}

end

def HasStat (env : Env δ σ) (stats : Layout) (bonus : Bonus) (tells : Stat → Prop) : Prop :=
  ∀ w, ∃ sb, (env.zfsDnodeStat stats bonus w).1 = .ok sb ∧ tells sb

/-- An object whose first block pointer cannot be read, such as a hole. -/
def DnodePhys.Unreadable (env : Env δ σ) (phys : DnodePhys) (rc : Int) : Prop :=
  0 < phys.bsize ∧ 0 < phys.nlevels ∧ rc ≠ 0 ∧ ∀ buf w, (env.zioRead (phys.blkptr 0) buf w).1 = rc

/-- What `n` bytes zfs_lookup finds in the place of a link's value: those behind a znode_phys_t in the bonus buffer
where they fit there, else those of the object's data, which may end before or may not be readable. -/
def Sees (env : Env δ σ) (fsl : LookupLayout) (dn : Bytes) (n : Nat) (seen : Except Int Bytes) : Prop :=
  if n + fsl.znodeSize ≤ (fsl.bonus dn).len then
    seen = .ok (slice fsl.znodeSize n (fsl.bonus dn).bytes) ∧ (fsl.bonus dn).len ≤ (fsl.bonus dn).bytes.length
  else
    (∃ phys data, fsl.dnodePhys dn = phys ∧ Readable env phys data ∧
      seen = if n ≤ (phys.maxblkid + 1) * phys.bsize then .ok ((phys.logical data).take n) else .error eio) ∨
    ∃ rc, (fsl.dnodePhys dn).Unreadable env rc ∧ seen = .error rc

/-- What an object is on disk. Where a link with system attributes has its value is not known to zfs_lookup. -/
def StoredNode (env : Env δ σ) (stats : Layout) (layout : ZapLayout) (zapHash : ZapHash) (fsl : LookupLayout)
    (answer : Bytes → ZapResult Nat) (seen : Except Int Bytes) (dn : Bytes) : Node → Prop
  | .dir entries => HasStat env stats (fsl.bonus dn) (fun sb => sIsdir sb.mode = true) ∧
    ∃ (kind : ZapKind) (phys : DnodePhys) (data : Nat → Bytes) (items : List (Bytes × Nat)), fsl.dnodePhys dn = phys ∧
      Readable env phys data ∧ kind.Formed layout zapHash phys data items ∧
      (∀ name, answer name = (kind.answer layout zapHash phys data name).map fsl.direntObj) ∧
      entries = items.map (fun item => (item.1, fsl.direntObj item.2)) ∧ ∀ item ∈ items, item.1 ≠ dot ∧ item.1 ≠ dotDot
  | .file => HasStat env stats (fsl.bonus dn) (fun sb => sIsdir sb.mode = false ∧ sIslnk sb.mode = false)
  | .link target => HasStat env stats (fsl.bonus dn) (fun sb => sIslnk sb.mode = true ∧ sb.size = target.length) ∧
    target ≠ [] ∧ (0 : UInt8) ∉ target ∧ Sees env fsl dn target.length seen

structure FsDisk (env : Env δ σ) (stats : Layout) (layout : ZapLayout) (zapHash : ZapHash) (fsl : LookupLayout)
    (objset : DnodePhys)
    (data : Nat → Bytes) (fs : Fs) (answer : Nat → Bytes → ZapResult Nat) (seen : Nat → Except Int Bytes) : Prop where
  sized : 0 < fsl.dnodeSize
  readable : Readable env objset data
  stored : ∀ obj, fs.Live obj → fsl.Inside objset obj ∧
    StoredNode env stats layout zapHash fsl (answer obj) (seen obj) (fsl.dnodeOf (objset.logical data) obj)
      (fs.node obj)
  masterInside : fsl.Inside objset fsl.masterNodeObj
  master : ∃ (kind : ZapKind) (phys : DnodePhys) (zapData : Nat → Bytes) (items : List (Bytes × Nat)),
    fsl.dnodePhys (fsl.dnodeOf (objset.logical data) fsl.masterNodeObj) = phys ∧ Readable env phys zapData ∧
      kind.Formed layout zapHash phys zapData items ∧ kind.LookupFine layout zapHash phys zapData items fsl.zfsRootObj ∧
      (fsl.zfsRootObj, fs.root) ∈ items

theorem zap_distinct {kind : ZapKind} {phys : DnodePhys} {zapData : Nat → Bytes} {items : List (Bytes × Nat)}
    (formed : kind.Formed layout zapHash phys zapData items) : (items.map Prod.fst).Nodup := by
  cases kind with
  | micro => exact formed.distinct
  | fat _ _ => exact formed.2.2.distinct

theorem find_unique {name : Bytes} {entries : List (Bytes × Nat)} (distinct : (entries.map Prod.fst).Nodup) {obj : Nat}
    (member : (name, obj) ∈ entries) : entries.find? (·.1 = name) = some (name, obj) := by
  cases found : entries.find? (·.1 = name) with
  | none => exact absurd (find?_eq_none.mp found _ member) (by simp)
  | some item =>
    have same : item.1 = name := by simpa using find?_some found
    rw [fst_unique distinct (mem_of_find?_eq_some found) member same]

theorem FsDisk.answered {objset : DnodePhys} {data : Nat → Bytes} {fs : Fs} {answer : Nat → Bytes → ZapResult Nat}
    {seen : Nat → Except Int Bytes} (disk : FsDisk env stats layout zapHash fsl objset data fs answer seen) :
    Answered fs answer := by
  constructor
  · intro dir entries live node name nonempty
    have stored := (disk.stored dir live).2
    rw [node] at stored
    obtain ⟨-, kind, phys, zapData, _, -, -, formed, answers, listed, plainNames⟩ := stored
    have sound := answer_sound formed nonempty
    rw [answers]
    cases came : kind.answer layout zapHash phys zapData name with
    | fault => exact ⟨fun rc same => (by cases same), fun obj same => (by cases same)⟩
    | error rc =>
      refine ⟨fun rc' same => ?_, fun obj same => (by cases same)⟩
      obtain rfl := ZapResult.error.inj same
      exact sound.2 rc came
    | ok value =>
      refine ⟨fun rc same => (by cases same), fun obj same => ?_⟩
      obtain rfl := ZapResult.ok.inj same
      have member := sound.1 value came
      have entry : (name, fsl.direntObj value) ∈ entries := by
        rw [listed]
        exact List.mem_map.mpr ⟨(name, value), member, rfl⟩
      have distinct : (entries.map Prod.fst).Nodup := by
        rw [listed, map_map]
        exact zap_distinct formed
      exact ⟨.entry live node entry, (plainNames _ member).1, (plainNames _ member).2, find_unique distinct entry⟩
  · intro obj value live node
    have stored := (disk.stored obj live).2
    rw [node] at stored
    exact ⟨stored.2.1, stored.2.2.1⟩

/-- The text that is left: there is none, or it is in the caller's string, or at the end of the `total` bytes in the
buffer. -/
def Place (path : Bytes) (p : Option PathPtr) (total : Option Nat) (text : Bytes) : Prop :=
  (p = none ∧ text = []) ∨ (total = none ∧ p = some (.caller text)) ∨
    ∃ off t, total = some t ∧ p = some (.buffer off) ∧ off + text.length = t ∧ text ++ [0] <+: path.drop off

section

variable {path text : Bytes} {p : Option PathPtr} {q : PathPtr} {total : Option Nat}

end

structure At (fsl : LookupLayout) (objset : DnodePhys) (data : Nat → Bytes) (os var : Nat)
    (s : LookupState σ) (here : Nat) (total : Option Nat) (text : Bytes) (links : Nat) : Prop where
  held : s.st.Held os objset data
  tag : s.st.obj = some os
  memory : s.st.dnodes var = fsl.dnodePhys s.dn
  dn : s.dn = fsl.dnodeOf (objset.logical data) here
  objnum : s.objnum = here
  plain : (0 : UInt8) ∉ text
  place : Place s.path s.p total text
  size : s.path.length = 1024
  followed : s.symlinksFollowed + links = 11

section

variable {objset : DnodePhys} {data : Nat → Bytes} {fs : Fs} {answer : Nat → Bytes → ZapResult Nat}
  {seen : Nat → Except Int Bytes} {os var : Nat} {s : LookupState σ}
  {here links fuel : Nat} {total : Option Nat} {text name tail : Bytes}

variable {rootnum : Nat}

theorem At.world (at_ : At fsl objset data os var s here total text links) (w : σ) :
    At fsl objset data os var { s with st := { s.st with world := w } } here total text links :=
  ⟨⟨at_.held.same, at_.held.keeps⟩, at_.tag, at_.memory, at_.dn, at_.objnum, at_.plain, at_.place, at_.size,
    at_.followed⟩

end

/-! A file system in which a leads through c and dd to a directory with the file b. -/

end Pcbsd.Zfs
