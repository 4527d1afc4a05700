import Pcbsd.Lib.Stailq
import Pcbsd.Zfs.Nvlist
import Pcbsd.Zfs.Zio

/-! The in-core vdevs of boot/zfs/zfsimpl.c and how a label's vdev tree is added to them. Vdevs
are never freed, and vdev_create puts each on zfs_vdevs, so that zfs_vdevs is all of them in the
order of their creation and a pointer is a position in it. -/

namespace Pcbsd.Zfs
open Lib

def chars (cs : List Char) : Bytes := cs.map fun c => UInt8.ofNat c.toNat

def configGuid : Bytes := chars ['g', 'u', 'i', 'd']
def configId : Bytes := chars ['i', 'd']
def configType : Bytes := chars ['t', 'y', 'p', 'e']
def configOffline : Bytes := chars ['o', 'f', 'f', 'l', 'i', 'n', 'e']
def configRemoved : Bytes := chars ['r', 'e', 'm', 'o', 'v', 'e', 'd']
def configFaulted : Bytes := chars ['f', 'a', 'u', 'l', 't', 'e', 'd']
def configDegraded : Bytes := chars ['d', 'e', 'g', 'r', 'a', 'd', 'e', 'd']
def configNotPresent : Bytes := chars ['n', 'o', 't', '_', 'p', 'r', 'e', 's', 'e', 'n', 't']
def configAshift : Bytes := chars ['a', 's', 'h', 'i', 'f', 't']
def configNparity : Bytes := chars ['n', 'p', 'a', 'r', 'i', 't', 'y']
def configPath : Bytes := chars ['p', 'a', 't', 'h']
def configChildren : Bytes := chars ['c', 'h', 'i', 'l', 'd', 'r', 'e', 'n']

def typeMirror : Bytes := chars ['m', 'i', 'r', 'r', 'o', 'r']
def typeDisk : Bytes := chars ['d', 'i', 's', 'k']
def typeRaidz : Bytes := chars ['r', 'a', 'i', 'd', 'z']
def typeReplacing : Bytes := chars ['r', 'e', 'p', 'l', 'a', 'c', 'i', 'n', 'g']
def devPrefix : Bytes := chars ['/', 'd', 'e', 'v', '/']

/-- What vdev_init_from_nvlist finds in the nvlist of one vdev, without its children. -/
structure Details where
  guid : Option Nat
  id : Option Nat
  type : Option Bytes
  offline : Nat := 0
  removed : Nat := 0
  faulted : Nat := 0
  degraded : Nat := 0
  notPresent : Nat := 0
  ashift : Option Nat := none
  nparity : Option Nat := none
  path : Option Bytes := none
  deriving DecidableEq

/-- A vdev tree as vdev_init_from_nvlist finds it. `nkids` is the number of elements of the
children array, if there is one. -/
inductive Config where
  | mk (details : Details) (nkids : Option Int) (kids : List Config)

def detailsAt (bs : Bytes) (nvlist : Nat) : Details where
  guid := nvlistFindUint64 bs nvlist configGuid
  id := nvlistFindUint64 bs nvlist configId
  type := nvlistFindString bs nvlist configType
  offline := (nvlistFindUint64 bs nvlist configOffline).getD 0
  removed := (nvlistFindUint64 bs nvlist configRemoved).getD 0
  faulted := (nvlistFindUint64 bs nvlist configFaulted).getD 0
  degraded := (nvlistFindUint64 bs nvlist configDegraded).getD 0
  notPresent := (nvlistFindUint64 bs nvlist configNotPresent).getD 0
  ashift := nvlistFindUint64 bs nvlist configAshift
  nparity := nvlistFindUint64 bs nvlist configNparity
  path := nvlistFindString bs nvlist configPath

def kidsAt (bs : Bytes) : Nat → Nat → List Nat
  | 0, _ => []
  | n + 1, kids => kids :: kidsAt bs n (nvlistNext bs kids)

/-- The tree at an nvlist, nested at most `fuel` deep. The lookups change nothing, so that all of
them can be made before the vdevs are touched. -/
def configAt (bs : Bytes) : Nat → Nat → Config
  | 0, nvlist => .mk (detailsAt bs nvlist) none []
  | fuel + 1, nvlist =>
    match nvlistFind bs nvlist configChildren .nvlistArray with
    | none => .mk (detailsAt bs nvlist) none []
    | some (nkids, kids) => .mk (detailsAt bs nvlist) (some nkids) ((kidsAt bs nkids.toNat kids).map (configAt bs fuel))

/-- A vdev_t. `phys` is v_phys_read with its v_read_priv. -/
structure VdevT (δ : Type) where
  guid : Nat
  id : Nat
  top : Nat
  ashift : Nat
  nparity : Nat
  name : Bytes
  read : VdevRead
  phys : Option δ
  state : VdevState
  nchildren : Int
  children : Stailq.Head Nat
  childlink : Option Nat

structure Vdevs (δ : Type) where
  count : Nat
  vdev : Nat → VdevT δ

namespace Vdevs

variable {δ : Type}

def modify (h : Vdevs δ) (p : Nat) (f : VdevT δ → VdevT δ) : Vdevs δ :=
  { h with vdev := Function.update h.vdev p (f (h.vdev p)) }

/-- The v_childlink fields, which v_children and spa_vdevs share. -/
def links (h : Vdevs δ) : Nat → Option Nat := fun p => (h.vdev p).childlink

def setLinks (h : Vdevs δ) (next : Nat → Option Nat) : Vdevs δ :=
  { h with vdev := fun p => { h.vdev p with childlink := next p } }

def chain (h : Vdevs δ) (head : Stailq.Head Nat) : List Nat := Stailq.walk h.links h.count head.first

def children (h : Vdevs δ) (p : Nat) : List Nat := h.chain (h.vdev p).children

end Vdevs

variable {δ : Type}

def vdevFind (h : Vdevs δ) (guid : Nat) : Option Nat :=
  (List.range h.count).find? fun p => (h.vdev p).guid = guid

def vdevCreate (h : Vdevs δ) (guid : Nat) (read : VdevRead) : Vdevs δ where
  count := h.count + 1
  vdev := Function.update h.vdev h.count
    { guid, id := 0, top := 0, ashift := 0, nparity := 0, name := [], read, phys := none, state := .offline,
      nchildren := 0, children := Stailq.empty, childlink := none }

def vdevType (type : Bytes) : Option VdevRead :=
  if type = typeMirror then some .mirror
  else if type = typeDisk then some .disk
  else if type = typeRaidz then some .raidz
  else if type = typeReplacing then some .replacing
  else none

/-- v_name, or none for a raidz that has no path and an nparity other than 1, 2 and 3. -/
def vdevName (d : Details) (type : Bytes) (nparity : Nat) : Option Bytes :=
  match d.path with
  | some path => some (if devPrefix <+: path then path.drop 5 else path)
  | none =>
    if type = typeRaidz then
      if nparity = 1 then some (typeRaidz ++ chars ['1'])
      else if nparity = 2 then some (typeRaidz ++ chars ['2'])
      else if nparity = 3 then some (typeRaidz ++ chars ['3'])
      else none
    else some type

def vdevAdd (h : Vdevs δ) (guid id : Nat) (type : Bytes) (read : VdevRead) (d : Details) (pvdev : Option Nat) :
    Int × Vdevs δ :=
  let vdev := h.count
  let nparity := d.nparity.getD 0
  let h := (vdevCreate h guid read).modify vdev
    ({ · with id, top := pvdev.getD vdev, ashift := d.ashift.getD 0, nparity })
  match vdevName d type nparity with
  | none => (eio, h)
  | some name => (0, h.modify vdev ({ · with name }))

def Details.flagged (d : Details) : Option VdevState :=
  if d.offline ≠ 0 then some .offline
  else if d.removed ≠ 0 then some .removed
  else if d.faulted ≠ 0 then some .faulted
  else if d.degraded ≠ 0 then some .degraded
  else if d.notPresent ≠ 0 then some .cantOpen
  else none

def vdevRefresh (h : Vdevs δ) (vdev : Nat) (d : Details) : Vdevs δ :=
  h.modify vdev fun v => { v with state := d.flagged.getD v.state }

/-- vdev_init_from_nvlist up to the children: the return code so far, the vdev and is_new. -/
def vdevEnter (d : Details) (pvdev : Option Nat) (isNewer : Bool) (h : Vdevs δ) : Int × Nat × Bool × Vdevs δ :=
  match d.guid, d.id, d.type with
  | some guid, some id, some type =>
    match vdevType type with
    | none => (eio, 0, false, h)
    | some read =>
      match vdevFind h guid with
      | some vdev => (0, vdev, false, if isNewer then vdevRefresh h vdev d else h)
      | none =>
        match vdevAdd h guid id type read d pvdev with
        | (rc, h') => if rc ≠ 0 then (rc, 0, false, h') else (0, h.count, true, vdevRefresh h' h.count d)
  | _, _, _ => (enoent, 0, false, h)

/-- STAILQ_INSERT_TAIL(&vdev->v_children, kid, v_childlink). -/
def insertChild (h : Vdevs δ) (vdev kid : Nat) : Vdevs δ :=
  match Stailq.insertTail h.links (h.vdev vdev).children kid with
  | (next, head) => (h.setLinks next).modify vdev ({ · with children := head })

mutual

def vdevInit (config : Config) (pvdev : Option Nat) (isNewer : Bool) (h : Vdevs δ) : Int × Nat × Vdevs δ :=
  match config with
  | .mk d nkids kids =>
    match vdevEnter d pvdev isNewer h with
    | (rc, vdev, isNew, h) =>
      if rc ≠ 0 then (rc, 0, h)
      else
        match nkids with
        | none => (0, vdev, h.modify vdev ({ · with nchildren := 0 }))
        | some n =>
          match vdevInitKids kids vdev isNew isNewer (h.modify vdev ({ · with nchildren := n })) with
          | (rc, h) => if rc ≠ 0 then (rc, 0, h) else (0, vdev, h)

def vdevInitKids (kids : List Config) (vdev : Nat) (isNew isNewer : Bool) (h : Vdevs δ) : Int × Vdevs δ :=
  match kids with
  | [] => (0, h)
  | config :: kids =>
    match vdevInit config (some vdev) isNewer h with
    | (rc, kid, h) =>
      if rc ≠ 0 then (rc, h)
      else vdevInitKids kids vdev isNew isNewer (if isNew then insertChild h vdev kid else h)

end

def vdevInitFromNvlist (bs : Bytes) (nvlist : Nat) (pvdev : Option Nat) (isNewer : Bool) (h : Vdevs δ) :
    Int × Nat × Vdevs δ :=
  vdevInit (configAt bs bs.length nvlist) pvdev isNewer h

/-- The state of an interior vdev with the given numbers of healthy and of other kids. -/
def stateOfKids (v : VdevT δ) (good bad : Nat) : VdevState :=
  if bad = 0 then .healthy
  else
    match v.read with
    | .mirror => if good ≠ 0 then .degraded else .offline
    | .raidz => if v.nparity < bad then .offline else .degraded
    | _ => v.state

def vdevSetState (h : Vdevs δ) (vdev : Nat) : Vdevs δ :=
  if (h.vdev vdev).children.first.isSome then
    let healthy := fun kid => (h.vdev kid).state = .healthy
    h.modify vdev fun v =>
      { v with state := stateOfKids v ((h.children vdev).countP healthy) ((h.children vdev).countP (¬healthy ·)) }
  else h

end Pcbsd.Zfs
