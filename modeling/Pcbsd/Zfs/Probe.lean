import Pcbsd.Zfs.Vdev

/-! vdev_probe of boot/zfs/zfsimpl.c: a device with a valid label joins its pool. -/

namespace Pcbsd.Zfs
open Lib

def poolStateDestroyed : Nat := 2
def uberblockMagic : Nat := 0x00bab10c

structure Uberblock where
  magic : Nat
  txg : Nat
  timestamp : Nat
  rest : Bytes
  deriving DecidableEq

structure Label where
  version : Option Nat
  state : Option Nat
  txg : Option Nat
  poolGuid : Option Nat
  name : Option Bytes
  isLog : Nat
  guid : Option Nat
  tree : Option Config

/-- The devices: what vdev_probe finds in the label, and the uberblock ring, whose size follows from
v_top->v_ashift, with none for a slot that cannot be read. `spaVersion` is the newest version that
is supported. -/
structure Media (δ : Type) where
  label : δ → Option Label
  uberblocks : δ → Nat → List (Option Uberblock)
  spaVersion : Nat

structure Spa where
  guid : Nat
  name : Bytes
  txg : Nat
  uberblock : Uberblock
  vdevs : Stailq.Head Nat

structure ZfsState (δ : Type) where
  vdevs : Vdevs δ
  pools : List Spa

variable {δ : Type}

def spaFindByGuid (pools : List Spa) (guid : Nat) : Option Nat := pools.findIdx? (·.guid = guid)

def spaCreate (guid : Nat) (name : Bytes) : Spa where
  guid := guid
  name := name
  txg := 0
  uberblock := ⟨0, 0, 0, []⟩
  vdevs := Stailq.empty

/-- The position of the pool with a guid and the pools, to which it is added if it is new. -/
def findOrCreateSpa (pools : List Spa) (guid : Nat) (name : Bytes) : Nat × List Spa :=
  match spaFindByGuid pools guid with
  | some spa => (spa, pools)
  | none => (pools.length, pools ++ [spaCreate guid name])

def considerUberblock (spa : Spa) (slot : Option Uberblock) : Spa :=
  match slot with
  | none => spa
  | some up =>
    if up.magic ≠ uberblockMagic then spa
    else if up.txg < spa.txg then spa
    else if spa.uberblock.txg < up.txg then { spa with uberblock := up }
    else if up.txg = spa.uberblock.txg ∧ spa.uberblock.timestamp < up.timestamp then { spa with uberblock := up }
    else spa

/-- Adds the top-level vdev to the pool if it is not already there. -/
def addToplevel (st : ZfsState δ) (spa top : Nat) : ZfsState δ :=
  match st.pools[spa]? with
  | none => st
  | some pool =>
    if top ∈ st.vdevs.chain pool.vdevs then st
    else
      match Stailq.insertTail st.vdevs.links pool.vdevs top with
      | (next, head) =>
        { vdevs := st.vdevs.setLinks next, pools := st.pools.set spa { pool with vdevs := head } }

def attachVdev (media : Media δ) (dev : δ) (spa guid : Nat) (isNewer : Bool) (tree : Config) (st : ZfsState δ) :
    Int × ZfsState δ :=
  match vdevInit tree none isNewer st.vdevs with
  | (rc, top, vdevs) =>
    if rc ≠ 0 then (rc, { st with vdevs })
    else
      let st := addToplevel { st with vdevs } spa top
      match vdevFind st.vdevs guid with
      | none => (eio, st)
      | some vdev =>
        let vdevs := st.vdevs.modify vdev ({ · with phys := some dev, state := .healthy })
        let vdevs := vdevSetState vdevs top
        let slots := media.uberblocks dev (vdevs.vdev (vdevs.vdev vdev).top).ashift
        (0, { vdevs, pools := st.pools.modify spa fun pool => slots.foldl considerUberblock pool })

/-- The transaction group, guid and name of the pool of a label that vdev_probe does not turn down
before it looks for the pool. -/
def Label.pool (media : Media δ) (label : Label) : Option (Nat × Nat × Bytes) :=
  match label.version, label.state, label.txg, label.poolGuid, label.name with
  | some version, some state, some txg, some poolGuid, some name =>
    if media.spaVersion < version ∨ state = poolStateDestroyed ∨ label.isLog ≠ 0 then none
    else some (txg, poolGuid, name)
  | _, _, _, _, _ => none

/-- Finds or creates the pool of a label and brings spa_txg up to date; is_newer comes with it. -/
def enterPool (pools : List Spa) (txg poolGuid : Nat) (name : Bytes) : Nat × Bool × List Spa :=
  match findOrCreateSpa pools poolGuid name with
  | (spa, pools) =>
    if (pools[spa]?).any (·.txg < txg) then (spa, true, pools.modify spa ({ · with txg })) else (spa, false, pools)

def vdevInited (h : Vdevs δ) (guid : Nat) : Bool := (vdevFind h guid).any fun vdev => (h.vdev vdev).phys.isSome

def probeLabel (media : Media δ) (dev : δ) (label : Label) (st : ZfsState δ) : Int × ZfsState δ :=
  match label.pool media with
  | none => (eio, st)
  | some (txg, poolGuid, name) =>
    match enterPool st.pools txg poolGuid name with
    | (spa, isNewer, pools) =>
      match label.guid, label.tree with
      | some guid, some tree =>
        if vdevInited st.vdevs guid then (eio, { st with pools })
        else attachVdev media dev spa guid isNewer tree { st with pools }
      | _, _ => (eio, { st with pools })

def vdevProbe (media : Media δ) (st : ZfsState δ) (dev : δ) : Int × ZfsState δ :=
  match media.label dev with
  | none => (eio, st)
  | some label => probeLabel media dev label st

end Pcbsd.Zfs
