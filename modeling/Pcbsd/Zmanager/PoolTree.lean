import Pcbsd.Lib.FirstMatch
import Pcbsd.Zmanager.Pools

/-! The tree of pools and devices in the window of pc-zmanager, zmanagerwindow.cpp: the items that refreshState puts
there, what zpoolContextMenu selects for the item that was clicked, and the commands for a selected device. -/

namespace Pcbsd.Zmanager.PoolTree
open Lib

structure PoolEntry extends Zpool where
  exported : Bool := false
  destroyed : Bool := false

def PoolEntry.inactive (pool : PoolEntry) : Bool := pool.exported || pool.destroyed

/-- A pointer to a device: the places of its pool, of the device or its group, and in the group. -/
structure VdevRef where
  pool : Nat
  vdev : Nat
  part : Option Nat
  deriving DecidableEq

def vdevAt (pools : List PoolEntry) (ref : VdevRef) : Option Vdev :=
  pools[ref.pool]?.bind fun pool => pool.vdevs[ref.vdev]?.bind fun vdev => ref.part.elim (some vdev) (vdev.partitions[·]?)

inductive Place where
  | pool (i : Nat)
  | device (ref : VdevRef)
  deriving DecidableEq

/-- An item of zpoolList: its text, the data of Qt::UserRole, whether it is disabled, and where in the tree it is. An
item under a disabled one is disabled. -/
structure TreeItem where
  text : Bytes
  userRole : Int
  disabled : Bool
  place : Place

def vdevItems (disabled : Bool) (i j : Nat) (vdev : Vdev) : List TreeItem :=
  ⟨vdev.name, -1, disabled, .device ⟨i, j, none⟩⟩ ::
    vdev.partitions.mapIdx fun k part => ⟨part.name, -1, disabled, .device ⟨i, j, some k⟩⟩

def poolItems (i : Nat) (pool : PoolEntry) : List TreeItem :=
  ⟨pool.name, i, pool.inactive, .pool i⟩ :: (pool.vdevs.mapIdx (vdevItems pool.inactive i)).flatten

def zpoolList (pools : List PoolEntry) : List TreeItem := (pools.mapIdx poolItems).flatten

def getZpoolbyName (pools : List PoolEntry) (name : Bytes) (index : Int) : Option Nat :=
  if 0 ≤ index then some index.toNat else firstMatch (fun i pool => if pool.name = name then some i else none) 0 pools

def searchVdev (name : Bytes) (i j : Nat) (vdev : Vdev) : Option VdevRef :=
  if vdev.name = name then some ⟨i, j, none⟩
  else firstMatch (fun k part => if part.name = name then some ⟨i, j, some k⟩ else none) 0 vdev.partitions

def searchPool (name : Bytes) (i : Nat) (pool : PoolEntry) : Option VdevRef :=
  firstMatch (searchVdev name i) 0 pool.vdevs

/-- getVDevbyName goes over all pools, and in each over two levels of devices. -/
def getVDevbyName (pools : List PoolEntry) (name : Bytes) : Option VdevRef := firstMatch (searchPool name) 0 pools

structure Selection where
  pool : Option Nat
  vdev : Option VdevRef

def zpoolContextMenu (pools : List PoolEntry) (s : Selection) (item : TreeItem) : Selection :=
  match getZpoolbyName pools item.text item.userRole with
  | some i => ⟨some i, none⟩
  | none => if item.disabled then ⟨none, s.vdev⟩ else ⟨none, getVDevbyName pools item.text⟩

inductive DeviceAction where
  | remove
  | attach (devices : List Bytes)
  | detach
  | offline
  | online

def removeCommand : Bytes := ascii ['z', 'p', 'o', 'o', 'l', ' ', 'r', 'e', 'm', 'o', 'v', 'e', ' ']
def attachCommand : Bytes := ascii ['z', 'p', 'o', 'o', 'l', ' ', 'a', 't', 't', 'a', 'c', 'h', ' ']
def detachCommand : Bytes := ascii ['z', 'p', 'o', 'o', 'l', ' ', 'd', 'e', 't', 'a', 'c', 'h', ' ']
def offlineCommand : Bytes := ascii ['z', 'p', 'o', 'o', 'l', ' ', 'o', 'f', 'f', 'l', 'i', 'n', 'e', ' ']
def onlineCommand : Bytes := ascii ['z', 'p', 'o', 'o', 'l', ' ', 'o', 'n', 'l', 'i', 'n', 'e', ' ']

/-- A command with the name of a pool in quotes and that of a device. -/
def poolCommand (command pool device : Bytes) : Bytes := command ++ 0x22 :: pool ++ [0x22, 0x20] ++ device

def zpoolRemoveDevice (vdev : Vdev) : Bytes := poolCommand removeCommand vdev.inPool vdev.name
def zpoolDetachDevice (vdev : Vdev) : Bytes := poolCommand detachCommand vdev.inPool vdev.name
def zpoolOfflineDevice (vdev : Vdev) : Bytes := poolCommand offlineCommand vdev.inPool vdev.name
def zpoolOnlineDevice (vdev : Vdev) : Bytes := poolCommand onlineCommand vdev.inPool vdev.name

/-- The dialog shows the name of the pool and does not let it be changed; its devices follow. -/
def zpoolAttachDevice (vdev : Vdev) (devices : List Bytes) : Bytes :=
  poolCommand attachCommand vdev.inPool vdev.name ++ 0x20 :: (devices.map (0x20 :: ·)).flatten

def DeviceAction.cmdline (vdev : Vdev) : DeviceAction → Bytes
  | remove => zpoolRemoveDevice vdev
  | attach devices => zpoolAttachDevice vdev devices
  | detach => zpoolDetachDevice vdev
  | offline => zpoolOfflineDevice vdev
  | online => zpoolOnlineDevice vdev

end Pcbsd.Zmanager.PoolTree
