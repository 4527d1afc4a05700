import Pcbsd.Boot2
import Pcbsd.Zfs.Probe

/-! probe_drive of boot/i386/zfsboot/zfsboot.c, and the part of main that calls it. The struct dsk are cells of a
store: a vdev_t has the number of a cell for its v_read_priv. malloc is taken to find room, as it does not return
otherwise. -/

namespace Pcbsd.Zfs
open Lib Gpt Drv List

def freebsdZfsUuid : Bytes :=
  [0xba, 0x7c, 0x6e, 0x51, 0xcf, 0x6e, 0xd6, 0x11, 0x8f, 0xf8, 0x00, 0x02, 0x2d, 0x09, 0x71, 0x2b]

structure DskPlace where
  drive : Nat
  start : Int
  deriving DecidableEq

structure DskT where
  place : DskPlace
  type : Nat
  unit : Nat
  slice : Nat
  part : Int
  init : Int

def DskT.setStart (dsk : DskT) (start : Int) : DskT := { dsk with place := { dsk.place with start } }

/-- The drives, and what one call of vdev_probe finds on them. Both the BIOS and what is found may change from call to
call. -/
structure Machine (σ : Type) where
  drives : Drives σ
  disk : Nat × Nat → Sector
  media : σ → Media DskPlace × σ

/-- A call of vdev_probe: the cell and what is in it, the guid in the label, and the pool when it succeeded. -/
structure Offer where
  cell : Nat
  place : DskPlace
  guid : Option Nat
  pool : Option Nat

structure Read (σ : Type) where
  outside : σ
  drive : Nat
  lba : Nat

structure Call (σ : Type) where
  dsk : DskT
  offers : List Offer
  reads : List (Read σ)

/-- The cells, of which those below `next` are in use, the vdevs and pools, and main's `spa`. The offers and reads of
the current call and the calls before it are not kept by the code. -/
structure Probing (σ : Type) where
  store : Nat → DskT
  next : Nat
  zfs : ZfsState Nat
  spa : Option Nat
  outside : σ
  offers : List Offer
  reads : List (Read σ)
  calls : List (Call σ)

namespace Probing

variable {σ : Type}

def malloc (s : Probing σ) (dsk : DskT) : Nat × Probing σ :=
  (s.next, { s with store := Function.update s.store s.next dsk, next := s.next + 1 })

def setStart (s : Probing σ) (cell : Nat) (start : Int) : Probing σ :=
  { s with store := Function.update s.store cell ((s.store cell).setStart start) }

end Probing

variable {σ : Type} (machine : Machine σ)

def Media.through (media : Media DskPlace) (store : Nat → DskT) : Media Nat where
  label cell := media.label (store cell).place
  uberblocks cell := media.uberblocks (store cell).place
  spaVersion := media.spaVersion

/-- The pool of a label, as vdev_probe finds or creates it. -/
def probedSpa {δ : Type} (media : Media δ) (st : ZfsState δ) (dev : δ) : Option Nat :=
  (media.label dev).bind fun label => (label.pool media).map fun pool => (enterPool st.pools pool.1 pool.2.1 pool.2.2).1

/-- vdev_probe(vdev_read, dsk, spap), where `spap` is whether there is one. -/
def offer (cell : Nat) (spap : Bool) (s : Probing σ) : Bool × Probing σ :=
  match machine.media s.outside with
  | (media, outside) =>
    let media := media.through s.store
    match vdevProbe media s.zfs cell with
    | (rc, zfs) =>
      let pool := if rc = 0 then probedSpa media s.zfs cell else none
      (rc = 0, { s with
        zfs
        outside
        spa := if rc = 0 ∧ spap then pool else s.spa
        offers := s.offers ++ [⟨cell, (s.store cell).place, (media.label cell).bind Label.guid, pool⟩] })

structure Scan (σ : Type) where
  cell : Nat
  spap : Bool
  probing : Probing σ

def Scan.drive (scan : Scan σ) : Nat := (scan.probing.store scan.cell).place.drive

def readSec (scan : Scan σ) (lba : Int) : Option Bytes × Scan σ :=
  let read : Read σ := ⟨scan.probing.outside, scan.drive, (lba % 2 ^ 64).toNat⟩
  let reads := scan.probing.reads ++ [read]
  match drvread machine.drives machine.disk read.outside read.drive read.lba 1 (replicate devBsize 0) with
  | (true, sec, outside) => (some sec, { scan with probing := { scan.probing with outside, reads } })
  | (false, _, outside) => (none, { scan with probing := { scan.probing with outside, reads } })

def entType (entsz : Nat) (sec : Bytes) (part : Nat) : Bytes := slice (part * entsz) 16 sec

/-- A uint64_t that becomes a daddr_t. -/
def entStart (entsz : Nat) (sec : Bytes) (part : Nat) : Int := (le 8 (part * entsz + 32) sec : Int).bmod (2 ^ 64)

def validHdr (hdr : Hdr) : Bool :=
  hdr.sig = gptHdrSig ∧ hdr.lbaSelf = 1 ∧ 0x00010000 ≤ hdr.revision ∧ 128 ≤ hdr.entsz ∧ devBsize % hdr.entsz = 0

def hdrOf (sec : Bytes) : Hdr := .ofSector (.ofBytes sec)

def drvHard : Nat := 0x80

end Pcbsd.Zfs
