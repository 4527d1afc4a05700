import Mathlib.Data.List.Basic
import Pcbsd.Lib.Tiling
import Pcbsd.UbootDisk

/-! Which partition a U-Boot device is opened at: the one whose number was asked for, as the table on the disk has it,
and the one that stor_open_gpt or stor_open_bsdlabel finds. -/

namespace Pcbsd.Proofs.UbootSelection
open Lib UbootDisk List Option

section

abbrev Disk := Int → Option Bytes

def entsz (hdr : Bytes) : Nat := le 4 84 hdr
def entries (hdr : Bytes) : Nat := le 4 80 hdr
def lbaTable (hdr : Bytes) : Int := Int.bmod (le 8 72 hdr) (2 ^ 64)

def usedStart (ent : Bytes) : Option Nat :=
  if (slice 0 16 ent).all (· == 0) ∨ le 8 32 ent = 0 ∨ le 8 40 ent < le 8 32 ent then none else some (le 8 32 ent)

variable (disk : Disk) (bsize : Nat) (hdr : Bytes)

def entryStart (j : Nat) : Option Nat :=
  if j < entries hdr then
    (disk (lbaTable hdr + (j / (bsize / entsz hdr) : Nat))).bind fun block => usedStart
    (slice (j % (bsize / entsz hdr) * entsz hdr) 128 block)
  else none

def fullSectors : Nat := (Int.bmod (lbaTable hdr + (entries hdr / (bsize / entsz hdr) : Nat))
    (2 ^ 64) - lbaTable hdr).toNat

/-- Slot `j` of 128 bytes in these sectors, as many in each of them as there are entries. -/
def slotStart (j : Nat) : Option Nat :=
  if j < fullSectors bsize hdr * (bsize / entsz hdr) then
    (disk (lbaTable hdr + (j / (bsize / entsz hdr) : Nat))).bind fun block =>
      usedStart (slice (128 * (j % (bsize / entsz hdr))) 128 block)
  else none

/-- The partition of a number, counted from one; zero is the first partition of all. -/
def numbered (n : Nat) (start : Nat → Option Nat) (pnum : Int) : Option Nat :=
  if pnum = 0 then (range n).findSome? start else if 0 < pnum then start (pnum - 1).toNat else none

def gptStart (pnum : Int) : Option Nat := numbered (entries hdr) (entryStart disk bsize hdr) pnum

def gptSlot (pnum : Int) : Option Nat :=
  numbered (fullSectors bsize hdr * (bsize / entsz hdr)) (slotStart disk bsize hdr) pnum

def labelStart (sector : Bytes) (pnum : Int) : Option Nat :=
  if 0 ≤ pnum ∧ pnum < le 2 138 sector then some (le 4 (152 + 16 * pnum).toNat sector) else none

end

/-- The partition table of a disk: its GPT header, or the sector of its label. -/
inductive Table where
  | gpt (hdr : Bytes)
  | label (sector : Bytes)

/-- The disk has the table: a GPT header that stor_open_gpt accepts, or a label. -/
def Table.On (disk : Disk) (bsize : Nat) : Table → Prop
  | .gpt hdr => 512 ≤ bsize ∧ disk 1 = some hdr ∧ hdrOk bsize hdr = true ∧
      ∃ mbr, disk 0 = some mbr ∧ le 2 510 mbr = dosmagic ∧ protective mbr = true
  | .label sector => disk 1 = some sector ∧ le 4 0 sector = diskmagic

def Table.start? (disk : Disk) (bsize : Nat) (pnum : Int) : Table → Option Nat
  | .gpt hdr => gptStart disk bsize hdr pnum
  | .label sector => labelStart sector pnum

def Readable (disk : Disk) (bsize : Nat) (hdr : Bytes) : Prop :=
  ∀ k < fullSectors bsize hdr, (disk (lbaTable hdr + (k : Nat))).isSome

/-- The disk as the driver asks for its blocks. -/
def asked (disk : Disk) : Disk := fun b => disk (lbastart b)

/-- The block of the device behind block `blk` of a partition, counted in 64 bits. -/
def deviceBlock (start : Nat) (blk : Int) : Int := Int.bmod (blk + start) (2 ^ 64)

/-- A handle that starts at `taken` reads the block `blk` of the partition that starts at `start`. -/
def Hits (taken start : Nat) (blk : Int) : Prop :=
  0 ≤ deviceBlock start blk ∧ deviceBlock start blk < 2 ^ 32 ∧ taken % 2 ^ 32 = start % 2 ^ 32

/-- When the right partition is opened and block `blk` of it is read. In a GPT the slot of the same number starts
where the partition does, no slot being one that starts at 0; unless the table is not all there, and the partition
neither. In a label the partition is one of the array of struct disklabel. -/
def Table.Agrees (disk : Disk) (bsize : Nat) (uboot : Uboot) (pnum blk : Int) : Table → Prop
  | .gpt hdr =>
    (Readable (asked disk) bsize hdr ∧
      ∃ start, gptStart disk bsize hdr pnum = some start ∧ Hits ((gptSlot (asked disk) bsize hdr pnum).getD 0) start blk) ∨
    (¬ Readable (asked disk) bsize hdr ∧ gptStart disk bsize hdr pnum = none)
  | .label sector => ∃ start, labelStart sector pnum = some start ∧
      Hits (if pnum < maxpartitions then start else uboot.outside pnum) start blk

variable {s : Driver} {uboot : Uboot} {dev : Devdesc} {table : Table}

def diskOf (s : Driver) (uboot : Uboot) (dev : Devdesc) : Disk := fun b => uboot.media (s.device dev.unit) b 1

def blockSize (s : Driver) (dev : Devdesc) : Nat := (s.devices (s.device dev.unit)).blockSize

/-- The device is a storage device that U-Boot opens, or has open below another open. -/
structure Ready (s : Driver) (uboot : Uboot) (dev : Devdesc) : Prop where
  opens : 0 < s.storOpenCount ∨ uboot.opens = true
  opened : 0 < s.storOpenCount → s.isOpen (s.device dev.unit) = true
  stor : (s.devices (s.device dev.unit)).stor = true
  blocks : 0 < blockSize s dev
  pnum : -2 ^ 31 ≤ dev.pnum ∧ dev.pnum < 2 ^ 31

/-- A read of block `blk` through the handle gives what U-Boot has of the device from the block of the partition on. -/
def ReadsAt (s : Driver) (handle : Handle) (start : Nat) (blk : Int) : Prop := ∀ (uboot : Uboot) (n : Nat),
  storStrategy s uboot handle true blk (n * handle.od.bsize) =
    (uboot.media (s.device handle.dev.unit) (deviceBlock start blk) n).elim (.error .eio) .ok

/-- The open succeeds when and only when there is such a partition, and a read of block `blk` is one of the
partition. -/
def Exact (s : Driver) (uboot : Uboot) (dev : Devdesc) (start? : Option Nat) (blk : Int) : Prop :=
  ((∃ handle, (storOpendev s uboot dev).2 = .ok handle) ↔ start?.isSome) ∧
    ∀ handle start, (storOpendev s uboot dev).2 = .ok handle → start? = some start →
      ReadsAt (storOpendev s uboot dev).1 handle start blk

variable (ready : Ready s uboot dev)

include ready

theorem entered_devices : ((entered s dev).devices (s.device dev.unit)).opened = true ∧
    ((entered s dev).devices (s.device dev.unit)).stor = true ∧
    ((entered s dev).devices (s.device dev.unit)).blockSize = blockSize s dev := by
  rw [entered]
  split
  next nested => exact ⟨ready.opened nested, ready.stor, rfl⟩
  next _ =>
    rw [Driver.setOpened]
    dsimp only
    rw [Function.update_self]
    exact ⟨rfl, ready.stor, rfl⟩

theorem storReaddev_entered (other : Uboot) (b : Int) (n : Nat) :
    storReaddev (entered s dev) other (s.device dev.unit) b n =
      (other.media (s.device dev.unit) (lbastart b) n).elim (.error .eio) .ok := by
  obtain ⟨opened, stor, -⟩ := entered_devices ready
  rw [storReaddev, if_pos ⟨opened, stor⟩]
  cases other.media (s.device dev.unit) (lbastart b) n <;> rfl

theorem storReaddev_block {b : Int} {block : Bytes} (small : lbastart b = b)
    (there : diskOf s uboot dev b = some block) : storReaddev (entered s dev) uboot
    (s.device dev.unit) b 1 = .ok block := by
  change uboot.media _ _ _ = _ at there
  rw [storReaddev_entered ready, small, there]
  rfl

theorem storOpendev_eq : storOpendev s uboot dev =
    (openTable (entered s dev) uboot dev).casesOn (fun err => (entered s dev, .error err))
      fun handle => ({ entered s dev with storOpenCount := 1 }, .ok handle) := by
  have entering : ¬ (¬ 0 < s.storOpenCount ∧ ¬ uboot.opens = true) := by
    rintro ⟨first, refused⟩
    exact ready.opens.elim first refused
  rw [storOpendev, if_neg entering]
  cases openTable (entered s dev) uboot dev <;> rfl

omit ready

theorem hits_iff {taken start : Nat} {blk : Int} :
    lbastart (blk + Int.bmod taken (2 ^ 32)) = deviceBlock start blk ↔ Hits taken start blk := by
  have near : Int.bmod taken (2 ^ 32) % 2 ^ 32 = taken % 2 ^ 32 := Int.bmod_emod
  have far : Int.bmod (blk + start) (2 ^ 64) % 2 ^ 64 = (blk + start) % 2 ^ 64 := Int.bmod_emod
  rw [lbastart, Hits, deviceBlock]
  omega

theorem readsAt_iff (ready : Ready s uboot dev) {handle : Handle} (unit : handle.dev.unit = dev.unit) (size : 0 < handle.od.bsize)
    (start : Nat) (blk : Int) : ReadsAt { entered s dev with storOpenCount := 1 } handle start blk ↔
      lbastart (blk + handle.od.bstart) = deviceBlock start blk := by
  have device : Driver.device { entered s dev with storOpenCount := 1 } handle.dev.unit = s.device dev.unit := by
    rw [unit]
    exact entered_device s dev dev.unit
  have strategy (other : Uboot) (n : Nat) : storStrategy { entered s dev with storOpenCount := 1 } other handle true blk
      (n * handle.od.bsize) = (other.media (s.device dev.unit) (lbastart (blk + handle.od.bstart)) n).elim (.error .eio) .ok := by
    rw [storStrategy, if_neg (not_not_intro rfl), if_neg (not_not_intro (Nat.mul_mod_left ..)), device, Nat.mul_div_cancel n size]
    exact storReaddev_entered ready other _ n
  constructor
  · intro reads
    -- a disk that has just the block that the driver asks for
    have read := reads ⟨true, true, fun _ b _ => if b = lbastart (blk + handle.od.bstart) then some [] else none, fun _ => 0⟩ 1
    rw [strategy, device] at read
    dsimp only at read
    rw [if_pos rfl] at read
    split at read
    next here => exact here.symm
    next => cases read
  · intro same other n
    rw [strategy, device, same]

section

variable {disk : Disk} {bsize eps : Nat} {hdr : Bytes}

theorem mapM_ok {α β ε : Type} {l : List α} {f : α → Except ε β} {g : α → β} (all : ∀ a ∈ l, f a = .ok (g a)) :
    l.mapM f = .ok
    (l.map g) := by
  induction l with
  | nil => rfl
  | cons a l ih =>
    rw [mapM_cons, all a mem_cons_self, ih fun b member => all b (mem_cons_of_mem _ member)]
    rfl

theorem mapM_error {α β ε : Type} {l : List α} (f : α → Except ε β) {a : α} {err : ε} (member : a ∈ l)
    (fails : f a = .error err) :
    ∃ err, l.mapM f = .error err := by
  induction l with
  | nil => exact absurd member not_mem_nil
  | cons first l ih =>
    rw [mapM_cons]
    cases result : f first with
    | error other => exact ⟨other, rfl⟩
    | ok _ =>
      rcases mem_cons.mp member with rfl | later
      · rw [fails] at result
        cases result
      · obtain ⟨other, run⟩ := ih later
        rw [run]
        exact ⟨other, rfl⟩

def slotPart (disk : Disk) (eps : Nat) (slba : Int) (j : Nat) : Option GptPart :=
  (disk (slba + (j / eps : Nat))).bind fun block => gptPart? eps (j / eps) block (j % eps)

theorem gptPart_eq (eps k : Nat) (block : Bytes) (i : Nat) : gptPart? eps k block i =
    (usedStart (slice (128 * i) 128 block)).map fun start =>
    ⟨Int.bmod (k * eps + i + 1) (2 ^ 32), slice 0 16 (slice (128 * i) 128 block), start,
      le 8 40 (slice (128 * i) 128 block)⟩ := by
  rw [gptPart?, usedStart]
  split <;> rfl

theorem readParts_ok (eps : Nat) (ready : Ready s uboot dev) (slba elba : Int)
    (readable : ∀ k < (elba - slba).toNat, (asked (diskOf s uboot dev) (slba + (k : Nat))).isSome) (some_ : 0 < eps) :
    readParts (entered s dev) uboot (s.device dev.unit) eps slba elba =
      .ok ((range ((elba - slba).toNat * eps)).filterMap (slotPart (asked (diskOf s uboot dev)) eps slba)) := by
  have each : ∀ k ∈ range (elba - slba).toNat, (do
      let block ← storReaddev (entered s dev) uboot (s.device dev.unit) (slba + (k : Nat)) 1
      pure ((range eps).filterMap (gptPart? eps k block))) =
        (.ok ((range eps).filterMap fun i => slotPart (asked (diskOf s uboot dev)) eps slba (k * eps + i)) : Except Errno _) := by
    intro k inside
    obtain ⟨block, there⟩ := isSome_iff_exists.mp (readable k (mem_range.mp inside))
    rw [storReaddev_entered ready]
    change uboot.media _ _ _ = _ at there
    rw [there]
    refine congrArg Except.ok (filterMap_congr fun i small => ?_)
    have sector : (k * eps + i) / eps = k := by
      rw [Nat.mul_comm, Nat.mul_add_div some_, Nat.div_eq_of_lt (mem_range.mp small), Nat.add_zero]
    have place : (k * eps + i) % eps = i := by rw [Nat.mul_comm, Nat.mul_add_mod, Nat.mod_eq_of_lt (mem_range.mp small)]
    rw [slotPart, sector, place, asked, diskOf, there]
    rfl
  rw [readParts, mapM_ok each, Tiling.range_mul, filterMap_flatMap]
  simp only [filterMap_map, Function.comp_def]
  rfl

theorem readParts_error (eps : Nat) (ready : Ready s uboot dev) (slba elba : Int) {k : Nat}
    (inside : k < (elba - slba).toNat) (missing : asked (diskOf s uboot dev) (slba + (k : Nat)) = none) :
    ∃ err, readParts (entered s dev) uboot (s.device dev.unit) eps slba elba = .error err := by
  have fails : (do
      let block ← storReaddev (entered s dev) uboot (s.device dev.unit) (slba + (k : Nat)) 1
      pure ((range eps).filterMap (gptPart? eps k block))) = (.error .eio : Except Errno (List GptPart)) := by
    rw [storReaddev_entered ready]
    change uboot.media _ _ _ = _ at missing
    rw [missing]
    rfl
  obtain ⟨err, run⟩ := mapM_error (fun k : Nat => do
      let block ← storReaddev (entered s dev) uboot (s.device dev.unit) (slba + (k : Nat)) 1
      pure ((range eps).filterMap (gptPart? eps k block))) (mem_range.mpr inside) fails
  rw [readParts, run]
  exact ⟨err, rfl⟩

variable {part : Nat → Option GptPart} {start : Nat → Option Nat} {pnum : Int} {n i j : Nat}

theorem index_eq_iff (first : i + 1 < 2 ^ 32) (second : j + 1 < 2 ^ 32) :
    Int.bmod (i + 1) (2 ^ 32) = Int.bmod (j + 1) (2 ^ 32) ↔ i = j := by
  refine ⟨fun same => ?_, fun same => by rw [same]⟩
  have rests := congrArg (· % ((2 ^ 32 : Nat) : Int)) same
  simp only [Int.bmod_emod] at rests
  omega

theorem index_pnum (fits : j + 1 < 2 ^ 32) (positive : 0 < pnum) (int : pnum < 2 ^ 31) :
    Int.bmod (j + 1) (2 ^ 32) = pnum ↔ j = (pnum - 1).toNat := by
  have same : Int.bmod pnum (2 ^ 32) = pnum := Int.bmod_eq_of_le (by omega) (by omega)
  have there : pnum = ((pnum - 1).toNat : Int) + 1 := by omega
  constructor
  · intro equal
    apply (index_eq_iff fits (by omega)).mp
    rw [← there, same, equal]
  · intro equal
    rw [equal, ← there, same]

theorem slotPart_spec (slba : Int) (j : Nat) : (slotPart disk eps slba j).map (fun part => (part.index, part.start)) =
    ((disk (slba + (j / eps : Nat))).bind fun block => usedStart (slice (128 * (j % eps)) 128 block)).map
      fun start => (Int.bmod (j + 1) (2 ^ 32), start) := by
  have index : ((j / eps : Nat) * eps + (j % eps : Nat) + 1 : Int) = j + 1 := by
    have whole : ((j / eps * eps + j % eps : Nat) : Int) = j := congrArg _ (Nat.div_add_mod' j eps)
    rw [← whole]
    push_cast
    rfl
  rw [slotPart]
  cases disk (slba + (j / eps : Nat)) with
  | none => rfl
  | some block =>
    rw [bind_some, bind_some, gptPart_eq, index]
    simp only [Option.map_map, Function.comp_def]

structure Saved (part : Nat → Option GptPart) (start : Nat → Option Nat) (n : Nat) : Prop where
  spec : ∀ j < n, (part j).map (fun part => (part.index, part.start)) = (start j).map fun start =>
    (Int.bmod (j + 1) (2 ^ 32), start)
  fits : n < 2 ^ 32

theorem bstartOf_slot (saved : Saved part start n)
    (only : ∀ j < n, Int.bmod (j + 1) (2 ^ 32) = pnum ↔ j = i) : bstartOf ((range n).filterMap part) pnum =
      if i < n then (start i).elim 0 fun start => Int.bmod start (2 ^ 32) else 0 := by
  obtain ⟨spec, -⟩ := saved
  induction n with
  | zero => rfl
  | succ n ih =>
    have before := ih (fun j less => only j (by omega)) fun j less => spec j (by omega)
    have last := spec n (Nat.lt_succ_self n)
    rw [bstartOf] at before ⊢
    rw [range_succ, filterMap_append, foldl_append, before]
    cases found : part n with
    | none =>
      rw [found] at last
      have none_ : start n = none := map_eq_none_iff.mp last.symm
      rw [filterMap_cons, found]
      by_cases here : i = n
      · subst here
        rw [if_neg (Nat.lt_irrefl i), if_pos (Nat.lt_succ_self i), none_]
        rfl
      · have same : i < n ↔ i < n + 1 := by omega
        simp only [same]
        rfl
    | some _ =>
      rw [found] at last
      obtain ⟨_, there, pair⟩ := map_eq_some_iff.mp last.symm
      obtain ⟨index, value⟩ := Prod.mk.inj pair
      have hit := only n (Nat.lt_succ_self n)
      simp only [filterMap_cons, filterMap_nil, found, foldl_cons, foldl_nil]
      rw [← index, ← value]
      by_cases here : n = i
      · subst here
        rw [if_pos (hit.mpr rfl), if_pos (Nat.lt_succ_self n), there, elim_some]
      · have same : i < n ↔ i < n + 1 := by omega
        rw [if_neg fun equal => here (hit.mp equal)]
        simp only [same]

theorem first_slot (saved : Saved part start n) :
    ((range n).filterMap part = [] ∧ (range n).findSome? start = none) ∨
      ∃ first rest i st, (range n).filterMap part = first :: rest ∧ i < n ∧ first.index = Int.bmod (i + 1) (2 ^ 32) ∧
        start i = some st ∧ (range n).findSome? start = some st := by
  obtain ⟨spec, -⟩ := saved
  induction n with
  | zero => exact Or.inl ⟨rfl, rfl⟩
  | succ n ih =>
    rw [range_succ, filterMap_append, findSome?_append]
    rcases ih fun j less => spec j (by omega) with ⟨empty, none_⟩ | ⟨first, rest, i, st, more, less, index, there, found⟩
    · have last := spec n (Nat.lt_succ_self n)
      rw [empty, none_, nil_append, none_or]
      cases found : part n with
      | none =>
        rw [found] at last
        left
        rw [filterMap_cons, found, findSome?_cons, map_eq_none_iff.mp last.symm]
        exact ⟨rfl, rfl⟩
      | some p =>
        rw [found] at last
        obtain ⟨st, there, pair⟩ := map_eq_some_iff.mp last.symm
        right
        refine ⟨p, [], n, st, ?_, Nat.lt_succ_self n, (Prod.mk.inj pair).1.symm, there, ?_⟩
        · rw [filterMap_cons, found]
          rfl
        · rw [findSome?_cons, there]
    · right
      rw [more, found]
      exact ⟨first, _, i, st, rfl, Nat.lt_succ_of_lt less, index, there, rfl⟩

theorem bstartOf_wanted (saved : Saved part start n) (outside : ∀ j, n ≤ j → start j = none) (natural : 0 ≤ pnum)
    (int : pnum < 2 ^ 31) :
    bstartOf ((range n).filterMap part) (wanted ((range n).filterMap part) pnum) =
      (numbered n start pnum).elim 0 fun start => Int.bmod start (2 ^ 32) := by
  have fits := saved.fits
  by_cases zero : pnum = 0
  · subst zero
    rw [numbered, if_pos rfl]
    rcases first_slot saved with ⟨empty, none_⟩ | ⟨first, rest, i, _, more, less, index, there, found⟩
    · rw [empty, none_]
      rfl
    · have only : ∀ j < n, Int.bmod (j + 1) (2 ^ 32) = first.index ↔ j = i := by
        intro j small
        rw [index]
        exact index_eq_iff (by omega) (by omega)
      have slot := bstartOf_slot saved only
      rw [if_pos less, there] at slot
      have first_ : wanted (first :: rest) 0 = first.index := by
        unfold wanted
        exact if_pos rfl
      rw [found, more, first_, ← more]
      exact slot
  · have positive : 0 < pnum := by omega
    have only : ∀ j < n, Int.bmod (j + 1) (2 ^ 32) = pnum ↔ j = (pnum - 1).toNat := by
      intro j small
      exact index_pnum (by omega) positive int
    have same : wanted ((range n).filterMap part) pnum = pnum := by
      unfold wanted
      split
      · rw [if_neg zero]
      · rfl
    rw [same, bstartOf_slot saved only, numbered, if_neg zero, if_pos positive]
    split
    next => rfl
    next behind =>
      rw [outside _ (Nat.le_of_not_lt behind)]
      rfl

end

theorem exact_ok (ready : Ready s uboot dev) {handle : Handle}
    (found : openTable (entered s dev) uboot dev = .ok handle) (unit : handle.dev.unit = dev.unit)
    (size : 0 < handle.od.bsize) (start? : Option Nat) (blk : Int) : Exact s uboot dev start? blk ↔
      ∃ start : Nat, start? = some start ∧ lbastart (blk + handle.od.bstart) = deviceBlock start blk := by
  have result : storOpendev s uboot dev = ({ entered s dev with storOpenCount := 1 }, .ok handle) := by
    rw [storOpendev_eq ready, found]
  rw [Exact, result]
  constructor
  · rintro ⟨succeeds, reads⟩
    obtain ⟨start, there⟩ := isSome_iff_exists.mp (succeeds.mp ⟨handle, rfl⟩)
    exact ⟨start, there, (readsAt_iff ready unit size start blk).mp (reads handle start rfl there)⟩
  · rintro ⟨start, there, same⟩
    refine ⟨⟨fun _ => by rw [there]; rfl, fun _ => ⟨handle, rfl⟩⟩, fun other start' opened there' => ?_⟩
    cases opened
    cases there.symm.trans there'
    exact (readsAt_iff ready unit size start blk).mpr same

theorem exact_error (ready : Ready s uboot dev) {err : Errno} (fails : openTable (entered s dev) uboot dev = .error err)
    (start? : Option Nat) (blk : Int) : Exact s uboot dev start? blk ↔ start? = none := by
  have result : storOpendev s uboot dev = (entered s dev, .error err) := by rw [storOpendev_eq ready, fails]
  rw [Exact, result]
  constructor
  · rintro ⟨succeeds, -⟩
    apply not_isSome_iff_eq_none.mp
    intro there
    obtain ⟨handle, opened⟩ := succeeds.mpr there
    cases opened
  · rintro rfl
    refine ⟨⟨?_, fun there => absurd there (by decide)⟩, fun other start opened => ?_⟩
    · rintro ⟨handle, opened⟩
      cases opened
    · cases opened

section

variable {hdr sector : Bytes}

theorem entered_blockSize (ready : Ready s uboot dev) :
    ((entered s dev).devices ((entered s dev).device dev.unit)).blockSize = blockSize s dev := by
  rw [entered_device]
  exact (entered_devices ready).2.2

theorem map_ok {ε α β : Type} (a : α) (f : α → β) : Except.map f (.ok a : Except ε α) = .ok (f a) := rfl

theorem ok_bind {ε α β : Type} (a : α) (f : α → Except ε β) : ((.ok a : Except ε α) >>= f) = f a := rfl

theorem storOpenGpt_accepted (ready : Ready s uboot dev)
    (on : (Table.gpt hdr).On (diskOf s uboot dev) (blockSize s dev)) :
    storOpenGpt (entered s dev) uboot (blockSize s dev) dev =
      (readParts (entered s dev) uboot (s.device dev.unit) (blockSize s dev / entsz hdr) (lbaTable hdr)
        (Int.bmod (lbaTable hdr + (entries hdr / (blockSize s dev / entsz hdr) : Nat)) (2 ^ 64))).map fun parts =>
          ⟨{ dev with pnum := wanted parts dev.pnum, ptype := .gpt },
            ⟨blockSize s dev, bstartOf parts (wanted parts dev.pnum), parts⟩⟩ :=
            by
  obtain ⟨large, second, accepted, _, first, magic, guarded⟩ := on
  have readMbr := storReaddev_block ready rfl first
  have readHdr := storReaddev_block ready rfl second
  rw [storOpenGpt]
  dsimp only
  rw [if_neg (Nat.not_lt_of_le large), entered_device, readMbr, ok_bind, if_neg (not_not_intro magic), guarded,
    if_neg (by decide), readHdr, ok_bind, accepted, if_neg (by decide), ← Int.natCast_ediv]
  unfold lbaTable entries entsz
  generalize readParts (entered s dev) uboot (s.device dev.unit) (blockSize s dev / le 4 84 hdr)
    (Int.bmod (le 8 72 hdr) (2 ^ 64))
    (Int.bmod (Int.bmod (le 8 72 hdr) (2 ^ 64) + (le 4 80 hdr / (blockSize s dev / le 4 84 hdr) : Nat)) (2 ^ 64)) =
      parts
  cases parts <;> rfl

theorem openTable_gpt (ready : Ready s uboot dev) {handle : Handle}
    (opened : storOpenGpt (entered s dev) uboot (blockSize s dev) dev = .ok handle) :
    openTable (entered s dev) uboot dev = .ok handle := by
  rw [openTable, entered_blockSize ready, opened]

theorem no_label (accepted : hdrOk (blockSize s dev) hdr = true) : le 4 0 hdr ≠ diskmagic := by
  have start : slice 0 4 (slice 0 8 hdr) = slice 0 4 hdr := slice_slice hdr (by decide)
  simp only [hdrOk, Bool.and_eq_true, beq_iff_eq] at accepted
  rw [le, ← start, accepted.1.1.1.1]
  decide

theorem openTable_broken (ready : Ready s uboot dev) {err : Errno}
    (fails : storOpenGpt (entered s dev) uboot (blockSize s dev) dev = .error err)
    (second : diskOf s uboot dev 1 = some hdr) (accepted : hdrOk (blockSize s dev) hdr = true) :
    openTable (entered s dev) uboot dev = .error .eunlab := by
  have read := storReaddev_block ready rfl second
  rw [openTable, entered_blockSize ready, fails, storOpenBsdlabel, entered_device, labelsector, read]
  exact if_pos (no_label accepted)

theorem openTable_label (ready : Ready s uboot dev) (on : (Table.label sector).On (diskOf s uboot dev) (blockSize s dev)) :
    openTable (entered s dev) uboot dev =
      .ok ⟨{ dev with ptype := .bsdlabel }, ⟨blockSize s dev, Int.bmod (pOffset uboot sector dev.pnum) (2 ^ 32), []⟩⟩ := by
  obtain ⟨second, magic⟩ := on
  have read := storReaddev_block ready rfl second
  have refused : ∃ err, storOpenGpt (entered s dev) uboot (blockSize s dev) dev = .error err := by
    have wrong : hdrOk (blockSize s dev) sector = false := by
      cases accepted : hdrOk (blockSize s dev) sector with
      | false => rfl
      | true => exact absurd magic (no_label accepted)
    rw [storOpenGpt]
    dsimp only
    split
    · exact ⟨_, rfl⟩
    · rw [entered_device]
      cases storReaddev (entered s dev) uboot (s.device dev.unit) 0 1 with
      | error err => exact ⟨err, rfl⟩
      | ok _ =>
        rw [ok_bind]
        split
        · exact ⟨_, rfl⟩
        · split
          · exact ⟨_, rfl⟩
          · rw [read, ok_bind, wrong]
            exact ⟨_, rfl⟩
  obtain ⟨err, refused⟩ := refused
  rw [openTable, entered_blockSize ready, refused, storOpenBsdlabel, entered_device, labelsector, read]
  dsimp only
  rw [labeloffset, drop_zero, if_neg (not_not_intro magic)]

theorem full_le (bsize : Nat) (hdr : Bytes) : fullSectors bsize hdr ≤ entries hdr / (bsize / entsz hdr) := by
  rw [fullSectors]
  generalize entries hdr / (bsize / entsz hdr) = count
  have low : -(((2 ^ 64 : Nat) : Int) / 2) ≤ lbaTable hdr := Int.le_bmod (by decide)
  have high : Int.bmod (lbaTable hdr + (count : Nat)) (2 ^ 64) < (((2 ^ 64 : Nat) : Int) + 1) / 2 :=
    Int.bmod_lt (by decide)
  have wrapped := Int.bmod_add_bdiv (lbaTable hdr + (count : Nat)) (2 ^ 64)
  omega

theorem slots_saved (disk : Disk) (bsize : Nat) (hdr : Bytes) :
    Saved (slotPart disk (bsize / entsz hdr) (lbaTable hdr)) (slotStart disk bsize hdr)
      (fullSectors bsize hdr * (bsize / entsz hdr)) := by
  constructor
  · intro j inside
    rw [slotPart_spec, slotStart, if_pos inside]
  · have below : entries hdr < 256 ^ 4 := le_lt 4 80 hdr
    have most := Nat.mul_le_mul_right (bsize / entsz hdr) (full_le bsize hdr)
    have whole := Nat.div_mul_le_self (entries hdr) (bsize / entsz hdr)
    omega

theorem entries_some {bsize : Nat} (large : 0 < bsize) (header : hdrOk bsize hdr = true) : 0 < bsize / entsz hdr := by
  simp only [hdrOk, Bool.and_eq_true, beq_iff_eq, decide_eq_true_eq] at header
  have whole : entsz hdr ∣ bsize := Nat.dvd_of_mod_eq_zero header.2
  have positive : 0 < entsz hdr := Nat.lt_of_lt_of_le (by decide) header.1.2
  exact Nat.div_pos (Nat.le_of_dvd large whole) positive

theorem natural_of_found {n : Nat} {start : Nat → Option Nat} {pnum : Int} {st : Nat}
    (there : numbered n start pnum = some st) : 0 ≤ pnum := by
  rw [numbered] at there
  split at there
  next zero => exact zero.ge
  next =>
    split at there
    next positive => exact positive.le
    next => cases there

variable (ready : Ready s uboot dev)

include ready

theorem readParts_readable (on : (Table.gpt hdr).On (diskOf s uboot dev) (blockSize s dev))
    (readable : Readable (asked (diskOf s uboot dev)) (blockSize s dev) hdr) :
    ∃ parts, readParts (entered s dev) uboot (s.device dev.unit) (blockSize s dev / entsz hdr) (lbaTable hdr)
        (Int.bmod (lbaTable hdr + (entries hdr / (blockSize s dev / entsz hdr) : Nat)) (2 ^ 64)) = .ok parts ∧
      (0 ≤ dev.pnum → bstartOf parts (wanted parts dev.pnum) =
        Int.bmod ((gptSlot (asked (diskOf s uboot dev)) (blockSize s dev) hdr dev.pnum).getD 0 : Nat) (2 ^ 32)) := by
  have some_ := entries_some ready.blocks on.2.2.1
  have parts := readParts_ok (blockSize s dev / entsz hdr) ready (lbaTable hdr)
    (Int.bmod (lbaTable hdr + (entries hdr / (blockSize s dev / entsz hdr) : Nat)) (2 ^ 64))
  have outside : ∀ j, fullSectors (blockSize s dev) hdr * (blockSize s dev / entsz hdr) ≤ j →
      slotStart (asked (diskOf s uboot dev)) (blockSize s dev) hdr j = none := fun j behind => if_neg (Nat.not_lt_of_le behind)
  refine ⟨_, parts readable some_, fun natural => ?_⟩
  refine (bstartOf_wanted (slots_saved (asked (diskOf s uboot dev)) (blockSize s dev) hdr) outside natural ready.pnum.2).trans ?_
  rw [gptSlot]
  cases numbered _ _ dev.pnum with
  | none => rw [elim_none, getD_none, Int.ofNat_zero, Int.zero_bmod]
  | some _ => rw [elim_some, getD_some]

theorem openTable_readable (on : (Table.gpt hdr).On (diskOf s uboot dev) (blockSize s dev))
    (readable : Readable (asked (diskOf s uboot dev)) (blockSize s dev) hdr) :
    ∃ handle, openTable (entered s dev) uboot dev = .ok handle ∧
      handle.dev.unit = dev.unit ∧ handle.od.bsize = blockSize s dev ∧ (0 ≤ dev.pnum → handle.od.bstart =
        Int.bmod ((gptSlot (asked (diskOf s uboot dev)) (blockSize s dev) hdr dev.pnum).getD 0 : Nat) (2 ^ 32)) := by
  obtain ⟨_, read, bstart⟩ := readParts_readable ready on readable
  have accepted := storOpenGpt_accepted ready on
  rw [read, map_ok] at accepted
  exact ⟨_, openTable_gpt ready accepted, rfl, rfl, bstart⟩

theorem gpt_exact_iff (on : (Table.gpt hdr).On (diskOf s uboot dev) (blockSize s dev)) (blk : Int) :
    Exact s uboot dev (gptStart (diskOf s uboot dev) (blockSize s dev) hdr dev.pnum) blk ↔
      (Table.gpt hdr).Agrees (diskOf s uboot dev) (blockSize s dev) uboot dev.pnum blk := by
  by_cases readable : Readable (asked (diskOf s uboot dev)) (blockSize s dev) hdr
  · obtain ⟨handle, opened, unit, size, bstart⟩ := openTable_readable ready on readable
    have blocks : 0 < handle.od.bsize := size.symm ▸ ready.blocks
    rw [exact_ok ready opened unit blocks]
    have reads : ∀ start, gptStart (diskOf s uboot dev) (blockSize s dev) hdr dev.pnum = some start →
        (lbastart (blk + handle.od.bstart) = deviceBlock start blk ↔
          Hits ((gptSlot (asked (diskOf s uboot dev)) (blockSize s dev) hdr dev.pnum).getD 0) start blk) := by
      intro start there
      rw [bstart (natural_of_found there)]
      exact hits_iff
    constructor
    · rintro ⟨start, there, same⟩
      exact Or.inl ⟨readable, start, there, (reads start there).mp same⟩
    · rintro (⟨-, start, there, hits⟩ | ⟨broken, -⟩)
      · exact ⟨start, there, (reads start there).mpr hits⟩
      · exact absurd readable broken
  · have missing : ∃ k < fullSectors (blockSize s dev) hdr, asked (diskOf s uboot dev) (lbaTable hdr + (k : Nat)) = none := by
      rw [Readable] at readable
      push Not at readable
      obtain ⟨k, inside, missing⟩ := readable
      exact ⟨k, inside, by simpa using missing⟩
    obtain ⟨k, inside, missing⟩ := missing
    have accepted := storOpenGpt_accepted ready on
    obtain ⟨_, fails⟩ := readParts_error (blockSize s dev / entsz hdr) ready (lbaTable hdr) _ inside missing
    rw [fails] at accepted
    rw [exact_error ready (openTable_broken ready accepted on.2.1 on.2.2.1)]
    constructor
    · exact fun none_ => Or.inr ⟨readable, none_⟩
    · rintro (⟨there, -⟩ | ⟨-, none_⟩)
      · exact absurd there readable
      · exact none_

theorem label_exact_iff (on : (Table.label sector).On (diskOf s uboot dev) (blockSize s dev)) (blk : Int) :
    Exact s uboot dev (labelStart sector dev.pnum) blk ↔
      (Table.label sector).Agrees (diskOf s uboot dev) (blockSize s dev) uboot dev.pnum blk := by
  rw [exact_ok ready (openTable_label ready on) rfl ready.blocks, Table.Agrees]
  refine exists_congr fun start => and_congr_right fun there => ?_
  rw [labelStart] at there
  split at there
  next _ =>
    have taken : pOffset uboot sector dev.pnum = if dev.pnum < maxpartitions then start else uboot.outside dev.pnum := by
      cases there
      exact ite_congr (propext (and_iff_right (by omega))) (fun _ => rfl) fun _ => rfl
    rw [← taken, ← hits_iff]
  next => cases there

end

/-- Of a device with a GPT or a label the right partition is opened, and block `blk` of it read, under this condition
and no other. -/
theorem selection_exact_iff (ready : Ready s uboot dev) (on : table.On (diskOf s uboot dev) (blockSize s dev))
    (blk : Int) :
    Exact s uboot dev (table.start? (diskOf s uboot dev) (blockSize s dev) dev.pnum) blk ↔
      table.Agrees (diskOf s uboot dev) (blockSize s dev) uboot dev.pnum blk := by
  cases table with
  | gpt _ => exact gpt_exact_iff ready on blk
  | label _ => exact label_exact_iff ready on blk

def smallLabel : Bytes := toLe 4 diskmagic ++ replicate 134 0 ++ [1, 0] ++ replicate 12 0 ++ [63, 0, 0, 0]

def labelledDisk : Uboot := ⟨true, true, fun _ b _ => if b = 1 then some smallLabel else none, fun _ => 0⟩

def oneDevice : Driver := ⟨fun _ => ⟨true, false, 512⟩, [0], 0⟩

theorem oneDevice_ready (uboot : Uboot) (opens : uboot.opens = true) (pnum : Int)
    (int : -2 ^ 31 ≤ pnum ∧ pnum < 2 ^ 31) :
    Ready oneDevice uboot ⟨0, pnum, .none⟩ where
  opens := Or.inr opens
  opened := fun nested => absurd nested (by decide)
  stor := rfl
  blocks := Nat.zero_lt_succ 511
  pnum := int

theorem labelled_exact : Exact oneDevice labelledDisk ⟨0, 0, .none⟩ (some 63) 8 := by
  have found : labelStart smallLabel 0 = some 63 := by decide
  have on : (Table.label smallLabel).On (diskOf oneDevice labelledDisk ⟨0, 0, .none⟩)
    (blockSize oneDevice ⟨0, 0, .none⟩) :=
    ⟨rfl, by decide⟩
  exact (selection_exact_iff (oneDevice_ready labelledDisk rfl 0 (by decide)) on 8).mpr
    ⟨63, found, by decide, by decide, by decide⟩

def guardingMbr : Bytes := replicate 450 0 ++ [0xee] ++ replicate 59 0 ++ [0x55, 0xaa]

def fourEntries : Bytes :=
  gptHdrSig ++ [0, 0, 1, 0] ++ replicate 12 0 ++ toLe 8 1 ++ replicate 40 0 ++ toLe 8 2 ++ toLe 4 4 ++ toLe 4 128

def emptyGpt : Uboot :=
  ⟨true, true, fun _ b _ => some (if b = 0 then guardingMbr else if b = 1 then fourEntries else replicate 512 0),
    fun _ => 0⟩

set_option maxRecDepth 4000 in
theorem guardingMbr_guards : le 2 510 guardingMbr = dosmagic ∧ protective guardingMbr = true := by decide

/-- Partition 1 of the empty table is opened all the same. -/
theorem missing_partition_opened : ¬ ∀ (s : Driver) (uboot : Uboot) (dev : Devdesc) (table : Table), Ready s uboot dev →
    table.On (diskOf s uboot dev) (blockSize s dev) →
      ∀ blk, Exact s uboot dev (table.start? (diskOf s uboot dev) (blockSize s dev) dev.pnum) blk := by
  intro claim
  have on : (Table.gpt fourEntries).On (diskOf oneDevice emptyGpt ⟨0, 1, .none⟩) (blockSize oneDevice ⟨0, 1, .none⟩) :=
    ⟨by decide, rfl, by decide, guardingMbr, rfl, guardingMbr_guards.1, guardingMbr_guards.2⟩
  have ready := oneDevice_ready emptyGpt rfl 1 (by decide)
  have none_ : gptStart (diskOf oneDevice emptyGpt ⟨0, 1, .none⟩) (blockSize oneDevice ⟨0, 1, .none⟩) fourEntries 1 =
    none := by decide
  rcases (gpt_exact_iff ready on 0).mp (claim _ _ _ _ ready on 0) with ⟨-, start, there, -⟩ | ⟨broken, -⟩
  · cases there
  · exact broken fun k _ => rfl

end Pcbsd.Proofs.UbootSelection
