import Pcbsd.Lib.Tiling
import Pcbsd.Proofs.DeviceClaims
import Pcbsd.Zfs.DriveProbe

/-! The cells of zfsboot's struct dsk while the drives are probed: who owns which, and what is offered to vdev_probe. -/

namespace Pcbsd.Zfs
open Lib Gpt Drv List Option

variable {σ : Type} {machine : Machine σ}

def Probing.all (s : Probing σ) : List Offer := s.calls.flatMap Call.offers ++ s.offers

/-- What holds between the calls: a device is the cell of a successful offer, with the place that was read then, no
two vdevs have the same, and no later offer is made with a cell that was taken. -/
structure Kept (s : Probing σ) : Prop where
  own : ∀ u < s.zfs.vdevs.count, ∀ v < s.zfs.vdevs.count, ∀ p, (s.zfs.vdevs.vdev u).phys = some p →
    (s.zfs.vdevs.vdev v).phys = some p → u = v
  placed : ∀ v < s.zfs.vdevs.count, ∀ p, (s.zfs.vdevs.vdev v).phys = some p → ∃ o ∈ s.all, o.cell = p ∧
    o.guid = some (s.zfs.vdevs.vdev v).guid ∧ o.pool.isSome ∧ o.place = (s.store p).place
  cells : ∀ o ∈ s.all, o.cell < s.next
  apart : s.all.Pairwise fun o later => o.pool.isSome → later.cell ≠ o.cell

structure Unowned (s : Probing σ) (cell : Nat) : Prop where
  inside : cell < s.next
  offers : ∀ o ∈ s.all, o.pool.isSome → o.cell ≠ cell

theorem Kept.phys_ne {s : Probing σ} (kept : Kept s) {cell : Nat} (unowned : Unowned s cell) {v p : Nat}
    (inside : v < s.zfs.vdevs.count) (owned : (s.zfs.vdevs.vdev v).phys = some p) : p ≠ cell := by
  obtain ⟨o, member, rfl, -, found, -⟩ := kept.placed v inside p owned
  exact unowned.offers o member found

section

variable {s : Probing σ}

theorem Kept.malloc (kept : Kept s) (dsk : DskT) :
    Kept (s.malloc dsk).2 ∧ Unowned (s.malloc dsk).2 (s.malloc dsk).1 := by
  refine ⟨⟨kept.own, ?_, ?_, kept.apart⟩, ⟨Nat.lt_succ_self _, ?_⟩⟩
  · intro v inside p owned
    obtain ⟨o, member, rfl, guid, found, place⟩ := kept.placed v inside p owned
    refine ⟨o, member, rfl, guid, found, ?_⟩
    have old : o.cell ≠ s.next := Nat.ne_of_lt (kept.cells o member)
    rw [place, Probing.malloc]
    dsimp only
    rw [Function.update_of_ne old]
  · intro o member
    exact (kept.cells o member).trans (Nat.lt_succ_self _)
  · intro o member _
    exact Nat.ne_of_lt (kept.cells o member)

theorem Kept.setStart (kept : Kept s) {cell : Nat} (unowned : Unowned s cell) (start : Int) :
    Kept (s.setStart cell start) ∧ Unowned (s.setStart cell start) cell := by
  refine ⟨⟨kept.own, ?_, kept.cells, kept.apart⟩, ⟨unowned.inside, unowned.offers⟩⟩
  intro v inside p owned
  obtain ⟨o, member, rfl, guid, found, place⟩ := kept.placed v inside p owned
  refine ⟨o, member, rfl, guid, found, ?_⟩
  rw [place, Probing.setStart]
  dsimp only
  rw [Function.update_of_ne (unowned.offers o member found)]

end

structure Offered (s s' : Probing σ) (cell : Nat) (spap found : Bool) (o : Offer) : Prop where
  store : s'.store = s.store
  next : s'.next = s.next
  calls : s'.calls = s.calls
  offers : s'.offers = s.offers ++ [o]
  reads : s'.reads = s.reads
  its : o.cell = cell
  place : o.place = (s.store cell).place
  success : o.pool.isSome = found
  spa : s'.spa = if spap then o.pool.or s.spa else s.spa
  failed : found = false → Unclaimed s.zfs.vdevs s'.zfs.vdevs
  claimed : found = true → ∃ guid v, o.guid = some guid ∧ Claimed cell guid v s.zfs.vdevs s'.zfs.vdevs

section

variable {s s' : Probing σ} {cell : Nat} {spap found : Bool} {o : Offer}

theorem Offered.all (offered : Offered s s' cell spap found o) : s'.all = s.all ++ [o] := by
  rw [Probing.all, Probing.all, offered.calls, offered.offers, append_assoc]

theorem Offered.kept (offered : Offered s s' cell spap found o) (kept : Kept s) (unowned : Unowned s cell) :
    Kept s' ∧ (found = false → Unowned s' cell) := by
  have old {e : Offer} (member : e ∈ s.all) : e ∈ s'.all := by
    rw [offered.all]
    exact mem_append_left _ member
  have cells : ∀ e ∈ s'.all, e.cell < s'.next := by
    intro e member
    rw [offered.all, mem_append, mem_singleton] at member
    rw [offered.next]
    rcases member with before | rfl
    · exact kept.cells e before
    · rw [offered.its]
      exact unowned.inside
  have apart : s'.all.Pairwise fun o later => o.pool.isSome → later.cell ≠ o.cell := by
    rw [offered.all, pairwise_append]
    refine ⟨kept.apart, pairwise_singleton _ _, fun e member later single success => ?_⟩
    obtain rfl := mem_singleton.mp single
    rw [offered.its]
    exact Ne.symm (unowned.offers e member success)
  cases taken : found with
  | false =>
    have same := offered.failed taken
    have before {v p : Nat} (inside : v < s'.zfs.vdevs.count) (owned : (s'.zfs.vdevs.vdev v).phys = some p) :
        v < s.zfs.vdevs.count ∧ (s.zfs.vdevs.vdev v).phys = some p := by
      by_cases new : v < s.zfs.vdevs.count
      · exact ⟨new, (same.phys v new).symm.trans owned⟩
      · rw [same.new v inside (Nat.not_lt.mp new)] at owned
        cases owned
    refine ⟨⟨?_, ?_, cells, apart⟩, fun _ => ⟨offered.next ▸ unowned.inside, fun e member success => ?_⟩⟩
    · intro u insideU v insideV p ownedU ownedV
      obtain ⟨inU, beforeU⟩ := before insideU ownedU
      obtain ⟨inV, beforeV⟩ := before insideV ownedV
      exact kept.own u inU v inV p beforeU beforeV
    · intro v inside p owned
      obtain ⟨inV, beforeV⟩ := before inside owned
      obtain ⟨e, member, there, guid, success, place⟩ := kept.placed v inV p beforeV
      exact ⟨e, old member, there, by rw [guid, same.guid v inV], success, by rw [place, offered.store]⟩
    · rw [offered.all, mem_append, mem_singleton] at member
      rcases member with before | rfl
      · exact unowned.offers e before success
      · rw [offered.success, taken] at success
        cases success
  | true =>
    obtain ⟨guid, w, named, claimed⟩ := offered.claimed taken
    -- who has a device: the vdev of this offer, or one that had it before, which is in another cell
    have before {v p : Nat} (inside : v < s'.zfs.vdevs.count) (owned : (s'.zfs.vdevs.vdev v).phys = some p) :
        v = w ∧ p = cell ∨ v ≠ w ∧ p ≠ cell ∧ v < s.zfs.vdevs.count ∧ (s.zfs.vdevs.vdev v).phys = some p := by
      by_cases mine : v = w
      · subst mine
        rw [claimed.mine] at owned
        exact Or.inl ⟨rfl, (some.inj owned).symm⟩
      · by_cases new : v < s.zfs.vdevs.count
        · rw [claimed.phys v new mine] at owned
          exact Or.inr ⟨mine, kept.phys_ne unowned new owned, new, owned⟩
        · rw [claimed.new v inside (Nat.not_lt.mp new) mine] at owned
          cases owned
    refine ⟨⟨?_, ?_, cells, apart⟩, fun no => nomatch no⟩
    · intro u insideU v insideV p ownedU ownedV
      rcases before insideU ownedU with ⟨rfl, rfl⟩ | ⟨_, otherU, inU, beforeU⟩
      · rcases before insideV ownedV with ⟨rfl, _⟩ | ⟨_, otherV, _⟩
        · rfl
        · exact absurd rfl otherV
      · rcases before insideV ownedV with ⟨_, rfl⟩ | ⟨_, _, inV, beforeV⟩
        · exact absurd rfl otherU
        · exact kept.own u inU v inV p beforeU beforeV
    · intro v inside p owned
      rcases before inside owned with ⟨rfl, rfl⟩ | ⟨_, _, inV, beforeV⟩
      · refine ⟨o, by rw [offered.all]; exact mem_append_right _ (mem_singleton_self o), offered.its, ?_, ?_, ?_⟩
        · rw [named, claimed.named]
        · rw [offered.success, taken]
        · rw [offered.place, offered.store]
      · obtain ⟨e, member, there, its, success, place⟩ := kept.placed v inV p beforeV
        exact ⟨e, old member, there, by rw [its, claimed.guid v inV], success, by rw [place, offered.store]⟩

end

end Pcbsd.Zfs

/-! What zfsboot's probe_drive offers to vdev_probe, and what is remembered behind a whole run over the drives. -/

namespace Pcbsd.Zfs
open Lib Gpt Drv List Option Function

variable {σ : Type} {machine : Machine σ}

section

variable (machine) (drive : Nat)

def sectorAt (lba : Int) : Bytes := (machine.disk (drive, (lba % 2 ^ 64).toNat)).bytes

def entryIn (hdr : Hdr) (i : Nat) : Bytes × Nat :=
  (sectorAt machine drive ((hdr.lbaTable : Int).bmod (2 ^ 64) + (i / (devBsize / hdr.entsz) : Nat)),
    i % (devBsize / hdr.entsz))

def zfsStarts (hdr : Hdr) : List Int :=
  ((List.range hdr.entries).filter fun i =>
    entType hdr.entsz (entryIn machine drive hdr i).1 (entryIn machine drive hdr i).2 = freebsdZfsUuid).map fun i =>
    entStart hdr.entsz (entryIn machine drive hdr i).1 (entryIn machine drive hdr i).2

def mbrStarts : List Int :=
  ((List.range Boot2.ndospart).filter fun i => ¬Boot2.dpTyp (sectorAt machine drive 0) i = 0).map fun i =>
    (Boot2.dpStart (sectorAt machine drive 0) i : Int)

def onGpt (gpt : Bool) : Bool := gpt && validHdr (hdrOf (sectorAt machine drive 1))

def partStarts (gpt : Bool) : List Int :=
  if onGpt machine drive gpt then zfsStarts machine drive (hdrOf (sectorAt machine drive 1))
    else mbrStarts machine drive

def WholeSectors (gpt : Bool) : Prop :=
  onGpt machine drive gpt = true →
    devBsize / (hdrOf (sectorAt machine drive 1)).entsz ∣ (hdrOf (sectorAt machine drive 1)).entries

end

/-- A read from the drive that the BIOS did not answer. -/
def Read.Fails (machine : Machine σ) (drive : Nat) (read : Read σ) : Prop :=
  read.drive = drive ∧ (machine.drives.answer read.outside read.drive read.lba 1).1.isSome = true

/-- The starts were offered one after the other, with the drive of the scan, and spap is left for the first pool
only. -/
structure Continues (scan scan' : Scan σ) (starts : List Int) : Prop where
  kept : Kept scan'.probing
  unowned : Unowned scan'.probing scan'.cell
  drive : scan'.drive = scan.drive
  calls : scan'.probing.calls = scan.probing.calls
  reads : scan.probing.reads <+: scan'.probing.reads
  offers : ∃ more, scan'.probing.offers = scan.probing.offers ++ more ∧
    more.map Offer.place = starts.map (DskPlace.mk scan.drive) ∧
    (scan'.spap = true ↔ scan.spap = true ∧ more.findSome? Offer.pool = none) ∧
    scan'.probing.spa = if scan.spap then (more.findSome? Offer.pool).or scan.probing.spa else scan.probing.spa

theorem Continues.refl {scan : Scan σ} (kept : Kept scan.probing) (unowned : Unowned scan.probing scan.cell) :
    Continues scan scan [] := by
  refine ⟨kept, unowned, rfl, rfl, prefix_rfl, [], (append_nil _).symm, rfl, ?_, ?_⟩
  · simp
  · rw [findSome?_nil, none_or, ite_self]

theorem Continues.trans {scan scan' scan'' : Scan σ} {starts starts' : List Int} (first : Continues scan scan' starts)
    (second : Continues scan' scan'' starts') : Continues scan scan'' (starts ++ starts') := by
  obtain ⟨more, offers, places, spap, spa⟩ := first.offers
  obtain ⟨more', offers', places', spap', spa'⟩ := second.offers
  refine ⟨second.kept, second.unowned, second.drive.trans first.drive, second.calls.trans first.calls,
    first.reads.trans second.reads, more ++ more', ?_, ?_, ?_, ?_⟩
  · rw [offers', offers, append_assoc]
  · rw [map_append, map_append, places, places', first.drive]
  · rw [spap', spap, findSome?_append, or_eq_none_iff, and_assoc]
  · rw [spa', spa, findSome?_append]
    by_cases asked : scan.spap = true
    · rw [if_pos asked, if_pos asked]
      by_cases still : scan'.spap = true
      · rw [if_pos still, (spap.mp still).2, none_or, none_or]
      · obtain ⟨spa, found⟩ := ne_none_iff_exists'.mp fun none => still (spap.mpr ⟨asked, none⟩)
        rw [if_neg still, found, some_or, some_or, some_or]
    · rw [if_neg asked, if_neg asked, if_neg fun still => asked (spap.mp still).1]

section

variable {scan : Scan σ}

variable (kept : Kept scan.probing)

include kept

omit kept

/-- The starts were offered, up to a read that failed if there was one. -/
def Scanned (machine : Machine σ) (scan : Scan σ) (starts : List Int) (scan' : Scan σ) : Prop :=
  ∃ offered, offered <+: starts ∧ Continues scan scan' offered ∧
    (offered = starts ∨ ∃ read ∈ scan'.probing.reads, read.Fails machine scan.drive)

theorem Scanned.after {scan scan' scan'' : Scan σ} {starts starts' : List Int} (first : Continues scan scan' starts)
    (scanned : Scanned machine scan' starts' scan'') : Scanned machine scan (starts ++ starts') scan'' := by
  obtain ⟨offered, front, second, whole⟩ := scanned
  rw [first.drive] at whole
  exact ⟨starts ++ offered, (prefix_append_right_inj starts).mpr front, first.trans second,
    whole.imp_left fun ended => by rw [ended]⟩

theorem Scanned.failed {scan' : Scan σ} (continues : Continues scan scan' []) {drive : Nat}
    (same : drive = scan.drive) (failed : ∃ read ∈ scan'.probing.reads, read.Fails machine drive) (starts : List Int) :
    Scanned machine scan starts scan' :=
  ⟨[], nil_prefix, continues, .inr (same ▸ failed)⟩

theorem Scanned.complete {scan' : Scan σ} {starts : List Int} (continues : Continues scan scan' starts) :
    Scanned machine scan starts scan' :=
  ⟨starts, prefix_refl starts, continues, .inl rfl⟩

end

/-- What a call of probe_drive offers: the whole disk, and if there is no vdev on it every device inside of it once, in
order, up to a read that failed if there was one. -/
def Call.Complete (machine : Machine σ) (gpt : Bool) (call : Call σ) : Prop :=
  ∃ first rest, call.offers = first :: rest ∧ first.place = call.dsk.place ∧ (first.pool.isSome → rest = []) ∧
    (first.pool = none → WholeSectors machine call.dsk.place.drive gpt → ∃ starts,
      starts <+: partStarts machine call.dsk.place.drive gpt ∧
      rest.map Offer.place = starts.map (DskPlace.mk call.dsk.place.drive) ∧
        (starts = partStarts machine call.dsk.place.drive gpt ∨
        ∃ read ∈ call.reads, read.Fails machine call.dsk.place.drive))

section

variable {s : Probing σ}

theorem Kept.congr {t : Probing σ} (kept : Kept s) (store : t.store = s.store) (next : t.next = s.next)
    (zfs : t.zfs = s.zfs) (all : t.all = s.all) : Kept t := by
  refine ⟨?_, ?_, ?_, ?_⟩
  · rw [zfs]
    exact kept.own
  · rw [zfs, all, store]
    exact kept.placed
  · rw [all, next]
    exact kept.cells
  · rw [all]
    exact kept.apart

def unprobed (store : Nat → DskT) (next : Nat) (vdev : Nat → VdevT Nat) (outside : σ) : Probing σ :=
  ⟨store, next, noPools vdev, none, outside, [], [], []⟩

end

end Pcbsd.Zfs
