import Pcbsd.Gpt
import Pcbsd.Lib.TwoCopies

/-! One copy of the GPT as an image on disk, with entries of 128 bytes: what gptread_hdr and
gptread_table accept is a property of the header sector and of the table sectors alone, and
what they load is what those sectors hold. -/

namespace Pcbsd.Proofs.GptImage
open Lib Crc32 Gpt List

structure Place where
  drive : Nat
  lba : Nat
  table : Nat
  entries : Nat
  alt : Nat

def tableSectors (entries : Nat) : Nat := (entries + 3) / 4

namespace Place

def header (p : Place) : Nat × Nat := (p.drive, p.lba)

def sector (p : Place) (i : Nat) : Nat × Nat := (p.drive, (p.table + i) % 2 ^ 64)

def footprint (p : Place) : Set (Nat × Nat) := { x | x = p.header ∨ ∃ i < tableSectors p.entries, x = p.sector i }

end Place

structure Good (p : Place) (h : Hdr) : Prop where
  sig : h.sig = gptHdrSig
  self : h.lbaSelf = p.lba
  revision : 0x00010000 ≤ h.revision
  entsz : h.entsz = 128
  entries : h.entries = p.entries
  most : p.entries ≤ maxtblents
  table : h.lbaTable = p.table
  alt : h.lbaAlt = p.alt
  size : h.hdrSize ≤ 96

def Sealed (h : Hdr) : Prop := (crc32 ((h.setCrcSelf 0).bytes.take h.hdrSize)).toNat = h.crcSelf

def diskHdr (p : Place) (d : Nat × Nat → Sector) : Hdr := Hdr.ofSector (d p.header)

def diskEnt (p : Place) (d : Nat × Nat → Sector) (i : Nat) : Ent := Ent.ofSector (d (p.sector (i / 4))) (i % 4)

def entBytes (n : Nat) (ent : Nat → Ent) : Bytes := (range n).flatMap fun i => (ent i).bytes

structure Valid (bios : Bios) (p : Place) (d : Nat × Nat → Sector) : Prop where
  readable : bios.reads p.drive p.lba = true
  good : Good p (diskHdr p d)
  sealed : Sealed (diskHdr p d)
  tableReadable : ∀ i < tableSectors p.entries, bios.reads p.drive ((p.table + i) % 2 ^ 64) = true
  crc : p.entries = 0 ∨ (crc32 (entBytes p.entries (diskEnt p d))).toNat = (diskHdr p d).crcTable

variable {d : Nat × Nat → Sector} {p : Place} {bios : Bios} {h : Hdr} {c : Copy} {dsk : Dsk} {n off lba v : Nat}

theorem entBytes_congr {ent ent' : Nat → Ent} (same : ∀ i < n, ent i = ent' i) : entBytes n ent = entBytes n ent' := by
  rw [entBytes, entBytes, flatMap_def, flatMap_def]
  congr 1
  refine map_congr_left fun i member => ?_
  rw [same i (mem_range.mp member)]

theorem diskEnt_congr {d' : Nat × Nat → Sector} {i : Nat} (same : d (p.sector (i / 4)) = d' (p.sector (i / 4))) :
    diskEnt p d i = diskEnt p d' i := by rw [diskEnt, diskEnt, same]

theorem Valid.locality (d d' : Nat × Nat → Sector) (same : ∀ x ∈ p.footprint, d x = d' x)
    (valid : Valid bios p d) : Valid bios p d' := by
  have header : diskHdr p d = diskHdr p d' := by rw [diskHdr, diskHdr, same p.header (.inl rfl)]
  have table : entBytes p.entries (diskEnt p d) = entBytes p.entries (diskEnt p d') := by
    refine entBytes_congr fun i less => diskEnt_congr (same _ (.inr ⟨i / 4, ?_, rfl⟩))
    simp only [tableSectors]
    omega
  exact ⟨valid.readable, header ▸ valid.good, header ▸ valid.sealed, valid.tableReadable, header ▸ table ▸ valid.crc⟩

def image (bios : Bios) (p : Place) : TwoCopies.Copy (Nat × Nat) Sector := ⟨p.footprint, Valid bios p, Valid.locality⟩

theorem Good.congr {h' : Hdr} (good : Good p h)
    (same : ∀ off n, off + n ≤ 16 ∨ 20 ≤ off ∧ off + n ≤ 88 → slice off n h'.bytes = slice off n h.bytes) :
    Good p h' := by
  have field : ∀ off n, off + n ≤ 16 ∨ 20 ≤ off ∧ off + n ≤ 88 → le n off h'.bytes = le n off h.bytes :=
    fun off n inside => congrArg leNat (same off n inside)
  exact {
    sig := (same 0 8 (by omega)).trans good.sig
    self := (field 24 8 (by omega)).trans good.self
    revision := good.revision.trans_eq (field 8 4 (by omega)).symm
    entsz := (field 84 4 (by omega)).trans good.entsz
    entries := (field 80 4 (by omega)).trans good.entries
    most := good.most
    table := (field 72 8 (by omega)).trans good.table
    alt := (field 32 8 (by omega)).trans good.alt
    size := (field 12 4 (by omega)).trans_le good.size }

theorem slice_setWord {room : off + 4 ≤ 96} {off' : Nat} (apart : off' + n ≤ off ∨ off + 4 ≤ off') :
    slice off' n (h.setWord off v room).bytes = slice off' n h.bytes :=
  slice_put_other (by rw [h.size, length_toLe]; exact room) (by rw [length_toLe]; exact apart)

theorem Good.setCrcSelf (good : Good p h) (v : Nat) : Good p (h.setCrcSelf v) :=
  good.congr fun _ _ _ => slice_setWord (by omega)

theorem Good.setCrcTable (good : Good p h) (v : Nat) : Good p (h.setCrcTable v) :=
  good.congr fun _ _ _ => slice_setWord (by omega)

@[simp] theorem hdrSize_setCrcSelf (h : Hdr) (v : Nat) : (h.setCrcSelf v).hdrSize = h.hdrSize := by
  rw [Hdr.hdrSize, le, Hdr.setCrcSelf, slice_setWord (by omega)]
  rfl

@[simp] theorem hdrSize_setCrcTable (h : Hdr) (v : Nat) : (h.setCrcTable v).hdrSize = h.hdrSize := by
  rw [Hdr.hdrSize, le, Hdr.setCrcTable, slice_setWord (by omega)]
  rfl

theorem crcSelf_setCrcSelf (h : Hdr) (small : v < 2 ^ 32) : (h.setCrcSelf v).crcSelf = v :=
  le_put_self (by rw [h.size]; decide) small

theorem crcTable_setCrcSelf (h : Hdr) (v : Nat) : (h.setCrcSelf v).crcTable = h.crcTable := by
  rw [Hdr.crcTable, le, Hdr.setCrcSelf, slice_setWord (by omega)]
  rfl

theorem crcTable_setCrcTable (h : Hdr) (small : v < 2 ^ 32) : (h.setCrcTable v).crcTable = v :=
  le_put_self (by rw [h.size]; decide) small

theorem setCrcSelf_setCrcSelf (h : Hdr) (v w : Nat) : (h.setCrcSelf v).setCrcSelf w = h.setCrcSelf w := by
  simp only [Hdr.setCrcSelf, Hdr.setWord, Hdr.mk.injEq]
  exact put_put (by simp) (by rw [h.size, length_toLe]; decide)

theorem setCrcSelf_crcSelf (h : Hdr) : h.setCrcSelf h.crcSelf = h := by
  obtain ⟨_, size⟩ := h
  simp only [Hdr.setCrcSelf, Hdr.setWord, Hdr.crcSelf, Hdr.mk.injEq]
  exact put_le (by rw [size]; decide)

theorem hdrBytes_eq (small : h.hdrSize ≤ 96) : c.hdrBytes h = h.bytes.take h.hdrSize := by
  rw [Copy.hdrBytes, take_append_of_le_length (by rw [h.size]; exact small)]

theorem take_written (small : h.hdrSize ≤ 96) :
    (Hdr.ofSector (Sector.ofBytes (h.bytes.take h.hdrSize))).bytes.take h.hdrSize = h.bytes.take h.hdrSize := by
  have length : (h.bytes.take h.hdrSize).length = h.hdrSize := by rw [length_take, h.size]; omega
  have whole : slice 0 h.hdrSize ((h.bytes.take h.hdrSize).takeD devBsize 0) =
    slice 0 h.hdrSize (h.bytes.take h.hdrSize) :=
    slice_takeD (by omega) (by simp only [devBsize]; omega)
  have covered : 0 + h.hdrSize ≤ 96 := by omega
  have inner := slice_slice (Sector.ofBytes (h.bytes.take h.hdrSize)).bytes covered
  calc (Hdr.ofSector (Sector.ofBytes (h.bytes.take h.hdrSize))).bytes.take h.hdrSize
      = slice 0 h.hdrSize (Sector.ofBytes (h.bytes.take h.hdrSize)).bytes := inner
    _ = slice 0 h.hdrSize (h.bytes.take h.hdrSize) := whole
    _ = h.bytes.take h.hdrSize := by rw [slice, drop_zero, take_take, Nat.min_self]

theorem slice_written (small : h.hdrSize ≤ 96) (covered : off + n ≤ h.hdrSize) :
    slice off n (Hdr.ofSector (Sector.ofBytes (h.bytes.take h.hdrSize))).bytes = slice off n h.bytes := by
  rw [← slice_take _ covered, take_written small, slice_take _ covered]

theorem written_good (good : Good p h) (large : 92 ≤ h.hdrSize) :
    Good p (Hdr.ofSector (Sector.ofBytes (h.bytes.take h.hdrSize))) :=
  good.congr fun _ _ _ => slice_written good.size (by omega)

theorem written_sealed (small : h.hdrSize ≤ 96) (large : 92 ≤ h.hdrSize) (crc : Sealed h) :
    Sealed (Hdr.ofSector (Sector.ofBytes (h.bytes.take h.hdrSize))) := by
  set h' := Hdr.ofSector (Sector.ofBytes (h.bytes.take h.hdrSize)) with written
  have size : h'.hdrSize = h.hdrSize := congrArg leNat (slice_written small (by omega))
  have self : h'.crcSelf = h.crcSelf := congrArg leNat (slice_written small (by omega))
  have body : (h'.setCrcSelf 0).bytes.take h.hdrSize = (h.setCrcSelf 0).bytes.take h.hdrSize :=
    take_put_congr (take_written small) (by rw [h'.size, length_toLe]; decide) (by rw [h.size, length_toLe]; decide)
  rw [Sealed, size, self, body]
  exact crc

theorem ent_modifyEnt (c : Copy) (i j : Nat) (f : Ent → Ent) (inside : i < maxtblents) :
    (c.modifyEnt i f).ent j = if j = i then f (c.ent i) else c.ent j := by
  have less : i < c.table.length := by rw [c.size]; exact inside
  simp only [Copy.ent, Copy.modifyEnt, getD_eq_getElem?_getD, getElem?_modify]
  by_cases same : j = i
  · subst same
    simp [less]
  · rw [if_neg same]
    have other : ¬ i = j := fun equal => same equal.symm
    simp [other]

theorem entBytes_table (c : Copy) (most : n ≤ maxtblents) :
    (c.tableBytes 0).take (n * 128) = entBytes n c.ent := by
  have less : n ≤ c.table.length := by rw [c.size]; exact most
  have first : c.table.take n = (range n).map c.ent := by
    apply ext_getElem (by simp; omega)
    intro i short long
    have inside : i < c.table.length := by simp at short; omega
    simp [Copy.ent, inside]
  rw [Copy.tableBytes, drop_zero, take_flatMap (fun e => e.size) _ less, first, entBytes, flatMap_map]

theorem crcOfTable_eq (good : Good p c.hdr) :
    c.crcOfTable = (crc32 (entBytes p.entries c.ent)).toNat := by
  rw [Copy.crcOfTable, good.entries, good.entsz, entBytes_table c good.most]

theorem ofSector_tableBytes (c : Copy) {first j : Nat} (less : j < 4) (inside : first + 4 ≤ maxtblents) :
    Ent.ofSector (Sector.ofBytes (c.tableBytes first)) j = c.ent (first + j) := by
  have size := c.size
  have length : (c.table.drop first).length = maxtblents - first := by rw [length_drop, size]
  have bytes : 512 ≤ (c.tableBytes first).length := by
    rw [Copy.tableBytes, length_append, length_flatMap_of_sized (fun e => e.size), length]
    omega
  have record := slice_flatMap (f := Ent.bytes) (fun e => e.size) c.tableBehind (l := c.table.drop first)
    (j := j) (by omega)
  have stored : slice (128 * j) 128 (Sector.ofBytes (c.tableBytes first)).bytes = (c.ent (first + j)).bytes := by
    rw [Sector.ofBytes, slice_takeD (by omega) (by simp only [devBsize]; omega), Copy.tableBytes, record]
    have here : first + j < c.table.length := by omega
    simp [Copy.ent, here]
  have length : (c.ent (first + j)).bytes.length = 128 := Ent.size _
  refine Ent.ext ((congrArg (takeD 128 · 0) stored).trans ?_)
  rw [takeD_eq_take _ (by omega), take_of_length_le (by omega)]

structure Reloaded (c c' : Copy) : Prop where
  hdr : c'.hdr = c.hdr
  hdrBehind : c'.hdrBehind = c.hdrBehind
  tableBehind : c'.tableBehind = c.tableBehind
  lba : c'.lba = c.lba

theorem Reloaded.refl (c : Copy) : Reloaded c c := ⟨rfl, rfl, rfl, rfl⟩

theorem Reloaded.trans {c' c'' : Copy} (first : Reloaded c c') (second : Reloaded c' c'') : Reloaded c c'' :=
  ⟨second.hdr.trans first.hdr, second.hdrBehind.trans first.hdrBehind, second.tableBehind.trans first.tableBehind,
    second.lba.trans first.lba⟩

theorem copyEnts_spec (secbuf : Sector) (nent k : Nat) (c : Copy) (inside : nent + k ≤ maxtblents) :
    Reloaded c (copyEnts secbuf nent k c) ∧
    ∀ i, (copyEnts secbuf nent k c).ent i =
      if nent ≤ i ∧ i < nent + k then Ent.ofSector secbuf (i - nent) else c.ent i := by
  induction k with
  | zero => exact ⟨.refl c, fun i => by rw [if_neg (by omega)]; rfl⟩
  | succ k ih =>
    obtain ⟨same, ents⟩ := ih (by omega)
    refine ⟨same.trans ⟨rfl, rfl, rfl, rfl⟩, fun i => ?_⟩
    rw [copyEnts, Copy.setEnt, ent_modifyEnt _ _ _ _ (by omega), ents]
    by_cases here : i = nent + k
    · rw [if_pos here, if_pos (by omega), here, Nat.add_sub_cancel_left]
    · rw [if_neg here]
      by_cases before : nent ≤ i ∧ i < nent + k
      · rw [if_pos before, if_pos (by omega)]
      · rw [if_neg before, if_neg (by omega)]

/-- The entry that gptread_table puts at index `i`: its sector has entriesPerSec of them, one behind the other. -/
def slot (hdr : Hdr) (d : Nat × Nat → Sector) (drive i : Nat) : Ent :=
  Ent.ofSector (d (drive, (hdr.lbaTable + i / hdr.entriesPerSec) % 2 ^ 64)) (i % hdr.entriesPerSec)

/-- Reading the table from sector `slba` on: it succeeds exactly when the sectors can be
read, and then the entries from there to hdr_entries are those on disk. -/
theorem tableLoop_slots (bios : Bios) (d : Nat × Nat → Sector) (dsk : Dsk) (fuel slba : Nat) (c : Copy)
    (positive : 0 < c.hdr.entriesPerSec) (most : c.hdr.entries ≤ maxtblents)
    (more : c.hdr.entriesPerSec * slba < c.hdr.entries) (enough : c.hdr.entries ≤ c.hdr.entriesPerSec * slba + fuel) :
    let r := tableLoop bios d dsk fuel slba (c.hdr.entriesPerSec * slba) c
    Reloaded c r.2 ∧
    (r.1 = true ↔ ∀ i, slba ≤ i → c.hdr.entriesPerSec * i < c.hdr.entries →
      bios.reads dsk.drive ((c.hdr.lbaTable + i) % 2 ^ 64) = true) ∧
    (r.1 = true → ∀ i, r.2.ent i =
      if c.hdr.entriesPerSec * slba ≤ i ∧ i < c.hdr.entries then slot c.hdr d dsk.drive i else c.ent i) := by
  induction fuel generalizing slba c with
  | zero => omega
  | succ fuel ih =>
    set eps := c.hdr.entriesPerSec with perSec
    simp only [tableLoop, drvread]
    by_cases reads : bios.reads dsk.drive ((c.hdr.lbaTable + slba) % 2 ^ 64) = true
    · simp only [reads, if_true]
      obtain ⟨same, ents⟩ := copyEnts_spec (d (dsk.drive, (c.hdr.lbaTable + slba) % 2 ^ 64)) (eps * slba)
        (min eps (c.hdr.entries - eps * slba)) c (by omega)
      have sector (i : Nat) (low : eps * slba ≤ i) (high : i < eps * slba + eps) :
          Ent.ofSector (d (dsk.drive, (c.hdr.lbaTable + slba) % 2 ^ 64)) (i - eps * slba) = slot c.hdr d dsk.drive i := by
        have quotient : i / eps = slba :=
          Nat.div_eq_of_lt_le (by rwa [Nat.mul_comm]) (by rw [Nat.succ_mul, Nat.mul_comm slba]; exact high)
        have remainder : i % eps = i - eps * slba := by rw [Nat.mod_eq_sub_mul_div, quotient]
        rw [slot, ← perSec, remainder, quotient]
      have beyond (i : Nat) (low : slba + 1 ≤ i) : eps * slba + eps ≤ eps * i := by
        exact Nat.mul_le_mul_left eps low
      generalize copyEnts _ _ _ c = c' at same ents ⊢
      rw [same.hdr]
      split
      next _ =>
        refine ⟨same, ⟨fun _ i low high => ?_, fun _ => rfl⟩, fun _ i => ?_⟩
        · obtain rfl | later := Nat.eq_or_lt_of_le low
          · exact reads
          · have := beyond i later
            omega
        · rw [ents]
          by_cases inside : eps * slba ≤ i ∧ i < c.hdr.entries
          · rw [if_pos (by omega), if_pos inside, sector i inside.1 (by omega)]
          · rw [if_neg (by omega), if_neg inside]
      next more' =>
        have whole : min eps (c.hdr.entries - eps * slba) = eps := by omega
        rw [whole] at ents more' ⊢
        have next := ih (slba + 1) c'
        rw [same.hdr, ← perSec, Nat.mul_succ] at next
        obtain ⟨same', success, loaded⟩ := next positive most (by omega) (by omega)
        refine ⟨same.trans same', ?_, fun done i => ?_⟩
        · rw [success]
          refine ⟨fun rest i low high => ?_, fun all i low high => all i (by omega) high⟩
          obtain rfl | later := Nat.eq_or_lt_of_le low
          · exact reads
          · exact rest i later high
        · rw [loaded done i, ents]
          by_cases later : eps * slba + eps ≤ i ∧ i < c.hdr.entries
          · rw [if_pos later, if_pos (by omega)]
          · rw [if_neg later]
            by_cases here : eps * slba ≤ i ∧ i < eps * slba + eps
            · rw [if_pos here, if_pos (by omega), sector i here.1 here.2]
            · rw [if_neg here, if_neg (by omega)]
    · simp only [reads]
      refine ⟨.refl c, ⟨fun absurd => by simp at absurd, fun all => ?_⟩, fun absurd => by simp at absurd⟩
      exact absurd (all slba (le_refl _) more) reads

theorem tableLoop_spec (bios : Bios) (d : Nat × Nat → Sector) (drive : dsk.drive = p.drive) (fuel slba : Nat)
    (c : Copy) (good : Good p c.hdr) (more : 4 * slba < p.entries) (enough : p.entries ≤ 4 * slba + fuel) :
    let r := tableLoop bios d dsk fuel slba (4 * slba) c
    Reloaded c r.2 ∧
    (r.1 = true ↔ ∀ i, slba ≤ i → i < tableSectors p.entries → bios.reads p.drive ((p.table + i) % 2 ^ 64) = true) ∧
    (r.1 = true → ∀ i < p.entries, r.2.ent i = if 4 * slba ≤ i then diskEnt p d i else c.ent i) := by
  have perSec : c.hdr.entriesPerSec = 4 := by rw [Hdr.entriesPerSec, good.entsz]; rfl
  have slots := tableLoop_slots bios d dsk fuel slba c
  rw [perSec, good.entries, good.table, drive] at slots
  obtain ⟨same, success, loaded⟩ := slots (by omega) good.most more enough
  refine ⟨same, success.trans ?_, fun done i less => ?_⟩
  · have inside (i : Nat) : 4 * i < p.entries ↔ i < tableSectors p.entries := by
      simp only [tableSectors]
      omega
    simp only [inside]
  · have here : slot c.hdr d p.drive i = diskEnt p d i := by rw [slot, perSec, good.table, diskEnt, Place.sector]
    rw [loaded done i, here]
    simp only [less, and_true]

theorem gptreadTable_ok_iff (drive : dsk.drive = p.drive) (good : Good p c.hdr) :
    (gptreadTable bios d dsk c).1 = 0 ↔
      (∀ i < tableSectors p.entries, bios.reads p.drive ((p.table + i) % 2 ^ 64) = true) ∧
      (p.entries = 0 ∨ (crc32 (entBytes p.entries (diskEnt p d))).toNat = c.hdr.crcTable) := by
  rw [gptreadTable, good.entries]
  by_cases none : p.entries = 0
  · simp [none, tableSectors]
  · rw [if_neg none]
    have spec := tableLoop_spec bios d drive p.entries 0 c good (by omega) (by omega)
    rcases read : tableLoop bios d dsk p.entries 0 0 c with ⟨done, c'⟩
    rw [read] at spec
    obtain ⟨same, success, loaded⟩ := spec
    cases done with
    | false =>
      have unread : ¬ ∀ i, 0 ≤ i → i < tableSectors p.entries → bios.reads p.drive ((p.table + i) % 2 ^ 64) = true :=
        fun all => by simpa using success.mpr all
      simp only [show ¬ (-1 : Int) = 0 by decide, false_iff]
      exact fun both => unread fun i _ less => both.1 i less
    | true =>
      have table : c'.crcOfTable = (crc32 (entBytes p.entries (diskEnt p d))).toNat := by
        rw [crcOfTable_eq (same.hdr ▸ good), entBytes_congr fun i less => by simpa using loaded rfl i less]
      have header : c'.hdr = c.hdr := same.hdr
      simp only [table, header]
      split
      next differs => simp [differs, none]
      next equal =>
        rw [not_not] at equal
        exact iff_of_true rfl ⟨fun i less => success.mp rfl i (Nat.zero_le _) less, .inr equal⟩

theorem gptreadTable_slot (bios : Bios) (d : Nat × Nat → Sector) (dsk : Dsk) (positive : 0 < c.hdr.entriesPerSec)
    (most : c.hdr.entries ≤ maxtblents) (done : (gptreadTable bios d dsk c).1 = 0) :
    Reloaded c (gptreadTable bios d dsk c).2 ∧ ∀ i < c.hdr.entries, (gptreadTable bios d dsk c).2.ent i =
      slot c.hdr d dsk.drive i := by
  rw [gptreadTable] at done ⊢
  by_cases none : c.hdr.entries = 0
  · rw [if_pos none]
    exact ⟨.refl c, fun i less => by omega⟩
  · rw [if_neg none] at done ⊢
    have spec := tableLoop_slots bios d dsk c.hdr.entries 0 c positive most (by omega) (by omega)
    rw [Nat.mul_zero] at spec
    rcases read : tableLoop bios d dsk c.hdr.entries 0 0 c with ⟨flag, _⟩
    rw [read] at spec done
    obtain ⟨same, _, loaded⟩ := spec
    cases flag with
    | false => simp at done
    | true =>
      simp only at done ⊢
      split at done
      next => simp at done
      next equal =>
        rw [if_neg equal]
        refine ⟨same, fun i less => ?_⟩
        have here := loaded rfl i
        simpa only [Nat.zero_le, less, and_self, if_true] using here

theorem gptreadTable_loads (drive : dsk.drive = p.drive) (good : Good p c.hdr)
    (done : (gptreadTable bios d dsk c).1 = 0) :
    Reloaded c (gptreadTable bios d dsk c).2 ∧ ∀ i < p.entries, (gptreadTable bios d dsk c).2.ent i = diskEnt p d i := by
  have perSec : c.hdr.entriesPerSec = 4 := by rw [Hdr.entriesPerSec, good.entsz]; rfl
  have most := good.most
  rw [← good.entries] at most ⊢
  obtain ⟨same, loaded⟩ := gptreadTable_slot bios d dsk (by rw [perSec]; decide) most done
  refine ⟨same, fun i less => (loaded i less).trans ?_⟩
  rw [slot, perSec, good.table, diskEnt, Place.sector, drive]

def withHdr (c : Copy) (hdr : Hdr) : Copy := { c with hdr }

theorem gptreadHdr_ok_iff (bios : Bios) (c : Copy) (small : (Hdr.ofSector (d (dsk.drive, lba))).hdrSize ≤ 96)
    (entsz : (Hdr.ofSector (d (dsk.drive, lba))).entsz = 128) :
    let h := Hdr.ofSector (d (dsk.drive, lba))
    ((gptreadHdr bios d dsk c lba).1 = 0 ↔
      bios.reads dsk.drive lba = true ∧ Good ⟨dsk.drive, lba, h.lbaTable, h.entries, h.lbaAlt⟩ h ∧ Sealed h) ∧
    ((gptreadHdr bios d dsk c lba).1 = 0 → (gptreadHdr bios d dsk c lba).2 = withHdr c h) := by
  intro h
  have failed : ¬ (-1 : Int) = 0 := by decide
  simp only [gptreadHdr, drvread]
  by_cases reads : bios.reads dsk.drive lba = true
  · simp only [reads, if_true, true_and]
    split
    next bad =>
      refine ⟨iff_of_false failed fun good => ?_, fun absurd => (failed absurd).elim⟩
      obtain ⟨good, -⟩ := good
      have sig := good.sig
      have self := good.self
      have revision := good.revision
      have most := good.most
      rcases bad with bad | bad | bad | bad | bad | bad
      · exact bad sig
      · exact bad self
      · exact absurd bad (not_lt.mpr revision)
      · omega
      · exact absurd bad (not_lt.mpr most)
      · rw [entsz] at bad
        exact bad rfl
    next fine =>
      simp only [not_or, not_not, not_lt] at fine
      obtain ⟨sig, self, revision, -, most, -⟩ := fine
      have good : Good ⟨dsk.drive, lba, h.lbaTable, h.entries, h.lbaAlt⟩ h :=
        ⟨sig, self, revision, entsz, rfl, most, rfl, rfl, small⟩
      rw [hdrBytes_eq (by rw [hdrSize_setCrcSelf]; exact small), hdrSize_setCrcSelf]
      split
      next differs => exact ⟨iff_of_false failed fun both => differs both.2, fun absurd => (failed absurd).elim⟩
      next equal =>
        refine ⟨iff_of_true rfl ⟨good, not_not.mp equal⟩, fun _ => ?_⟩
        rw [setCrcSelf_setCrcSelf, setCrcSelf_crcSelf]
        rfl
  · simp only [reads]
    exact ⟨iff_of_false failed fun both => by simp at both, fun absurd => (failed absurd).elim⟩

/-- What gptread asks of the copy at `lba`: both gptread_hdr and gptread_table return 0. -/
def Accepted (bios : Bios) (d : Nat × Nat → Sector) (dsk : Dsk) (c : Copy) (lba : Nat) : Prop :=
  (gptreadHdr bios d dsk c lba).1 = 0 ∧ (gptreadTable bios d dsk (gptreadHdr bios d dsk c lba).2).1 = 0

def placeOf (d : Nat × Nat → Sector) (drive lba : Nat) : Place :=
  let h := Hdr.ofSector (d (drive, lba))
  ⟨drive, lba, h.lbaTable, h.entries, h.lbaAlt⟩

theorem valid_of_accepted (dsk : Dsk) (accepted : Accepted bios d dsk c lba)
    (small : (Hdr.ofSector (d (dsk.drive, lba))).hdrSize ≤ 96)
    (entsz : (Hdr.ofSector (d (dsk.drive, lba))).entsz = 128) : Valid bios (placeOf d dsk.drive lba) d := by
  obtain ⟨header, table⟩ := accepted
  obtain ⟨ok, loaded⟩ := gptreadHdr_ok_iff bios c small entsz
  obtain ⟨readable, good, crc⟩ := ok.mp header
  rw [loaded header] at table
  obtain ⟨tableReadable, tableCrc⟩ :=
    (gptreadTable_ok_iff (p := placeOf d dsk.drive lba) (c := withHdr c _) rfl good).mp table
  exact ⟨readable, good, crc, tableReadable, tableCrc⟩

section

variable {bios : Bios} {p : Place} {d : Nat × Nat → Sector} {dsk : Dsk}

private theorem gptreadHdr_valid (valid : Valid bios p d) (drive : dsk.drive = p.drive) (c : Copy) :
    (gptreadHdr bios d dsk c p.lba).1 = 0 ∧ (gptreadHdr bios d dsk c p.lba).2 = withHdr c (diskHdr p d) := by
  have place : d (dsk.drive, p.lba) = d p.header := by rw [Place.header, drive]
  have good : Good p (Hdr.ofSector (d (dsk.drive, p.lba))) := place ▸ valid.good
  obtain ⟨ok, loaded⟩ := gptreadHdr_ok_iff bios c good.size good.entsz
  have done := ok.mpr ⟨drive ▸ valid.readable, ?_, place ▸ valid.sealed⟩
  · exact ⟨done, by rw [loaded done, place, diskHdr]⟩
  · exact ⟨good.sig, good.self, good.revision, good.entsz, rfl, good.entries ▸ good.most, rfl, rfl, good.size⟩

theorem accepted_of_valid (valid : Valid bios p d) (drive : dsk.drive = p.drive) (c : Copy) :
    Accepted bios d dsk c p.lba := by
  obtain ⟨done, loaded⟩ := gptreadHdr_valid valid drive c
  refine ⟨done, ?_⟩
  rw [loaded]
  exact (gptreadTable_ok_iff drive valid.good).mpr ⟨valid.tableReadable, valid.crc⟩

/-- Memory and disk agree on a copy: the header is one an update may write back, and the
entries are the same. -/
structure Synced (p : Place) (d : Nat × Nat → Sector) (c : Copy) : Prop where
  lba : c.lba = p.lba
  good : Good p c.hdr
  agree : ∀ i < p.entries, c.ent i = diskEnt p d i

structure Shaped (p : Place) (h : Hdr) : Prop where
  entsz : h.entsz = 128
  entries : h.entries = p.entries
  most : p.entries ≤ maxtblents
  table : h.lbaTable = p.table

structure Tabled (p : Place) (d : Nat × Nat → Sector) (c : Copy) : Prop where
  shaped : Shaped p c.hdr
  agree : ∀ i < p.entries, c.ent i = diskEnt p d i

theorem Good.shaped {h : Hdr} (good : Good p h) : Shaped p h := ⟨good.entsz, good.entries, good.most, good.table⟩

theorem Shaped.perSec {h : Hdr} (shaped : Shaped p h) : h.entriesPerSec = 4 := by
  rw [Hdr.entriesPerSec, shaped.entsz]; rfl

theorem Synced.tabled {c : Copy} (synced : Synced p d c) : Tabled p d c := ⟨synced.good.shaped, synced.agree⟩

theorem readCopy_synced (valid : Valid bios p d) (dsk : Dsk) (drive : dsk.drive = p.drive) (c : Copy) :
    Synced p d (readCopy bios d dsk c p.lba) ∧ (readCopy bios d dsk c p.lba).hdr = diskHdr p d := by
  obtain ⟨done, loaded⟩ := gptreadHdr_valid valid drive c
  have good : Good p (withHdr c (diskHdr p d)).hdr := valid.good
  have table := (gptreadTable_ok_iff drive good).mpr ⟨valid.tableReadable, valid.crc⟩
  obtain ⟨same, ents⟩ := gptreadTable_loads drive good table
  rcases head : gptreadHdr bios d dsk c p.lba with ⟨rc, c'⟩
  rw [head] at done loaded
  obtain rfl : rc = 0 := done
  obtain rfl : c' = _ := loaded
  rcases tail : gptreadTable bios d dsk (withHdr c (diskHdr p d)) with ⟨rc, c'⟩
  rw [tail] at table same ents
  obtain rfl : rc = 0 := table
  have hdr : c'.hdr = diskHdr p d := same.hdr
  simp only [readCopy, head, tail]
  exact ⟨⟨by rw [hdr]; exact valid.good.self, hdr ▸ valid.good, ents⟩, hdr⟩

end

/-! Both headers have `size` bytes, and each table of at most four entries fills one sector. -/

def sampleUuid : Bytes := replicate 16 7

def sampleEnt (attr : BitVec 64) : Ent := Ent.setAttr ⟨sampleUuid ++ replicate 112 0, by simp [sampleUuid]⟩ attr

def sampleHdr (size lba alt table : Nat) (ents : List Ent) : Hdr :=
  let crc := (crc32 (ents.flatMap Ent.bytes)).toNat
  let bytes := gptHdrSig ++ toLe 4 0x00010000 ++ toLe 4 size ++ toLe 4 0 ++ toLe 4 0 ++ toLe 8 lba ++ toLe 8 alt ++
    replicate 32 0 ++ toLe 8 table ++ toLe 4 ents.length ++ toLe 4 128 ++ toLe 4 crc ++ toLe 4 0
  let hdr : Hdr := ⟨bytes, by simp [bytes, gptHdrSig]⟩
  hdr.setCrcSelf (crc32 (hdr.bytes.take size)).toNat

def sampleDisk (size : Nat) (ents : List Ent) : Nat × Nat → Sector := fun x =>
  if x = (128, 1) then Sector.ofBytes (sampleHdr size 1 9 2 ents).bytes
  else if x = (128, 2) ∨ x = (128, 8) then Sector.ofBytes (ents.flatMap Ent.bytes)
  else if x = (128, 9) then Sector.ofBytes (sampleHdr size 9 1 8 ents).bytes
  else Sector.ofBytes []

def sampleCopy : Copy := ⟨⟨replicate 96 0, by simp⟩, [], replicate maxtblents Ent.zero, [], by simp, 0⟩

def sampleState (size : Nat) (ents : List Ent) : State :=
  ⟨fun _ => sampleCopy, .primary, -1, true, sampleDisk size ents, 0, []⟩

def sampleBios : Bios := ⟨fun _ => 10, fun _ lba => lba < 10, fun _ => true⟩

def sampleDsk : Dsk := ⟨128, 0, 0, -1, 0⟩

end Pcbsd.Proofs.GptImage
