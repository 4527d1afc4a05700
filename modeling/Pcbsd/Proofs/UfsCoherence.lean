import Mathlib.Tactic.Ring
import Pcbsd.Ufsread

/-! The caches of the UFS reader against what is on the disk. The tags of the two buffers and of the
dinode stay true as long as a failed read leaves a tagged buffer alone, and then what fsread delivers
are the bytes of the file, if none of them is in a hole. -/

namespace Pcbsd.Ufsread
open Lib List Option

def bytesAt (disk : Nat → UInt8) (pos n : Nat) : Bytes := (range n).map fun i => disk (pos + i)

@[simp] theorem length_bytesAt (disk : Nat → UInt8) (pos n : Nat) : (bytesAt disk pos n).length = n := by
  rw [bytesAt, length_map, length_range]

theorem getElem?_bytesAt (disk : Nat → UInt8) (pos n i : Nat) :
    (bytesAt disk pos n)[i]? = if i < n then some (disk (pos + i)) else none := by
  rw [bytesAt, getElem?_map]
  split
  next inside => rw [getElem?_range inside, map_some]
  next _ =>
    rw [getElem?_eq_none, map_none]
    rw [length_range]
    omega

theorem slice_bytesAt (disk : Nat → UInt8) {pos n off k : Nat} (inside : off + k ≤ n) :
    slice off k (bytesAt disk pos n) = bytesAt disk (pos + off) k := by
  apply ext_getElem?
  intro i
  rw [getElem?_slice, getElem?_bytesAt, getElem?_bytesAt]
  split
  next _ => rw [if_pos (by omega), Nat.add_assoc]
  next => rfl

theorem put_zero {new bs : Bytes} (same : new.length = bs.length) : put 0 new bs = new := by
  rw [put, take_zero, nil_append, Nat.zero_add, same, drop_length, append_nil]

/-- A partition: what it contains, and how the BIOS answers a request: with success, or with an error
and something else in the buffer. -/
structure Partition (σ : Type) where
  contents : Nat → UInt8
  answer : σ → (lba nblk : Nat) → Option Bytes × σ

variable {σ : Type}

def Partition.dev (part : Partition σ) : Dev σ where
  dskread _ s lba nblk buf :=
    match part.answer s lba nblk with
    | (none, s) => (true, put 0 (bytesAt part.contents (lba * devBsize) (nblk * devBsize)) buf, s)
    | (some junk, s) => (false, put 0 (junk.take (nblk * devBsize)) buf, s)

theorem dskread_cases (part : Partition σ) (flag : Bool) (s : σ) (lba nblk : Nat) (buf : Bytes)
    (room : nblk * devBsize ≤ buf.length) :
    ∃ buf' s', buf'.length = buf.length ∧
      (part.dev.dskread flag s lba nblk buf = (false, buf', s') ∨
        part.dev.dskread flag s lba nblk buf = (true, buf', s') ∧
          slice 0 (nblk * devBsize) buf' = bytesAt part.contents (lba * devBsize) (nblk * devBsize)) := by
  simp only [Partition.dev]
  split
  next s' _ =>
    have room' : 0 + (bytesAt part.contents (lba * devBsize) (nblk * devBsize)).length ≤ buf.length := by
      rw [length_bytesAt]
      omega
    refine ⟨_, s', length_put room', Or.inr ⟨rfl, ?_⟩⟩
    have written := slice_put_self room'
    rwa [length_bytesAt] at written
  next _ s' _ =>
    refine ⟨_, s', length_put ?_, Or.inl rfl⟩
    rw [length_take]
    omega

section

variable (layout : Layout) (disk : Nat → UInt8) (fs : Fs)

def superOf : List Nat → Option Fs
  | [] => none
  | loc :: rest =>
    let fs := layout.fs (bytesAt disk (loc / devBsize * devBsize) sblocksize)
    if fs.accepted loc then some fs else superOf rest

def fileInode (x : Nat) : Dinode :=
  layout.dinode fs (bytesAt disk (fs.toDb (fs.cgimin (x / fs.ipg)) * devBsize + x % fs.ipg * fs.dinodeSize)
    fs.dinodeSize)

def blockOf (dp : Dinode) (lbn : Nat) : Nat :=
  if lbn < ndaddr then dp.db lbn
  else if dp.ib = 0 then 0
  else fs.addrAt (bytesAt disk (fs.toDb dp.ib * devBsize) fs.bsize) (lbn - ndaddr)

def fileByte (dp : Dinode) (o : Nat) : UInt8 :=
  let addr := blockOf disk fs dp (o / fs.bsize)
  if addr = 0 then 0 else disk (fs.toDb addr * devBsize + o % fs.bsize)

def fileBytes (dp : Dinode) (off n : Nat) : Bytes := (range n).map fun i => fileByte disk fs dp (off + i)

structure Geometry : Prop where
  bsize : fs.bsize = 2 ^ fs.bshift
  least : 12 ≤ fs.bshift
  most : fs.bshift ≤ 16
  qbmask : fs.qbmask = 2 ^ fs.bshift - 1
  frag : ∃ k, fs.qfmask = 2 ^ k - 1 ∧ 9 ≤ k ∧ k ≤ fs.bshift
  nindir : fs.nindir * fs.addrSize = fs.bsize
  inopb : fs.inopb * fs.dinodeSize = fs.bsize
  ipg : fs.iPerVblk ∣ fs.ipg

def sizeOf (dp : Dinode) : Nat := dp.size % 2 ^ 32

structure Piece (dp : Dinode) (v lbn k : Nat) : Prop where
  inside : lbn * fs.bsize < sizeOf dp
  part : k * vblksize < fs.sblksize (sizeOf dp) lbn
  hole : blockOf disk fs dp lbn ≠ 0
  place : v = fs.toDb (blockOf disk fs dp lbn) + k * dbpervblk

def NoOverlap (dp : Dinode) : Prop :=
  ∀ v lbn k lbn' k', Piece disk fs dp v lbn k → Piece disk fs dp v lbn' k' → lbn = lbn'

def pieceSize (dp : Dinode) (lbn k : Nat) : Nat := min (fs.sblksize (sizeOf dp) lbn - k * vblksize) vblksize

end

namespace Geometry

variable {fs : Fs}

variable (geometry : Geometry fs)

include geometry

theorem bsize_split : fs.bsize = 4096 * 2 ^ (fs.bshift - 12) := by
  rw [geometry.bsize, ← Nat.pow_add (a := 2) (m := 12)]
  congr 1
  have := geometry.least
  omega

theorem bsize_pos : 0 < fs.bsize := by
  rw [geometry.bsize]
  exact Nat.two_pow_pos _

theorem bsize_le : fs.bsize ≤ 65536 := by
  rw [geometry.bsize]
  exact Nat.pow_le_pow_right (by decide) geometry.most

theorem lblkno (o : Nat) : o >>> fs.bshift = o / fs.bsize := by
  rw [Nat.shiftRight_eq_div_pow, geometry.bsize]

theorem blkoff (o : Nat) : o &&& fs.qbmask = o % fs.bsize := by
  rw [geometry.qbmask, Nat.and_two_pow_sub_one_eq_mod, geometry.bsize]

private theorem per_piece {m z : Nat} (all : m * z = fs.bsize) (size : z = 4 ∨ z = 8 ∨ z = 128 ∨ z = 256) :
    m / (fs.bsize >>> vblkshift) * z = 4096 := by
  have split := geometry.bsize_split
  have pieces : fs.bsize >>> vblkshift = 2 ^ (fs.bshift - 12) := by
    rw [Nat.shiftRight_eq_div_pow, split, vblkshift]
    exact Nat.mul_div_cancel_left _ (by decide)
  rw [pieces]
  have pos := Nat.two_pow_pos (fs.bshift - 12)
  generalize 2 ^ (fs.bshift - 12) = q at split pos
  rcases size with rfl | rfl | rfl | rfl
  · rw [show m = 1024 * q by omega, Nat.mul_div_cancel _ pos]
  · rw [show m = 512 * q by omega, Nat.mul_div_cancel _ pos]
  · rw [show m = 32 * q by omega, Nat.mul_div_cancel _ pos]
  · rw [show m = 16 * q by omega, Nat.mul_div_cancel _ pos]

theorem indirPerVblk : fs.indirPerVblk * fs.addrSize = 4096 := by
  refine geometry.per_piece geometry.nindir ?_
  rw [Fs.addrSize]
  split <;> simp

theorem iPerVblk : fs.iPerVblk * fs.dinodeSize = 4096 := by
  refine geometry.per_piece geometry.inopb ?_
  rw [Fs.dinodeSize]
  split <;> simp

theorem indir_index (l : Nat) : l &&& (fs.indirPerVblk - 1) = l % fs.indirPerVblk := by
  have all := geometry.indirPerVblk
  rw [Fs.addrSize] at all
  split at all
  · rw [show fs.indirPerVblk = 2 ^ 10 by omega, Nat.and_two_pow_sub_one_eq_mod]
  · rw [show fs.indirPerVblk = 2 ^ 9 by omega, Nat.and_two_pow_sub_one_eq_mod]

theorem sblksize {size o : Nat} (inside : o < size) :
    o % fs.bsize < fs.sblksize size (o / fs.bsize) ∧ fs.sblksize size (o / fs.bsize) ≤ fs.bsize ∧
      512 ∣ fs.sblksize size (o / fs.bsize) := by
  obtain ⟨k, qfmask, least, most⟩ := geometry.frag
  have whole : 2 ^ k ∣ fs.bsize := by
    rw [geometry.bsize]
    exact Nat.pow_dvd_pow 2 most
  have sectors : 512 ∣ 2 ^ k := Nat.pow_dvd_pow 2 least
  have within := Nat.mod_lt o geometry.bsize_pos
  rw [Fs.sblksize]
  split
  next => exact ⟨within, Nat.le_refl _, Nat.dvd_trans sectors whole⟩
  next tail =>
    have last : size < (o / fs.bsize + 1) * fs.bsize := by
      by_contra more
      apply tail
      rw [Nat.shiftLeft_eq, ← geometry.bsize]
      exact Or.inr (by omega)
    have rest : size % fs.bsize = size - o / fs.bsize * fs.bsize := by
      have split := Nat.div_add_mod o fs.bsize
      rw [Nat.mul_comm] at split
      rw [Nat.add_mul, Nat.one_mul] at last
      calc size % fs.bsize = (size - o / fs.bsize * fs.bsize + o / fs.bsize * fs.bsize) % fs.bsize := by
              rw [Nat.sub_add_cancel (by omega)]
        _ = (size - o / fs.bsize * fs.bsize) % fs.bsize := Nat.add_mul_mod_self_right ..
        _ = size - o / fs.bsize * fs.bsize := Nat.mod_eq_of_lt (by omega)
    have split := Nat.div_add_mod o fs.bsize
    rw [Nat.mul_comm] at split
    rw [geometry.blkoff, Fs.fragroundup, qfmask, Nat.and_two_pow_sub_one_eq_mod]
    have below := Nat.mod_lt size geometry.bsize_pos
    obtain ⟨q, eq⟩ := whole
    have pos := Nat.two_pow_pos k
    generalize size % fs.bsize = x at rest below
    have round : x + (2 ^ k - 1) - (x + (2 ^ k - 1)) % 2 ^ k = 2 ^ k * ((x + (2 ^ k - 1)) / 2 ^ k) := by
      have := Nat.div_add_mod (x + (2 ^ k - 1)) (2 ^ k)
      omega
    rw [round]
    refine ⟨?_, ?_, Nat.dvd_trans sectors (Nat.dvd_mul_right ..)⟩
    · omega
    · rw [eq]
      apply Nat.mul_le_mul_left
      rw [← Nat.lt_succ_iff, Nat.div_lt_iff_lt_mul pos, Nat.succ_mul, Nat.mul_comm q]
      omega

end Geometry

structure Buffers (r : Reader) : Prop where
  blkbuf : r.blkbuf.length = vblksize
  indbuf : r.indbuf.length = vblksize
  sbbuf : r.sbbuf.length = sblocksize

structure Tags (layout : Layout) (disk : Nat → UInt8) (fs : Fs) (r : Reader) : Prop where
  inode : r.dp = fileInode layout disk fs r.inomap
  indirect : r.indmap ≠ 0 → r.indbuf = bytesAt disk (r.indmap * devBsize) vblksize
  block : r.blkmap ≠ 0 → ∃ lbn k, Piece disk fs r.dp r.blkmap lbn k ∧
    slice 0 (pieceSize fs r.dp lbn k) r.blkbuf = bytesAt disk (r.blkmap * devBsize) (pieceSize fs r.dp lbn k)

structure Coherent (layout : Layout) (disk : Nat → UInt8) (fs : Fs) (r : Reader) : Prop where
  buffers : Buffers r
  super : r.dskMeta = true → layout.fs r.sbbuf = fs
  tags : r.dskMeta = true → r.inomap ≠ 0 → Tags layout disk fs r

def startOff (r : Reader) (inode : Nat) : Nat := if r.dskMeta ∧ r.inomap = inode then r.fsOff else 0

/-- A call of fsread that asks for bytes of the file which are not in a hole. -/
structure Fair (layout : Layout) (disk : Nat → UInt8) (fs : Fs) (r : Reader) (inode nbyte : Nat) : Prop where
  within : inode ≠ 0 → startOff r inode ≤ sizeOf (fileInode layout disk fs inode)
  mapped : inode ≠ 0 → ∀ o, startOff r inode ≤ o → o < startOff r inode + nbyte →
    o < sizeOf (fileInode layout disk fs inode) → o / fs.bsize < ndaddr + fs.nindir →
    blockOf disk fs (fileInode layout disk fs inode) (o / fs.bsize) ≠ 0

section

variable {layout : Layout} {dev : Dev σ} {fs : Fs} {r r' : Reader} {s s' : σ}

variable {vbaddr size nb : Nat} {b : Bool}

theorem readIndirect_spoiled (ran : readIndirect dev vbaddr r s = (b, r', s'))
    (clean : r'.spoiled = false) : r.spoiled = false := by
  rw [readIndirect] at ran
  split at ran
  · cases ran
    exact clean
  · split at ran
    · cases ran
      exact (Bool.or_eq_false_iff.mp clean).1
    · cases ran
      exact clean

theorem readBlock_spoiled {nblk : Nat} (ran : readBlock dev vbaddr nblk r s = (b, r', s'))
    (clean : r'.spoiled = false) : r.spoiled = false := by
  rw [readBlock] at ran
  split at ran
  · cases ran
    exact clean
  · split at ran
    · cases ran
      exact (Bool.or_eq_false_iff.mp clean).1
    · cases ran
      exact clean

theorem blockAddr_spoiled {lbn : Nat} {addr : Option Nat} (ran : blockAddr dev fs lbn r s = (addr, r', s'))
    (clean : r'.spoiled = false) : r.spoiled = false := by
  rw [blockAddr] at ran
  split at ran
  · cases ran
    exact clean
  · split at ran
    · dsimp only at ran
      split at ran
      next found =>
        cases ran
        exact readIndirect_spoiled found clean
      next found =>
        cases ran
        exact readIndirect_spoiled found clean
    · cases ran
      exact clean

theorem turn_spoiled {bytes : Option Bytes} (ran : turn dev fs size nb r s = (bytes, r', s'))
    (clean : r'.spoiled = false) : r.spoiled = false := by
  rw [turn] at ran
  dsimp only at ran
  split at ran
  next found =>
    cases ran
    exact blockAddr_spoiled found clean
  next found =>
    split at ran
    next read =>
      cases ran
      exact blockAddr_spoiled found (readBlock_spoiled read clean)
    next read =>
      cases ran
      exact blockAddr_spoiled found (readBlock_spoiled read clean)

theorem copyLoop_spoiled {fuel : Nat} {out : Bytes} {result : Result}
    (ran : copyLoop dev fs size fuel nb out r s = (result, r', s')) (clean : r'.spoiled = false) :
    r.spoiled = false := by
  induction fuel generalizing nb out r s with
  | zero =>
    cases ran
    exact clean
  | succ fuel ih =>
    rw [copyLoop] at ran
    split at ran
    · cases ran
      exact clean
    · split at ran
      next turned =>
        cases ran
        exact turn_spoiled turned clean
      next turned => exact turn_spoiled turned (ih ran)

variable {part : Partition σ}

theorem slice_zero_length {bs : Bytes} {n : Nat} (length : bs.length = n) : slice 0 n bs = bs := by
  rw [slice, drop_zero, ← length, take_length]

structure Searched (layout : Layout) (disk : Nat → UInt8) (locs : List Nat) (r r' : Reader)
    (found : Option Fs) : Prop where
  same : r' = { r with sbbuf := r'.sbbuf, dskMeta := found.isSome }
  length : r'.sbbuf.length = sblocksize
  true : ∀ fs, found = some fs → layout.fs r'.sbbuf = fs ∧ superOf layout disk locs = some fs

variable {disk : Nat → UInt8} {found : Option Fs} {result : Result} {buf : Bytes} {inode : Nat} {dp : Dinode}
    {lbn o m : Nat}

theorem trySuper_spec (locs : List Nat) (room : r.sbbuf.length = sblocksize) (fresh : r.dskMeta = false)
    (ran : trySuper layout part.dev locs r s = (found, r', s')) :
    Searched layout part.contents locs r r' found := by
  induction locs generalizing r s with
  | nil =>
    cases ran
    exact ⟨by rw [isSome_none, ← fresh], room, by simp⟩
  | cons loc _ ih =>
    obtain ⟨buf, _, length, read⟩ := dskread_cases part r.dskMeta s (loc / devBsize) (sblocksize / devBsize) r.sbbuf
      (by rw [room]; decide)
    rw [room] at length
    rw [trySuper] at ran
    rcases read with failed | ⟨read, contents⟩
    · rw [failed] at ran
      cases ran
      exact ⟨by rw [isSome_none, ← fresh], length, by simp⟩
    · rw [show sblocksize / devBsize * devBsize = sblocksize from rfl, slice_zero_length length] at contents
      rw [read] at ran
      dsimp only at ran
      split at ran
      next accepted =>
        cases ran
        refine ⟨rfl, length, ?_⟩
        rintro fs ⟨⟩
        refine ⟨rfl, ?_⟩
        rw [superOf, ← contents]
        exact if_pos accepted
      next refused =>
        have searched := ih (r := { r with sbbuf := buf }) length fresh ran
        refine ⟨searched.same, searched.length, ?_⟩
        intro fs found
        refine ⟨(searched.true fs found).1, ?_⟩
        rw [superOf, ← contents, (searched.true fs found).2]
        exact if_neg refused

structure Ready (layout : Layout) (disk : Nat → UInt8) (fs : Fs) (r r' : Reader) : Prop where
  coherent : Coherent layout disk fs r'
  found : r'.dskMeta = true
  fsOff : r'.fsOff = r.fsOff
  kept : r.dskMeta = true → r' = r
  reset : r.dskMeta = false → r'.inomap = 0

theorem readSuper_spec (file_system : superOf layout part.contents sblockTry = some fs)
    (coherent : Coherent layout part.contents fs r) (ran : readSuper layout part.dev r s = (found, r', s')) :
    (found = none → Coherent layout part.contents fs r') ∧
      (∀ fs', found = some fs' → fs' = fs ∧ Ready layout part.contents fs r r') := by
  rw [readSuper] at ran
  split at ran
  next known =>
    cases ran
    refine ⟨by simp, ?_⟩
    rintro _ ⟨⟩
    rw [coherent.super known]
    exact ⟨rfl, coherent, known, rfl, fun _ => rfl, fun unknown => absurd known (by rw [unknown]; decide)⟩
  next unknown =>
    have searched := trySuper_spec (r := { r with inomap := 0 }) sblockTry coherent.buffers.sbbuf
      (eq_false_of_ne_true unknown) ran
    have same := searched.same
    have buffers : Buffers r' := by
      rw [same]
      exact ⟨coherent.buffers.blkbuf, coherent.buffers.indbuf, searched.length⟩
    constructor
    · rintro rfl
      have none : r'.dskMeta = false := by rw [same]; rfl
      exact ⟨buffers, fun known => absurd known (by rw [none]; decide),
        fun known => absurd known (by rw [none]; decide)⟩
    · rintro fs' rfl
      obtain ⟨super, first⟩ := searched.true fs' rfl
      rw [file_system] at first
      cases first
      have inomap : r'.inomap = 0 := by rw [same]
      refine ⟨rfl, ⟨buffers, fun _ => super, fun _ some => absurd inomap some⟩, by rw [same]; rfl, by rw [same], ?_, ?_⟩
      · exact fun known => absurd known unknown
      · exact fun _ => inomap

theorem Coherent.lost_block (coherent : Coherent layout disk fs r) {spoiled : Bool}
    (length : buf.length = r.blkbuf.length) (harmless : r.inomap ≠ 0 → r.blkmap ≠ 0 → buf = r.blkbuf) :
    Coherent layout disk fs { r with blkbuf := buf, spoiled } := by
  refine ⟨⟨length.trans coherent.buffers.blkbuf, coherent.buffers.indbuf, coherent.buffers.sbbuf⟩, coherent.super, ?_⟩
  intro known some
  have tags := coherent.tags known some
  refine ⟨tags.inode, tags.indirect, ?_⟩
  intro tagged
  rw [harmless some tagged]
  exact tags.block tagged

theorem Coherent.lost_indirect (coherent : Coherent layout disk fs r) {spoiled : Bool}
    (length : buf.length = r.indbuf.length) (harmless : r.indmap ≠ 0 → buf = r.indbuf) :
    Coherent layout disk fs { r with indbuf := buf, spoiled } := by
  refine ⟨⟨coherent.buffers.blkbuf, length.trans coherent.buffers.indbuf, coherent.buffers.sbbuf⟩, coherent.super, ?_⟩
  intro known some
  have tags := coherent.tags known some
  refine ⟨tags.inode, ?_, tags.block⟩
  intro tagged
  rw [harmless tagged]
  exact tags.indirect tagged

theorem inode_place (geometry : Geometry fs) (disk : Nat → UInt8) (x : Nat) :
    slice (Fs.inoToVbo fs.iPerVblk x * fs.dinodeSize) fs.dinodeSize
        (bytesAt disk (fs.inoToVba fs.iPerVblk x * devBsize) vblksize) =
      bytesAt disk (fs.toDb (fs.cgimin (x / fs.ipg)) * devBsize + x % fs.ipg * fs.dinodeSize) fs.dinodeSize := by
  have all := geometry.iPerVblk
  have per : 0 < fs.iPerVblk := Nat.pos_of_ne_zero fun none => by rw [none] at all; omega
  have slot := Nat.mod_lt x per
  have split := Nat.div_add_mod (x % fs.ipg) fs.iPerVblk
  rw [Nat.mod_mod_of_dvd _ geometry.ipg] at split
  have place : fs.inoToVba fs.iPerVblk x * devBsize + Fs.inoToVbo fs.iPerVblk x * fs.dinodeSize =
      fs.toDb (fs.cgimin (x / fs.ipg)) * devBsize + x % fs.ipg * fs.dinodeSize := by
    rw [Fs.inoToVba, Fs.inoToVbo, Nat.add_mul, Nat.add_assoc]
    apply congrArg (fs.toDb (fs.cgimin (x / fs.ipg)) * devBsize + ·)
    calc x % fs.ipg / fs.iPerVblk * dbpervblk * devBsize + x % fs.iPerVblk * fs.dinodeSize
        = x % fs.ipg / fs.iPerVblk * (fs.iPerVblk * fs.dinodeSize) + x % fs.iPerVblk * fs.dinodeSize := by
          rw [all, Nat.mul_assoc, show dbpervblk * devBsize = 4096 from rfl]
      _ = (fs.iPerVblk * (x % fs.ipg / fs.iPerVblk) + x % fs.iPerVblk) * fs.dinodeSize := by ring
      _ = x % fs.ipg * fs.dinodeSize := by rw [split]
  have inside : Fs.inoToVbo fs.iPerVblk x * fs.dinodeSize + fs.dinodeSize ≤ vblksize := by
    calc Fs.inoToVbo fs.iPerVblk x * fs.dinodeSize + fs.dinodeSize = (x % fs.iPerVblk + 1) * fs.dinodeSize := by
          rw [Fs.inoToVbo]
          ring
      _ ≤ fs.iPerVblk * fs.dinodeSize := Nat.mul_le_mul_right _ slot
      _ = vblksize := all
  rw [slice_bytesAt _ inside, place]

theorem readInode_spec (geometry : Geometry fs) (coherent : Coherent layout part.contents fs r)
    (known : r.dskMeta = true) (ran : readInode layout part.dev fs inode r s = (b, r', s'))
    (clean : r'.spoiled = false) :
    Coherent layout part.contents fs r' ∧ r'.dskMeta = true ∧
      (b = true → r'.inomap = inode ∧ r'.fsOff = if r.inomap = inode then r.fsOff else 0) := by
  rw [readInode] at ran
  split at ran
  next same =>
    cases ran
    exact ⟨coherent, known, fun _ => ⟨same, by rw [if_pos same]⟩⟩
  next other =>
    dsimp only at ran
    obtain ⟨buf, _, length, read⟩ := dskread_cases part r.dskMeta s (fs.inoToVba fs.iPerVblk inode) dbpervblk r.blkbuf
      (by rw [coherent.buffers.blkbuf]; decide)
    rcases read with failed | ⟨read, contents⟩
    · rw [failed] at ran
      cases ran
      refine ⟨coherent.lost_block length ?_, known, by simp⟩
      intro loaded tagged
      simpa [loaded, tagged] using (Bool.or_eq_false_iff.mp clean).2
    · rw [read] at ran
      cases ran
      have whole : buf = bytesAt part.contents (fs.inoToVba fs.iPerVblk inode * devBsize) vblksize := by
        rw [← slice_zero_length (length.trans coherent.buffers.blkbuf)]
        exact contents
      refine ⟨⟨⟨length.trans coherent.buffers.blkbuf, coherent.buffers.indbuf, coherent.buffers.sbbuf⟩,
        coherent.super, fun _ _ => ⟨?_, fun tagged => absurd rfl tagged, fun tagged => absurd rfl tagged⟩⟩, known,
        fun _ => ⟨rfl, by rw [if_neg other]⟩⟩
      rw [whole, inode_place geometry, fileInode]

structure Kept (layout : Layout) (disk : Nat → UInt8) (fs : Fs) (r r' : Reader) : Prop where
  coherent : Coherent layout disk fs r'
  dskMeta : r'.dskMeta = r.dskMeta
  inomap : r'.inomap = r.inomap
  dp : r'.dp = r.dp
  fsOff : r'.fsOff = r.fsOff

theorem indirect_place (geometry : Geometry fs) (disk : Nat → UInt8) (ib : Nat) {l : Nat} (inside : l < fs.nindir) :
    fs.addrAt (bytesAt disk ((fs.toDb ib + l / fs.indirPerVblk * dbpervblk) * devBsize) vblksize)
      (l &&& (fs.indirPerVblk - 1)) = fs.addrAt (bytesAt disk (fs.toDb ib * devBsize) fs.bsize) l := by
  have all := geometry.indirPerVblk
  have per : 0 < fs.indirPerVblk := Nat.pos_of_ne_zero fun none => by rw [none] at all; omega
  have split := Nat.div_add_mod l fs.indirPerVblk
  have slot := Nat.mod_lt l per
  have piece : l % fs.indirPerVblk * fs.addrSize + fs.addrSize ≤ vblksize := by
    calc l % fs.indirPerVblk * fs.addrSize + fs.addrSize = (l % fs.indirPerVblk + 1) * fs.addrSize := by ring
      _ ≤ fs.indirPerVblk * fs.addrSize := Nat.mul_le_mul_right _ slot
      _ = vblksize := all
  have block : l * fs.addrSize + fs.addrSize ≤ fs.bsize := by
    calc l * fs.addrSize + fs.addrSize = (l + 1) * fs.addrSize := by ring
      _ ≤ fs.nindir * fs.addrSize := Nat.mul_le_mul_right _ inside
      _ = fs.bsize := geometry.nindir
  have place : (fs.toDb ib + l / fs.indirPerVblk * dbpervblk) * devBsize + l % fs.indirPerVblk * fs.addrSize =
      fs.toDb ib * devBsize + l * fs.addrSize := by
    rw [Nat.add_mul, Nat.add_assoc]
    apply congrArg (fs.toDb ib * devBsize + ·)
    calc l / fs.indirPerVblk * dbpervblk * devBsize + l % fs.indirPerVblk * fs.addrSize
        = l / fs.indirPerVblk * (fs.indirPerVblk * fs.addrSize) + l % fs.indirPerVblk * fs.addrSize := by
          rw [all, Nat.mul_assoc, show dbpervblk * devBsize = 4096 from rfl]
      _ = (fs.indirPerVblk * (l / fs.indirPerVblk) + l % fs.indirPerVblk) * fs.addrSize := by ring
      _ = l * fs.addrSize := by rw [split]
  rw [geometry.indir_index, Fs.addrAt, Fs.addrAt, le, le, slice_bytesAt _ piece, slice_bytesAt _ block, place]

theorem toDb_ne_zero (fs : Fs) {b : Nat} (some : b ≠ 0) : fs.toDb b ≠ 0 := by
  rw [Fs.toDb, Nat.shiftLeft_eq]
  exact Nat.mul_ne_zero some (Nat.two_pow_pos _).ne'

theorem readIndirect_spec (coherent : Coherent layout part.contents fs r) (known : r.dskMeta = true)
    (loaded : r.inomap ≠ 0) (place : vbaddr ≠ 0) (ran : readIndirect part.dev vbaddr r s = (b, r', s'))
    (clean : r'.spoiled = false) :
    Kept layout part.contents fs r r' ∧ (b = true → r'.indbuf = bytesAt part.contents (vbaddr * devBsize) vblksize) := by
  rw [readIndirect] at ran
  split at ran
  next same =>
    cases ran
    subst same
    exact ⟨⟨coherent, rfl, rfl, rfl, rfl⟩, fun _ => (coherent.tags known loaded).indirect place⟩
  next _ =>
    obtain ⟨buf, _, length, read⟩ := dskread_cases part r.dskMeta s vbaddr dbpervblk r.indbuf
      (by rw [coherent.buffers.indbuf]; decide)
    rcases read with failed | ⟨read, contents⟩
    · rw [failed] at ran
      cases ran
      refine ⟨⟨coherent.lost_indirect length ?_, rfl, rfl, rfl, rfl⟩, by simp⟩
      intro tagged
      simpa [tagged] using (Bool.or_eq_false_iff.mp clean).2
    · rw [read] at ran
      cases ran
      have whole : buf = bytesAt part.contents (vbaddr * devBsize) vblksize := by
        rw [← slice_zero_length (length.trans coherent.buffers.indbuf)]
        exact contents
      have tags := coherent.tags known loaded
      exact ⟨⟨⟨⟨coherent.buffers.blkbuf, length.trans coherent.buffers.indbuf, coherent.buffers.sbbuf⟩, coherent.super,
        fun _ _ => ⟨tags.inode, fun _ => whole, tags.block⟩⟩, rfl, rfl, rfl, rfl⟩, fun _ => whole⟩

theorem blockAddr_spec (geometry : Geometry fs) (coherent : Coherent layout part.contents fs r)
    (known : r.dskMeta = true) (loaded : r.inomap ≠ 0)
    (mapped : lbn < ndaddr + fs.nindir → blockOf part.contents fs r.dp lbn ≠ 0) {addr : Option Nat}
    (ran : blockAddr part.dev fs lbn r s = (addr, r', s')) (clean : r'.spoiled = false) :
    Kept layout part.contents fs r r' ∧
      (∀ a, addr = some a → lbn < ndaddr + fs.nindir ∧ a = blockOf part.contents fs r.dp lbn) := by
  rw [blockAddr] at ran
  split at ran
  next direct =>
    cases ran
    refine ⟨⟨coherent, rfl, rfl, rfl, rfl⟩, ?_⟩
    rintro a ⟨⟩
    exact ⟨by omega, by rw [blockOf, if_pos direct]⟩
  next indirect =>
    split at ran
    next inside =>
      have found := mapped inside
      rw [blockOf, if_neg indirect] at found
      have ib : r.dp.ib ≠ 0 := by
        intro hole
        rw [if_pos hole] at found
        exact found rfl
      have place : fs.toDb r.dp.ib + (lbn - ndaddr) / fs.indirPerVblk * dbpervblk ≠ 0 := by
        have := toDb_ne_zero fs ib
        omega
      dsimp only at ran
      split at ran
      next read =>
        cases ran
        exact ⟨(readIndirect_spec coherent known loaded place read clean).1, by simp⟩
      next _ read =>
        cases ran
        obtain ⟨kept, contents⟩ := readIndirect_spec coherent known loaded place read clean
        refine ⟨kept, ?_⟩
        rintro a ⟨⟩
        refine ⟨inside, ?_⟩
        rw [contents rfl, indirect_place geometry _ _ (by omega), blockOf, if_neg indirect, if_neg ib]
    next =>
      cases ran
      exact ⟨⟨coherent, rfl, rfl, rfl, rfl⟩, by simp⟩

theorem readBlock_spec (coherent : Coherent layout part.contents fs r) (known : r.dskMeta = true)
    (loaded : r.inomap ≠ 0) (apart : NoOverlap part.contents fs r.dp) {k nblk : Nat}
    (piece : Piece part.contents fs r.dp vbaddr lbn k) (size : nblk * devBsize = pieceSize fs r.dp lbn k)
    (ran : readBlock part.dev vbaddr nblk r s = (b, r', s')) (clean : r'.spoiled = false) :
    Kept layout part.contents fs r r' ∧
      (b = true → slice 0 (pieceSize fs r.dp lbn k) r'.blkbuf =
        bytesAt part.contents (vbaddr * devBsize) (pieceSize fs r.dp lbn k)) := by
  have place : vbaddr ≠ 0 := by
    rw [piece.place]
    have := toDb_ne_zero fs piece.hole
    omega
  rw [readBlock] at ran
  split at ran
  next same =>
    cases ran
    subst same
    refine ⟨⟨coherent, rfl, rfl, rfl, rfl⟩, fun _ => ?_⟩
    obtain ⟨_, k', piece', contents⟩ := (coherent.tags known loaded).block place
    obtain rfl := apart _ _ _ _ _ piece piece'
    have index : k' = k := by
      have here := piece.place
      have there := piece'.place
      rw [dbpervblk] at here there
      omega
    rwa [index] at contents
  next _ =>
    obtain ⟨_, _, length, read⟩ := dskread_cases part r.dskMeta s vbaddr nblk r.blkbuf
      (by rw [coherent.buffers.blkbuf, size]; exact Nat.min_le_right ..)
    rw [size] at read
    rcases read with failed | ⟨read, contents⟩
    · rw [failed] at ran
      cases ran
      refine ⟨⟨coherent.lost_block length ?_, rfl, rfl, rfl, rfl⟩, by simp⟩
      intro _ tagged
      simpa [tagged] using (Bool.or_eq_false_iff.mp clean).2
    · rw [read] at ran
      cases ran
      have tags := coherent.tags known loaded
      exact ⟨⟨⟨⟨length.trans coherent.buffers.blkbuf, coherent.buffers.indbuf, coherent.buffers.sbbuf⟩, coherent.super,
        fun _ _ => ⟨tags.inode, tags.indirect, fun _ => ⟨lbn, k, piece, contents⟩⟩⟩, rfl, rfl, rfl, rfl⟩, fun _ => contents⟩

@[simp] theorem length_fileBytes (disk : Nat → UInt8) (fs : Fs) (dp : Dinode) (off n : Nat) :
    (fileBytes disk fs dp off n).length = n := by
  rw [fileBytes, length_map, length_range]

theorem fileBytes_add (disk : Nat → UInt8) (fs : Fs) (dp : Dinode) (off m n : Nat) :
    fileBytes disk fs dp off (m + n) = fileBytes disk fs dp off m ++ fileBytes disk fs dp (off + m) n := by
  simp only [fileBytes, range_add, map_append, List.map_map]
  congr 1
  apply map_congr_left
  intro i _
  rw [Function.comp_apply, Nat.add_assoc]

theorem fileBytes_block (disk : Nat → UInt8) (within : o % fs.bsize + m ≤ fs.bsize)
    (some : blockOf disk fs dp (o / fs.bsize) ≠ 0) :
    fileBytes disk fs dp o m = bytesAt disk (fs.toDb (blockOf disk fs dp (o / fs.bsize)) * devBsize + o % fs.bsize) m := by
  rw [fileBytes, bytesAt]
  apply map_congr_left
  intro i less
  rw [mem_range] at less
  have pos : 0 < fs.bsize := by omega
  have split := Nat.div_add_mod o fs.bsize
  have here : o + i = fs.bsize * (o / fs.bsize) + (o % fs.bsize + i) := by omega
  have inside : o % fs.bsize + i < fs.bsize := by omega
  have block : (o + i) / fs.bsize = o / fs.bsize := by
    rw [here, Nat.mul_add_div pos, Nat.div_eq_of_lt inside, Nat.add_zero]
  have offset : (o + i) % fs.bsize = o % fs.bsize + i := by
    rw [here, Nat.mul_add_mod, Nat.mod_eq_of_lt inside]
  rw [fileByte, block, if_neg some, offset, Nat.add_assoc]

theorem piece_numbers (geometry : Geometry fs) (dp : Dinode) (o : Nat) (inside : o < sizeOf dp) :
    o % fs.bsize / vblksize * vblksize < fs.sblksize (sizeOf dp) (o / fs.bsize) ∧
      min ((fs.sblksize (sizeOf dp) (o / fs.bsize) + 2 ^ 32 - o % fs.bsize / vblksize * vblksize) % 2 ^ 32) vblksize =
        pieceSize fs dp (o / fs.bsize) (o % fs.bsize / vblksize) ∧
      o % fs.bsize % vblksize < pieceSize fs dp (o / fs.bsize) (o % fs.bsize / vblksize) ∧
      o % fs.bsize / vblksize * vblksize + pieceSize fs dp (o / fs.bsize) (o % fs.bsize / vblksize) ≤ fs.bsize ∧
      pieceSize fs dp (o / fs.bsize) (o % fs.bsize / vblksize) >>> devBshift * devBsize =
        pieceSize fs dp (o / fs.bsize) (o % fs.bsize / vblksize) := by
  obtain ⟨_, _, sectors⟩ := geometry.sblksize inside
  have bound := geometry.bsize_le
  have parts := Nat.div_add_mod (o % fs.bsize) vblksize
  have slot := Nat.mod_lt (o % fs.bsize) (show 0 < vblksize by decide)
  rw [Nat.mul_comm] at parts
  have part : o % fs.bsize / vblksize * vblksize < fs.sblksize (sizeOf dp) (o / fs.bsize) := by omega
  rw [pieceSize]
  refine ⟨part, ?_, by omega, by omega, ?_⟩
  · congr 1
    omega
  · rw [Nat.shiftRight_eq_div_pow]
    apply Nat.div_mul_cancel
    have pieces : 512 ∣ fs.sblksize (sizeOf dp) (o / fs.bsize) - o % fs.bsize / vblksize * vblksize :=
      Nat.dvd_sub sectors (Nat.dvd_mul_left_of_dvd (by decide) _)
    rcases Nat.le_total (fs.sblksize (sizeOf dp) (o / fs.bsize) - o % fs.bsize / vblksize * vblksize) vblksize with less | more
    · rwa [Nat.min_eq_left less]
    · rw [Nat.min_eq_right more]
      decide

theorem Coherent.seek (coherent : Coherent layout disk fs r) (off : Nat) :
    Coherent layout disk fs { r with fsOff := off } := by
  refine ⟨⟨coherent.buffers.blkbuf, coherent.buffers.indbuf, coherent.buffers.sbbuf⟩, coherent.super, ?_⟩
  intro known some
  have tags := coherent.tags known some
  exact ⟨tags.inode, tags.indirect, tags.block⟩

theorem slice_piece (disk : Nat → UInt8) {z : Nat}
    (contents : slice 0 z buf =
      bytesAt disk ((fs.toDb (blockOf disk fs dp (o / fs.bsize)) + o % fs.bsize / vblksize * dbpervblk) * devBsize) z)
    (some : blockOf disk fs dp (o / fs.bsize) ≠ 0) (most : o % fs.bsize / vblksize * vblksize + z ≤ fs.bsize)
    (within : o % fs.bsize % vblksize + m ≤ z) : slice (o % fs.bsize % vblksize) m buf = fileBytes disk fs dp o m := by
  have parts := Nat.div_add_mod (o % fs.bsize) vblksize
  rw [Nat.mul_comm] at parts
  have place : (fs.toDb (blockOf disk fs dp (o / fs.bsize)) + o % fs.bsize / vblksize * dbpervblk) * devBsize +
      o % fs.bsize % vblksize = fs.toDb (blockOf disk fs dp (o / fs.bsize)) * devBsize + o % fs.bsize := by
    rw [Nat.add_mul, Nat.mul_assoc, show dbpervblk * devBsize = vblksize from rfl, Nat.add_assoc, parts]
  rw [← slice_slice buf within, contents, slice_bytesAt _ within, fileBytes_block disk (by omega) some, place]

structure Turned (layout : Layout) (disk : Nat → UInt8) (fs : Fs) (nb : Nat) (r r' : Reader) (bytes : Option Bytes) : Prop where
  coherent : Coherent layout disk fs r'
  dskMeta : r'.dskMeta = r.dskMeta
  inomap : r'.inomap = r.inomap
  dp : r'.dp = r.dp
  copied : ∀ bs, bytes = some bs → bs.length ≤ nb ∧ bs = fileBytes disk fs r.dp r.fsOff bs.length ∧
    r'.fsOff = r.fsOff + bs.length

theorem turn_spec (geometry : Geometry fs) (coherent : Coherent layout part.contents fs r) (known : r.dskMeta = true)
    (loaded : r.inomap ≠ 0) (apart : NoOverlap part.contents fs r.dp) (asked : 0 < nb)
    (inside : r.fsOff + nb ≤ sizeOf r.dp)
    (mapped : r.fsOff / fs.bsize < ndaddr + fs.nindir → blockOf part.contents fs r.dp (r.fsOff / fs.bsize) ≠ 0)
    {bytes : Option Bytes} (ran : turn part.dev fs (sizeOf r.dp) nb r s = (bytes, r', s'))
    (clean : r'.spoiled = false) :
    Turned layout part.contents fs nb r r' bytes := by
  rw [turn] at ran
  dsimp only at ran
  rw [geometry.lblkno, geometry.blkoff] at ran
  split at ran
  next found =>
    cases ran
    have kept := (blockAddr_spec geometry coherent known loaded mapped found clean).1
    exact ⟨kept.coherent, kept.dskMeta, kept.inomap, kept.dp, by simp⟩
  next addr q t found =>
    generalize readEq : readBlock part.dev _ _ q t = read at ran
    obtain ⟨b, u, _⟩ := read
    have calm : u.spoiled = false := by
      cases b
      · cases ran
        exact clean
      · cases ran
        exact clean
    obtain ⟨kept, block⟩ := blockAddr_spec geometry coherent known loaded mapped found (readBlock_spoiled readEq calm)
    obtain ⟨low, rfl⟩ := block addr rfl
    obtain ⟨less, size, enough, most, sectors⟩ := piece_numbers geometry r.dp r.fsOff (by omega)
    have piece : Piece part.contents fs q.dp (fs.toDb (blockOf part.contents fs r.dp (r.fsOff / fs.bsize)) +
        r.fsOff % fs.bsize / vblksize * dbpervblk) (r.fsOff / fs.bsize) (r.fsOff % fs.bsize / vblksize) := by
      rw [kept.dp]
      have start := Nat.div_mul_le_self r.fsOff fs.bsize
      exact ⟨by omega, less, mapped low, rfl⟩
    rw [size] at readEq ran
    rw [← kept.dp] at sectors
    obtain ⟨kept', contents⟩ := readBlock_spec kept.coherent (kept.dskMeta.trans known) (by rwa [kept.inomap])
      (by rwa [kept.dp]) piece sectors (by rwa [kept.dp]) calm
    cases b
    · cases ran
      exact ⟨kept'.coherent, kept'.dskMeta.trans kept.dskMeta, kept'.inomap.trans kept.inomap, kept'.dp.trans kept.dp, by simp⟩
    · cases ran
      refine ⟨kept'.coherent.seek _, kept'.dskMeta.trans kept.dskMeta, kept'.inomap.trans kept.inomap, kept'.dp.trans kept.dp, ?_⟩
      rintro _ ⟨⟩
      have placed := contents rfl
      rw [kept.dp] at placed
      rw [kept'.fsOff, kept.fsOff]
      have bound := geometry.bsize_le
      have fits : sizeOf r.dp < 2 ^ 32 := Nat.mod_lt _ (by decide)
      generalize pieceSize fs r.dp (r.fsOff / fs.bsize) (r.fsOff % fs.bsize / vblksize) = z at placed enough most ⊢
      have size : (z + 2 ^ 32 - r.fsOff % fs.bsize % vblksize) % 2 ^ 32 = z - r.fsOff % fs.bsize % vblksize := by omega
      rw [size, slice_piece part.contents placed (mapped low) most (by omega), length_fileBytes]
      refine ⟨Nat.min_le_right .., rfl, ?_⟩
      rw [Nat.mod_eq_of_lt (by omega)]

theorem copyLoop_spec (geometry : Geometry fs) (fuel : Nat) {out : Bytes}
    (coherent : Coherent layout part.contents fs r) (known : r.dskMeta = true) (loaded : r.inomap ≠ 0)
    (apart : NoOverlap part.contents fs r.dp) (inside : r.fsOff + nb ≤ sizeOf r.dp)
    (mapped : ∀ o, r.fsOff ≤ o → o < r.fsOff + nb → o / fs.bsize < ndaddr + fs.nindir →
      blockOf part.contents fs r.dp (o / fs.bsize) ≠ 0)
    (ran : copyLoop part.dev fs (sizeOf r.dp) fuel nb out r s = (result, r', s')) (clean : r'.spoiled = false) :
    Coherent layout part.contents fs r' ∧
      (∀ n bytes, result = .count n bytes → n = bytes.length ∧
        bytes = out ++ fileBytes part.contents fs r.dp r.fsOff nb) := by
  induction fuel generalizing nb out r s with
  | zero =>
    cases ran
    refine ⟨coherent, ?_⟩
    intro n bytes counted
    split at counted
    next none =>
      cases counted
      refine ⟨rfl, ?_⟩
      rw [none, fileBytes, range_zero, map_nil, append_nil]
    next => cases counted
  | succ fuel ih =>
    rw [copyLoop] at ran
    split at ran
    next none =>
      cases ran
      refine ⟨coherent, ?_⟩
      rintro n bytes ⟨⟩
      refine ⟨rfl, ?_⟩
      rw [none, fileBytes, range_zero, map_nil, append_nil]
    next _ =>
      split at ran
      next turned =>
        cases ran
        have step := turn_spec geometry coherent known loaded apart (by omega) inside
          (mapped _ (by omega) (by omega)) turned clean
        exact ⟨step.coherent, by simp⟩
      next bs _ _ turned =>
        have step := turn_spec geometry coherent known loaded apart (by omega) inside
          (mapped _ (by omega) (by omega)) turned (copyLoop_spoiled ran clean)
        obtain ⟨most, copied, fsOff⟩ := step.copied bs rfl
        rw [← step.dp] at ran apart inside mapped
        obtain ⟨after, delivered⟩ := ih step.coherent (step.dskMeta.trans known) (by rwa [step.inomap]) apart
          (by omega) (fun o from_here to_there => mapped o (by omega) (by omega)) ran
        refine ⟨after, ?_⟩
        intro n bytes counted
        obtain ⟨rfl, rfl⟩ := delivered n bytes counted
        refine ⟨rfl, ?_⟩
        rw [step.dp, fsOff, append_assoc]
        congr 1
        nth_rewrite 1 [copied]
        rw [← fileBytes_add, Nat.add_sub_cancel' most]

theorem fsread_spec (file_system : superOf layout part.contents sblockTry = some fs) (geometry : Geometry fs)
    (coherent : Coherent layout part.contents fs r) {nbyte : Nat}
    (apart : NoOverlap part.contents fs (fileInode layout part.contents fs inode))
    (fair : Fair layout part.contents fs r inode nbyte)
    (ran : fsread layout part.dev inode nbyte r s = (result, r', s')) (clean : r'.spoiled = false) :
    Coherent layout part.contents fs r' ∧
      (∀ n bytes, result = .count n bytes → n = bytes.length ∧
        bytes = fileBytes part.contents fs (fileInode layout part.contents fs inode) (startOff r inode) n) := by
  rw [fsread] at ran
  split at ran
  next searched =>
    cases ran
    exact ⟨(readSuper_spec file_system coherent searched).1 rfl, by simp⟩
  next fs' q _ searched =>
    obtain ⟨rfl, ready⟩ := (readSuper_spec file_system coherent searched).2 fs' rfl
    split at ran
    next _ =>
      cases ran
      refine ⟨ready.coherent, ?_⟩
      rintro n bytes ⟨⟩
      exact ⟨rfl, rfl⟩
    next some =>
      have start : (if q.inomap = inode then q.fsOff else 0) = startOff r inode := by
        rw [startOff, ready.fsOff]
        cases known : r.dskMeta
        · rw [ready.reset known, if_neg (Ne.symm some), if_neg (by simp)]
        · simp [ready.kept known]
      split at ran
      next read =>
        cases ran
        exact ⟨(readInode_spec geometry ready.coherent ready.found read clean).1, by simp⟩
      next p _ read =>
        dsimp only at ran
        obtain ⟨coherent', found, loaded⟩ := readInode_spec geometry ready.coherent ready.found read (copyLoop_spoiled ran clean)
        obtain ⟨inomap, fsOff⟩ := loaded rfl
        rw [start] at fsOff
        have dp := (coherent'.tags found (by rwa [inomap])).inode
        rw [inomap] at dp
        have within := fair.within some
        have fits : sizeOf p.dp < 2 ^ 32 := Nat.mod_lt _ (by decide)
        rw [← dp] at within
        have size : (p.dp.size % 2 ^ 32 + 2 ^ 32 - p.fsOff) % 2 ^ 32 = sizeOf p.dp - startOff r inode := by
          change (sizeOf p.dp + 2 ^ 32 - _) % 2 ^ 32 = _
          omega
        rw [size] at ran
        have mapped : ∀ o, p.fsOff ≤ o → o < p.fsOff + min nbyte (sizeOf p.dp - startOff r inode) →
            o / fs'.bsize < ndaddr + fs'.nindir → blockOf part.contents fs' p.dp (o / fs'.bsize) ≠ 0 := by
          intro o from_here to_there low
          rw [dp] at within to_there ⊢
          exact fair.mapped some o (by omega) (by omega) (by omega) low
        obtain ⟨after, delivered⟩ := copyLoop_spec geometry _ coherent' found (by rwa [inomap]) (by rwa [dp])
          (by omega) mapped ran clean
        refine ⟨after, ?_⟩
        intro n bytes counted
        obtain ⟨rfl, rfl⟩ := delivered n bytes counted
        refine ⟨rfl, ?_⟩
        rw [nil_append, length_fileBytes, fsOff, dp]

end

theorem Coherent.start {layout : Layout} {disk : Nat → UInt8} {fs : Fs} {r : Reader} (buffers : Buffers r)
    (fresh : r.dskMeta = false) : Coherent layout disk fs r :=
  ⟨buffers, fun known => absurd known (by rw [fresh]; decide), fun known => absurd known (by rw [fresh]; decide)⟩

theorem run_single (layout : Layout) (dev : Dev σ) (inode nbyte : Nat) (r : Reader) (s : σ) :
    run layout dev (.fsread inode nbyte fun _ => .done) r s =
      [⟨r, inode, nbyte, (fsread layout dev inode nbyte r s).1, (fsread layout dev inode nbyte r s).2.1⟩] := rfl

/-- Every call of a run delivers the bytes of its file, as long as none asks for a hole or from beyond the
end, and no failed read leaves something else in a buffer with a tag. -/
theorem run_delivers_file {layout : Layout} (part : Partition σ) {fs : Fs}
    (file_system : superOf layout part.contents sblockTry = some fs) (geometry : Geometry fs) (client : Client)
    (r : Reader) (s : σ) (buffers : Buffers r) (fresh : r.dskMeta = false)
    (apart : ∀ call ∈ run layout part.dev client r s,
      NoOverlap part.contents fs (fileInode layout part.contents fs call.inode))
    (fair : ∀ call ∈ run layout part.dev client r s, Fair layout part.contents fs call.before call.inode call.nbyte ∧
      call.after.spoiled = false) :
    ∀ call ∈ run layout part.dev client r s,
      Coherent layout part.contents fs call.before ∧ Coherent layout part.contents fs call.after ∧
        ∀ n bytes, call.result = .count n bytes → n = bytes.length ∧
          bytes = fileBytes part.contents fs (fileInode layout part.contents fs call.inode)
            (startOff call.before call.inode) n := by
  have coherent : Coherent layout part.contents fs r := Coherent.start buffers fresh
  clear buffers fresh
  induction client generalizing r s with
  | done =>
    intro call made
    cases made
  | seek _ next ih =>
    exact ih _ s apart fair (coherent.seek _)
  | fsread inode nbyte next ih =>
    rw [run] at apart fair ⊢
    generalize ran : Pcbsd.Ufsread.fsread layout part.dev inode nbyte r s = res at apart fair ⊢
    obtain ⟨result, after, t⟩ := res
    rw [forall_mem_cons] at apart fair
    obtain ⟨coherent', delivered⟩ := fsread_spec file_system geometry coherent apart.1 fair.1.1 ran fair.1.2
    rw [forall_mem_cons]
    exact ⟨⟨coherent, coherent', delivered⟩, ih result after t apart.2 fair.2 coherent'⟩

def calm (disk : Nat → UInt8) : Partition Unit where
  contents := disk
  answer _ _ _ := (none, ())

/-- Bytes 65536 on are a superblock, inode 16 is an empty block of two bytes and inode 17 has five bytes. -/
def holeyBytes : List (Nat × UInt8) :=
  [(65536 + 16, 160), (65536 + 49, 0x10), (65536 + 80, 12), (65536 + 117, 2), (65536 + 120, 16), (65536 + 184, 32),
    (65536 + 189, 2), (65536 + 1002, 1), (65536 + 1336, 0xff), (65536 + 1337, 0x0f), (65536 + 1344, 0xff), (65536 + 1345, 1),
    (65536 + 1372, 0x19), (65536 + 1373, 0x01), (65536 + 1374, 0x54), (65536 + 1375, 0x19),
    (77824, 0x68), (77825, 0x65), (77826, 0x6c), (77827, 0x6c), (77828, 0x6f),
    (86016, 0xa4), (86017, 0x81), (86032, 2), (86272, 0xa4), (86273, 0x81), (86288, 5), (86384, 152)]

def holeyDisk (pos : Nat) : UInt8 := (holeyBytes.lookup pos).getD 0

def holeyFs : Fs where
  magic := fsUfs2Magic
  sblockloc := 65536
  bsize := 4096
  bshift := 12
  qbmask := 4095
  qfmask := 511
  fsbtodb := 0
  fpg := 512
  ipg := 32
  iblkno := 160
  inopb := 16
  nindir := 512
  oldCgoffset := 0
  oldCgmask := 0

theorem le_bytesAt (disk : Nat → UInt8) {pos n off k : Nat} (inside : off + k ≤ n) :
    le k off (bytesAt disk pos n) = leNat (bytesAt disk (pos + off) k) := by
  rw [le, slice_bytesAt disk inside]

theorem holeyFs_super : onDisk.fs (bytesAt holeyDisk 65536 sblocksize) = holeyFs := by
  simp (disch := decide) only [onDisk, sblocksize, le_bytesAt]
  decide

theorem holeyFs_found : superOf onDisk holeyDisk sblockTry = some holeyFs := by
  rw [sblockTry, superOf, show 65536 / devBsize * devBsize = 65536 from rfl, holeyFs_super]
  rfl

theorem holeyFs_geometry : Geometry holeyFs :=
  ⟨rfl, by decide, by decide, rfl, ⟨9, rfl, by decide, by decide⟩, rfl, rfl, by decide⟩

def unread : Reader where
  dskMeta := false
  fsOff := 0
  blkbuf := replicate vblksize 0
  indbuf := replicate vblksize 0
  sbbuf := replicate sblocksize 0
  inomap := 0
  blkmap := 0
  indmap := 0
  dp := ⟨0, fun _ => 0, 0⟩
  spoiled := false

theorem unread_buffers : Buffers unread := ⟨length_replicate, length_replicate, length_replicate⟩

theorem holeyFs_dinode (disk : Nat → UInt8) (x lbn : Nat) (less : lbn < ndaddr) :
    (fileInode onDisk disk holeyFs x).size = leNat (bytesAt disk
      (holeyFs.toDb (holeyFs.cgimin (x / holeyFs.ipg)) * devBsize + x % holeyFs.ipg * holeyFs.dinodeSize + 16) 8) ∧
    (fileInode onDisk disk holeyFs x).db lbn = leNat (bytesAt disk
      (holeyFs.toDb (holeyFs.cgimin (x / holeyFs.ipg)) * devBsize + x % holeyFs.ipg * holeyFs.dinodeSize +
        (112 + 8 * lbn)) 8) := by
  rw [ndaddr] at less
  have size : holeyFs.dinodeSize = 256 := rfl
  rw [fileInode, onDisk]
  simp only [if_neg (show ¬ holeyFs.magic = fsUfs1Magic by decide)]
  rw [le_bytesAt disk (by rw [size]; decide), le_bytesAt disk (by rw [size]; omega)]
  exact ⟨rfl, rfl⟩

theorem holey_size : sizeOf (fileInode onDisk holeyDisk holeyFs 16) = 2 ∧ sizeOf (fileInode onDisk holeyDisk holeyFs 17) = 5 := by
  rw [sizeOf, sizeOf, (holeyFs_dinode holeyDisk 16 0 (by decide)).1, (holeyFs_dinode holeyDisk 17 0 (by decide)).1]
  decide

theorem holey_blocks : blockOf holeyDisk holeyFs (fileInode onDisk holeyDisk holeyFs 16) 0 = 0 ∧
    blockOf holeyDisk holeyFs (fileInode onDisk holeyDisk holeyFs 17) 0 = 152 := by
  rw [blockOf, blockOf, if_pos (by decide), if_pos (by decide), (holeyFs_dinode holeyDisk 16 0 (by decide)).2,
    (holeyFs_dinode holeyDisk 17 0 (by decide)).2]
  decide

theorem NoOverlap.single {disk : Nat → UInt8} {fs : Fs} {dp : Dinode} (small : sizeOf dp ≤ fs.bsize) : NoOverlap disk fs dp := by
  intro v lbn k lbn' k' one other
  have least : ∀ n, n * fs.bsize < sizeOf dp → n = 0 := by
    intro n inside
    by_contra some
    have := Nat.le_mul_of_pos_left fs.bsize (Nat.pos_of_ne_zero some)
    omega
  rw [least lbn one.inside, least lbn' other.inside]

/-- The third read from the disk fails and leaves another byte in the buffer. -/
def flaky : Partition Nat where
  contents := holeyDisk
  answer n _ _ := (if n = 2 then some [0x3f] else none, n + 1)

/-- The file is asked for again after the failure, and its last bytes are then in the buffer. -/
def retryRun : List Call :=
  run onDisk flaky.dev (.fsread 17 3 fun _ => .fsread 17 3 fun _ => .fsread 17 2 fun _ => .done) unread 0

theorem run_delivers_file_retried :
    retryRun.map Call.result = [.failed, .count 3 [0x68, 0x65, 0x6c], .count 2 [0x6c, 0x6f]] ∧
    ∀ call ∈ retryRun,
      Coherent onDisk holeyDisk holeyFs call.before ∧ Coherent onDisk holeyDisk holeyFs call.after ∧
        ∀ n bytes, call.result = .count n bytes → n = bytes.length ∧
          bytes = fileBytes holeyDisk holeyFs (fileInode onDisk holeyDisk holeyFs call.inode)
            (startOff call.before call.inode) n := by
  have size := holey_size.2
  have calls : ∀ call ∈ retryRun, call.inode = 17 ∧ startOff call.before call.inode ≤ 3 ∧
    call.after.spoiled = false := by
    decide +kernel
  refine ⟨by decide +kernel, ?_⟩
  apply run_delivers_file flaky holeyFs_found holeyFs_geometry _ unread 0 unread_buffers rfl
  · intro call made
    obtain ⟨inode, -⟩ := calls call made
    rw [inode]
    exact NoOverlap.single (by dsimp only [flaky]; rw [size]; decide)
  · intro call made
    obtain ⟨inode, start, kept⟩ := calls call made
    rw [inode] at start ⊢
    dsimp only [flaky]
    refine ⟨⟨fun _ => by rw [size]; omega, ?_⟩, kept⟩
    intro _ o _ _ less _
    rw [size] at less
    rw [show o / holeyFs.bsize = 0 by rw [show holeyFs.bsize = 4096 from rfl]; omega, holey_blocks.2]
    decide

theorem hole_delivers_inode_block :
    superOf onDisk holeyDisk sblockTry = some holeyFs ∧ Geometry holeyFs ∧
      NoOverlap holeyDisk holeyFs (fileInode onDisk holeyDisk holeyFs 16) ∧
      ((run onDisk (calm holeyDisk).dev (.fsread 16 2 fun _ => .done) unread ()).map Call.result) = [.count 2 [0xa4, 0x81]] ∧
      fileBytes holeyDisk holeyFs (fileInode onDisk holeyDisk holeyFs 16) 0 2 = [0, 0] := by
  have size := holey_size.1
  exact ⟨holeyFs_found, holeyFs_geometry, NoOverlap.single (by rw [size]; decide), by decide +kernel, by decide +kernel⟩

end Pcbsd.Ufsread
