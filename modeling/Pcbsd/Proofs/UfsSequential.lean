import Pcbsd.Proofs.UfsCoherence

/-! Reading a file from a partition without errors, one call of fsread after the other. -/

namespace Pcbsd.Ufsread
open Lib List

variable {σ : Type} {layout : Layout} {part : Partition σ} {fs : Fs}

def NoErrors (part : Partition σ) : Prop := ∀ s lba nblk, (part.answer s lba nblk).1 = none

variable (noErrors : NoErrors part)

include noErrors

theorem dskread_works (flag : Bool) (s : σ) (lba nblk : Nat) (buf : Bytes) :
    ∃ s', part.dev.dskread flag s lba nblk buf =
      (true, put 0 (bytesAt part.contents (lba * devBsize) (nblk * devBsize)) buf, s') := by
  have none := noErrors s lba nblk
  rcases answered : part.answer s lba nblk with ⟨answer, s'⟩
  rw [answered] at none
  subst none
  refine ⟨s', ?_⟩
  rw [Partition.dev]
  dsimp only
  rw [answered]

theorem trySuper_works (locs : List Nat) : ∀ (r : Reader) (s : σ), r.sbbuf.length = sblocksize →
    superOf layout part.contents locs = some fs → ∃ r' s', trySuper layout part.dev locs r s = (some fs, r', s') := by
  induction locs with
  | nil => exact fun r s _ none => by cases none
  | cons loc _ ih =>
    intro r s room found
    obtain ⟨s', read⟩ := dskread_works noErrors r.dskMeta s (loc / devBsize) (sblocksize / devBsize) r.sbbuf
    have size : sblocksize / devBsize * devBsize = sblocksize := rfl
    have fills : (bytesAt part.contents (loc / devBsize * devBsize) sblocksize).length = r.sbbuf.length := by
      rw [length_bytesAt, room]
    rw [size, put_zero fills] at read
    rw [trySuper, read]
    rw [superOf] at found
    dsimp only at found ⊢
    by_cases accepted : (layout.fs (bytesAt part.contents (loc / devBsize * devBsize) sblocksize)).accepted loc = true
    · rw [if_pos accepted] at found ⊢
      cases found
      exact ⟨_, _, rfl⟩
    · rw [if_neg accepted] at found ⊢
      have next := ih { r with sbbuf := bytesAt part.contents (loc / devBsize * devBsize) sblocksize } s'
      dsimp only at next
      exact next (fills.trans room) found

theorem readSuper_works (file_system : superOf layout part.contents sblockTry = some fs) {r : Reader}
    (coherent : Coherent layout part.contents fs r) (s : σ) : ∃ r' s', readSuper layout part.dev r s =
    (some fs, r', s') := by
  rw [readSuper]
  split
  next known => exact ⟨r, s, by rw [coherent.super known]⟩
  next _ => exact trySuper_works noErrors sblockTry _ s coherent.buffers.sbbuf file_system

omit noErrors

variable {r : Reader}

theorem trySuper_clean (layout : Layout) (noErrors : NoErrors part) (locs : List Nat) : ∀ (r : Reader) (s : σ),
    (trySuper layout part.dev locs r s).2.1.spoiled = r.spoiled := by
  induction locs with
  | nil => exact fun r s => rfl
  | cons loc _ ih =>
    intro r s
    obtain ⟨_, read⟩ := dskread_works noErrors r.dskMeta s (loc / devBsize) (sblocksize / devBsize) r.sbbuf
    rw [trySuper, read]
    dsimp only
    split
    · rfl
    · exact ih _ _

theorem readSuper_clean (layout : Layout) (noErrors : NoErrors part) (r : Reader) (s : σ) :
    (readSuper layout part.dev r s).2.1.spoiled = r.spoiled := by
  rw [readSuper]
  split
  · rfl
  · exact trySuper_clean layout noErrors sblockTry _ s

theorem readInode_works (layout : Layout) (noErrors : NoErrors part) (fs : Fs) (inode : Nat) (r : Reader) (s : σ) :
    ∃ r' s', readInode layout part.dev fs inode r s = (true, r', s') ∧ r'.spoiled = r.spoiled := by
  rw [readInode]
  split
  · exact ⟨r, s, rfl, rfl⟩
  · obtain ⟨s', read⟩ := dskread_works noErrors r.dskMeta s (fs.inoToVba fs.iPerVblk inode) dbpervblk r.blkbuf
    dsimp only
    rw [read]
    exact ⟨_, _, rfl, rfl⟩

include noErrors

theorem readIndirect_works (vbaddr : Nat) (r : Reader) (s : σ) :
    ∃ r' s', readIndirect part.dev vbaddr r s = (true, r', s') ∧ r'.spoiled = r.spoiled := by
  rw [readIndirect]
  split
  · exact ⟨r, s, rfl, rfl⟩
  · obtain ⟨s', read⟩ := dskread_works noErrors r.dskMeta s vbaddr dbpervblk r.indbuf
    rw [read]
    exact ⟨_, _, rfl, rfl⟩

theorem readBlock_works (vbaddr nblk : Nat) (r : Reader) (s : σ) :
    ∃ r' s', readBlock part.dev vbaddr nblk r s = (true, r', s') ∧ r'.spoiled = r.spoiled := by
  rw [readBlock]
  split
  · exact ⟨r, s, rfl, rfl⟩
  · obtain ⟨s', read⟩ := dskread_works noErrors r.dskMeta s vbaddr nblk r.blkbuf
    rw [read]
    exact ⟨_, _, rfl, rfl⟩

theorem blockAddr_works (fs : Fs) {lbn : Nat} (low : lbn < ndaddr + fs.nindir) (r : Reader) (s : σ) :
    ∃ a r' s', blockAddr part.dev fs lbn r s = (some a, r', s') ∧ r'.spoiled = r.spoiled := by
  rw [blockAddr]
  split
  · exact ⟨_, r, s, rfl, rfl⟩
  · obtain ⟨r', s', read, clean⟩ :=
      readIndirect_works noErrors (fs.toDb r.dp.ib + (lbn - ndaddr) / fs.indirPerVblk * dbpervblk) r s
    dsimp only
    rw [read]
    exact ⟨_, r', s', rfl, clean⟩

omit noErrors

theorem blockAddr_beyond {lbn : Nat} (high : ndaddr + fs.nindir ≤ lbn) (dev : Dev σ) (r : Reader) (s : σ) :
    blockAddr dev fs lbn r s = (none, r, s) := by
  rw [blockAddr, if_neg (by omega), if_neg (by omega)]

/-- The loop has come beyond the blocks that the dinode and its first indirect block address. -/
def Beyond (fs : Fs) (off : Nat) : Prop := ndaddr + fs.nindir ≤ off / fs.bsize

instance (fs : Fs) (off : Nat) : Decidable (Beyond fs off) := inferInstanceAs (Decidable (_ ≤ _))

theorem turn_beyond (geometry : Geometry fs) (beyond : Beyond fs r.fsOff) (dev : Dev σ) (size nb : Nat) (s : σ) :
    turn dev fs size nb r s = (none, r, s) := by
  rw [turn, geometry.lblkno, blockAddr_beyond beyond]

theorem length_rest {z vboff nb : Nat} {buf : Bytes} (enough : vboff < z) (least : z ≤ vblksize) (room : buf.length = vblksize) :
    (slice vboff (min ((z + 2 ^ 32 - vboff) % 2 ^ 32) nb) buf).length = min (z - vboff) nb := by
  have four : vblksize = 4096 := rfl
  have rest : (z + 2 ^ 32 - vboff) % 2 ^ 32 = z - vboff := by omega
  rw [rest]
  exact slice_length (by omega)

theorem within_block {o b z n : Nat} (most : o / vblksize * vblksize + z ≤ b) (enough : o % vblksize < z)
    (short : n ≤ z - o % vblksize) : o + n ≤ b := by
  have parts := Nat.div_add_mod' o vblksize
  omega

theorem turn_works (noErrors : NoErrors part) (geometry : Geometry fs) (coherent : Coherent layout part.contents fs r)
    (known : r.dskMeta = true) (loaded : r.inomap ≠ 0) (apart : NoOverlap part.contents fs r.dp) {nb : Nat}
    (asked : 0 < nb) (inside : r.fsOff + nb ≤ sizeOf r.dp) (near : ¬ Beyond fs r.fsOff)
    (mapped : blockOf part.contents fs r.dp (r.fsOff / fs.bsize) ≠ 0) (clean : r.spoiled = false) (s : σ) :
    ∃ bs r' s', turn part.dev fs (sizeOf r.dp) nb r s = (some bs, r', s') ∧ r'.spoiled = false ∧
      Turned layout part.contents fs nb r r' (some bs) ∧ 0 < bs.length ∧ r.fsOff % fs.bsize + bs.length ≤ fs.bsize := by
  obtain ⟨addr, q, t, found, calm⟩ := blockAddr_works noErrors fs (Nat.lt_of_not_le near) r s
  obtain ⟨_, size, enough, most, _⟩ := piece_numbers geometry r.dp r.fsOff (by omega)
  obtain ⟨p, u, read, calm'⟩ := readBlock_works noErrors (fs.toDb addr + r.fsOff % fs.bsize / vblksize * dbpervblk)
    (pieceSize fs r.dp (r.fsOff / fs.bsize) (r.fsOff % fs.bsize / vblksize) >>> devBshift) q t
  obtain ⟨vboff, offset⟩ : ∃ vboff, vboff = r.fsOff % fs.bsize % vblksize := ⟨_, rfl⟩
  obtain ⟨z, sized⟩ : ∃ z, z = pieceSize fs r.dp (r.fsOff / fs.bsize) (r.fsOff % fs.bsize / vblksize) := ⟨_, rfl⟩
  rw [← sized] at size read
  rw [← offset, ← sized] at enough
  rw [← sized] at most
  have ran : turn part.dev fs (sizeOf r.dp) nb r s =
    (some (slice vboff (min ((z + 2 ^ 32 - vboff) % 2 ^ 32) nb) p.blkbuf),
      { p with fsOff := (p.fsOff + min ((z + 2 ^ 32 - vboff) % 2 ^ 32) nb) % 2 ^ 32 }, u) := by
    rw [turn, geometry.lblkno, geometry.blkoff, found]
    dsimp only
    rw [size, read, ← offset]
  have clean' : p.spoiled = false := calm'.trans (calm.trans clean)
  have turned := turn_spec geometry coherent known loaded apart asked inside (fun _ => mapped) ran clean'
  have room : p.blkbuf.length = vblksize := turned.coherent.buffers.blkbuf
  have least : z ≤ vblksize := sized ▸ Nat.min_le_right _ _
  have length := @length_rest z vboff nb p.blkbuf enough least room
  refine ⟨_, _, _, ran, clean', turned, ?_, ?_⟩
  · rw [length]
    exact Nat.lt_min.mpr ⟨Nat.sub_pos_of_lt enough, asked⟩
  · rw [length]
    exact within_block most (offset ▸ enough) (offset ▸ Nat.min_le_left _ _)

def EndsBeyond (fs : Fs) (off nb : Nat) : Prop := 0 < nb ∧ Beyond fs (off + nb - 1)

instance (fs : Fs) (off nb : Nat) : Decidable (EndsBeyond fs off nb) := inferInstanceAs (Decidable (_ ∧ _))

theorem Beyond.mono {off off' : Nat} (le : off ≤ off') (beyond : Beyond fs off) : Beyond fs off' :=
  Nat.le_trans beyond (Nat.div_le_div_right le)

theorem near_within {off n : Nat} (near : ¬ Beyond fs off) (within : off % fs.bsize + n ≤ fs.bsize) (some : 0 < n) :
    ¬ Beyond fs (off + n - 1) := by
  have split := Nat.div_add_mod off fs.bsize
  have last : off + n - 1 = fs.bsize * (off / fs.bsize) + (off % fs.bsize + n - 1) := by omega
  have block : (off + n - 1) / fs.bsize = off / fs.bsize := by
    rw [last, Nat.mul_add_div (by omega), Nat.div_eq_of_lt (show off % fs.bsize + n - 1 < fs.bsize by omega), Nat.add_zero]
  rw [Beyond, block]
  exact near

structure Looped (fs : Fs) (disk : Nat → UInt8) (out : Bytes) (nb : Nat) (r r' : Reader) (result : Result) : Prop where
  spoiled : r'.spoiled = false
  dskMeta : r'.dskMeta = r.dskMeta
  inomap : r'.inomap = r.inomap
  fsOff : r'.fsOff ≤ r.fsOff + nb
  near : ¬ EndsBeyond fs r.fsOff nb → r'.fsOff = r.fsOff + nb ∧
    result = .count (out ++ fileBytes disk fs r.dp r.fsOff nb).length (out ++ fileBytes disk fs r.dp r.fsOff nb)
  beyond : EndsBeyond fs r.fsOff nb → result = .failed

theorem copyLoop_works (noErrors : NoErrors part) (geometry : Geometry fs) (fuel : Nat) :
    ∀ {r : Reader} {nb : Nat} (out : Bytes) (s : σ),
    Coherent layout part.contents fs r → r.dskMeta = true → r.inomap ≠ 0 → NoOverlap part.contents fs r.dp →
    r.fsOff + nb ≤ sizeOf r.dp → (∀ o, r.fsOff ≤ o → o < r.fsOff + nb → o / fs.bsize < ndaddr + fs.nindir →
      blockOf part.contents fs r.dp (o / fs.bsize) ≠ 0) → r.spoiled = false → nb ≤ fuel →
    ∃ result r' s', copyLoop part.dev fs (sizeOf r.dp) fuel nb out r s = (result, r', s') ∧
      Looped fs part.contents out nb r r' result := by
  have ends : ∀ (r : Reader) (out : Bytes), r.spoiled = false →
    Looped fs part.contents out 0 r r (.count out.length out) := by
    intro r out clean
    refine ⟨clean, rfl, rfl, Nat.le_refl _, fun _ => ⟨rfl, ?_⟩, fun beyond => absurd beyond.1 (Nat.lt_irrefl 0)⟩
    rw [fileBytes, range_zero, map_nil, append_nil]
  induction fuel with
  | zero =>
    intro r nb out s coherent known loaded apart inside mapped clean enough
    obtain rfl : nb = 0 := Nat.le_zero.mp enough
    exact ⟨_, r, s, rfl, ends r out clean⟩
  | succ fuel ih =>
    intro r nb out s coherent known loaded apart inside mapped clean enough
    rw [copyLoop]
    rcases Nat.eq_zero_or_pos nb with rfl | asked
    · exact ⟨_, r, s, if_pos rfl, ends r out clean⟩
    · rw [if_neg (Nat.ne_of_gt asked)]
      by_cases beyond : Beyond fs r.fsOff
      · rw [turn_beyond geometry beyond]
        exact ⟨.failed, r, s, rfl, clean, rfl, rfl, Nat.le_add_right _ _,
          fun near => absurd ⟨asked, beyond.mono (by omega)⟩ near, fun _ => rfl⟩
      · obtain ⟨bs, r₁, s₁, ran, clean₁, turned, some, within⟩ :=
          turn_works noErrors geometry coherent known loaded apart asked inside
          beyond (mapped r.fsOff (Nat.le_refl _) (by omega) (Nat.lt_of_not_le beyond)) clean s
        obtain ⟨most, copied, moved⟩ := turned.copied bs rfl
        rw [ran]
        have onward : r₁.fsOff + (nb - bs.length) = r.fsOff + nb := by omega
        obtain ⟨result, r', s', rest, looped⟩ := @ih r₁ (nb - bs.length) (out ++ bs) s₁ turned.coherent
          (turned.dskMeta.trans known) (by rw [turned.inomap]; exact loaded) (by rw [turned.dp]; exact apart)
          (by rw [turned.dp]; omega) (by rw [turned.dp]; exact fun o low high => mapped o (by omega) (by omega)) clean₁
            (by omega)
        rw [turned.dp] at rest
        have bytes : out ++ bs ++ fileBytes part.contents fs r₁.dp r₁.fsOff (nb - bs.length) =
            out ++ fileBytes part.contents fs r.dp r.fsOff nb := by
          have whole := fileBytes_add part.contents fs r.dp r.fsOff bs.length (nb - bs.length)
          rw [Nat.add_sub_cancel' most, ← copied] at whole
          rw [turned.dp, moved, append_assoc, ← whole]
        have same : EndsBeyond fs r₁.fsOff (nb - bs.length) ↔ EndsBeyond fs r.fsOff nb := by
          rw [EndsBeyond, EndsBeyond, onward]
          refine ⟨fun last => ⟨asked, last.2⟩, fun last => ⟨?_, last.2⟩⟩
          by_contra all
          have here : r.fsOff + nb = r.fsOff + bs.length := by omega
          rw [here] at last
          exact near_within beyond within some last.2
        refine ⟨result, r', s', rest, looped.spoiled, looped.dskMeta.trans turned.dskMeta,
          looped.inomap.trans turned.inomap, ?_, fun near => ?_, fun last => looped.beyond (same.mpr last)⟩
        · have bound := looped.fsOff
          omega
        · obtain ⟨off, counted⟩ := looped.near (mt same.mp near)
          rw [bytes] at counted
          exact ⟨off.trans onward, counted⟩

structure WholeFile (layout : Layout) (disk : Nat → UInt8) (fs : Fs) (inode : Nat) : Prop where
  some : inode ≠ 0
  small : (fileInode layout disk fs inode).size < 2 ^ 32
  apart : NoOverlap disk fs (fileInode layout disk fs inode)
  mapped : ∀ lbn < ndaddr + fs.nindir, lbn * fs.bsize < (fileInode layout disk fs inode).size →
    blockOf disk fs (fileInode layout disk fs inode) lbn ≠ 0

/-- A call of fsread delivers what there is of `nbyte` bytes from `off` on, or fails because they end out of reach. -/
structure Delivers (disk : Nat → UInt8) (fs : Fs) (dp : Dinode) (off nbyte : Nat) (result : Result) (r' : Reader) : Prop where
  near : ¬ EndsBeyond fs off (min nbyte (dp.size - off)) →
    result = .count (min nbyte (dp.size - off)) (fileBytes disk fs dp off (min nbyte (dp.size - off))) ∧
      r'.fsOff = off + min nbyte (dp.size - off)
  beyond : EndsBeyond fs off (min nbyte (dp.size - off)) → result = .failed

structure Between (layout : Layout) (disk : Nat → UInt8) (fs : Fs) (inode : Nat) (r : Reader) : Prop where
  coherent : Coherent layout disk fs r
  spoiled : r.spoiled = false
  fsOff : r.fsOff ≤ (fileInode layout disk fs inode).size

theorem fsread_works (part : Partition σ) (noErrors : NoErrors part)
    (file_system : superOf layout part.contents sblockTry = some fs) (geometry : Geometry fs) {inode : Nat}
    (file : WholeFile layout part.contents fs inode) {r : Reader} (between : Between layout part.contents fs inode r)
    (nbyte : Nat) (s : σ) : ∃ result r' s', fsread layout part.dev inode nbyte r s = (result, r', s') ∧
      Between layout part.contents fs inode r' ∧ r'.dskMeta = true ∧ r'.inomap = inode ∧
      Delivers part.contents fs (fileInode layout part.contents fs inode) (startOff r inode) nbyte result r' := by
  obtain ⟨coherent, clean, within⟩ := between
  have small := Nat.mod_eq_of_lt file.small
  have begins : startOff r inode ≤ (fileInode layout part.contents fs inode).size := by
    rw [startOff]
    split
    · exact within
    · exact Nat.zero_le _
  obtain ⟨q, t, searched⟩ := readSuper_works noErrors file_system coherent s
  have clean₁ := readSuper_clean layout noErrors r s
  rw [searched] at clean₁
  obtain ⟨_, ready⟩ := (readSuper_spec file_system coherent searched).2 fs rfl
  obtain ⟨p, u, read, clean₂⟩ := readInode_works layout noErrors fs inode q t
  have clean' : p.spoiled = false := clean₂.trans (clean₁.trans clean)
  obtain ⟨coherent', found, loaded⟩ := readInode_spec geometry ready.coherent ready.found read clean'
  obtain ⟨inomap, fsOff⟩ := loaded rfl
  have start : (if q.inomap = inode then q.fsOff else 0) = startOff r inode := by
    rw [startOff, ready.fsOff]
    cases known : r.dskMeta
    · rw [ready.reset known, if_neg (Ne.symm file.some), if_neg fun both => Bool.false_ne_true both.1]
    · rw [ready.kept known]
      exact if_congr (and_iff_right rfl).symm rfl rfl
  rw [start] at fsOff
  have dp := (coherent'.tags found (by rw [inomap]; exact file.some)).inode
  rw [inomap] at dp
  have size : (p.dp.size % 2 ^ 32 + 2 ^ 32 - p.fsOff) % 2 ^ 32 = p.dp.size - startOff r inode := by
    have less := file.small
    rw [fsOff, dp]
    clear searched read
    omega
  have least := Nat.min_le_right nbyte (p.dp.size - startOff r inode)
  have whole : sizeOf p.dp = p.dp.size := by rw [dp]; exact small
  have mapped : ∀ o, p.fsOff ≤ o → o < p.fsOff + min nbyte (p.dp.size - startOff r inode) →
    o / fs.bsize < ndaddr + fs.nindir → blockOf part.contents fs p.dp (o / fs.bsize) ≠ 0 := by
    intro o low high near
    have start := Nat.div_mul_le_self o fs.bsize
    rw [dp] at high ⊢
    exact file.mapped _ near (by omega)
  obtain ⟨result, r', s', ran, looped⟩ :=
    copyLoop_works noErrors geometry (min nbyte (p.dp.size - startOff r inode)) [] u coherent' found
    (by rw [inomap]; exact file.some) (by rw [dp]; exact file.apart) (by rw [whole, fsOff, dp]; rw [dp] at least; omega)
      mapped clean'
    (Nat.le_refl _)
  refine ⟨result, r', s', ?_, ?_, looped.dskMeta.trans found, looped.inomap.trans inomap, ?_⟩
  · rw [fsread, searched]
    dsimp only
    rw [if_neg file.some, read]
    dsimp only
    rw [size]
    exact ran
  · have after := (copyLoop_spec geometry _ coherent' found (by rw [inomap]; exact file.some)
      (by rw [dp]; exact file.apart) (by rw [whole, fsOff, dp]; rw [dp] at least; omega) mapped ran looped.spoiled).1
    refine ⟨after, looped.spoiled, ?_⟩
    have bound := looped.fsOff
    rw [dp] at least bound
    omega
  · have near := looped.near
    have beyond := looped.beyond
    rw [fsOff, nil_append, length_fileBytes, dp] at near
    rw [fsOff, dp] at beyond
    exact ⟨fun within => ⟨(near within).2, (near within).1⟩, beyond⟩

def Client.On (inode size : Nat) : Client → Prop
  | .done => True
  | .seek off next => off ≤ size ∧ next.On inode size
  | .fsread i _ next => i = inode ∧ ∀ result, (next result).On inode size

/-- Every call on the file delivers what is there from fs_off on, or from 0 on when the inode was not the current one,
which only the first call can find. -/
theorem fsread_sequential (part : Partition σ) (noErrors : NoErrors part)
    (file_system : superOf layout part.contents sblockTry = some fs) (geometry : Geometry fs) {inode : Nat}
    (file : WholeFile layout part.contents fs inode) (client : Client) {r : Reader} (s : σ)
    (between : Between layout part.contents fs inode r)
    (on : client.On inode (fileInode layout part.contents fs inode).size) :
    (∀ call ∈ run layout part.dev client r s, Delivers part.contents fs (fileInode layout part.contents fs inode)
      (startOff call.before inode) call.nbyte call.result call.after) ∧
    (r.dskMeta = true → r.inomap = inode →
      ∀ call ∈ run layout part.dev client r s, startOff call.before inode = call.before.fsOff) ∧
    ∀ call ∈ (run layout part.dev client r s).tail, startOff call.before inode = call.before.fsOff := by
  induction client generalizing r s with
  | done => exact ⟨fun _ none => (by cases none), fun _ _ _ none => (by cases none), fun _ none => (by cases none)⟩
  | seek off next ih =>
    obtain ⟨coherent, clean, _⟩ := between
    obtain ⟨within, later⟩ := on
    have less : off % 2 ^ 32 = off := Nat.mod_eq_of_lt (Nat.lt_of_le_of_lt within file.small)
    refine ih s ⟨coherent.seek _, clean, ?_⟩ later
    rw [less]
    exact within
  | fsread _ nbyte next ih =>
    obtain ⟨rfl, later⟩ := on
    obtain ⟨result, _, s', ran, after, known, inomap, delivers⟩ :=
      fsread_works part noErrors file_system geometry file between nbyte s
    obtain ⟨all, current, _⟩ := ih result s' after (later result)
    rw [run, ran, forall_mem_cons, forall_mem_cons, tail_cons]
    exact ⟨⟨delivers, all⟩, fun known' same => ⟨if_pos ⟨known', same⟩, current known inomap⟩, current known inomap⟩

theorem five_bytes_size : (fileInode onDisk holeyDisk holeyFs 17).size = 5 := by
  rw [(holeyFs_dinode holeyDisk 17 0 (by decide)).1]
  decide

theorem five_bytes_whole : WholeFile onDisk holeyDisk holeyFs 17 := by
  refine ⟨by decide, by rw [five_bytes_size]; decide, NoOverlap.single (by rw [holey_size.2]; decide), fun lbn _ inside => ?_⟩
  have first : lbn = 0 := by
    rw [five_bytes_size, show holeyFs.bsize = 4096 from rfl] at inside
    omega
  rw [first, holey_blocks.2]
  decide

theorem started (off : Nat) (small : off ≤ 5) : Between onDisk holeyDisk holeyFs 17 { unread with fsOff := off } :=
  ⟨Coherent.start ⟨length_replicate, length_replicate, length_replicate⟩ rfl, rfl, by rw [five_bytes_size]; exact small⟩

theorem fsread_sequential_five_bytes :
    let client : Client := .fsread 17 2 fun _ => .seek 1 (.fsread 17 10 fun _ => .done)
    ∀ call ∈ run onDisk (calm holeyDisk).dev client unread (),
      Delivers holeyDisk holeyFs (fileInode onDisk holeyDisk holeyFs 17)
        (startOff call.before 17) call.nbyte call.result call.after := by
  intro client
  have size := five_bytes_size
  exact (fsread_sequential (calm holeyDisk) (fun _ _ _ => rfl) holeyFs_found holeyFs_geometry five_bytes_whole client ()
    (started 0 (by decide)) ⟨rfl, fun _ => ⟨by dsimp only [calm]; rw [size]; decide, rfl, fun _ => trivial⟩⟩).1

/-- With fs_off 1 before it, the first call on the inode reads from 0 on. -/
theorem first_call_from_start : ¬ ∀ r : Reader, Between onDisk holeyDisk holeyFs 17 r →
    ∀ call ∈ run onDisk (calm holeyDisk).dev (.fsread 17 5 fun _ => .done) r (),
      Delivers holeyDisk holeyFs (fileInode onDisk holeyDisk holeyFs 17) call.before.fsOff call.nbyte call.result
        call.after := by
  intro all
  obtain ⟨result, r', _, ran, _, _, _, delivers⟩ :=
    fsread_works (calm holeyDisk) (fun _ _ _ => rfl) holeyFs_found holeyFs_geometry
    five_bytes_whole (started 1 (by decide)) 5 ()
  have claimed := all _ (started 1 (by decide)) ⟨{ unread with fsOff := 1 }, 17, 5, result, r'⟩ (by
    rw [run_single, ran]
    exact mem_singleton_self _)
  have begins : startOff { unread with fsOff := 1 } 17 = 0 := if_neg fun both => Bool.false_ne_true both.1
  dsimp only [calm] at delivers
  have near : ∀ off n, off + n ≤ 5 → ¬ EndsBeyond holeyFs off n := by
    intro off n small ends
    have block : (off + n - 1) / holeyFs.bsize = 0 :=
      Nat.div_eq_of_lt (by rw [show holeyFs.bsize = 4096 from rfl]; omega)
    have beyond := ends.2
    rw [Beyond, block] at beyond
    exact absurd beyond (by decide)
  dsimp only at claimed
  have one := (claimed.near (near _ _ (by rw [five_bytes_size]; decide))).1
  have other := (delivers.near (near _ _ (by rw [five_bytes_size]; decide))).1
  rw [other] at one
  cases one

end Pcbsd.Ufsread
