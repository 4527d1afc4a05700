import Pcbsd.Proofs.DnodeContents
import Pcbsd.Zfs.File

/-! zfs_read and zfs_seek against a file that is a string of bytes. The length of a read is clamped in the
arithmetic of a size_t, which has no answer for a position behind the end of the file. -/

namespace Pcbsd.Zfs
open Lib List

variable {δ σ : Type} {env : Env δ σ} {layout : Layout}

def wanted (length pos size : Nat) : Nat := min (pos + size) (max pos length) - pos

/-- The sum of position and size fits its type, and the position is not behind the end of the file, unless by a
multiple of what a size_t can hold. -/
def Unwrapped (bits length pos size : Nat) : Prop :=
  pos + size < (if bits < 64 then 2 ^ 63 else 2 ^ 64) ∧ (pos ≤ length ∨ (pos - length) % 2 ^ bits = 0)

instance (bits length pos size : Nat) : Decidable (Unwrapped bits length pos size) := inferInstanceAs (Decidable (_ ∧ _))

theorem toOff_small {x : Int} (low : 0 ≤ x) (high : x < 2 ^ 63) : toOff x = x := by
  rw [toOff, Int.bmod_eq_of_le] <;> omega

theorem toOff_large {x : Int} (low : 2 ^ 63 ≤ x) (high : x < 2 ^ 64) : toOff x < 0 := by
  rw [toOff, Int.bmod_eq_emod, Int.emod_eq_of_lt (by omega) (by omega), if_pos (by omega)]
  omega

theorem toOff_injective {pos n m : Nat} (same : toOff (pos + n) = pos + m) (small : n < 2 ^ 64) (less : m < 2 ^ 64) : n = m := by
  rw [toOff] at same
  have range := congrArg (fun x : Int => x % 2 ^ 64) same
  have cast : (2 ^ 64 : Int) = ((2 ^ 64 : Nat) : Int) := (Nat.cast_pow 2 64).symm
  rw [cast, Int.bmod_emod] at range
  omega

theorem toSize_nat {bits n : Nat} (small : n < 2 ^ bits) : toSize bits n = n := by
  norm_cast
  exact Nat.mod_eq_of_lt small

theorem toSize_zero_iff {bits length pos : Nat} (past : length < pos) :
    toSize bits (length - pos) = 0 ↔ (pos - length) % 2 ^ bits = 0 := by
  obtain ⟨d, rfl⟩ := Nat.exists_eq_add_of_le past.le
  have back : (length : Int) - (length + d : Nat) = -d := by omega
  have nonneg : 0 ≤ -(d : Int) % 2 ^ bits := Int.emod_nonneg _ (pow_ne_zero bits (by decide))
  have least : -(d : Int) % 2 ^ bits ≤ 0 ↔ -(d : Int) % 2 ^ bits = 0 :=
    ⟨fun le => le_antisymm le nonneg, fun zero => zero.le⟩
  rw [toSize, back, Int.toNat_eq_zero, least, Nat.add_sub_cancel_left, ← Int.dvd_iff_emod_eq_zero, Int.dvd_neg,
    ← Nat.dvd_iff_mod_eq_zero, ← Int.natCast_dvd_natCast, Nat.cast_pow, Nat.cast_ofNat]

theorem readCount_plain {bits length pos size : Nat} (small : size < 2 ^ bits)
    (plain : Env.pastEnd bits pos size length = decide (length < pos + size)) :
    Env.readCount bits pos size length = wanted length pos size ↔ pos ≤ length ∨ (pos - length) % 2 ^ bits = 0 := by
  rw [Env.readCount, plain]
  by_cases past : length < pos + size
  · rw [if_pos (decide_eq_true past)]
    by_cases within : pos ≤ length
    · refine iff_of_true ?_ (.inl within)
      have back : (length : Int) - pos = (length - pos : Nat) := by omega
      rw [back, toSize_nat (by omega), wanted, max_eq_right within, min_eq_right past.le]
    · rw [wanted, max_eq_left (by omega), min_eq_right (by omega), Nat.sub_self, toSize_zero_iff (by omega), or_iff_right within]
  · rw [if_neg (by simpa using past)]
    refine iff_of_true ?_ (.inl (by omega))
    rw [wanted, max_eq_right (by omega), min_eq_left (by omega), Nat.add_sub_cancel_left]

theorem readCount_unclamped {bits length pos size : Nat} (beyond : max pos length < pos + size)
    (missed : Env.pastEnd bits pos size length = false) :
    Env.readCount bits pos size length ≠ wanted length pos size := by
  rw [Env.readCount, missed, if_neg (by decide), wanted, min_eq_right beyond.le]
  omega

theorem readCount_iff {bits length pos size : Nat} (wide : bits ≤ 64) (fileSize : length < 2 ^ 63)
    (position : pos < 2 ^ 63) (small : size < 2 ^ bits) :
    Env.readCount bits pos size length = wanted length pos size ↔ Unwrapped bits length pos size := by
  by_cases narrow : bits < 64
  · have large : 2 ^ bits ≤ 2 ^ 63 := Nat.pow_le_pow_right (by decide) (by omega)
    have compared : Env.pastEnd bits pos size length = decide ((length : Int) < toOff (pos + size)) := if_pos narrow
    rw [Unwrapped, if_pos narrow]
    by_cases fits : pos + size < 2 ^ 63
    · rw [toOff_small (by omega) (by omega)] at compared
      rw [readCount_plain small (by rw [compared]; norm_cast), and_iff_right fits]
    · have negative := toOff_large (x := (pos : Int) + size) (by omega) (by omega)
      refine iff_of_false (readCount_unclamped (by omega) ?_) (fun holds => fits holds.1)
      rw [compared, decide_eq_false (by omega)]
  · obtain rfl : bits = 64 := by omega
    have compared : Env.pastEnd 64 pos size length = decide (toSize 64 length < toSize 64 (pos + size)) := if_neg narrow
    rw [Unwrapped, if_neg narrow]
    rw [toSize_nat (by omega)] at compared
    by_cases fits : pos + size < 2 ^ 64
    · have sum : toSize 64 ((pos : Int) + size) = pos + size := by exact_mod_cast toSize_nat fits
      rw [readCount_plain small (by rw [compared, sum]), and_iff_right fits]
    · have sum : toSize 64 ((pos : Int) + size) = pos + size - 2 ^ 64 := by
        rw [toSize]
        omega
      rw [sum] at compared
      refine iff_of_false (fun same => ?_) (fun holds => fits holds.1)
      by_cases past : length < pos + size - 2 ^ 64
      · have zero : toSize 64 (length - pos) = 0 := by
          rw [Env.readCount, compared, if_pos (decide_eq_true past), wanted, max_eq_left (by omega),
            min_eq_right (by omega)] at same
          rw [same, Nat.sub_self]
        rw [toSize_zero_iff (by omega)] at zero
        omega
      · exact readCount_unclamped (by omega) (by rw [compared, decide_eq_false past]) same

theorem readCount_lt {bits length pos size : Nat} (wide : bits ≤ 64) (small : size < 2 ^ bits) :
    Env.readCount bits pos size length < 2 ^ 64 := by
  have large : 2 ^ bits ≤ 2 ^ 64 := Nat.pow_le_pow_right (by decide) wide
  have whole : ((2 ^ bits : Nat) : Int) = 2 ^ bits := Nat.cast_pow 2 bits
  rw [Env.readCount]
  split
  · rw [toSize]
    omega
  · omega

/-- A regular file of `length` bytes: it can be stat'ed, and the blocks that hold its bytes can be read. -/
structure Regular (env : Env δ σ) (layout : Layout) (bonus : Bonus) (phys : DnodePhys) (count : Nat)
    (data : Nat → Bytes) (length : Nat) : Prop where
  stat : ∀ w, ∃ mode, (env.zfsDnodeStat layout bonus w).1 = .ok ⟨mode, length⟩
  object : phys.Object env count data
  whole : phys.Whole count data
  covered : length ≤ count * phys.bsize
  fileSize : length < 2 ^ 63

/-- The file opened, with a block cache that holds nothing of it or what its tag says. -/
structure Opened (bonus : Bonus) (phys : DnodePhys) (count : Nat) (data : Nat → Bytes)
    (s : File × DnodeCache σ) : Prop where
  bonus : s.1.bonus = bonus
  dnode : s.2.dnodes s.1.dnode = phys
  cache : s.2.Keeps s.1.dnode count data
  low : 0 ≤ s.1.seekp
  high : s.1.seekp < 2 ^ 63

def Right (bytes : Bytes) (s : File × DnodeCache σ) (size : Nat) (reply : ReadReply σ) : Prop :=
  reply.rc = 0 ∧ reply.out = slice s.1.seekp.toNat (wanted bytes.length s.1.seekp.toNat size) bytes ∧
    reply.resid = some (size - wanted bytes.length s.1.seekp.toNat size) ∧
    reply.file.seekp = s.1.seekp + wanted bytes.length s.1.seekp.toNat size

theorem zfsRead_eq {bits size length : Nat} {s : File × DnodeCache σ} {mode : Nat} {w : σ}
    (stat : env.zfsDnodeStat layout s.1.bonus s.2.world = (.ok ⟨mode, length⟩, w)) :
    env.zfsRead layout bits s.1 s.2 size =
      let n := Env.readCount bits s.1.seekp size length
      let reply := env.dnodeRead { s.2 with world := w } s.1.dnode s.1.seekp.toNat n
      if reply.1 ≠ 0 then ⟨reply.1, reply.2.1, none, s.1, reply.2.2⟩
      else ⟨0, reply.2.1, some (toSize bits (size - n)), { s.1 with seekp := toOff (s.1.seekp + n) }, reply.2.2⟩ := by
  rw [Env.zfsRead, stat]

def fileBytes (phys : DnodePhys) (data : Nat → Bytes) (length : Nat) : Bytes := (phys.logical data).take length

variable {bonus : Bonus} {phys : DnodePhys} {count length bits size : Nat} {data : Nat → Bytes}
    {s : File × DnodeCache σ}

theorem Regular.length_fileBytes (regular : Regular env layout bonus phys count data length) :
    (fileBytes phys data length).length = length := by
  have room : count * phys.bsize ≤ (phys.maxblkid + 1) * phys.bsize := Nat.mul_le_mul_right _ regular.object.stored
  have covered := regular.covered
  rw [fileBytes, length_take, logical_length, min_eq_left (by omega)]

theorem wanted_fits (length pos size : Nat) : wanted length pos size = 0 ∨ pos + wanted length pos size ≤ length := by
  unfold wanted
  omega

variable (regular : Regular env layout bonus phys count data length)

include regular

theorem zfsRead_clamped (opened : Opened bonus phys count data s) (small : size < 2 ^ bits)
    (clamped : Env.readCount bits s.1.seekp size length = wanted length s.1.seekp.toNat size) :
    Right (fileBytes phys data length) s size (env.zfsRead layout bits s.1 s.2 size) ∧
      Opened bonus phys count data ((env.zfsRead layout bits s.1 s.2 size).file,
        (env.zfsRead layout bits s.1 s.2 size).cache) := by
  obtain ⟨_, stat⟩ := regular.stat s.2.world
  obtain ⟨pos, position⟩ := Int.eq_ofNat_of_zero_le opened.low
  have high := opened.high
  have fileSize := regular.fileSize
  have fits := wanted_fits length pos size
  have part : wanted length pos size ≤ size := by unfold wanted; omega
  rw [zfsRead_eq (Prod.ext ((congrArg (fun b => (env.zfsDnodeStat layout b s.2.world).1) opened.bonus).trans stat) rfl)]
  rw [Right, regular.length_fileBytes]
  rw [position, Int.toNat_natCast] at clamped ⊢
  dsimp only
  rw [clamped]
  have inside := fits.imp_right fun within => within.trans regular.covered
  have dnode : ({ s.2 with world := (env.zfsDnodeStat layout s.1.bonus s.2.world).2 } : DnodeCache σ).dnodes s.1.dnode =
    phys :=
    opened.dnode
  have read := dnodeRead_within regular.object regular.whole dnode opened.cache inside
  obtain ⟨ok, out, keeps, same⟩ := read
  have left : (size : Int) - wanted length pos size = (size - wanted length pos size : Nat) := by omega
  have advance : toOff ((pos : Int) + wanted length pos size) = pos + wanted length pos size :=
    toOff_small (by omega) (by omega)
  rw [if_neg (not_not.mpr ok), left, toSize_nat (by omega), advance]
  refine ⟨⟨rfl, ?_, rfl, rfl⟩, ⟨opened.bonus, same, keeps, ?_, ?_⟩⟩
  · rw [out]
    obtain none | within := fits
    · rw [none, slice, slice, take_zero, take_zero]
    · exact (slice_take _ within).symm
  · dsimp only
    omega
  · dsimp only
    omega

theorem zfsRead_unclamped (opened : Opened bonus phys count data s) (wide : bits ≤ 64) (small : size < 2 ^ bits)
    (clamped : Env.readCount bits s.1.seekp size length ≠ wanted length s.1.seekp.toNat size) :
    ¬Right (fileBytes phys data length) s size (env.zfsRead layout bits s.1 s.2 size) := by
  obtain ⟨_, stat⟩ := regular.stat s.2.world
  obtain ⟨pos, position⟩ := Int.eq_ofNat_of_zero_le opened.low
  have large : 2 ^ bits ≤ 2 ^ 64 := Nat.pow_le_pow_right (by decide) wide
  have part : wanted length pos size ≤ size := by unfold wanted; omega
  rw [zfsRead_eq (Prod.ext ((congrArg (fun b => (env.zfsDnodeStat layout b s.2.world).1) opened.bonus).trans stat) rfl)]
  rw [Right, regular.length_fileBytes]
  rw [position, Int.toNat_natCast] at clamped ⊢
  have limit : Env.readCount bits pos size length < 2 ^ 64 := readCount_lt wide small
  dsimp only
  generalize Env.readCount bits pos size length = n at clamped limit ⊢
  generalize env.dnodeRead _ s.1.dnode pos n = reply
  rintro ⟨ok, -, -, moved⟩
  by_cases failed : reply.1 ≠ 0
  · rw [if_pos failed] at ok
    exact failed ok
  · rw [if_neg failed] at moved
    dsimp only at moved
    exact clamped (toOff_injective moved limit ((part.trans_lt small).trans_le large))

theorem zfsRead_right_iff (opened : Opened bonus phys count data s) (wide : bits ≤ 64) (small : size < 2 ^ bits) :
    Right (fileBytes phys data length) s size (env.zfsRead layout bits s.1 s.2 size) ↔
    Unwrapped bits length s.1.seekp.toNat size := by
  obtain ⟨pos, position⟩ := Int.eq_ofNat_of_zero_le opened.low
  have high := opened.high
  have clamp : Env.readCount bits pos size length = wanted length pos size ↔ Unwrapped bits length pos size :=
    readCount_iff wide regular.fileSize (by omega) small
  rw [position, Int.toNat_natCast, ← clamp]
  constructor
  · intro right
    by_contra other
    exact zfsRead_unclamped regular opened wide small (by rwa [position, Int.toNat_natCast]) right
  · intro clamped
    exact (zfsRead_clamped regular opened small (by rwa [position, Int.toNat_natCast])).1

omit regular

/-- Every read of a run has this property, of the state it finds and its size. -/
def Env.EachRead (env : Env δ σ) (layout : Layout) (bits : Nat) (holds : File × DnodeCache σ → Nat → Prop) :
    File × DnodeCache σ → List FileOp → Prop
  | _, [] => True
  | s, .seek offset whence :: ops =>
    env.EachRead layout bits holds (env.fileStep layout bits s (.seek offset whence)) ops
  | s, .read size :: ops => holds s size ∧ env.EachRead layout bits holds (env.fileStep layout bits s (.read size)) ops

/-- Offsets and sizes have their types, and no seek leads to a negative position. -/
def Env.LegalRun (env : Env δ σ) (layout : Layout) (bits : Nat) : File × DnodeCache σ → List FileOp → Prop
  | _, [] => True
  | s, .seek offset whence :: ops => offset < 2 ^ 63 ∧ 0 ≤ (env.fileStep layout bits s (.seek offset whence)).1.seekp ∧
      env.LegalRun layout bits (env.fileStep layout bits s (.seek offset whence)) ops
  | s, .read size :: ops => size < 2 ^ bits ∧ env.LegalRun layout bits (env.fileStep layout bits s (.read size)) ops

theorem toOff_lt (x : Int) : toOff x < 2 ^ 63 := Int.bmod_lt (by decide)

theorem zfsSeek_opened (opened : Opened bonus phys count data s) {offset : Int} {whence : Whence}
    (typed : offset < 2 ^ 63) (low : 0 ≤ (env.fileStep layout bits s (.seek offset whence)).1.seekp) :
    Opened bonus phys count data (env.fileStep layout bits s (.seek offset whence)) := by
  cases whence with
  | seekSet => exact ⟨opened.bonus, opened.dnode, opened.cache, low, typed⟩
  | seekCur => exact ⟨opened.bonus, opened.dnode, opened.cache, low, toOff_lt _⟩
  | seekEnd =>
    rw [Env.fileStep, Env.zfsSeek] at low ⊢
    generalize env.zfsDnodeStat layout s.1.bonus s.2.world = reply at low ⊢
    obtain ⟨sb, _⟩ := reply
    cases sb with
    | error error => exact ⟨opened.bonus, opened.dnode, opened.cache, opened.low, opened.high⟩
    | ok sb => exact ⟨opened.bonus, opened.dnode, opened.cache, low, toOff_lt _⟩
  | other => exact opened

/-- Every read of a run does what it should exactly if none of them meets a sum that does not fit or a position
behind the end of the file. -/
theorem zfsRead_run_iff (regular : Regular env layout bonus phys count data length)
    (opened : Opened bonus phys count data s) (wide : bits ≤ 64) (ops : List FileOp)
    (legal : env.LegalRun layout bits s ops) :
    env.EachRead layout bits (fun s size => Right (fileBytes phys data length) s size
      (env.zfsRead layout bits s.1 s.2 size)) s ops ↔
      env.EachRead layout bits (fun s size => Unwrapped bits length s.1.seekp.toNat size) s ops := by
  induction ops generalizing s with
  | nil => rfl
  | cons op ops ih =>
    cases op with
    | seek _ _ =>
      obtain ⟨typed, low, rest⟩ := legal
      exact ih (zfsSeek_opened opened typed low) rest
    | read size =>
      obtain ⟨small, rest⟩ := legal
      have here := zfsRead_right_iff regular opened wide small
      rw [Env.EachRead, Env.EachRead, here]
      refine and_congr_right fun unwrapped => ih ?_ rest
      obtain ⟨_, position⟩ := Int.eq_ofNat_of_zero_le opened.low
      have high := opened.high
      refine (zfsRead_clamped regular opened small ?_).2
      rw [position, Int.toNat_natCast] at unwrapped ⊢
      exact (readCount_iff wide regular.fileSize (by omega) small).mpr unwrapped

/-! A file of 700 bytes in two blocks. -/

def znodeLayout : Layout where
  znode bytes := ⟨le 8 72 bytes, toOff (le 8 80 bytes)⟩
  sa bytes :=
    let hdrsize := le 2 4 bytes / 1024 % 64 * 8
    ⟨le 8 hdrsize bytes, toOff (le 8 (hdrsize + 8) bytes)⟩

def fileBonus : Bonus := ⟨false, 264, replicate 72 0 ++ toLe 8 0o100644 ++ toLe 8 700 ++ replicate 176 0, none⟩

def openedFile : File × DnodeCache Unit := (⟨0, 0, fileBonus⟩, fileCache fileDnode)

theorem fileDnode_regular : Regular fileEnv znodeLayout fileBonus fileDnode 2 fileData 700 where
  stat _ :=
    have znode : znodeLayout.znode fileBonus.bytes = ⟨0o100644, 700⟩ := by decide
    ⟨0o100644, congrArg Except.ok znode⟩
  object := fileDnode_object
  whole bn _ := by rw [fileData, length_replicate]; decide
  covered := by decide
  fileSize := by decide

theorem openedFile_opened : Opened fileBonus fileDnode 2 fileData openedFile where
  bonus := rfl
  dnode := rfl
  cache cached := (Option.some_ne_none _ cached.symm).elim
  low := by decide
  high := by decide

def fileOps : List FileOp := [.read 600, .seek 100 .seekCur, .read 10, .seek 10 .seekEnd, .read 100]

theorem fileOps_right : fileEnv.EachRead znodeLayout 32 (fun s size =>
    Right (fileBytes fileDnode fileData 700) s size (fileEnv.zfsRead znodeLayout 32 s.1 s.2 size)) openedFile fileOps := by
  refine (zfsRead_run_iff fileDnode_regular openedFile_opened (by decide) fileOps ?_).mpr ?_
  · exact ⟨by decide, by decide, by decide, by decide, by decide, by decide, by decide, trivial⟩
  · exact ⟨by decide, by decide, by decide, trivial⟩

/-- A read behind the end of the file. -/
theorem zfsRead_past_end : fileEnv.LegalRun znodeLayout 64 openedFile [.seek 701 .seekSet, .read 1] ∧
    ¬fileEnv.EachRead znodeLayout 64 (fun s size =>
      Right (fileBytes fileDnode fileData 700) s size (fileEnv.zfsRead znodeLayout 64 s.1 s.2 size)) openedFile
      [.seek 701 .seekSet, .read 1] := by
  have legal : fileEnv.LegalRun znodeLayout 64 openedFile [.seek 701 .seekSet, .read 1] :=
    ⟨by decide, by decide, by decide, trivial⟩
  refine ⟨legal, fun right => ?_⟩
  have sought := zfsSeek_opened openedFile_opened legal.1 legal.2.1
  have unwrapped := (zfsRead_right_iff fileDnode_regular sought (by decide) (by decide)).mp right.1
  exact absurd unwrapped (by decide)

end Pcbsd.Zfs
