import Pcbsd.Proofs.FileAccess

/-! zfs_read of zfsboot against the file, and beside zfs_read of the loader. -/

namespace Pcbsd.Zfs
open Lib List

variable {δ σ : Type} {env : Env δ σ} {layout : Layout}

def readEnd (length pos size : Nat) : Nat := min (pos + size) (max pos length)

structure BootRight (bytes : Bytes) (offp : Int) (size : Nat) (reply : BootReply σ) : Prop where
  rc : reply.rc = wanted bytes.length offp.toNat size
  out : reply.out = slice offp.toNat (wanted bytes.length offp.toNat size) bytes
  offp : reply.offp = offp + wanted bytes.length offp.toNat size

/-- With the size where a znode_phys_t has it, a read ends where it should: it is not cut where it should not be, or
it is cut at that place, but for multiples of what a size_t can hold. Its length is no negative int. -/
def Serves (zpSize length pos size : Nat) : Prop :=
  (if pos + size ≤ zpSize then readEnd length pos size = pos + size else zpSize % 2 ^ 32 =
    readEnd length pos size % 2 ^ 32) ∧ wanted length pos size < 2 ^ 31

instance (zpSize length pos size : Nat) : Decidable (Serves zpSize length pos size) :=
  inferInstanceAs (Decidable (_ ∧ _))

theorem readEnd_wanted (length pos size : Nat) : readEnd length pos size = pos + wanted length pos size := by
  unfold readEnd wanted
  omega

theorem toSize_sub {a b k : Nat} (small : k < 2 ^ 32) :
    toSize 32 ((a : Int) - b) = k ↔ a % 2 ^ 32 = (b + k) % 2 ^ 32 := by
  rw [toSize]
  omega

theorem bootCount_iff {zpSize length pos size : Nat} (position : pos < 2 ^ 63) (small : size < 2 ^ 32) :
    Env.bootCount zpSize pos size = wanted length pos size ↔
      if pos + size ≤ zpSize then readEnd length pos size = pos + size else zpSize % 2 ^ 32 =
        readEnd length pos size % 2 ^ 32 := by
  have sum : toSize 64 ((pos : Int) + size) = pos + size := by
    rw [toSize]
    omega
  have part : wanted length pos size < 2 ^ 32 := by
    unfold wanted
    omega
  rw [Env.bootCount, sum, readEnd_wanted]
  by_cases whole : pos + size ≤ zpSize
  · rw [if_neg (Nat.not_lt.mpr whole), if_pos whole, Nat.add_left_cancel_iff]
    exact eq_comm
  · rw [if_pos (Nat.lt_of_not_le whole), if_neg whole]
    exact toSize_sub part

theorem bootCount_lt {zpSize size : Nat} (offp : Int) (small : size < 2 ^ 32) :
    Env.bootCount zpSize offp size < 2 ^ 32 := by
  rw [Env.bootCount]
  split
  · rw [toSize]
    omega
  · exact small

theorem bmod_count {n m : Nat} (small : n < 2 ^ 32) : (n : Int).bmod (2 ^ 32) = m ↔ n = m ∧ m < 2 ^ 31 := by
  rw [Int.bmod_def]
  have whole : (n : Int) % (2 ^ 32 : Nat) = n := Int.emod_eq_of_lt (by omega) (by exact_mod_cast small)
  have half : (((2 ^ 32 : Nat) : Int) + 1) / 2 = 2 ^ 31 := by decide
  split <;> omega

variable {bonus : Bonus} {phys : DnodePhys} {count length bits size dnode : Nat} {data : Nat → Bytes}
    {st : DnodeCache σ} {offp : Int}

theorem bootRead_right_iff (regular : Regular env layout bonus phys count data length) (same : st.dnodes dnode = phys)
    (keeps : st.Keeps dnode count data) (low : 0 ≤ offp) (high : offp < 2 ^ 63) (small : size < 2 ^ 32) :
    BootRight (fileBytes phys data length) offp size (env.bootRead layout bonus dnode st offp size) ↔
      Serves (Env.zpSize layout bonus) length offp.toNat size := by
  obtain ⟨pos, rfl⟩ := Int.eq_ofNat_of_zero_le low
  have position : pos < 2 ^ 63 := by omega
  have counted := @bootCount_iff (Env.zpSize layout bonus) length pos size position small
  have limit := @bootCount_lt (Env.zpSize layout bonus) size pos small
  rw [Serves, Int.toNat_natCast, ← counted, Env.bootRead, Int.toNat_natCast]
  dsimp only
  constructor
  · rintro ⟨rc, -, -⟩
    rw [regular.length_fileBytes, Int.toNat_natCast] at rc
    split at rc
    · exact absurd rc (by dsimp only; omega)
    · dsimp only at rc
      rwa [bmod_count limit] at rc
  · rintro ⟨exactly, positive⟩
    have fits := wanted_fits length pos size
    have inside := fits.imp_right fun within => within.trans regular.covered
    have fileSize := regular.fileSize
    rw [exactly]
    obtain ⟨ok, out, -, -⟩ := dnodeRead_within regular.object regular.whole same keeps inside
    rw [if_neg (not_not.mpr ok)]
    refine ⟨?_, ?_, ?_⟩ <;> rw [regular.length_fileBytes, Int.toNat_natCast]
    · rw [bmod_count (by omega)]
      exact ⟨rfl, positive⟩
    · rw [out]
      obtain none | within := fits
      · rw [none, slice, slice, take_zero, take_zero]
      · exact (slice_take _ within).symm
    · rw [toOff_small (by omega) (by omega)]

/-- When zfsboot reads what it should, and when the loader reads the same. -/
theorem boot_reads_iff (regular : Regular env layout bonus phys count data length) (same : st.dnodes dnode = phys)
    (keeps : st.Keeps dnode count data) (low : 0 ≤ offp) (high : offp < 2 ^ 63) (small : size < 2 ^ 32)
    {s : File × DnodeCache σ} (opened : Opened bonus phys count data s) (there : s.1.seekp = offp) (wide : bits ≤ 64)
    (fits : size < 2 ^ bits) :
    (BootRight (fileBytes phys data length) offp size (env.bootRead layout bonus dnode st offp size) ↔
      Serves (Env.zpSize layout bonus) length offp.toNat size) ∧
    (BootRight (fileBytes phys data length) offp size (env.bootRead layout bonus dnode st offp size) ∧
        Right (fileBytes phys data length) s size (env.zfsRead layout bits s.1 s.2 size) ↔
      Serves (Env.zpSize layout bonus) length offp.toNat size ∧ Unwrapped bits length offp.toNat size) := by
  have boot := bootRead_right_iff regular same keeps low high small
  have loader := zfsRead_right_iff regular opened wide fits
  rw [there] at loader
  exact ⟨boot, and_congr boot loader⟩

theorem openedFile_boot : BootRight (fileBytes fileDnode fileData 700) 600 200
      (fileEnv.bootRead znodeLayout fileBonus 0 (fileCache fileDnode) 600 200) ∧
    Right (fileBytes fileDnode fileData 700) (⟨600, 0, fileBonus⟩, fileCache fileDnode) 200
      (fileEnv.zfsRead znodeLayout 32 ⟨600, 0, fileBonus⟩ (fileCache fileDnode) 200) := by
  have opened : Opened fileBonus fileDnode 2 fileData (⟨600, 0, fileBonus⟩, fileCache fileDnode) :=
    ⟨rfl, rfl, openedFile_opened.cache, by decide, by decide⟩
  have dnode : (fileCache fileDnode).dnodes 0 = fileDnode := rfl
  have small : 200 < 2 ^ 32 := by decide
  have wide : 32 ≤ 64 := by decide
  exact (boot_reads_iff fileDnode_regular dnode openedFile_opened.cache (by decide)
    (by decide) small opened rfl wide small).2.mpr (by decide)

/-- The attributes of the file in an SA bonus: what stands in the place of zp_size is the time of its last change. -/
def saBonus : Bonus :=
  ⟨true, 168, [0x5a, 0x50, 0x2f, 0, 2, 4, 0, 0] ++ toLe 8 0o100644 ++ toLe 8 700 ++ replicate 56 0 ++
    toLe 8 1400000000 ++ replicate 80 0, none⟩

theorem saBonus_regular : Regular fileEnv znodeLayout saBonus fileDnode 2 fileData 700 where
  stat _ :=
    have attributes : znodeLayout.sa saBonus.bytes = ⟨0o100644, 700⟩ := by decide
    ⟨0o100644, congrArg Except.ok attributes⟩
  object := fileDnode_object
  whole := fileDnode_regular.whole
  covered := by decide
  fileSize := by decide

/-- Of the last 100 bytes, 200 are read. -/
theorem saBonus_read_on : ¬BootRight (fileBytes fileDnode fileData 700) 600 200
    (fileEnv.bootRead znodeLayout saBonus 0 (fileCache fileDnode) 600 200) := by
  have none : (fileCache fileDnode).Keeps 0 2 fileData := openedFile_opened.cache
  rw [bootRead_right_iff saBonus_regular rfl none (by decide) (by decide) (by decide)]
  have time : Env.zpSize znodeLayout saBonus = 1400000000 := by decide
  rw [time]
  decide

end Pcbsd.Zfs
