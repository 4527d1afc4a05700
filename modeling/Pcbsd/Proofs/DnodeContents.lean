import Pcbsd.Proofs.DnodeCache
import Pcbsd.Proofs.ZioCopies

/-! dnode_read against the contents of an object: the data blocks one behind the other, reached through
any number of levels of indirect blocks. -/

namespace Pcbsd.Zfs
open Lib List

variable {δ σ : Type} {env : Env δ σ}

/-- A block that can be read: whatever the buffer holds, zio_read leaves the data at its start. -/
def Env.Holds (env : Env δ σ) (bp : Blkptr) (data : Bytes) : Prop :=
  ∀ buf w, (env.zioRead bp buf w).1 = 0 ∧ data <+: (env.zioRead bp buf w).2.1

theorem blockData_holds {pool : Pool δ} (steady : env.Steady pool) {bp : Blkptr}
    (formed : env.Formed pool env.depth bp) {data : Bytes} (held : env.blockData pool env.depth bp = some data) :
    env.Holds bp data := fun buf w =>
  Gives.ok (held ▸ zioReadAt_gives steady formed buf w)

/-- From the block pointers of a level, `k` levels above the data, block `bn` is reached: every indirect block
on the way can be read and holds the block pointer that the way takes, and the data block can be read. -/
def Env.Leads (env : Env δ σ) (ibshift bn : Nat) (data : Bytes) : Nat → (Nat → Blkptr) → Prop
  | 0, indbp => env.Holds (indbp (bn % 2 ^ ibshift)) data
  | k + 1, indbp => ∃ ind, env.Holds (indbp ((bn >>> ((k + 1) * ibshift)) % 2 ^ ibshift)) ind ∧
      ((bn >>> (k * ibshift)) % 2 ^ ibshift + 1) <<< spaBlkptrshift ≤ ind.length ∧ Leads env ibshift bn data k (env.indbp ind)

/-- What the first `count` data blocks of an object hold, where its levels lead to each of them. -/
structure DnodePhys.Object (env : Env δ σ) (dnode : DnodePhys) (count : Nat) (data : Nat → Bytes) : Prop where
  sized : 0 < dnode.bsize
  levels : 0 < dnode.nlevels
  stored : count ≤ dnode.maxblkid + 1
  leads : ∀ bn < count, env.Leads dnode.ibshift bn (data bn) (dnode.nlevels - 1) dnode.blkptr

/-- The logical contents: every data block padded or truncated to the block size. -/
def DnodePhys.logical (dnode : DnodePhys) (data : Nat → Bytes) : Bytes :=
  (range (dnode.maxblkid + 1)).flatMap fun bn => (data bn).takeD dnode.bsize 0

def DnodePhys.Whole (dnode : DnodePhys) (count : Nat) (data : Nat → Bytes) : Prop :=
  ∀ bn < count, dnode.bsize ≤ (data bn).length

theorem descend_leads {ibshift bn k : Nat} {data : Bytes} {indbp : Nat → Blkptr}
    (leads : env.Leads ibshift bn data k indbp) (buf : Bytes) (w : σ) :
    (env.descend ibshift bn (k + 1) indbp buf w).1 = 0 ∧ data <+: (env.descend ibshift bn (k + 1) indbp buf w).2.1 := by
  induction k generalizing indbp buf w with
  | zero =>
    have got := leads buf w
    rw [Env.descend, Nat.zero_mul, Nat.shiftRight_zero]
    generalize env.zioRead (indbp (bn % 2 ^ ibshift)) buf w = reply at got ⊢
    dsimp only
    rw [if_neg (not_not.mpr got.1)]
    exact ⟨rfl, got.2⟩
  | succ k ih =>
    obtain ⟨_, holds, room, below⟩ := leads
    have got := holds buf w
    rw [Env.descend]
    generalize env.zioRead (indbp ((bn >>> ((k + 1) * ibshift)) % 2 ^ ibshift)) buf w = reply at got ⊢
    obtain ⟨_, buf', w'⟩ := reply
    dsimp only
    rw [if_neg (not_not.mpr got.1)]
    have same := env.indbp_of_prefix got.2 room (Nat.lt_succ_self _)
    refine @ih (env.indbp buf') ?_ buf' w'
    cases k with
    | zero =>
      rw [Nat.zero_mul, Nat.shiftRight_zero] at same
      change env.Holds (env.indbp buf' _) data
      rw [← same]
      exact below
    | succ k =>
      obtain ⟨next, holds, room, below⟩ := below
      exact ⟨next, same ▸ holds, room, below⟩

variable {st : DnodeCache σ} {dnode count : Nat} {data : Nat → Bytes}

/-- When the cache holds a block of this dnode, it is the block that the tag names. -/
def DnodeCache.Keeps (st : DnodeCache σ) (dnode count : Nat) (data : Nat → Bytes) : Prop :=
  st.obj = some dnode → st.bn < count → (data st.bn).take (st.dnodes dnode).bsize <+: st.buf

theorem loadBlock_keeps (object : (st.dnodes dnode).Object env count data) (keeps : st.Keeps dnode count data)
    {bn : Nat} (within : bn < count) :
    (env.loadBlock st dnode bn).1 = 0 ∧
    (data bn).take (st.dnodes dnode).bsize <+: (env.loadBlock st dnode bn).2.buf := by
  by_cases hit : st.obj = some dnode ∧ bn = st.bn
  · rw [Env.loadBlock, if_pos hit]
    obtain ⟨cached, rfl⟩ := hit
    exact ⟨rfl, keeps cached within⟩
  have got := descend_leads (object.leads bn within) st.buf st.world
  rw [Nat.sub_add_cancel object.levels] at got
  change (env.descendDnode (st.dnodes dnode) bn st.buf st.world).1 = 0 ∧
    _ <+: (env.descendDnode (st.dnodes dnode) bn st.buf st.world).2.1 at got
  rw [Env.loadBlock, if_neg hit]
  dsimp only
  rw [if_neg (not_not.mpr got.1)]
  exact ⟨rfl, ( take_prefix _ _).trans got.2⟩

theorem logical_length (phys : DnodePhys) (data : Nat → Bytes) :
    (phys.logical data).length = (phys.maxblkid + 1) * phys.bsize := by
  rw [DnodePhys.logical, length_flatMap_of_sized fun _ => takeD_length .., length_range]

theorem slice_logical {phys : DnodePhys} {bn boff n : Nat} (within : bn ≤ phys.maxblkid)
    (inside : boff + n ≤ phys.bsize) (whole : phys.bsize ≤ (data bn).length) :
    slice (bn * phys.bsize + boff) n (phys.logical data) = slice boff n ((data bn).take phys.bsize) := by
  have block : slice (phys.bsize * bn) phys.bsize (phys.logical data ++ []) = (data bn).takeD phys.bsize 0 := by
    rw [DnodePhys.logical, slice_flatMap (fun _ => takeD_length ..) [] (by rw [length_range]; omega), getElem_range]
  rw [append_nil, slice] at block
  rw [slice_take _ inside, ← slice_takeD (by omega) inside, ← block, slice_take _ inside, slice, slice, drop_drop,
    Nat.mul_comm]

theorem piece_fits {bsize : Nat} (sized : 0 < bsize) (offset buflen : Nat) :
    offset % bsize + min (bsize - offset % bsize) buflen ≤ bsize := by
  have := Nat.mod_lt offset sized
  omega

theorem rest_within {bsize offset buflen : Nat} (sized : 0 < bsize) (more : buflen ≠ 0) (within : offset / bsize < count) :
    (buflen - min (bsize - offset % bsize) buflen = 0 ∨
        (offset + min (bsize - offset % bsize) buflen + (buflen - min (bsize - offset % bsize) buflen) - 1) / bsize < count) ↔
      buflen = 0 ∨ (offset + buflen - 1) / bsize < count := by
  by_cases last : buflen ≤ bsize - offset % bsize
  · have here : (offset + buflen - 1) / bsize = offset / bsize := by
      have whole := Nat.div_add_mod offset bsize
      rw [Nat.div_eq_of_lt_le]
      · rw [Nat.mul_comm]; omega
      · rw [Nat.succ_mul, Nat.mul_comm]; omega
    rw [min_eq_right last, Nat.sub_self, here]
    exact iff_of_true (.inl rfl) (.inr within)
  · rw [min_eq_left (by omega), Nat.add_assoc, Nat.add_sub_of_le (by omega)]
    refine or_congr_left' fun _ => iff_of_false ?_ more
    omega

theorem slice_of_block {phys : DnodePhys} {offset n : Nat} {buf : Bytes} (within : offset / phys.bsize ≤ phys.maxblkid)
    (whole : phys.bsize ≤ (data (offset / phys.bsize)).length) (fits : offset % phys.bsize + n ≤ phys.bsize)
    (start : (data (offset / phys.bsize)).take phys.bsize <+: buf) :
    slice (offset % phys.bsize) n buf = slice offset n (phys.logical data) := by
  have read := slice_logical within fits whole
  rw [Nat.div_add_mod'] at read
  have length : ((data (offset / phys.bsize)).take phys.bsize).length = phys.bsize := by
    rw [length_take, min_eq_left whole]
  rw [read, prefix_iff_eq_take.mp start, length, slice_take _ fits]

def DnodeCache.Answers (dnode count : Nat) (phys : DnodePhys) (data : Nat → Bytes) (offset buflen : Nat) (out : Bytes)
    (reply : Int × Bytes × DnodeCache σ) : Prop :=
  (if buflen = 0 ∨ (offset + buflen - 1) / phys.bsize < count then
    reply.1 = 0 ∧ reply.2.1 = out ++ slice offset buflen (phys.logical data)
  else reply.1 = eio) ∧ reply.2.2.Keeps dnode count data ∧ reply.2.2.dnodes dnode = phys

theorem DnodeCache.Answers.turn {phys : DnodePhys} {offset buflen n : Nat} {bytes out : Bytes}
    {reply : Int × Bytes × DnodeCache σ}
    (rest : (buflen - n = 0 ∨ (offset + n + (buflen - n) - 1) / phys.bsize < count) ↔ buflen = 0 ∨
      (offset + buflen - 1) / phys.bsize < count) (part : n ≤ buflen)
    (piece : bytes = slice offset n (phys.logical data))
    (answers : DnodeCache.Answers dnode count phys data (offset + n) (buflen - n) (out ++ bytes) reply) :
    DnodeCache.Answers dnode count phys data offset buflen out reply := by
  obtain ⟨answer, kept⟩ := answers
  refine ⟨?_, kept⟩
  rw [piece, append_assoc, ← slice_append, Nat.add_sub_of_le part] at answer
  simpa only [rest] using answer

theorem dnodeReadLoop_answers {phys : DnodePhys} (object : phys.Object env count data) (whole : phys.Whole count data)
    {fuel offset buflen : Nat} (enough : buflen ≤ fuel) (out : Bytes)
    (scope : count = phys.maxblkid + 1 ∨ buflen = 0 ∨ (offset + buflen - 1) / phys.bsize < count)
    (same : st.dnodes dnode = phys) (keeps : st.Keeps dnode count data) :
    DnodeCache.Answers dnode count phys data offset buflen out (env.dnodeReadLoop fuel st dnode offset buflen out) := by
  induction fuel generalizing st offset buflen out with
  | zero =>
    obtain rfl : buflen = 0 := by omega
    rw [Env.dnodeReadLoop, DnodeCache.Answers, if_pos (.inl rfl)]
    exact ⟨⟨rfl, by simp [slice]⟩, keeps, same⟩
  | succ fuel ih =>
    subst same
    rw [Env.dnodeReadLoop]
    by_cases done : buflen = 0
    · subst done
      rw [if_pos rfl, DnodeCache.Answers, if_pos (.inl rfl)]
      exact ⟨⟨rfl, by simp [slice]⟩, keeps, rfl⟩
    rw [if_neg done]
    have last : offset / (st.dnodes dnode).bsize ≤ (offset + buflen - 1) / (st.dnodes dnode).bsize :=
      Nat.div_le_div_right (by omega)
    have stored := object.stored
    by_cases outside : (st.dnodes dnode).maxblkid < offset / (st.dnodes dnode).bsize
    · rw [if_pos outside, DnodeCache.Answers, if_neg (by omega)]
      exact ⟨rfl, keeps, rfl⟩
    rw [if_neg outside]
    have within : offset / (st.dnodes dnode).bsize < count := by omega
    obtain ⟨ok, start⟩ := loadBlock_keeps object keeps within
    have tag := loadBlock_tag ok
    have kept := loadBlock_dnodes env st dnode (offset / (st.dnodes dnode).bsize)
    generalize env.loadBlock st dnode (offset / (st.dnodes dnode).bsize) = reply at ok start tag kept ⊢
    dsimp only at ok start tag kept ⊢
    rw [if_neg (not_not.mpr ok)]
    have fits := piece_fits object.sized offset buflen
    have piece := slice_of_block (by omega) (whole _ within) fits start
    have positive : 0 < min ((st.dnodes dnode).bsize - offset % (st.dnodes dnode).bsize) buflen := by
      have := Nat.mod_lt offset object.sized
      omega
    have rest := rest_within object.sized done within
    refine .turn rest (min_le_right _ _) piece (ih (by omega) _ (scope.imp_right rest.mpr) (by rw [kept]) fun _ _ => ?_)
    rw [tag.2, kept]
    exact start

theorem dnodeRead_within {phys : DnodePhys} (object : phys.Object env count data) (whole : phys.Whole count data)
    (same : st.dnodes dnode = phys) (keeps : st.Keeps dnode count data) {offset len : Nat}
    (inside : len = 0 ∨ offset + len ≤ count * phys.bsize) :
    (env.dnodeRead st dnode offset len).1 = 0 ∧ (env.dnodeRead st dnode offset len).2.1 =
      slice offset len (phys.logical data) ∧
      (env.dnodeRead st dnode offset len).2.2.Keeps dnode count data ∧
      (env.dnodeRead st dnode offset len).2.2.dnodes dnode = phys := by
  have scope : len = 0 ∨ (offset + len - 1) / phys.bsize < count := by
    by_cases done : len = 0
    · exact .inl done
    · exact .inr (Nat.div_lt_of_lt_mul (by rw [Nat.mul_comm]; have := inside.resolve_left done; omega))
  obtain ⟨answer, kept⟩ := dnodeReadLoop_answers object whole le_rfl [] (.inr scope) same keeps
  rw [if_pos scope] at answer
  exact ⟨answer.1, answer.2, kept⟩

def fileBp (sector : Nat) : Blkptr := ⟨[⟨false, 0, sector, false⟩], 512, 512, zioCompressOff, 0, false, []⟩

def diskPool (disk : Nat → Bytes) : Pool Unit where
  phys _ offset size := some ((disk (offset - vdevLabelStartSize)).takeD size 0)
  raidz _ _ _ _ := none
  physSize := by
    intro _ _ size bytes held
    cases held
    exact takeD_length ..
  raidzSize := by simp

def diskEnv (disk : Nat → Bytes) : Env Unit Unit where
  physRead _ offset size buf w := (0, put 0 ((disk (offset - vdevLabelStartSize)).takeD size 0) buf, w)
  raidzRead _ _ buf _ _ w := (eio, buf, w)
  checksumVerify _ _ := 0
  decompressData _ _ _ := (eio, [])
  blkptr bytes := fileBp bytes.head!.toNat
  temp _ := []
  depth := 1
  vdevs := [.mk 0 .healthy .disk 9 (some ()) []]

theorem diskPool_steady (disk : Nat → Bytes) : (diskEnv disk).Steady (diskPool disk) where
  phys _ _ _ buf _ := .done rfl (prefix_put _ buf)
  raidz _ _ _ _ _ _ := .failed eio_ne

theorem fileBp_holds {disk : Nat → Bytes} {sector : Nat} {bytes : Bytes} (stored : (disk sector).takeD 512 0 = bytes) :
    (diskEnv disk).Holds (fileBp sector) bytes := by
  refine blockData_holds (diskPool_steady disk) ?_ ?_
  · rintro ⟨_, member, kind⟩
    obtain rfl := mem_singleton.mp member
    cases kind
  · have here : sector + vdevLabelStartSize - vdevLabelStartSize = sector := Nat.add_sub_cancel ..
    change some ((disk (sector + vdevLabelStartSize - vdevLabelStartSize)).takeD 512 0) = _
    rw [here, stored]

/-! An indirect block and two data blocks, as a file of two blocks; and a file whose one block is shorter than the
block size. -/

def fileDisk (sector : Nat) : Bytes :=
  if sector = 0 then (1 :: replicate 127 0) ++ (2 :: replicate 127 0) ++ replicate 256 0
  else replicate 512 (UInt8.ofNat (sector + 64))

def fileEnv : Env Unit Unit := diskEnv fileDisk

def fileDnode : DnodePhys := ⟨9, 1, 2, 1, fun _ => fileBp 0⟩

def fileData (bn : Nat) : Bytes := replicate 512 (UInt8.ofNat (bn + 65))

def fileCache (dnode : DnodePhys) : DnodeCache Unit := ⟨none, 0, replicate 1024 0x7a, fun _ => dnode, ()⟩

theorem fileDnode_object : fileDnode.Object fileEnv 2 fileData where
  sized := by decide
  levels := by decide
  stored := le_rfl
  leads bn within := by
    refine ⟨fileDisk 0, fileBp_holds (by decide +kernel), ?_⟩
    obtain rfl | rfl : bn = 0 ∨ bn = 1 := by
      omega
    all_goals exact ⟨by decide +kernel, fileBp_holds (by decide +kernel)⟩

end Pcbsd.Zfs
