import Pcbsd.Zfs.Dnode

/-! When the block cache of dnode_read holds what its tag says. A load goes through the cache
buffer from the first indirect block on, and the tag changes only when it is complete. -/

namespace Pcbsd.Zfs
open Lib List

variable {δ σ : Type} {env : Env δ σ} {raw : Blkptr → Bytes}

/-- `raw bp` is what the pool stores for a block pointer: a checksum that matches identifies it,
and raidz returns only what passed its checksum. -/
structure Env.Sound (env : Env δ σ) (raw : Blkptr → Bytes) : Prop where
  verified : ∀ bp bytes, env.checksumVerify bp bytes = 0 → bytes = raw bp
  raidz : ∀ vdev bp buf offset bytes w, (env.raidzRead vdev bp buf offset bytes w).1 = 0 →
    (env.raidzRead vdev bp buf offset bytes w).2.1.take bp.psize = raw bp

def Reads (raw : Blkptr → Bytes) (bp : Blkptr) (reply : Reply σ) : Prop :=
  reply.1 = 0 → reply.2.1.take bp.psize = raw bp

theorem vdevReadPhys_reads (sound : env.Sound raw) (phys : Option δ) (bp : Blkptr) (buf : Bytes) (offset : Nat)
    (w : σ) :
    Reads raw bp (env.vdevReadPhys phys bp buf offset w) := by
  unfold Env.vdevReadPhys Reads
  cases phys with
  | none => simp [eio]
  | some dev =>
    rcases env.physRead dev offset bp.psize buf w with ⟨_, buf, w⟩
    dsimp only
    split
    next failed => exact fun zero => absurd zero failed
    next =>
      split
      next => simp [eio]
      next matched => exact fun _ => sound.verified bp _ (by simpa using matched)

mutual

theorem vdevRead_reads (sound : env.Sound raw) (vdev : Vdev δ) (bp : Blkptr) (buf : Bytes) (offset bytes : Nat)
    (w : σ) :
    Reads raw bp (env.vdevRead vdev bp buf offset bytes w) := by
  match vdev with
  | .mk _ _ .disk _ phys _ =>
    exact vdevReadPhys_reads sound phys bp buf _ w
  | .mk _ _ .mirror _ _ kids =>
    exact vdevMirrorRead_reads sound kids bp buf offset bytes w eio (by decide)
  | .mk _ _ .replacing _ _ [] =>
    rw [Env.vdevRead]
    simp [Reads, eio]
  | .mk _ _ .replacing _ _ (kid :: _) =>
    rw [Env.vdevRead]
    split
    next => simp [Reads, eio]
    next => exact vdevRead_reads sound kid bp buf offset bytes w
  | .mk _ _ .raidz _ _ _ =>
    exact sound.raidz _ bp buf offset bytes w

theorem vdevMirrorRead_reads (sound : env.Sound raw) (kids : List (Vdev δ)) (bp : Blkptr) (buf : Bytes)
    (offset bytes : Nat) (w : σ) (rc : Int) (failed : rc ≠ 0) :
    Reads raw bp (env.vdevMirrorRead kids bp buf offset bytes w rc) := by
  match kids with
  | [] =>
    exact fun zero => absurd zero failed
  | kid :: kids =>
    have first := vdevRead_reads sound kid bp buf offset bytes w
    rw [Env.vdevMirrorRead]
    split
    next => exact vdevMirrorRead_reads sound kids bp buf offset bytes w rc failed
    next =>
      rcases read : env.vdevRead kid bp buf offset bytes w with ⟨code, after, w⟩
      rw [read] at first
      dsimp only
      split
      next zero => exact fun _ => first zero
      next again => exact vdevMirrorRead_reads sound kids bp after offset bytes w code again

end

def Env.contents (env : Env δ σ) (raw : Blkptr → Bytes) (bp : Blkptr) : Bytes :=
  if bp.compress ≠ zioCompressOff then (env.decompressData bp.compress (raw bp) bp.lsize).2 else raw bp

def Env.Delivers (env : Env δ σ) (raw : Blkptr → Bytes) (bp : Blkptr) (reply : Reply σ) : Prop :=
  reply.1 = 0 → env.contents raw bp <+: reply.2.1

variable {gang : Blkptr → Bytes → σ → Reply σ} {ibshift : Nat} {indbp : Nat → Blkptr} {bsize : Nat}
  {f g : Nat → Blkptr} {k : Nat}

variable (sound : env.Sound raw)

include sound

theorem readCopy_reads (reads : ∀ bp buf w, Reads raw bp (gang bp buf w)) (vdev : Vdev δ) (dva : Dva) (bp : Blkptr)
    (pbuf : Bytes) (w : σ) :
    Reads raw bp (env.readCopy gang vdev dva bp pbuf w) := by
  unfold Env.readCopy
  split
  next => exact reads bp pbuf w
  next => exact vdevRead_reads sound vdev bp pbuf dva.offset _ w

theorem readDva_delivers (reads : ∀ bp buf w, Reads raw bp (gang bp buf w)) (vdev : Vdev δ) (dva : Dva) (bp : Blkptr)
    (buf : Bytes) (w : σ) :
    env.Delivers raw bp (env.readDva gang vdev dva bp buf w) := by
  unfold Env.readDva Env.Delivers Env.contents
  split
  next =>
    have got := readCopy_reads sound reads vdev dva bp (env.temp w) w
    generalize env.readCopy gang vdev dva bp (env.temp w) w = reply at got ⊢
    obtain ⟨_, _, w⟩ := reply
    dsimp only
    split
    next failed => exact fun zero => absurd zero failed
    next ok =>
      have stored := got (not_not.mp ok)
      rw [stored]
      split
      all_goals
        intro _
        exact prefix_put _ buf
  next direct =>
    rw [not_or, not_not, not_not] at direct
    intro zero
    rw [if_neg (not_not.mpr direct.2), ← readCopy_reads sound reads vdev dva bp buf w zero]
    exact take_prefix _ _

theorem zioReadLoop_delivers (reads : ∀ bp buf w, Reads raw bp (gang bp buf w)) (bp : Blkptr) (dvas : List Dva)
    (error : Int) (failed : error ≠ 0) (buf : Bytes) (w : σ) : env.Delivers raw bp
    (env.zioReadLoop gang bp dvas error buf w) := by
  induction dvas generalizing error buf w with
  | nil => exact fun zero => absurd zero failed
  | cons dva dvas ih =>
    unfold Env.zioReadLoop
    split
    next => exact ih error failed buf w
    next =>
      cases env.vdevs.find? (·.id = dva.vdev) with
      | none => exact ih error failed buf w
      | some vdev =>
        have got := readDva_delivers sound reads vdev dva bp buf w
        dsimp only
        generalize env.readDva gang vdev dva bp buf w = reply at got ⊢
        obtain ⟨code, after, w⟩ := reply
        split
        next zero => exact fun _ => got zero
        next again => exact ih code again after w

theorem zioReadGang_reads (read : Blkptr → Bytes → σ → Reply σ) (bp : Blkptr) (buf : Bytes) (w : σ) :
    Reads raw bp (env.zioReadGang read bp buf w) := by
  unfold Env.zioReadGang Reads
  rcases read (Env.gbhBp bp) (env.temp w) w with ⟨rc, gb, w⟩
  dsimp only
  split
  next => simp [eio]
  next =>
    rcases Env.zioReadPieces read ((range spaGbhNblkptrs).map (env.indbp gb)) 0 buf w with ⟨rc, buf, w⟩
    split
    next => simp [eio]
    next =>
      split
      next => simp [eio]
      next matched => exact fun _ => sound.verified bp _ (by simpa using matched)

theorem zioRead_delivers (bp : Blkptr) (buf : Bytes) (w : σ) :
    env.Delivers raw bp (env.zioRead bp buf w) := by
  unfold Env.zioRead
  cases env.depth with
  | zero => simp [Env.zioReadAt, Env.Delivers, eio]
  | succ depth => exact zioReadLoop_delivers sound (zioReadGang_reads sound _) bp bp.dva eio (by decide) buf w

omit sound

def Env.leaf (env : Env δ σ) (raw : Blkptr → Bytes) (ibshift bn : Nat) : Nat → (Nat → Blkptr) → Bytes
  | 0, _ => []
  | k + 1, indbp =>
    let here := env.contents raw (indbp ((bn >>> (k * ibshift)) % 2 ^ ibshift))
    if k = 0 then here else env.leaf raw ibshift bn k (env.indbp here)

/-- The blocks on the way to `bn` have the sizes that the dnode states for them. -/
def Env.Full (env : Env δ σ) (raw : Blkptr → Bytes) (ibshift bsize bn : Nat) : Nat → (Nat → Blkptr) → Prop
  | 0, _ => False
  | k + 1, indbp =>
    let here := env.contents raw (indbp ((bn >>> (k * ibshift)) % 2 ^ ibshift))
    if k = 0 then bsize ≤ here.length
    else (2 ^ ibshift) <<< spaBlkptrshift ≤ here.length ∧ env.Full raw ibshift bsize bn k (env.indbp here)

instance Env.decidableFull (env : Env δ σ) (raw : Blkptr → Bytes) (ibshift bsize bn : Nat) :
    ∀ k indbp, Decidable (env.Full raw ibshift bsize bn k indbp)
  | 0, _ => isFalse id
  | k + 1, _ =>
    have := env.decidableFull raw ibshift bsize bn k
    inferInstanceAs (Decidable (if k = 0 then bsize ≤ _ else _ ≤ _ ∧ env.Full raw ibshift bsize bn k _))

def Env.block (env : Env δ σ) (raw : Blkptr → Bytes) (dnode : DnodePhys) (bn : Nat) : Bytes :=
  (env.leaf raw dnode.ibshift bn dnode.nlevels dnode.blkptr).take dnode.bsize

/-- A dnode that describes an object: it has a block size, and every block up to dn_maxblkid is
reached through at least one level of blocks of the right size. -/
structure DnodePhys.Formed (env : Env δ σ) (raw : Blkptr → Bytes) (dnode : DnodePhys) : Prop where
  sized : 0 < dnode.datablkszsec
  full : ∀ bn ≤ dnode.maxblkid, env.Full raw dnode.ibshift dnode.bsize bn dnode.nlevels dnode.blkptr

instance (env : Env δ σ) (raw : Blkptr → Bytes) (dnode : DnodePhys) : Decidable (dnode.Formed env raw) :=
  decidable_of_iff (0 < dnode.datablkszsec ∧
      ∀ bn ≤ dnode.maxblkid, env.Full raw dnode.ibshift dnode.bsize bn dnode.nlevels dnode.blkptr)
    ⟨fun h => ⟨h.1, h.2⟩, fun h => ⟨h.1, h.2⟩⟩

theorem DnodePhys.Formed.bsize_pos {dnode : DnodePhys} (formed : dnode.Formed env raw) : 0 < dnode.bsize := by
  have := formed.sized
  simp only [DnodePhys.bsize, spaMinblockshift, Nat.shiftLeft_eq]
  omega

private theorem leaf_congr {bn : Nat} (same : ∀ i < 2 ^ ibshift, f i = g i) :
    env.leaf raw ibshift bn k f = env.leaf raw ibshift bn k g := by
  cases k with
  | zero => rfl
  | succ k => simp only [Env.leaf, same _ (Nat.mod_lt _ (Nat.two_pow_pos ibshift))]

private theorem full_congr {bn : Nat} (same : ∀ i < 2 ^ ibshift, f i = g i) :
    env.Full raw ibshift bsize bn k f ↔ env.Full raw ibshift bsize bn k g := by
  cases k with
  | zero => rfl
  | succ k => simp only [Env.Full, same _ (Nat.mod_lt _ (Nat.two_pow_pos ibshift))]

theorem descend_delivers (sound : env.Sound raw) {bn : Nat} (buf : Bytes) (w : σ)
    (full : env.Full raw ibshift bsize bn k indbp) (ok : (env.descend ibshift bn k indbp buf w).1 = 0) :
    env.leaf raw ibshift bn k indbp <+: (env.descend ibshift bn k indbp buf w).2.1 := by
  induction k generalizing indbp buf w with
  | zero => exact full.elim
  | succ k ih =>
    have read := zioRead_delivers sound (indbp ((bn >>> (k * ibshift)) % 2 ^ ibshift)) buf w
    rw [Env.descend] at ok ⊢
    generalize env.zioRead (indbp ((bn >>> (k * ibshift)) % 2 ^ ibshift)) buf w = reply at read ok ⊢
    obtain ⟨rc, after, w⟩ := reply
    dsimp only at ok ⊢
    by_cases failed : rc ≠ 0
    · rw [if_pos failed] at ok
      exact absurd ok failed
    rw [if_neg failed] at ok ⊢
    have start := read (not_not.mp failed)
    rw [Env.leaf]
    rw [Env.Full] at full
    by_cases last : k = 0
    · subst last
      simpa [Env.descend] using start
    · rw [if_neg last] at full ⊢
      have same := fun i less => env.indbp_of_prefix (i := i) start full.1 less
      rw [leaf_congr same]
      exact ih after w ((full_congr same).mp full.2) ok

private theorem leaf_length {bn : Nat} (full : env.Full raw ibshift bsize bn k indbp) : bsize ≤
    (env.leaf raw ibshift bn k indbp).length := by
  induction k generalizing indbp with
  | zero => exact full.elim
  | succ k ih =>
    rw [Env.Full] at full
    rw [Env.leaf]
    split at full
    next last =>
      rw [if_pos last]
      exact full
    next above =>
      rw [if_neg above]
      exact ih full.2

theorem descendDnode_block (sound : env.Sound raw) {dnode : DnodePhys} (formed : dnode.Formed env raw) {bn : Nat}
    (within : bn ≤ dnode.maxblkid) (buf : Bytes) (w : σ) (ok : (env.descendDnode dnode bn buf w).1 = 0) :
    (env.descendDnode dnode bn buf w).2.1.take dnode.bsize = env.block raw dnode bn := by
  have full := formed.full bn within
  have start := descend_delivers sound buf w full ok
  rw [prefix_iff_eq_take] at start
  rw [Env.block, start, take_take, min_eq_left (leaf_length full)]
  rfl

def DnodeCache.Coherent (env : Env δ σ) (raw : Blkptr → Bytes) (st : DnodeCache σ) : Prop :=
  ∀ dnode, st.obj = some dnode → st.buf.take (st.dnodes dnode).bsize = env.block raw (st.dnodes dnode) st.bn

structure DnodeCache.Valid (env : Env δ σ) (raw : Blkptr → Bytes) (st : DnodeCache σ) : Prop where
  coherent : st.Coherent env raw
  formed : ∀ dnode, st.obj = some dnode → (st.dnodes dnode).Formed env raw ∧ st.bn ≤ (st.dnodes dnode).maxblkid

/-- The blocks that a call of dnode_read sets out to load, each with the state it finds. -/
def Env.dnodeLoads (env : Env δ σ) : Nat → DnodeCache σ → Nat → Nat → Nat → List (DnodeCache σ × Nat)
  | 0, _, _, _, _ => []
  | fuel + 1, st, dnode, offset, buflen =>
    let bsize := (st.dnodes dnode).bsize
    let bn := offset / bsize
    if buflen = 0 ∨ (st.dnodes dnode).maxblkid < bn then []
    else
      let i := min (bsize - offset % bsize) buflen
      let here := if st.obj = some dnode ∧ bn = st.bn then [] else [(st, bn)]
      here ++
        if (env.loadBlock st dnode bn).1 ≠ 0 then []
        else env.dnodeLoads fuel (env.loadBlock st dnode bn).2 dnode (offset + i) (buflen - i)

def Env.Loaded (env : Env δ σ) (dnode : Nat) (load : DnodeCache σ × Nat) : Prop :=
  (env.descendDnode (load.1.dnodes dnode) load.2 load.1.buf load.1.world).1 = 0

/-- A load that costs no cached block: nothing was cached, or it completes, or it fails with the
buffer as it was. -/
def Env.Undisturbed (env : Env δ σ) (dnode : Nat) (load : DnodeCache σ × Nat) : Prop :=
  load.1.obj = none ∨ env.Loaded dnode load ∨
    (env.descendDnode (load.1.dnodes dnode) load.2 load.1.buf load.1.world).2.1 = load.1.buf

instance (env : Env δ σ) (dnode : Nat) (load : DnodeCache σ × Nat) : Decidable (env.Loaded dnode load) :=
  inferInstanceAs (Decidable (_ = _))

instance (env : Env δ σ) (dnode : Nat) (load : DnodeCache σ × Nat) : Decidable (env.Undisturbed dnode load) :=
  inferInstanceAs (Decidable (_ ∨ _ ∨ _))

variable {st : DnodeCache σ} {dnode bn : Nat}

theorem loadBlock_dnodes (env : Env δ σ) (st : DnodeCache σ) (dnode bn : Nat) :
    (env.loadBlock st dnode bn).2.dnodes = st.dnodes := by
  unfold Env.loadBlock
  split
  next => rfl
  next =>
    rcases env.descendDnode (st.dnodes dnode) bn st.buf st.world with ⟨_, buf, _⟩
    dsimp only
    split <;> rfl

theorem loadBlock_tag (ok : (env.loadBlock st dnode bn).1 = 0) :
    (env.loadBlock st dnode bn).2.obj = some dnode ∧ (env.loadBlock st dnode bn).2.bn = bn := by
  unfold Env.loadBlock at ok ⊢
  split at ok
  next hit => rw [if_pos hit]; exact ⟨hit.1, hit.2.symm⟩
  next miss =>
    rw [if_neg miss]
    generalize env.descendDnode (st.dnodes dnode) bn st.buf st.world = reply at ok ⊢
    obtain ⟨rc, buf, _⟩ := reply
    dsimp only at ok ⊢
    by_cases failed : rc ≠ 0
    · rw [if_pos failed] at ok
      exact absurd ok failed
    · rw [if_neg failed]
      exact ⟨rfl, rfl⟩

theorem loadBlock_valid (sound : env.Sound raw) (valid : st.Valid env raw) (formed : (st.dnodes dnode).Formed env raw)
    (within : bn ≤ (st.dnodes dnode).maxblkid)
    (calm : (st.obj = some dnode ∧ bn = st.bn) ∨ env.Undisturbed dnode (st, bn)) :
    (env.loadBlock st dnode bn).2.Valid env raw := by
  by_cases hit : st.obj = some dnode ∧ bn = st.bn
  · rw [Env.loadBlock, if_pos hit]
    exact valid
  have calm := calm.resolve_left hit
  have block := descendDnode_block sound formed within st.buf st.world
  rw [Env.loadBlock, if_neg hit]
  rw [Env.Undisturbed, Env.Loaded] at calm
  generalize env.descendDnode (st.dnodes dnode) bn st.buf st.world = reply at calm block ⊢
  obtain ⟨rc, buf, _⟩ := reply
  dsimp only at calm block ⊢
  by_cases failed : rc ≠ 0
  · rw [if_pos failed]
    -- The tag stays as it was: either it was empty or the buffer was left alone.
    rcases calm with empty | ok | same
    · constructor
      all_goals
        intro obj cached
        rw [empty] at cached
        cases cached
    · exact absurd ok failed
    · subst same
      exact ⟨valid.coherent, valid.formed⟩
  · rw [if_neg failed]
    constructor
    · intro obj cached
      cases cached
      exact block (not_not.mp failed)
    · intro obj cached
      cases cached
      exact ⟨formed, within⟩

private theorem mem_loads_here {fuel offset buflen : Nat} {P : DnodeCache σ × Nat → Prop}
    (each : ∀ load ∈ env.dnodeLoads (fuel + 1) st dnode offset buflen, P load) (more : buflen ≠ 0)
    (within : ¬(st.dnodes dnode).maxblkid < offset / (st.dnodes dnode).bsize) :
    ((st.obj = some dnode ∧ offset / (st.dnodes dnode).bsize = st.bn) ∨ P (st, offset / (st.dnodes dnode).bsize)) ∧
      ((env.loadBlock st dnode (offset / (st.dnodes dnode).bsize)).1 = 0 →
        let i := min ((st.dnodes dnode).bsize - offset % (st.dnodes dnode).bsize) buflen
        ∀ load ∈ env.dnodeLoads fuel (env.loadBlock st dnode (offset / (st.dnodes dnode).bsize)).2 dnode
          (offset + i) (buflen - i), P load) := by
  rw [Env.dnodeLoads] at each
  rw [if_neg (not_or.mpr ⟨more, within⟩)] at each
  constructor
  · by_cases hit : st.obj = some dnode ∧ offset / (st.dnodes dnode).bsize = st.bn
    · exact .inl hit
    · exact .inr (each _ (by simp [hit]))
  · intro ok i load member
    exact each load (mem_append_right _ (by rw [if_neg (not_not.mpr ok)]; exact member))

theorem dnodeReadLoop_valid (sound : env.Sound raw) (fuel : Nat) (st : DnodeCache σ) (offset buflen : Nat) (out : Bytes)
    (valid : st.Valid env raw) (formed : (st.dnodes dnode).Formed env raw)
    (calm : ∀ load ∈ env.dnodeLoads fuel st dnode offset buflen, env.Undisturbed dnode load) :
    (env.dnodeReadLoop fuel st dnode offset buflen out).2.2.Valid env raw := by
  induction fuel generalizing st offset buflen out with
  | zero => exact valid
  | succ fuel ih =>
    rw [Env.dnodeReadLoop]
    by_cases done : buflen = 0
    · rw [if_pos done]
      exact valid
    rw [if_neg done]
    by_cases outside : (st.dnodes dnode).maxblkid < offset / (st.dnodes dnode).bsize
    · rw [if_pos outside]
      exact valid
    rw [if_neg outside]
    obtain ⟨here, later⟩ := mem_loads_here calm done outside
    have step := loadBlock_valid sound valid formed (not_lt.mp outside) here
    have same := loadBlock_dnodes env st dnode (offset / (st.dnodes dnode).bsize)
    generalize env.loadBlock st dnode (offset / (st.dnodes dnode).bsize) = reply at later step same ⊢
    obtain ⟨rc, after⟩ := reply
    dsimp only at later step same ⊢
    by_cases failed : rc ≠ 0
    · rw [if_pos failed]
      exact step
    · rw [if_neg failed]
      exact ih after _ _ _ step (same ▸ formed) (later (not_not.mp failed))

def Env.fileRead (env : Env δ σ) (raw : Blkptr → Bytes) (dnode : DnodePhys) : Nat → Nat → Nat → Bytes → Int × Bytes
  | 0, _, _, out => (0, out)
  | fuel + 1, offset, buflen, out =>
    if buflen = 0 then (0, out)
    else if dnode.maxblkid < offset / dnode.bsize then (eio, out)
    else
      let i := min (dnode.bsize - offset % dnode.bsize) buflen
      env.fileRead raw dnode fuel (offset + i) (buflen - i)
        (out ++ slice (offset % dnode.bsize) i (env.block raw dnode (offset / dnode.bsize)))

private theorem loadBlock_ok (fine : (st.obj = some dnode ∧ bn = st.bn) ∨ env.Loaded dnode (st, bn)) :
    (env.loadBlock st dnode bn).1 = 0 := by
  by_cases hit : st.obj = some dnode ∧ bn = st.bn
  · rw [Env.loadBlock, if_pos hit]
  have ok := fine.resolve_left hit
  rw [Env.Loaded] at ok
  rw [Env.loadBlock, if_neg hit]
  generalize env.descendDnode (st.dnodes dnode) bn st.buf st.world = reply at ok ⊢
  dsimp only at ok ⊢
  rw [if_neg (not_not.mpr ok)]

theorem dnodeReadLoop_eq (sound : env.Sound raw) (fuel : Nat) (st : DnodeCache σ) (offset buflen : Nat) (out : Bytes)
    (valid : st.Valid env raw) (formed : (st.dnodes dnode).Formed env raw)
    (loaded : ∀ load ∈ env.dnodeLoads fuel st dnode offset buflen, env.Loaded dnode load) :
    ((env.dnodeReadLoop fuel st dnode offset buflen out).1, (env.dnodeReadLoop fuel st dnode offset buflen out).2.1) =
      env.fileRead raw (st.dnodes dnode) fuel offset buflen out := by
  induction fuel generalizing st offset buflen out with
  | zero => rfl
  | succ fuel ih =>
    rw [Env.dnodeReadLoop, Env.fileRead]
    by_cases done : buflen = 0
    · rw [if_pos done, if_pos done]
    rw [if_neg done, if_neg done]
    by_cases outside : (st.dnodes dnode).maxblkid < offset / (st.dnodes dnode).bsize
    · rw [if_pos outside, if_pos outside]
    rw [if_neg outside, if_neg outside]
    obtain ⟨here, later⟩ := mem_loads_here loaded done outside
    have ok := loadBlock_ok here
    have step := loadBlock_valid sound valid formed (not_lt.mp outside) (here.imp_right fun fine => .inr (.inl fine))
    have tag := loadBlock_tag ok
    have same := loadBlock_dnodes env st dnode (offset / (st.dnodes dnode).bsize)
    generalize env.loadBlock st dnode (offset / (st.dnodes dnode).bsize) = reply at later ok step tag same ⊢
    obtain ⟨_, after⟩ := reply
    dsimp only at later ok step tag same ⊢
    rw [if_neg (not_not.mpr ok), ih after _ _ _ step (same ▸ formed) (later ok), same]
    have inside : offset % (st.dnodes dnode).bsize +
        min ((st.dnodes dnode).bsize - offset % (st.dnodes dnode).bsize) buflen ≤ (st.dnodes dnode).bsize := by
      have := Nat.mod_lt offset formed.bsize_pos
      omega
    have block := step.coherent dnode tag.1
    rw [same, tag.2] at block
    rw [← block, slice_take after.buf inside]

/-- What an event may not do. A dnode that is read describes an object, and no load of the call
spoils a cached block; a dnode does not change while a block of it is cached. -/
def Env.Calm (env : Env δ σ) (raw : Blkptr → Bytes) (st : DnodeCache σ) : DnodeEvent → Prop
  | .read dnode offset buflen => (st.dnodes dnode).Formed env raw ∧
      ∀ load ∈ env.dnodeLoads buflen st dnode offset buflen, env.Undisturbed dnode load
  | .close => True
  | .fill dnode _ => st.obj ≠ some dnode

def Env.CalmRun (env : Env δ σ) (raw : Blkptr → Bytes) : DnodeCache σ → List DnodeEvent → Prop
  | _, [] => True
  | st, event :: events => env.Calm raw st event ∧ env.CalmRun raw (env.dnodeStep st event) events

instance (env : Env δ σ) (raw : Blkptr → Bytes) (st : DnodeCache σ) :
    ∀ event, Decidable (env.Calm raw st event)
  | .read .. => inferInstanceAs (Decidable (_ ∧ _))
  | .close => isTrue trivial
  | .fill .. => inferInstanceAs (Decidable (_ ≠ _))

instance Env.decidableCalmRun (env : Env δ σ) (raw : Blkptr → Bytes) :
    ∀ st events, Decidable (env.CalmRun raw st events)
  | _, [] => isTrue trivial
  | st, event :: events =>
    have := env.decidableCalmRun raw (env.dnodeStep st event) events
    inferInstanceAs (Decidable (env.Calm raw st event ∧ _))

private theorem zfsClose_valid (st : DnodeCache σ) : (zfsClose st).Valid env raw := by
  constructor
  all_goals
    intro dnode cached
    cases cached

theorem dnodeStep_valid (sound : env.Sound raw) (valid : st.Valid env raw) {event : DnodeEvent}
    (calm : env.Calm raw st event) : (env.dnodeStep st event).Valid env raw := by
  cases event with
  | read dnode offset buflen => exact dnodeReadLoop_valid sound buflen st offset buflen [] valid calm.1 calm.2
  | close => exact zfsClose_valid st
  | fill dnode contents =>
    have kept : ∀ other, st.obj = some other → Function.update st.dnodes dnode contents other = st.dnodes other := by
      intro other cached
      refine Function.update_of_ne ?_ contents st.dnodes
      rintro rfl
      exact calm cached
    constructor
    · intro other cached
      simp only [Env.dnodeStep, kept other cached]
      exact valid.coherent other cached
    · intro other cached
      simp only [Env.dnodeStep, kept other cached]
      exact valid.formed other cached

theorem dnodeRun_valid (sound : env.Sound raw) (events : List DnodeEvent) (valid : st.Valid env raw)
    (calm : env.CalmRun raw st events) : (env.dnodeRun st events).Valid env raw := by
  induction events generalizing st with
  | nil => exact valid
  | cons _ events ih => exact ih (dnodeStep_valid sound valid calm.1) calm.2

/-- In every run whose loads spoil no cached block, the buffer holds the block that the tag names,
and a call that finds its first block cached returns what it would return with the cache emptied
first, as long as the pool can be read. -/
theorem dnode_cache_coherent (sound : env.Sound raw) (start : DnodeCache σ) (empty : start.obj = none)
    (events : List DnodeEvent) (calm : env.CalmRun raw start events) :
    let st := env.dnodeRun start events
    st.Coherent env raw ∧
      ∀ dnode offset buflen, st.obj = some dnode → offset / (st.dnodes dnode).bsize = st.bn →
        (∀ load ∈ env.dnodeLoads buflen st dnode offset buflen, env.Loaded dnode load) →
        (∀ load ∈ env.dnodeLoads buflen (zfsClose st) dnode offset buflen, env.Loaded dnode load) →
        (env.dnodeRead st dnode offset buflen).1 = (env.dnodeRead (zfsClose st) dnode offset buflen).1 ∧
          (env.dnodeRead st dnode offset buflen).2.1 = (env.dnodeRead (zfsClose st) dnode offset buflen).2.1 := by
  intro st
  have initial : start.Valid env raw := by
    constructor
    all_goals
      intro dnode cached
      rw [empty] at cached
      cases cached
  have valid : st.Valid env raw := dnodeRun_valid sound events initial calm
  refine ⟨valid.coherent, ?_⟩
  intro dnode offset buflen cached _ loaded reloaded
  have formed := (valid.formed dnode cached).1
  have hot := dnodeReadLoop_eq sound buflen st offset buflen [] valid formed loaded
  have cold := dnodeReadLoop_eq sound buflen (zfsClose st) offset buflen [] (zfsClose_valid st) formed reloaded
  exact Prod.mk.injEq .. ▸ hot.trans cold.symm

/-! A pool on one disk with two files: the first has one block, the second an indirect block and
a data block on a sector that cannot be read. -/

private def sampleBp (sector : Nat) : Blkptr where
  dva := [⟨false, 0, sector * 512, false⟩, ⟨true, 0, 0, false⟩, ⟨true, 0, 0, false⟩]
  psize := 512
  lsize := 512
  compress := zioCompressOff
  checksum := 7
  hole := false
  cksum := replicate 32 (UInt8.ofNat sector)

/-- A blkptr_t in memory: three DVAs, blk_prop, padding, the birth times, the fill count and the
checksum. -/
private def samplePtr (sector : Nat) : Bytes :=
  toLe 8 1 ++ toLe 8 sector ++ replicate 32 0 ++ [0, 0, 0, 0, 2, 7, 19, 128] ++ replicate 24 0 ++
    toLe 8 5 ++ toLe 8 1 ++ replicate 32 (UInt8.ofNat sector)

private def sampleDva (bs : Bytes) (i : Nat) : Dva where
  zero := le 8 (16 * i) bs = 0 && le 8 (16 * i + 8) bs = 0
  vdev := le 4 (16 * i + 4) bs
  offset := le 8 (16 * i + 8) bs % 2 ^ 63 * 512
  gang := 2 ^ 63 ≤ le 8 (16 * i + 8) bs

private def sampleDecode (bs : Bytes) : Blkptr where
  dva := [sampleDva bs 0, sampleDva bs 1, sampleDva bs 2]
  lsize := (le 2 48 bs + 1) * 512
  psize := (le 2 50 bs + 1) * 512
  compress := le 1 52 bs
  checksum := le 1 53 bs
  hole := le 8 80 bs = 0
  cksum := slice 96 32 bs

private def sampleSectors : Nat → Bytes
  | 8 => replicate 512 0x41
  | 16 => samplePtr 24 ++ replicate 384 0
  | 24 => replicate 512 0x42
  | _ => replicate 512 0

def sampleRaw (bp : Blkptr) : Bytes := sampleSectors ((bp.dva.map (·.offset)).sum / 512)

def sampleEnv : Env Unit Unit where
  physRead := fun _ offset _ buf _ =>
    let sector := (offset - vdevLabelStartSize) / 512
    if sector = 24 then (eio, buf, ()) else (0, put 0 (sampleSectors sector) buf, ())
  raidzRead := fun _ _ buf _ _ _ => (eio, buf, ())
  checksumVerify := fun bp bytes => if bytes = sampleRaw bp then 0 else 97
  decompressData := fun _ _ _ => (eio, [])
  blkptr := sampleDecode
  temp := fun _ => []
  depth := 4
  vdevs := [.mk 0 .healthy .disk 9 (some ()) []]

def sampleDnodes : Nat → DnodePhys
  | 0 => ⟨9, 1, 1, 0, fun _ => sampleBp 8⟩
  | _ => ⟨9, 1, 2, 0, fun _ => sampleBp 16⟩

def sampleCache : DnodeCache Unit := ⟨none, 0, replicate 512 0, sampleDnodes, ()⟩

private theorem sampleEnv_sound : sampleEnv.Sound sampleRaw := by
  constructor
  · intro bp bytes matched
    by_contra other
    simp [sampleEnv, other] at matched
  · intro vdev bp buf offset bytes w ok
    simp [sampleEnv, eio] at ok

theorem dnode_cache_coherent_after_close :
    let events := [.read 0 0 512, .read 0 10 20, .close, .read 1 0 512, .fill 1 (sampleDnodes 0), .read 0 0 512]
    sampleEnv.CalmRun sampleRaw sampleCache events ∧
      (sampleEnv.dnodeRun sampleCache events).Coherent sampleEnv sampleRaw := by
  refine ⟨by decide +kernel, ?_⟩
  exact (dnode_cache_coherent sampleEnv_sound sampleCache rfl _ (by decide +kernel)).1

/-- Reading the second file fails behind its indirect block, which then passes for the block of
the first file. -/
theorem dnode_cache_keeps_stale_tag :
    let st := sampleEnv.dnodeRun sampleCache [.read 0 0 512, .read 1 0 512]
    sampleEnv.Sound sampleRaw ∧ (∀ dnode, (sampleDnodes dnode).Formed sampleEnv sampleRaw) ∧
      st.obj = some 0 ∧ st.bn = 0 ∧ ¬ st.Coherent sampleEnv sampleRaw ∧
      (sampleEnv.dnodeRead st 0 0 512).1 = 0 ∧ (sampleEnv.dnodeRead (zfsClose st) 0 0 512).1 = 0 ∧
      (sampleEnv.dnodeRead st 0 0 512).2.1 ≠ (sampleEnv.dnodeRead (zfsClose st) 0 0 512).2.1 := by
  intro st
  have formed : ∀ dnode, (sampleDnodes dnode).Formed sampleEnv sampleRaw
    | 0 => by decide +kernel
    | _ + 1 => by
      rw [sampleDnodes]
      · decide +kernel
      · simp
  have tagged : st.obj = some 0 := by decide +kernel
  refine ⟨sampleEnv_sound, formed, tagged, by decide +kernel, ?_, by decide +kernel⟩
  intro coherent
  have stale : st.buf.take (st.dnodes 0).bsize ≠ sampleEnv.block sampleRaw (st.dnodes 0) st.bn := by decide +kernel
  exact stale (coherent 0 tagged)

end Pcbsd.Zfs
