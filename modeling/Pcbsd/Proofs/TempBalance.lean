import Pcbsd.Zfs.Temp

/-! Temporary memory is given back on every path, unless a piece of it begins where the buffer lies that it stands in
for: zio_read compares the two pointers to find out whether it took a piece. -/

namespace Pcbsd.Zfs.TempEnv
open Lib Lib.Scratch

variable {δ σ : Type} (env : TempEnv δ σ)

/-- The functions of this model give back what they take, with `chain` held by their callers. -/
abbrev Returns {α : Type} (chain : List Nat) (program : Program σ α) : Prop :=
  GivesBack (env.tempBuf + tempSize) chain program

theorem deliver_returns (chain : List Nat) (vdev : Vdev δ) (bp : Blkptr) (pbuf buf : Nat) (error : Int) :
    env.Returns chain (env.deliver vdev bp pbuf buf error) := by
  unfold deliver
  split
  · exact .pure error
  · split
    · exact .act _
    · split
      · exact .act _
      · exact .pure 0

variable {gang read : List Nat → Blkptr → Nat → Program σ Int}

theorem readCopy_returns (inside : ∀ chain bp buf, env.Returns chain (gang chain bp buf)) (chain : List Nat)
    (vdev : Vdev δ) (dva : Dva) (bp : Blkptr) (pbuf : Nat) :
    env.Returns chain (env.readCopy gang chain vdev dva bp pbuf) := by
  unfold readCopy
  split
  · exact inside chain bp pbuf
  · exact .act _

theorem readDva_returns (inside : ∀ chain bp buf, env.Returns chain (gang chain bp buf)) (chain : List Nat)
    (vdev : Vdev δ) (dva : Dva) (bp : Blkptr) (buf : Nat) :
    env.Returns chain (env.readDva gang chain vdev dva bp buf) := by
  have read : ∀ chain pbuf, env.Returns chain ((env.readCopy gang chain vdev dva bp pbuf).bind (env.deliver vdev bp pbuf buf)) :=
    fun chain pbuf => (env.readCopy_returns inside chain vdev dva bp pbuf).bind (env.deliver_returns chain vdev bp pbuf buf)
  unfold readDva
  dsimp only
  split
  · exact .bracket fun pbuf => read _ pbuf
  · exact read chain buf

theorem zioReadLoop_returns (inside : ∀ chain bp buf, env.Returns chain (gang chain bp buf)) (chain : List Nat)
    (bp : Blkptr) (buf : Nat) (dvas : List Dva) (error : Int) :
    env.Returns chain (env.zioReadLoop gang chain bp buf dvas error) := by
  induction dvas generalizing error with
  | nil => exact .pure error
  | cons dva dvas ih =>
    rw [zioReadLoop]
    split
    · exact ih error
    · split
      · exact ih error
      · rename_i vdev _
        apply GivesBack.bind (env.readDva_returns inside chain vdev dva bp buf)
        intro error
        split
        · exact .pure 0
        · exact ih error

theorem zioReadPieces_returns (inside : ∀ chain bp buf, env.Returns chain (read chain bp buf)) (chain : List Nat)
    (gb : Nat) (gbps : List Nat) (pbuf : Nat) : env.Returns chain (env.zioReadPieces read chain gb gbps pbuf) := by
  induction gbps generalizing pbuf with
  | nil => exact .pure 0
  | cons _ gbps ih =>
    apply GivesBack.bind (.act _)
    intro gbp
    split
    · exact ih pbuf
    · apply GivesBack.bind (inside chain gbp pbuf)
      intro rc
      split
      · exact .pure eio
      · exact ih _

theorem zioReadGang_returns (inside : ∀ chain bp buf, env.Returns chain (read chain bp buf)) (gb : Nat)
    (chain : List Nat) (bp : Blkptr) (buf : Nat) : env.Returns chain (env.zioReadGang read gb chain bp buf) := by
  apply GivesBack.bind (inside chain (Env.gbhBp bp) gb)
  intro rc
  split
  · exact .pure eio
  · apply GivesBack.bind (env.zioReadPieces_returns inside chain gb _ buf)
    intro rc
    split
    · exact .pure eio
    · exact .act _

variable (depth : Nat)

/-- zio_read and zio_read_gang call each other; the induction is on the depth of the calls. -/
theorem zioRead_returns (chain : List Nat) (bp : Blkptr) (buf : Nat) : env.Returns chain
    (env.zioRead depth chain bp buf) := by
  induction depth generalizing chain bp buf with
  | zero => exact .stuck
  | succ depth ih => exact env.zioReadLoop_returns (env.zioReadGang_returns ih (env.zioGb depth)) chain bp buf bp.dva eio

theorem descend_returns (chain : List Nat) (ibshift bn k : Nat) (indbp : Nat → σ → Blkptr) :
    env.Returns chain (env.descend depth chain ibshift bn k indbp) := by
  induction k generalizing indbp with
  | zero => exact .pure 0
  | succ k ih =>
    apply GivesBack.bind (.act _)
    intro bp
    apply GivesBack.bind (env.zioRead_returns depth chain bp env.cacheBuf)
    intro rc
    split
    · exact .pure rc
    · exact ih _

theorem loadBlock_returns (chain : List Nat) (dnode ibshift nlevels bn : Nat) :
    env.Returns chain (env.loadBlock depth chain dnode ibshift nlevels bn) := by
  apply GivesBack.bind (.act _)
  intro cached
  split
  · exact .pure 0
  · apply GivesBack.bind (env.descend_returns depth chain ibshift bn nlevels _)
    intro rc
    split
    · exact .pure rc
    · exact .act _

theorem dnodeReadLoop_returns (chain : List Nat) (dnode bsize ibshift nlevels fuel offset buf buflen : Nat) :
    env.Returns chain (env.dnodeReadLoop depth chain dnode bsize ibshift nlevels fuel offset buf buflen) := by
  induction fuel generalizing offset buf buflen with
  | zero => exact .pure 0
  | succ fuel ih =>
    rw [dnodeReadLoop]
    split
    · exact .pure 0
    · split
      · exact .stuck
      · apply GivesBack.bind (.act _)
        intro maxblkid
        split
        · exact .pure eio
        · apply GivesBack.bind (env.loadBlock_returns depth chain dnode ibshift nlevels _)
          intro rc
          split
          · exact .pure rc
          · apply GivesBack.bind (.act _)
            intro _
            exact ih _ _ _

theorem dnodeRead_returns (chain : List Nat) (dnode offset buf buflen : Nat) :
    env.Returns chain (env.dnodeRead depth chain dnode offset buf buflen) := by
  apply GivesBack.bind (.act _)
  intro dn
  exact env.dnodeReadLoop_returns depth chain dnode dn.bsize dn.ibshift dn.nlevels buflen offset buf buflen

theorem zfsDnodeStat_spill (chain : List Nat) (bp : Blkptr) :
    ((env.zfsAlloc chain none bp.lsize).bind fun buf =>
      (env.zioRead depth (bp.lsize % sizeValues :: chain) bp buf).bind fun error =>
      if error ≠ 0 then (zfsFree buf bp.lsize).bind fun _ => .pure (Except.error error : Except Int Stat)
      else
        (Program.act fun w => (env.saStat buf w, w)).bind fun sb =>
        (zfsFree buf bp.lsize).bind fun _ => .pure (.ok sb)) =
    ((env.zfsAlloc chain none bp.lsize).bind fun buf =>
      ((env.zioRead depth (bp.lsize % sizeValues :: chain) bp buf).bind fun error =>
        if error ≠ 0 then .pure (.error error) else Program.act fun w => (.ok (env.saStat buf w), w)).bind fun stat =>
      (if none ≠ some buf then zfsFree buf bp.lsize else .pure ()).bind fun _ => .pure stat) := by
  congr 1
  funext buf
  rw [bind_assoc]
  congr 1
  funext error
  split
  · rfl
  · rfl

theorem zfsDnodeStat_returns (chain : List Nat) (dn : Bonus) : env.Returns chain (env.zfsDnodeStat depth chain dn) := by
  unfold zfsDnodeStat
  split
  · exact .pure _
  · split
    · exact .pure _
    · split
      · exact .pure _
      · rename_i bp _
        rw [zfsDnodeStat_spill]
        apply GivesBack.bracket
        intro buf
        apply GivesBack.bind (env.zioRead_returns depth _ bp buf)
        intro error
        split
        · exact .pure _
        · exact .act _

theorem vdevProbe_returns (chain : List Nat) (begins : σ → Except Int (Nat × Nat) × σ) (slot : Nat → Nat → σ → σ) :
    env.Returns chain (env.vdevProbe chain begins slot) := by
  apply GivesBack.bind (.act _)
  rintro (rc | ⟨size, count⟩)
  · exact .pure rc
  · have around : env.Returns chain (((env.zfsAlloc chain none size).bind fun upbuf =>
        (Program.act fun w => ((), (List.range count).foldl (fun w i => slot upbuf i w) w)).bind fun value =>
        (if none ≠ some upbuf then zfsFree upbuf size else .pure ()).bind fun _ => .pure value).bind fun _ => .pure (0 : Int)) :=
      .bind (.bracket fun _ => .act _) fun _ => .pure 0
    simpa only [bind_assoc, pure_bind, ne_eq, reduceCtorEq, not_false_eq_true, if_true] using around

inductive Call (σ : Type) where
  | zioRead (bp : Blkptr) (buf : Nat)
  | zioReadGang (bp : Blkptr) (buf : Nat)
  | dnodeRead (dnode offset buf buflen : Nat)
  | zfsDnodeStat (dn : Bonus)
  | vdevProbe (begins : σ → Except Int (Nat × Nat) × σ) (slot : Nat → Nat → σ → σ)

def Call.run (depth : Nat) (chain : List Nat) : Call σ → Program σ Unit
  | .zioRead bp buf => (env.zioRead depth chain bp buf).bind fun _ => .pure ()
  | .zioReadGang bp buf => (env.zioReadGang (env.zioRead depth) (env.zioGb depth) chain bp buf).bind fun _ => .pure ()
  | .dnodeRead dnode offset buf buflen => (env.dnodeRead depth chain dnode offset buf buflen).bind fun _ => .pure ()
  | .zfsDnodeStat dn => (env.zfsDnodeStat depth chain dn).bind fun _ => .pure ()
  | .vdevProbe begins slot => (env.vdevProbe chain begins slot).bind fun _ => .pure ()

theorem Call.run_returns (chain : List Nat) (call : Call σ) : env.Returns chain (call.run env depth chain) := by
  cases call with
  | zioRead bp buf => exact (env.zioRead_returns depth chain bp buf).bind fun _ => .pure ()
  | zioReadGang bp buf => exact (env.zioReadGang_returns (env.zioRead_returns depth) _ chain bp buf).bind fun _ => .pure ()
  | dnodeRead dnode offset buf buflen => exact (env.dnodeRead_returns depth chain dnode offset buf buflen).bind fun _ => .pure ()
  | zfsDnodeStat dn => exact (env.zfsDnodeStat_returns depth chain dn).bind fun _ => .pure ()
  | vdevProbe begins slot => exact (env.vdevProbe_returns chain begins slot).bind fun _ => .pure ()

def entry (chain : List Nat) (w : σ) : Scratch.State σ := ⟨env.tempBuf + chain.sum, [], w⟩

/-- How a call may end: zfs_temp_ptr is where it was, zfs_free finds what it expects, and zfs_alloc has no room only
when the sizes that are held do not leave any. -/
def Balanced (chain : List Nat) (result : Outcome Unit × Scratch.State σ) : Prop :=
  (result.1 = .returned () → result.2.ptr = env.tempBuf + chain.sum) ∧ result.1 ≠ .mismatch ∧
    ∀ live size, result.1 = .exhausted live size → chain <:+ live ∧ tempSize < live.sum + size

def Over (result : Outcome Unit × Scratch.State σ) : Prop := result.1 = .returned () ∨ result.1 = .mismatch

/-- A call is balanced when none of its pieces lies on the buffer that it stands in for, and no other call that is
over is balanced. -/
theorem temp_balanced (depth : Nat) (chain : List Nat) (call : Call σ) (w : σ) :
    ((∀ piece ∈ (call.run env depth chain (env.entry chain w)).2.log, piece.Kept) →
      env.Balanced chain (call.run env depth chain (env.entry chain w))) ∧
    (Over (call.run env depth chain (env.entry chain w)) → env.Balanced chain (call.run env depth chain (env.entry chain w)) →
      ∀ piece ∈ (call.run env depth chain (env.entry chain w)).2.log, piece.Kept) := by
  have returns := call.run_returns env depth chain (env.entry chain w)
  generalize call.run env depth chain (env.entry chain w) = result at returns ⊢
  obtain ⟨log, logged, ends⟩ := returns
  rcases result with ⟨outcome, t⟩
  have all : t.log = log := logged
  rw [all, ← leak_eq_zero]
  cases outcome with
  | returned _ =>
    have moved : t.ptr = env.tempBuf + chain.sum + leak log := ends
    refine ⟨fun even => ⟨fun _ => by rw [moved, even]; rfl, by simp, by simp⟩, fun _ balanced => ?_⟩
    have same := balanced.1 rfl
    dsimp only at same
    omega
  | exhausted live size =>
    obtain ⟨extra, split, full⟩ := ends
    dsimp only [entry] at full
    refine ⟨fun even => ⟨by simp, by simp, ?_⟩, fun over_ => absurd over_ (by simp [Over])⟩
    rintro live' size' same
    obtain ⟨rfl, rfl⟩ : live = live' ∧ size = size' := by simpa using same
    refine ⟨⟨extra, split.symm⟩, ?_⟩
    rw [split, List.sum_append]
    omega
  | mismatch => exact ⟨fun even => absurd even ends, fun _ balanced => absurd rfl balanced.2.1⟩
  | stuck => exact ⟨fun _ => ⟨by simp, by simp, by simp⟩, fun over_ => absurd over_ (by simp [Over])⟩

def pieceBp (gang : Bool) (compress : Nat) (hole : Bool) : Blkptr :=
  ⟨[⟨false, 0, 0, gang⟩], 512, 512, compress, 0, hole, []⟩

/-- One disk that reads everything, and gang headers of two pieces, of which the second one is compressed. -/
def gangDisk : TempEnv Unit Unit where
  vdevs := [.mk 0 .healthy .disk 9 (some ()) []]
  vRead := fun _ _ _ _ _ w => (0, w)
  decompressData := fun _ _ _ _ _ w => (0, w)
  bcopy := fun _ _ _ w => w
  checksumVerify := fun _ _ _ => 0
  blkptr := fun _ i _ => pieceBp false (if i = 1 then 3 else zioCompressOff) (i == 2)
  dnode := fun _ _ => ⟨7, 1, 1, 0, fun _ => pieceBp false zioCompressOff false⟩
  cached := fun _ _ _ => false
  setCached := fun _ _ w => w
  layout := ⟨fun _ => ⟨0, 0⟩, fun _ => ⟨0, 0⟩⟩
  saStat := fun _ _ => ⟨0, 0⟩
  zioGb := fun _ => 0x1000
  tempBuf := 0x200000
  cacheBuf := 0x100000

/-- The block is compressed and as long as the first piece, so the second piece is read to the end of the temporary
memory. -/
theorem gang_mismatch :
    ¬ ∀ (env : TempEnv Unit Unit) (depth : Nat) (chain : List Nat) (call : Call Unit) (w : Unit),
      env.Balanced chain (call.run env depth chain (env.entry chain w)) := by
  intro balanced
  have hangs : ((Call.zioRead (pieceBp true 3 false) 0x100000).run gangDisk 3 [] (gangDisk.entry [] ())).1 =
    .mismatch := by decide
  exact (balanced gangDisk 3 [] (.zioRead (pieceBp true 3 false) 0x100000) ()).2.1 hangs

end Pcbsd.Zfs.TempEnv
