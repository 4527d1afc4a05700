import Pcbsd.Lib.Registers
import Pcbsd.Vgaeffects
import Mathlib.Data.List.Basic

/-! The registers behind the banner: which of them hold their first values again when it has slid away. -/

namespace Pcbsd.Proofs.VideoRegisters
open Lib.Registers Vgaeffects List Function

def savedRegisters : List UInt8 := [0x18, 7, 9, 0xc, 0xd]

/-- Only the saved registers of the CRTC, bit 4 of its register 7 and the sequencer may differ. -/
structure Moved (s s' : Vga) : Prop where
  crtc : SameBut savedRegisters s.crtc s'.crtc
  seven : s'.crtc 7 &&& 0xef = s.crtc 7 &&& 0xef
  attr : s'.attr = s.attr
  saved : s'.saved = s.saved

structure Slid (s s' : Vga) : Prop extends Moved s s' where
  seq : s'.seq = s.seq

variable (bios : Latches → Latches) {s s' s'' : Vga}

theorem Moved.refl (s : Vga) : Moved s s := ⟨SameBut.refl _ _, rfl, rfl, rfl⟩

theorem Moved.trans (first : Moved s s') (second : Moved s' s'') : Moved s s'' :=
  ⟨first.crtc.trans second.crtc, second.seven.trans first.seven, second.attr.trans first.attr, second.saved.trans first.saved⟩

theorem Slid.refl (s : Vga) : Slid s s := ⟨Moved.refl s, rfl⟩

theorem Slid.trans (first : Slid s s') (second : Slid s' s'') : Slid s s'' :=
  ⟨first.toMoved.trans second.toMoved, second.seq.trans first.seq⟩

theorem and_or_distrib_right (a b c : UInt8) : (a ||| b) &&& c = a &&& c ||| b &&& c :=
  UInt8.toBitVec_inj.mp BitVec.and_or_distrib_right

theorem and_or_distrib_left (a b c : UInt8) : a &&& (b ||| c) = a &&& b ||| a &&& c :=
  UInt8.toBitVec_inj.mp BitVec.and_or_distrib_left

theorem others_kept (a b : UInt8) : (a &&& 0xef ||| b &&& 0x10) &&& 0xef = a &&& 0xef := by
  have apart : (0x10 : UInt8) &&& 0xef = 0 := by decide
  rw [and_or_distrib_right, UInt8.and_assoc, UInt8.and_self, UInt8.and_assoc, apart, UInt8.and_zero, UInt8.or_zero]

theorem whole (a : UInt8) : a &&& 0xef ||| a &&& 0x10 = a := by
  have all : (0xef : UInt8) ||| 0x10 = -1 := by decide
  rw [← and_or_distrib_left, all, UInt8.and_neg_one]

section

variable {crtc : UInt8 → UInt8} {r value : UInt8}

theorem crtcWrite_other (crtc : UInt8 → UInt8) (value : UInt8) {i : UInt8} (other : i ≠ r) :
    crtcWrite crtc r value i = crtc i := by
  rw [crtcWrite]
  split
  · split
    next seven =>
      subst seven
      exact update_of_ne other ..
    next => rfl
  · exact update_of_ne other ..

theorem crtcWrite_self (crtc : UInt8 → UInt8) (value : UInt8) (free : 8 ≤ r) : crtcWrite crtc r value r = value := by
  have outside : ¬ (r < 8 ∧ crtc 0x11 &&& 0x80 ≠ 0) := fun both => absurd both.1 (UInt8.not_lt.mpr free)
  rw [crtcWrite, if_neg outside, update_self]

theorem crtcWrite_seven (same : value &&& 0xef = crtc 7 &&& 0xef) : crtcWrite crtc 7 value 7 &&& 0xef = crtc 7 &&& 0xef := by
  rw [crtcWrite]
  split
  · rw [if_pos rfl, update_self, others_kept]
  · rw [update_self, same]

theorem crtcWrite_seven_self (same : crtc 7 &&& 0xef = value &&& 0xef) : crtcWrite crtc 7 value 7 = value := by
  rw [crtcWrite]
  split
  · rw [if_pos rfl, update_self, same, whole]
  · rw [update_self]

theorem crtcWrite_same (member : r ∈ savedRegisters) (crtc : UInt8 → UInt8) (value : UInt8) :
    SameBut savedRegisters crtc (crtcWrite crtc r value) := by
  intro i outside
  apply crtcWrite_other
  rintro rfl
  exact outside member

end

theorem outReg_seq (r value : UInt8) (s : Vga) : outReg 0x3c4 r value s =
    { s with latches := { s.latches with seq := r }, seq := update s.seq r value } := rfl

theorem outReg_gfx (r value : UInt8) (s : Vga) : outReg 0x3ce r value s =
    { s with latches := { s.latches with gfx := r }, gfx := update s.gfx r value } := rfl

theorem outReg_slid {r : UInt8} (member : r ∈ savedRegisters) (apart : 7 ≠ r) (value : UInt8) (s : Vga) : Slid s
    (outReg 0x3d4 r value s) := by
  refine ⟨⟨crtcWrite_same member s.crtc value, ?_, rfl, rfl⟩, rfl⟩
  exact congrArg (· &&& 0xef) (crtcWrite_other s.crtc value apart)

theorem changeReg_slid {r : UInt8} (member : r ∈ savedRegisters) (change : UInt8 → UInt8)
    (apart : 7 = r → ∀ v, change v &&& 0xef = v &&& 0xef)
    (s : Vga) : Slid s (changeReg 0x3d4 r change s) := by
  refine ⟨⟨crtcWrite_same member s.crtc _, ?_, rfl, rfl⟩, rfl⟩
  by_cases seven : 7 = r
  · subst seven
    exact crtcWrite_seven (apart rfl _)
  · exact congrArg (· &&& 0xef) (crtcWrite_other s.crtc _ seven)

theorem vgaSync_slid (s : Vga) : Slid s (vgaSync s) := ⟨⟨SameBut.refl _ _, rfl, rfl, rfl⟩, rfl⟩

theorem splitLine_slid (s : Vga) : Slid s (splitLine s).2 := ⟨⟨SameBut.refl _ _, rfl, rfl, rfl⟩, rfl⟩

theorem setSplit_slid (scanline : Int) (s : Vga) : Slid s (setSplit scanline s) := by
  have first : Slid s (outReg 0x3d4 0x18 (low scanline) s) := outReg_slid (by decide) (by decide) _ s
  have second (t : Vga) := changeReg_slid (r := 7) (by decide)
    (fun value => value &&& (0xef : UInt8) ||| low (shiftRight scanline 4) &&& (0x10 : UInt8))
      (fun _ v => others_kept v _) t
  have third (t : Vga) := changeReg_slid (r := 9) (by decide)
    (fun value => value &&& (0xbf : UInt8) ||| low (shiftRight scanline 3) &&& (0x40 : UInt8))
      (fun seven => absurd seven (by decide)) t
  exact (first.trans (second _)).trans (third _)

theorem sync_setSplit_slid (scanline : Int) (s : Vga) : Slid s (setSplit scanline (vgaSync s)) :=
  (vgaSync_slid s).trans (setSplit_slid scanline (vgaSync s))

theorem frames_slid (scanline : Nat → Int) (l : List Nat) (s : Vga) :
    Slid s (l.foldl (fun s framecnt => setSplit (scanline framecnt) (vgaSync s)) s) :=
  foldlRecOn l _ (Slid.refl s) fun t slid framecnt _ => slid.trans (sync_setSplit_slid (scanline framecnt) t)

theorem vgaSlidedown_slid (totallines : Int) (s : Vga) : Slid s (vgaSlidedown totallines s) := by
  exact ((splitLine_slid s).trans (frames_slid _ _ _)).trans (sync_setSplit_slid _ _)

theorem setColor_slid (register : Int) (color : Int × Int × Int) (s : Vga) : Slid s (setColor bios register color s) :=
  ⟨⟨SameBut.refl _ _, rfl, rfl, rfl⟩, rfl⟩

theorem vgaSetpalette_slid (s : Vga) : Slid s (vgaSetpalette bios s) :=
  foldlRecOn _ _ (Slid.refl s) fun t slid _ _ => (slid.trans (setColor_slid bios _ _ t)).trans (setColor_slid bios _ _ _)

structure Painted (n : Nat) (s s' : Vga) : Prop where
  crtc : s'.crtc = s.crtc
  seq : s'.seq = s.seq
  attr : ∀ r, s'.attr r = if r.toNat < n then r else s.attr r
  saved : s'.saved = s.saved

theorem v86int_palette (ebx : Int) (s : Vga) : v86int bios 0x1000 ebx 0 0 s =
    { s with latches := bios s.latches, attr := update s.attr (low ebx) (low (shiftRight ebx 8)) } := rfl

theorem painted_range (n : Nat) (small : n ≤ 16) (s : Vga) :
    Painted n s ((range n).foldl (fun s (f : Nat) => v86int bios 0x1000 (f + f * 2 ^ 8) 0 0 s) s) := by
  induction n with
  | zero => exact ⟨rfl, rfl, fun r => (if_neg (Nat.not_lt_zero _)).symm, rfl⟩
  | succ n ih =>
    obtain ⟨crtc, seq, attr, saved⟩ := ih (by omega)
    have register : low (n + n * 2 ^ 8) = UInt8.ofNat n := by
      rw [low]
      congr 1
      omega
    have value : low (shiftRight (n + n * 2 ^ 8) 8) = UInt8.ofNat n := by
      have high : ((n : Int) + n * 2 ^ 8) / 2 ^ 8 = n := by omega
      rw [low, shiftRight, high]
      congr 1
      omega
    rw [range_succ, foldl_append, foldl_cons, foldl_nil, v86int_palette, register, value]
    refine ⟨crtc, seq, fun r => ?_, saved⟩
    dsimp only
    have back : (UInt8.ofNat n).toNat = n := UInt8.toNat_ofNat_of_lt' (Nat.lt_trans small (by decide))
    by_cases here : r = UInt8.ofNat n
    · subst here
      rw [update_self, back, if_pos (Nat.lt_succ_self n)]
    · have apart : r.toNat ≠ n := by
        intro same
        apply here
        rw [← same, UInt8.ofNat_toNat]
      have either : r.toNat < n ↔ r.toNat < n + 1 := by omega
      rw [update_of_ne here]
      simp only [← either]
      exact attr r

theorem setColors_slid (s : Vga) : Slid s (setColors bios s) :=
  foldlRecOn _ _ (Slid.refl s) fun t slid _ _ => slid.trans (setColor_slid bios _ _ t)

theorem setColors_crtc (s : Vga) : (setColors bios s).crtc = s.crtc :=
  foldlRecOn (motive := fun t : Vga => t.crtc = s.crtc) _ _ rfl fun _ same _ _ => same

theorem vgaInitpalette_painted (s : Vga) : Painted 16 s (vgaInitpalette bios s) := by
  have first : Painted 16 s (setPalette bios s) := painted_range bios 16 le_rfl s
  rw [vgaInitpalette]
  generalize setPalette bios s = t at first
  have colors := setColors_slid bios t
  refine ⟨(setColors_crtc bios t).trans first.crtc, colors.seq.trans first.seq, fun r => ?_, colors.saved.trans first.saved⟩
  exact first.attr r

def logoSeq (seq : UInt8 → UInt8) : UInt8 → UInt8 := fun r => if r = 3 then 4 else if r = 2 ∨ r = 4 then 3 else seq r

theorem vgaPrintlogo_seq (s : Vga) : Moved s (vgaPrintlogo bios s) ∧ (vgaPrintlogo bios s).seq = logoSeq s.seq := by
  have palette := vgaSetpalette_slid bios s
  rw [vgaPrintlogo]
  simp only [vgaUnmapfonts, vgaMapfonts, outReg_seq, outReg_gfx]
  refine ⟨⟨palette.crtc, palette.seven, palette.attr, palette.saved⟩, ?_⟩
  rw [← palette.seq]
  funext r
  simp only [update_apply, logoSeq]
  split_ifs <;> simp_all

theorem vgaShowbanner_seq (s : Vga) : Moved s (vgaShowbanner bios s) ∧ (vgaShowbanner bios s).seq = logoSeq s.seq := by
  obtain ⟨moved, seq⟩ := vgaPrintlogo_seq bios s
  have slid := vgaSlidedown_slid numlines (vgaPrintlogo bios s)
  exact ⟨moved.trans slid.toMoved, slid.seq.trans seq⟩

theorem logoSeq_twice (seq : UInt8 → UInt8) : logoSeq (logoSeq seq) = logoSeq seq := by
  funext r
  rw [logoSeq, logoSeq]
  split_ifs <;> rfl

theorem banners_seq (n : Nat) (s : Vga) :
    Moved s ((vgaShowbanner bios)^[n] s) ∧ ((vgaShowbanner bios)^[n] s).seq = if n = 0 then s.seq else logoSeq s.seq := by
  induction n with
  | zero => exact ⟨Moved.refl s, rfl⟩
  | succ n ih =>
    obtain ⟨moved, seq⟩ := ih
    obtain ⟨next, seq'⟩ := vgaShowbanner_seq bios ((vgaShowbanner bios)^[n] s)
    rw [iterate_succ_apply', if_neg (Nat.succ_ne_zero n)]
    refine ⟨moved.trans next, ?_⟩
    rw [seq', seq]
    split
    · rfl
    · exact logoSeq_twice s.seq

/-- What vga_init leaves behind: the saved values, eight dots a character, and the palette. -/
structure Begun (s s' : Vga) : Prop where
  crtc : SameBut savedRegisters s.crtc s'.crtc
  seven : s'.crtc 7 &&& 0xef = s.crtc 7 &&& 0xef
  seq : s'.seq = update s.seq 1 (s.seq 1 ||| 1)
  attr : ∀ r, r ≠ 0x10 → s'.attr r = if r.toNat < 16 then r else s.attr r
  saved : map s'.saved [0, 1, 2, 3, 4, 5] = [s.crtc 0x18, s.crtc 7, s.crtc 9, s.crtc 0xc, s.crtc 0xd, s.attr 0x10]

theorem mode_index : (0x30 : UInt8) &&& 0x1f = 0x10 := by decide

def saveAll (s : Vga) : Vga :=
  let s := (isaInb 0x3da (vgaSync s)).2
  let s := save 5 (isaInb 0x3c1 (isaOutb 0x3c0 0x30 s))
  let s := (isaInb 0x3da s).2
  let s := save 0 (inReg 0x3d4 0x18 s)
  let s := save 1 (inReg 0x3d4 7 s)
  let s := save 2 (inReg 0x3d4 9 s)
  let s := save 3 (inReg 0x3d4 0xc s)
  vgaSync (save 4 (inReg 0x3d4 0xd s))

theorem saveAll_spec (s : Vga) : (saveAll s).crtc = s.crtc ∧ (saveAll s).seq = s.seq ∧ (saveAll s).attr = s.attr ∧
    map (saveAll s).saved [0, 1, 2, 3, 4, 5] = [s.crtc 0x18, s.crtc 7, s.crtc 9, s.crtc 0xc, s.crtc 0xd, s.attr 0x10] :=
  ⟨rfl, rfl, rfl, by simp [saveAll, save, inReg, isaInb, isaOutb, vgaSync, update, mode_index]⟩

theorem window_slid (s : Vga) : Slid s (outReg 0x3d4 0xd 0 (outReg 0x3d4 0xc 0x30 (setSplit 0 s))) := by
  have first := setSplit_slid 0 s
  have second (t : Vga) : Slid t (outReg 0x3d4 0xc 0x30 t) := outReg_slid (by decide) (by decide) _ t
  have third (t : Vga) : Slid t (outReg 0x3d4 0xd 0 t) := outReg_slid (by decide) (by decide) _ t
  exact (first.trans (second _)).trans (third _)

theorem changeReg_seq (r : UInt8) (change : UInt8 → UInt8) (s : Vga) : changeReg 0x3c4 r change s =
    { s with latches := { s.latches with seq := r }, seq := update s.seq r (change (s.seq r)) } := rfl

theorem vgaInit_begun (s : Vga) : Begun s (vgaInit bios s) := by
  obtain ⟨crtc, seq, attr, saved⟩ := saveAll_spec s
  have unfolded : vgaInit bios s = vgaInitpalette bios (changeReg 0x3c4 1 (· ||| 1)
      (outReg 0x3d4 0xd 0 (outReg 0x3d4 0xc 0x30 (setSplit 0 (v86int bios 0x1003 0 0 0 (saveAll s)))))) := rfl
  have blink : ∀ r, r ≠ 0x10 → (v86int bios 0x1003 0 0 0 (saveAll s)).attr r = s.attr r := by
    intro r other
    exact update_of_ne other ..
  have window := window_slid (v86int bios 0x1003 0 0 0 (saveAll s))
  rw [unfolded]
  generalize outReg 0x3d4 0xd 0 (outReg 0x3d4 0xc 0x30 (setSplit 0 (v86int bios 0x1003 0 0 0 (saveAll s)))) = t at window
  have painted := vgaInitpalette_painted bios (changeReg 0x3c4 1 (· ||| 1) t)
  rw [changeReg_seq] at painted ⊢
  refine ⟨?_, ?_, ?_, fun r other => ?_, ?_⟩
  · rw [painted.crtc, ← crtc]
    exact window.crtc
  · rw [painted.crtc, ← crtc]
    exact window.seven
  · rw [painted.seq, ← seq]
    have same : t.seq = (saveAll s).seq := window.seq
    rw [← same]
  · rw [painted.attr r, window.attr, blink r other]
  · rw [painted.saved, ← saved]
    exact congrArg (map · _) window.saved

section

variable {crtc : UInt8 → UInt8} {a b c d e : UInt8}

def restoreCrtc (crtc : UInt8 → UInt8) (a b c d e : UInt8) : UInt8 → UInt8 :=
  crtcWrite (crtcWrite (crtcWrite (crtcWrite (crtcWrite crtc 0xc d) 0xd e) 0x18 a) 7 b) 9 c

theorem restoreCrtc_back {first : UInt8 → UInt8} (same : SameBut savedRegisters first crtc)
    (seven : crtc 7 &&& 0xef = first 7 &&& 0xef) :
    restoreCrtc crtc (first 0x18) (first 7) (first 9) (first 0xc) (first 0xd) = first := by
  have kept : SameBut savedRegisters crtc
    (restoreCrtc crtc (first 0x18) (first 7) (first 9) (first 0xc) (first 0xd)) := by
    have one := crtcWrite_same (r := 0xc) (by decide) crtc (first 0xc)
    have two (x : UInt8 → UInt8) := crtcWrite_same (r := 0xd) (by decide) x (first 0xd)
    have three (x : UInt8 → UInt8) := crtcWrite_same (r := 0x18) (by decide) x (first 0x18)
    have four (x : UInt8 → UInt8) := crtcWrite_same (r := 7) (by decide) x (first 7)
    have five (x : UInt8 → UInt8) := crtcWrite_same (r := 9) (by decide) x (first 9)
    exact (((one.trans (two _)).trans (three _)).trans (four _)).trans (five _)
  apply (same.trans kept).restored
  have apart : ∀ {i r : UInt8} (value : UInt8) (x : UInt8 → UInt8), i ≠ r → crtcWrite x r value i = x i :=
    fun value x other =>
    crtcWrite_other x value other
  have self : ∀ {r : UInt8} (value : UInt8) (x : UInt8 → UInt8), 8 ≤ r → crtcWrite x r value r = value :=
    fun value x free =>
    crtcWrite_self x value free
  intro i member
  rw [restoreCrtc]
  simp only [savedRegisters, mem_cons, not_mem_nil, or_false] at member
  rcases member with rfl | rfl | rfl | rfl | rfl
  · rw [apart _ _ (by decide), apart _ _ (by decide), self _ _ (by decide)]
  · apply crtcWrite_seven_self
    rw [apart _ _ (by decide), apart _ _ (by decide), apart _ _ (by decide), seven]
  · rw [self _ _ (by decide)]
  · rw [apart _ _ (by decide), apart _ _ (by decide), apart _ _ (by decide), apart _ _ (by decide),
      self _ _ (by decide)]
  · rw [apart _ _ (by decide), apart _ _ (by decide), apart _ _ (by decide), self _ _ (by decide)]

end

theorem slideup_slid (s : Vga) : Slid s (slideup s) := by
  exact (splitLine_slid s).trans (frames_slid _ _ _)

/-- Behind a read of the status port the mode register of the attribute controller is selected and written. -/
theorem restoreSaved_spec (s : Vga) :
    (restoreSaved (vgaSync s)).crtc = restoreCrtc s.crtc (s.saved 0) (s.saved 1) (s.saved 2) (s.saved 3) (s.saved 4) ∧
      (restoreSaved (vgaSync s)).seq = s.seq ∧ (restoreSaved (vgaSync s)).attr = update s.attr 0x10 (s.saved 5) := by
  rw [← mode_index]
  exact ⟨rfl, rfl, rfl⟩

theorem vgaSlideupandexit_spec (s : Vga) : ∃ t, Slid s t ∧
    (vgaSlideupandexit bios s).crtc = restoreCrtc t.crtc (t.saved 0) (t.saved 1) (t.saved 2) (t.saved 3) (t.saved 4) ∧
    (vgaSlideupandexit bios s).seq = t.seq ∧
    ∀ r, (vgaSlideupandexit bios s).attr r = if r.toNat < 16 then r else if r = 0x10 then t.saved 5 else t.attr r := by
  obtain ⟨crtc, seq, attr⟩ := restoreSaved_spec (slideup s)
  refine ⟨slideup s, slideup_slid s, ?_⟩
  rw [vgaSlideupandexit]
  generalize restoreSaved (vgaSync (slideup s)) = u at crtc seq attr ⊢
  have painted := vgaInitpalette_painted bios u
  have synced := vgaSync_slid (vgaInitpalette bios u)
  refine ⟨?_, ?_, fun r => ?_⟩
  · rw [← crtc, ← painted.crtc]
    rfl
  · rw [← seq, ← painted.seq, synced.seq]
  · rw [synced.attr, painted.attr r, attr, update_apply]

structure Restored (s s' : Vga) : Prop where
  crtc : s'.crtc = s.crtc
  seq : s'.seq = s.seq
  attr : s'.attr = s.attr

def shown (bios : Latches → Latches) (n : Nat) (s : Vga) : Vga :=
  vgaSlideupandexit bios ((vgaShowbanner bios)^[n] (vgaInit bios s))

theorem shown_crtc (n : Nat) (s : Vga) : (shown bios n s).crtc = s.crtc := by
  have begun := vgaInit_begun bios s
  obtain ⟨moved, -⟩ := banners_seq bios n (vgaInit bios s)
  obtain ⟨_, slid, crtc, -⟩ := vgaSlideupandexit_spec bios ((vgaShowbanner bios)^[n] (vgaInit bios s))
  have saved := slid.saved.trans moved.saved
  have values := begun.saved
  simp only [map_cons, map_nil, List.cons.injEq, and_true] at values
  obtain ⟨first, second, third, fourth, fifth, -⟩ := values
  rw [shown, crtc, saved, first, second, third, fourth, fifth]
  apply restoreCrtc_back
  · exact (begun.crtc.trans moved.crtc).trans slid.crtc
  · exact (slid.seven.trans moved.seven).trans begun.seven

theorem shown_attr (n : Nat) (s : Vga) (r : UInt8) : (shown bios n s).attr r = if r.toNat < 16 then r else s.attr r := by
  have begun := vgaInit_begun bios s
  obtain ⟨moved, -⟩ := banners_seq bios n (vgaInit bios s)
  obtain ⟨_, slid, -, -, attr⟩ := vgaSlideupandexit_spec bios ((vgaShowbanner bios)^[n] (vgaInit bios s))
  have saved := slid.saved.trans moved.saved
  have values := begun.saved
  simp only [map_cons, map_nil, List.cons.injEq, and_true] at values
  obtain ⟨-, -, -, -, -, mode⟩ := values
  rw [shown, attr r, saved, mode, slid.attr, moved.attr]
  split
  next => rfl
  next high =>
    split
    next here => rw [here]
    next other => rw [begun.attr r other, if_neg high]

theorem shown_seq (n : Nat) (s : Vga) : (shown bios n s).seq =
    if n = 0 then update s.seq 1 (s.seq 1 ||| 1) else logoSeq (update s.seq 1 (s.seq 1 ||| 1)) := by
  obtain ⟨-, seq⟩ := banners_seq bios n (vgaInit bios s)
  obtain ⟨_, slid, -, exit_, -⟩ := vgaSlideupandexit_spec bios ((vgaShowbanner bios)^[n] (vgaInit bios s))
  rw [shown, exit_, slid.seq, seq, (vgaInit_begun bios s).seq]

/-- Characters have eight dots already, and every palette register its own number; for the banner the second font is
the one that the logo selects. -/
structure Standing (n : Nat) (s : Vga) : Prop where
  dots : s.seq 1 ||| 1 = s.seq 1
  font : 0 < n → s.seq 3 = 4
  palette : ∀ r : UInt8, r.toNat < 16 → s.attr r = r

/-- The registers hold their first values again under this condition and no other. -/
theorem registers_restored_iff (bios : Latches → Latches) (n : Nat) (s : Vga) (standard : s.seq 2 = 3 ∧ s.seq 4 = 3) :
    Restored s (shown bios n s) ↔ Standing n s := by
  constructor
  · rintro ⟨-, seq, attr⟩
    rw [shown_seq] at seq
    refine ⟨?_, fun positive => ?_, fun r low => ?_⟩
    · have one := congrFun seq 1
      split at one
      · rwa [update_self] at one
      · rwa [logoSeq, if_neg (by decide), if_neg (by decide), update_self] at one
    · rw [if_neg positive.ne'] at seq
      have three := congrFun seq 3
      exact three.symm
    · have here := congrFun attr r
      rw [shown_attr, if_pos low] at here
      exact here.symm
  · rintro ⟨dots, font, palette⟩
    refine ⟨shown_crtc bios n s, ?_, ?_⟩
    · rw [shown_seq, dots, update_eq_self]
      split
      · rfl
      next positive =>
        funext r
        rw [logoSeq]
        split
        next three => rw [three, font (Nat.pos_of_ne_zero positive)]
        next =>
          split
          next either => rcases either with rfl | rfl <;> [exact standard.1.symm; exact standard.2.symm]
          next => rfl
    · funext r
      rw [shown_attr]
      split
      next low => rw [palette r low]
      next => rfl

/-- A display with eight dots a character whose palette is the one that the BIOS is asked for. -/
def quietDisplay : Vga :=
  ⟨⟨0, 0, 0, 0, false⟩, fun _ => 0, fun r => if r = 1 then 1 else if r = 3 then 4 else 3, fun _ => 0, id,
    fun _ => (0, 0, 0), fun _ => 0⟩

theorem quietDisplay_restored : Restored quietDisplay (shown id 1 quietDisplay) :=
  (registers_restored_iff id 1 quietDisplay ⟨by decide, by decide⟩).mpr ⟨by decide, fun _ => by decide, fun _ _ => rfl⟩

def textMode : Vga := { quietDisplay with seq := fun r => if r = 1 ∨ r = 3 then 0 else 3 }

/-- Without the banner shown at all, characters have eight dots afterwards. -/
theorem dots_not_restored :
    ¬ ∀ (bios : Latches → Latches) (n : Nat) (s : Vga), s.seq 2 = 3 ∧ s.seq 4 = 3 → Restored s (shown bios n s) :=
    by
  intro claim
  have seq := (claim id 0 textMode ⟨by decide, by decide⟩).seq
  have one := congrFun seq 1
  exact absurd one (by decide)

end Pcbsd.Proofs.VideoRegisters
