import Pcbsd.DiskIo

/-! Which blocks bd_io moves, and where. -/

namespace Pcbsd.DiskIo
open Lib Memory Bioscd List

variable {od : OpenDisk} {bios : Bios} {r : Run} {q : Request} {wr : Bool}

/-- A geometry that bd_getgeom reports, with sectors, and a unit of the BIOS. -/
structure OpenDisk.Valid (od : OpenDisk) : Prop where
  sec : 1 ≤ od.sec ∧ od.sec ≤ 63
  hds : 1 ≤ od.hds ∧ od.hds ≤ 256
  unit : od.unit < 256

variable {dblk blks cyl sec unit : Nat}

theorem bdGetgeom_range {ecx edx hds : Nat} {cy : Bool} (reported : bdGetgeom unit cy ecx edx = some (cyl, hds, sec)) :
    1 ≤ hds ∧ hds ≤ 256 ∧ sec ≤ 63 := by
  rw [bdGetgeom] at reported
  split at reported
  · cases reported
  · cases reported
    have heads := Nat.and_le_right (n := edx) (m := 0xff00)
    exact ⟨by omega, by omega, Nat.and_le_right⟩

theorem eax_count : ∀ x < 64, (0x300 ||| x) % 2 ^ 8 = x ∧ (0x200 ||| x) % 2 ^ 8 = x := by decide

theorem eax_function : ∀ x < 64, (0x300 ||| x) / 2 ^ 8 % 2 ^ 8 = 3 ∧ (0x200 ||| x) / 2 ^ 8 % 2 ^ 8 = 2 := by decide

theorem ecx_cylinder :
    ∀ cyl < 1024, ((cyl &&& 0xff) <<< 8) ||| ((cyl &&& 0x300) >>> 2) = (cyl % 256 * 4 + cyl / 256) <<< 6 := by
  decide +kernel

theorem ecx_eq (low : cyl ≤ 1023) (small : sec < 64) :
    ((cyl &&& 0xff) <<< 8) ||| ((cyl &&& 0x300) >>> 2) ||| sec = (cyl % 256 * 4 + cyl / 256) * 64 + sec := by
  rw [ecx_cylinder cyl (by omega), ← Nat.shiftLeft_add_eq_or_of_lt small, Nat.shiftLeft_eq]

theorem ecx_fields (low : cyl ≤ 1023) (small : sec < 64) :
    let ecx := (cyl % 256 * 4 + cyl / 256) * 64 + sec
    ecx / 2 ^ 8 % 2 ^ 8 + ecx / 2 ^ 6 % 2 ^ 2 * 2 ^ 8 = cyl ∧ ecx % 2 ^ 6 = sec := by
  intro ecx
  have byte : ecx / 2 ^ 8 = cyl % 256 := by omega
  have bits : ecx / 2 ^ 6 = cyl % 256 * 4 + cyl / 256 := by omega
  have bits' : ecx / 2 ^ 6 % 2 ^ 2 = cyl / 256 := by rw [bits]; omega
  rw [byte, bits']
  exact ⟨by omega, by omega⟩

theorem edx_eq {hd : Nat} (small : unit < 256) : (hd <<< 8) ||| unit = hd * 256 + unit := by
  rw [← Nat.shiftLeft_add_eq_or_of_lt small, Nat.shiftLeft_eq]

def Accepts (od : OpenDisk) (dblk : Nat) : Prop :=
  od.flags &&& bdModeedd1 ≠ 0 ∨ dblk % 2 ^ 32 / (od.sec * od.hds) ≤ 1023

instance (od : OpenDisk) (dblk : Nat) : Decidable (Accepts od dblk) := inferInstanceAs (Decidable (_ ∨ _))

def chsRequest (od : OpenDisk) (wr : Bool) (dblk blks addr : Nat) : Request :=
  let x := dblk % 2 ^ 32
  let cyl := x / (od.sec * od.hds)
  .chs (if wr then 0x300 ||| blks else 0x200 ||| blks)
    (((cyl &&& 0xff) <<< 8) ||| ((cyl &&& 0x300) >>> 2) ||| (x % (od.sec * od.hds) % od.sec + 1))
    (((x % (od.sec * od.hds) / od.sec) <<< 8) ||| od.unit) (segOff addr)

def request (od : OpenDisk) (wr : Bool) (dblk blks addr : Nat) : Request :=
  if od.flags &&& bdModeedd1 ≠ 0 then .edd (if wr then 0x4300 else 0x4200) od.unit ⟨dblk % 2 ^ 64,
    blks % 2 ^ 16, segOff addr⟩
  else chsRequest od wr dblk blks addr

theorem bdOnce_eq (od : OpenDisk) (bios : Bios) (dblk blks addr : Nat) (wr : Bool) (r : Run) :
    bdOnce od bios dblk blks addr wr r =
      if Accepts od dblk then v86int od bios dblk (request od wr dblk blks addr) r else (true, r) := by
  rw [bdOnce, request]
  by_cases edd : od.flags &&& bdModeedd1 ≠ 0
  · have accepts : Accepts od dblk := Or.inl edd
    rw [if_pos edd, if_pos accepts, if_pos edd, bdEddIo]
  · rw [if_neg edd, if_neg edd, bdChsIo]
    by_cases far : dblk % 2 ^ 32 / (od.sec * od.hds) > 1023
    · have given : ¬ Accepts od dblk := fun accepts => accepts.elim edd (by omega)
      rw [if_pos far, if_neg given]
    · have accepts : Accepts od dblk := Or.inr (by omega)
      rw [if_neg far, if_pos accepts]
      rfl

/-- The registers stand for a place within a track of the first 1024 cylinders. -/
def Request.InTrack (od : OpenDisk) : Request → Prop
  | .edd _ _ _ => True
  | q@(.chs _ _ _ _) => 1 ≤ q.sector ∧ q.sector - 1 + q.count ≤ od.sec ∧ q.head < od.hds ∧ q.cylinder ≤ 1023

theorem request_addr (od : OpenDisk) (wr : Bool) (dblk blks addr : Nat) :
    (request od wr dblk blks addr).addr = segOff addr := by
  rw [request]
  split
  · rfl
  · rfl

theorem request_count (od : OpenDisk) (wr : Bool) (dblk addr : Nat) (small : blks < 64) :
    (request od wr dblk blks addr).count = blks := by
  rw [request]
  split
  · exact Nat.mod_eq_of_lt (by omega)
  · cases wr with
    | true => exact (eax_count blks small).1
    | false => exact (eax_count blks small).2

theorem request_writes (od : OpenDisk) (wr : Bool) (dblk addr : Nat) (small : blks < 64) :
    (request od wr dblk blks addr).writes = wr := by
  rw [request]
  split
  · cases wr with
    | true => rfl
    | false => rfl
  · cases wr with
    | true => exact decide_eq_true (eax_function blks small).1
    | false => exact decide_eq_false (by rw [if_neg Bool.false_ne_true, (eax_function blks small).2]; decide)

theorem request_edd (edd : od.flags &&& bdModeedd1 ≠ 0) (range : dblk < 2 ^ 64) (blks addr : Nat) :
    (request od wr dblk blks addr).block od = dblk ∧ (request od wr dblk blks addr).InTrack od := by
  rw [request, if_pos edd]
  exact ⟨Nat.mod_eq_of_lt range, trivial⟩

theorem request_chs (wr : Bool) (valid : od.Valid) (chs : ¬ od.flags &&& bdModeedd1 ≠ 0) (addr : Nat)
    (accepts : Accepts od dblk) (small : blks < 64) :
    (request od wr dblk blks addr).block od = dblk % 2 ^ 32 ∧
      (dblk % 2 ^ 32 % od.sec + blks ≤ od.sec → (request od wr dblk blks addr).InTrack od) := by
  have counted := request_count od wr dblk addr small
  obtain ⟨⟨one, _⟩, ⟨some, _⟩, unit⟩ := valid
  have low := accepts.resolve_left chs
  rw [request, if_neg chs] at counted ⊢
  have bpc : 0 < od.sec * od.hds := Nat.mul_pos one some
  have sec : dblk % 2 ^ 32 % (od.sec * od.hds) % od.sec < od.sec := Nat.mod_lt _ one
  have hd : dblk % 2 ^ 32 % (od.sec * od.hds) / od.sec < od.hds := Nat.div_lt_of_lt_mul (Nat.mod_lt _ bpc)
  have cylinder : (chsRequest od wr dblk blks addr).cylinder = dblk % 2 ^ 32 / (od.sec * od.hds) := by
    rw [chsRequest, Request.cylinder, ecx_eq low (by omega)]
    exact (ecx_fields low (by omega)).1
  have head : (chsRequest od wr dblk blks addr).head = dblk % 2 ^ 32 % (od.sec * od.hds) / od.sec := by
    rw [chsRequest, Request.head, edx_eq unit]
    omega
  have sector : (chsRequest od wr dblk blks addr).sector = dblk % 2 ^ 32 % (od.sec * od.hds) % od.sec + 1 := by
    rw [chsRequest, Request.sector, ecx_eq low (by omega)]
    exact (ecx_fields low (by omega)).2
  have block : (chsRequest od wr dblk blks addr).block od =
      ((chsRequest od wr dblk blks addr).cylinder * od.hds + (chsRequest od wr dblk blks addr).head) * od.sec +
        ((chsRequest od wr dblk blks addr).sector - 1) := rfl
  have inTrack : (chsRequest od wr dblk blks addr).InTrack od ↔
      1 ≤ (chsRequest od wr dblk blks addr).sector ∧
      (chsRequest od wr dblk blks addr).sector - 1 + (chsRequest od wr dblk blks addr).count ≤ od.sec ∧
      (chsRequest od wr dblk blks addr).head < od.hds ∧ (chsRequest od wr dblk blks addr).cylinder ≤ 1023 := Iff.rfl
  refine ⟨?_, fun within => ?_⟩
  · rw [block, cylinder, head, sector, Nat.add_sub_cancel, Nat.add_mul, Nat.add_assoc, Nat.div_add_mod' _ od.sec,
      Nat.mul_assoc, Nat.mul_comm od.hds od.sec, Nat.div_add_mod']
  · rw [inTrack, cylinder, head, sector, counted, Nat.mod_mul_right_mod, Nat.add_sub_cancel]
    exact ⟨by omega, within, hd, low⟩

structure Spoilt (od : OpenDisk) (dblk : Nat) (q : Request) (r r' : Run) : Prop where
  log : ∃ log, r'.log = r.log ++ log ∧ ∀ call ∈ log, call = ⟨dblk, q, false⟩
  mem : ∀ a, q.writes = true ∨ a < q.addr ∨ q.addr + q.count * biosdiskSecsize ≤ a → r'.mem a = r.mem a
  disk : ∀ a, q.writes = false ∨ a < q.block od * biosdiskSecsize ∨ (q.block od + q.count) * biosdiskSecsize ≤ a →
    r'.disk a = r.disk a

theorem Spoilt.refl (od : OpenDisk) (dblk : Nat) (q : Request) (r : Run) : Spoilt od dblk q r r :=
  ⟨⟨[], (append_nil _).symm, fun _ none => by cases none⟩, fun _ _ => rfl, fun _ _ => rfl⟩

theorem Spoilt.trans {r r' r'' : Run} (first : Spoilt od dblk q r r') (second : Spoilt od dblk q r' r'') :
    Spoilt od dblk q r r'' := by
  obtain ⟨log, logged, same⟩ := first.log
  obtain ⟨log', logged', same'⟩ := second.log
  refine ⟨⟨log ++ log', by rw [logged', logged, append_assoc], fun call inside => ?_⟩,
    fun a outside => (second.mem a outside).trans (first.mem a outside),
    fun a outside => (second.disk a outside).trans (first.disk a outside)⟩
  exact (mem_append.mp inside).elim (same call) (same' call)

theorem v86int_fails (od : OpenDisk) (dblk : Nat) (q : Request) (fails : bios.ok r.calls = false) :
    ∃ r', v86int od bios dblk q r = (true, r') ∧ Spoilt od dblk q r r' := by
  have short := length_take_le (q.count * biosdiskSecsize) (bios.left r.calls)
  cases writes : q.writes with
  | true =>
    refine ⟨⟨r.mem, Memory.write r.disk (q.block od * biosdiskSecsize)
      ((bios.left r.calls).take (q.count * biosdiskSecsize)), r.calls + 1,
      r.log ++ [⟨dblk, q, false⟩]⟩, ?_,
      ⟨⟨_, rfl, fun call only => mem_singleton.mp only⟩, fun _ _ => rfl, fun a outside => ?_⟩⟩
    · simp only [v86int, fails, writes, Bool.false_eq_true, if_false, if_true]
    · rw [writes, Nat.add_mul] at outside
      have apart := outside.resolve_left (by decide)
      exact write_outside (by omega)
  | false =>
    refine ⟨⟨Memory.write r.mem q.addr ((bios.left r.calls).take (q.count * biosdiskSecsize)), r.disk, r.calls + 1,
      r.log ++ [⟨dblk, q, false⟩]⟩, ?_,
      ⟨⟨_, rfl, fun call only => mem_singleton.mp only⟩, fun a outside => ?_, fun _ _ => rfl⟩⟩
    · simp only [v86int, fails, writes, Bool.false_eq_true, if_false]
    · rw [writes] at outside
      have apart := outside.resolve_left (by decide)
      exact write_outside (by omega)

def served (od : OpenDisk) (dblk : Nat) (q : Request) (r : Run) : Run :=
  if q.writes then
    ⟨r.mem, Memory.write r.disk (q.block od * biosdiskSecsize) (bytesAt r.mem q.addr (q.count * biosdiskSecsize)),
      r.calls + 1, r.log ++ [⟨dblk, q, true⟩]⟩
  else
    ⟨Memory.write r.mem q.addr (bytesAt r.disk (q.block od * biosdiskSecsize) (q.count * biosdiskSecsize)),
      r.disk, r.calls + 1, r.log ++ [⟨dblk, q, true⟩]⟩

theorem served_log (od : OpenDisk) (dblk : Nat) (q : Request) (r : Run) :
    (served od dblk q r).log = r.log ++ [⟨dblk, q, true⟩] := by
  rw [served]
  split
  · rfl
  · rfl

theorem v86int_works (works : bios.ok r.calls = true) : v86int od bios dblk q r = (false, served od dblk q r) := by
  cases writes : q.writes with
  | true => simp only [v86int, served, works, writes, if_true]
  | false => simp only [v86int, served, works, writes, Bool.false_eq_true, if_false, if_true]

theorem attempts_cases (od : OpenDisk) (bios : Bios) (dblk : Nat) (q : Request) (retry : Nat) :
    ∀ r, ∃ r', Spoilt od dblk q r r' ∧
    (attempts (v86int od bios dblk q) retry r = (false, served od dblk q r') ∨
      attempts (v86int od bios dblk q) retry r = (true, r')) := by
  induction retry with
  | zero => exact fun r => ⟨r, Spoilt.refl od dblk q r, Or.inr rfl⟩
  | succ retry ih =>
    intro r
    rw [attempts]
    cases works : bios.ok r.calls with
    | true =>
      rw [v86int_works works]
      exact ⟨r, Spoilt.refl od dblk q r, Or.inl rfl⟩
    | false =>
      obtain ⟨r', ran, spoilt⟩ := v86int_fails od dblk q works
      rw [ran]
      obtain ⟨r'', more, ends⟩ := ih r'
      exact ⟨r'', spoilt.trans more, ends⟩

theorem attempts_given_up (retry : Nat) : ∀ r : Run, attempts (fun r => (true, r)) retry r = (true, r) := by
  induction retry with
  | zero => exact fun r => rfl
  | succ retry ih => exact fun r => ih r

theorem bdOnce_cases (od : OpenDisk) (bios : Bios) (dblk blks addr : Nat) (wr : Bool) (r : Run) :
    let q := request od wr dblk blks addr
    let ran := attempts (bdOnce od bios dblk blks addr wr) 3 r
    (¬ Accepts od dblk ∧ ran = (true, r)) ∨
      Accepts od dblk ∧ ∃ r', Spoilt od dblk q r r' ∧ (ran = (false, served od dblk q r') ∨ ran = (true, r')) := by
  intro q ran
  by_cases accepts : Accepts od dblk
  · have once : bdOnce od bios dblk blks addr wr = v86int od bios dblk q := funext fun r => by rw [bdOnce_eq, if_pos accepts]
    have cases := attempts_cases od bios dblk q 3 r
    rw [← once] at cases
    exact Or.inr ⟨accepts, cases⟩
  · have once : bdOnce od bios dblk blks addr wr = fun r => (true, r) := funext fun r => by rw [bdOnce_eq, if_neg accepts]
    exact Or.inl ⟨accepts, (congrArg (attempts · 3 r) once).trans (attempts_given_up 3 r)⟩

end Pcbsd.DiskIo

/-! The pieces of a transfer, one after the other. -/

namespace Pcbsd.DiskIo
open Lib Memory Bioscd List

variable {od : OpenDisk} {bios : Bios} {r : Run} {wr : Bool} {breg : Option Nat}

/-- A turn of the loop: `blks` blocks from `dblk` on, at `p` in the caller's buffer. -/
structure Piece where
  dblk : Nat
  blks : Nat
  p : Nat

def pieces (sec maxfer : Nat) : (fuel resid dblk p : Nat) → List Piece
  | 0, _, _, _ => []
  | fuel + 1, resid, dblk, p =>
    if resid = 0 then []
    else
      let x := min (sec - dblk % sec) resid
      let x := if 0 < maxfer then min x maxfer else x
      ⟨dblk, x, p⟩ :: pieces sec maxfer fuel (resid - x) (dblk + x) (p + x * biosdiskSecsize)

def fill (wr : Bool) (breg : Option Nat) (piece : Piece) (r : Run) : Run :=
  match breg with
  | some breg => if wr then bcopy piece.p breg (piece.blks * biosdiskSecsize) r else r
  | none => r

def drain (wr : Bool) (breg : Option Nat) (piece : Piece) (r : Run) : Run :=
  match breg with
  | some breg => if wr then r else bcopy breg piece.p (piece.blks * biosdiskSecsize) r
  | none => r

def movePiece (od : OpenDisk) (bios : Bios) (wr : Bool) (breg : Option Nat) (piece : Piece) (r : Run) : Bool × Run :=
  match attempts (bdOnce od bios piece.dblk piece.blks (breg.getD piece.p) wr) 3 (fill wr breg piece r) with
  | (true, r) => (true, r)
  | (false, r) => (false, drain wr breg piece r)

def runPieces (od : OpenDisk) (bios : Bios) (wr : Bool) (breg : Option Nat) : List Piece → Run → Int × Run
  | [], r => (0, r)
  | piece :: rest, r =>
    match movePiece od bios wr breg piece r with
    | (true, r) => (-1, r)
    | (false, r) => runPieces od bios wr breg rest r

theorem ioLoop_eq (od : OpenDisk) (bios : Bios) (wr : Bool) (breg : Option Nat) (maxfer fuel : Nat) : ∀ resid dblk p r,
    ioLoop od bios wr breg maxfer fuel resid dblk p r = runPieces od bios wr breg (pieces od.sec maxfer fuel resid dblk p) r := by
  induction fuel with
  | zero => exact fun _ _ _ _ => rfl
  | succ fuel ih =>
    intro resid dblk p r
    rw [ioLoop, pieces]
    by_cases done : resid = 0
    · rw [if_pos done, if_pos done]
      rfl
    · rw [if_neg done, if_neg done, runPieces, movePiece]
      dsimp only
      generalize (if 0 < maxfer then min (min (od.sec - dblk % od.sec) resid) maxfer else min (od.sec - dblk % od.sec) resid) = x
      simp only [ih, fill, drain]
      generalize attempts (bdOnce od bios dblk x (breg.getD p) wr) 3 _ = ran
      rcases ran with ⟨_ | _, _⟩
      · rfl
      · rfl

/-- The pieces lie end to end from block `d` and address `p` on, each within a track and of at most `most` blocks. -/
def Tiles (sec most : Nat) : (d p resid : Nat) → List Piece → Prop
  | _, _, resid, [] => resid = 0
  | d, p, resid, piece :: rest =>
    (piece.dblk = d ∧ piece.p = p ∧ 0 < piece.blks ∧ piece.blks ≤ resid ∧ d % sec + piece.blks ≤ sec ∧
      piece.blks ≤ most) ∧ Tiles sec most (d + piece.blks) (p + piece.blks * biosdiskSecsize) (resid - piece.blks) rest

variable {most : Nat} {piece : Piece} {sec : Nat} {r' : Run} {a d x n p : Nat}

theorem pieces_tile {maxfer : Nat} (track : 0 < sec) (limit : if 0 < maxfer then maxfer ≤ most else sec ≤ most)
    (fuel : Nat) :
    ∀ resid d p, resid ≤ fuel → Tiles sec most d p resid (pieces sec maxfer fuel resid d p) := by
  induction fuel with
  | zero => exact fun resid d p enough => Nat.le_zero.mp enough
  | succ fuel ih =>
    intro resid d p enough
    rw [pieces]
    by_cases done : resid = 0
    · rw [if_pos done]
      exact done
    · rw [if_neg done]
      have inside := Nat.mod_lt d track
      dsimp only
      generalize taken : (if 0 < maxfer then min (min (sec - d % sec) resid) maxfer else min (sec - d % sec) resid) = x
      have bounds : 0 < x ∧ x ≤ resid ∧ d % sec + x ≤ sec ∧ x ≤ most := by
        subst taken
        split at limit
        · rw [if_pos (by assumption)]
          omega
        · rw [if_neg (by assumption)]
          omega
      obtain ⟨some, le, within, small⟩ := bounds
      exact ⟨⟨rfl, rfl, some, le, within, small⟩, ih (resid - x) (d + x) _ (by omega)⟩

theorem Tiles.blocks (ps : List Piece) : ∀ {d p resid : Nat}, Tiles sec most d p resid ps →
    (ps.flatMap fun piece => range' piece.dblk piece.blks) = range' d resid := by
  induction ps with
  | nil =>
    intro d p resid tiles
    obtain rfl : resid = 0 := tiles
    rfl
  | cons piece ps ih =>
    rintro d p resid ⟨⟨rfl, rfl, _, le, _, _⟩, rest⟩
    rw [flatMap_cons, ih rest, range'_append_1, Nat.add_sub_cancel' le]

theorem Tiles.place {sec most : Nat} (ps : List Piece) :
    ∀ {d p resid : Nat}, Tiles sec most d p resid ps → ∀ piece ∈ ps,
    d ≤ piece.dblk ∧ piece.dblk + piece.blks ≤ d + resid ∧ piece.p = p + (piece.dblk - d) * biosdiskSecsize ∧
      0 < piece.blks ∧ piece.dblk % sec + piece.blks ≤ sec ∧ piece.blks ≤ most := by
  induction ps with
  | nil => exact fun _ _ none => by cases none
  | cons _ ps ih =>
    rintro d p resid ⟨⟨rfl, rfl, some, _, within, small⟩, rest⟩ piece inside
    rcases mem_cons.mp inside with rfl | later
    · exact ⟨Nat.le_refl _, by omega, by rw [Nat.sub_self, Nat.zero_mul]; rfl, some, within, small⟩
    · obtain ⟨_, _, place, facts⟩ := ih rest piece later
      refine ⟨by omega, by omega, ?_, facts⟩
      rw [place, Nat.add_assoc, ← Nat.add_mul]
      congr 2
      omega

def asks (od : OpenDisk) (wr : Bool) (breg : Option Nat) (piece : Piece) : Request :=
  request od wr piece.dblk piece.blks (breg.getD piece.p)

theorem fill_log (wr : Bool) (breg : Option Nat) (piece : Piece) (r : Run) : (fill wr breg piece r).log = r.log := by
  cases breg with
  | none => rfl
  | some breg => cases wr with
    | true => rfl
    | false => rfl

theorem drain_log (wr : Bool) (breg : Option Nat) (piece : Piece) (r : Run) : (drain wr breg piece r).log = r.log := by
  cases breg with
  | none => rfl
  | some breg => cases wr with
    | true => rfl
    | false => rfl

theorem movePiece_cases (od : OpenDisk) (bios : Bios) (wr : Bool) (breg : Option Nat) (piece : Piece) (r : Run) :
    let q := asks od wr breg piece
    let r₀ := fill wr breg piece r
    (¬ Accepts od piece.dblk ∧ movePiece od bios wr breg piece r = (true, r₀)) ∨
      Accepts od piece.dblk ∧ ∃ r', Spoilt od piece.dblk q r₀ r' ∧
        (movePiece od bios wr breg piece r = (false, drain wr breg piece (served od piece.dblk q r')) ∨
          movePiece od bios wr breg piece r = (true, r')) := by
  intro q r₀
  rcases bdOnce_cases od bios piece.dblk piece.blks (breg.getD piece.p) wr r₀ with ⟨given, ran⟩ | ⟨accepts, r',
    spoilt, ran | ran⟩
  · exact Or.inl ⟨given, by rw [movePiece, ran]⟩
  · exact Or.inr ⟨accepts, r', spoilt, Or.inl (by rw [movePiece, ran]; rfl)⟩
  · exact Or.inr ⟨accepts, r', spoilt, Or.inr (by rw [movePiece, ran])⟩

def Outside (breg : Option Nat) (most a : Nat) : Prop :=
  ∀ region, breg = some region → a < region ∨ region + most * biosdiskSecsize ≤ a

/-- `x` blocks from `d` on have been moved from or to `p`, and what was left alone. -/
structure Moved (wr : Bool) (breg : Option Nat) (most d x p : Nat) (r r' : Run) (done : Prop) : Prop where
  mem : ∀ a, wr = true ∨ a < p ∨ p + x * biosdiskSecsize ≤ a → Outside breg most a → r'.mem a = r.mem a
  disk : ∀ a, wr = false ∨ a < d * biosdiskSecsize ∨ (d + x) * biosdiskSecsize ≤ a → r'.disk a = r.disk a
  reads : done → wr = false →
    bytesAt r'.mem p (x * biosdiskSecsize) = bytesAt r.disk (d * biosdiskSecsize) (x * biosdiskSecsize)
  writes : done → wr = true →
    bytesAt r'.disk (d * biosdiskSecsize) (x * biosdiskSecsize) = bytesAt r.mem p (x * biosdiskSecsize)

theorem Moved.nil (wr : Bool) (breg : Option Nat) (most d p : Nat) (r : Run) (done : Prop) :
    Moved wr breg most d 0 p r r done := by
  refine ⟨fun _ _ _ => rfl, fun _ _ => rfl, fun _ _ => ?_, fun _ _ => ?_⟩
  · rw [Nat.zero_mul]
    rfl
  · rw [Nat.zero_mul]
    rfl

theorem Moved.widen {r : Run} (moved : Moved wr breg most d x p r r' False) (le : x ≤ n) :
    Moved wr breg most d n p r r' False := by
  have size : x * biosdiskSecsize ≤ n * biosdiskSecsize := Nat.mul_le_mul_right _ le
  have last : (d + x) * biosdiskSecsize ≤ (d + n) * biosdiskSecsize := Nat.mul_le_mul_right _ (by omega)
  refine ⟨fun a outside => moved.mem a (outside.imp_right fun apart => by omega),
    fun a outside => moved.disk a (outside.imp_right fun apart => by omega), fun none => none.elim, fun none => none.elim⟩

def Apart (breg : Option Nat) (most p n : Nat) : Prop := ∀ a, p ≤ a → a < p + n * biosdiskSecsize → Outside breg most a

theorem Moved.append {r r₁ : Run} {done : Prop} (first : Moved wr breg most d x p r r₁ True)
    (rest : Moved wr breg most (d + x) n (p + x * biosdiskSecsize) r₁ r' done) (apart : Apart breg most p (x + n)) :
    Moved wr breg most d (x + n) p r r' done := by
  have size : (x + n) * biosdiskSecsize = x * biosdiskSecsize + n * biosdiskSecsize := Nat.add_mul _ _ _
  have start : (d + x) * biosdiskSecsize = d * biosdiskSecsize + x * biosdiskSecsize := Nat.add_mul _ _ _
  have last : (d + x + n) * biosdiskSecsize = (d + x) * biosdiskSecsize + n * biosdiskSecsize := Nat.add_mul _ _ _
  refine ⟨fun a outside clear => ?_, fun a outside => ?_, fun all reads => ?_, fun all writes => ?_⟩
  · exact (rest.mem a (outside.imp_right fun apart => by omega) clear).trans
      (first.mem a (outside.imp_right fun apart => by omega) clear)
  · rw [← Nat.add_assoc] at outside
    exact (rest.disk a (outside.imp_right fun apart => by omega)).trans
      (first.disk a (outside.imp_right fun apart => by omega))
  · have kept : bytesAt r'.mem p (x * biosdiskSecsize) = bytesAt r₁.mem p (x * biosdiskSecsize) :=
      bytesAt_congr fun a low high => rest.mem a (Or.inr (Or.inl high)) (apart a low (by omega))
    have same : bytesAt r₁.disk ((d + x) * biosdiskSecsize) (n * biosdiskSecsize) =
        bytesAt r.disk ((d + x) * biosdiskSecsize) (n * biosdiskSecsize) :=
          bytesAt_congr fun a _ _ => first.disk a (Or.inl reads)
    rw [size, bytesAt_append, bytesAt_append, kept, first.reads trivial reads, rest.reads all reads, same, start]
  · have kept : bytesAt r'.disk (d * biosdiskSecsize) (x * biosdiskSecsize) =
      bytesAt r₁.disk (d * biosdiskSecsize) (x * biosdiskSecsize) :=
      bytesAt_congr fun a _ high => rest.disk a (Or.inr (Or.inl (by omega)))
    have same : bytesAt r₁.mem (p + x * biosdiskSecsize) (n * biosdiskSecsize) =
        bytesAt r.mem (p + x * biosdiskSecsize) (n * biosdiskSecsize) :=
      bytesAt_congr fun a low high => first.mem a (Or.inl writes) (apart a (by omega) (by omega))
    rw [size, bytesAt_append, bytesAt_append, kept, first.writes trivial writes, ← start, rest.writes all writes, same]

structure Right (od : OpenDisk) (wr : Bool) (breg : Option Nat) (piece : Piece) : Prop where
  block : (asks od wr breg piece).block od = piece.dblk
  count : (asks od wr breg piece).count = piece.blks
  addr : (asks od wr breg piece).addr = breg.getD piece.p
  writes : (asks od wr breg piece).writes = wr

theorem fill_disk (wr : Bool) (breg : Option Nat) (piece : Piece) (r : Run) : (fill wr breg piece r).disk = r.disk := by
  cases breg with
  | none => rfl
  | some breg => cases wr with
    | true => rfl
    | false => rfl

theorem drain_disk (wr : Bool) (breg : Option Nat) (piece : Piece) (r : Run) :
    (drain wr breg piece r).disk = r.disk := by
  cases breg with
  | none => rfl
  | some breg => cases wr with
    | true => rfl
    | false => rfl

theorem fill_mem (wr : Bool) (small : piece.blks ≤ most) (clear : Outside breg most a) (r : Run) :
    (fill wr breg piece r).mem a = r.mem a := by
  cases breg with
  | none => rfl
  | some region => cases wr with
    | false => rfl
    | true =>
      have size : piece.blks * biosdiskSecsize ≤ most * biosdiskSecsize := Nat.mul_le_mul_right _ small
      have apart := clear region rfl
      exact write_outside (by rw [length_bytesAt]; omega)

theorem fill_source (breg : Option Nat) (piece : Piece) (r : Run) :
    bytesAt (fill true breg piece r).mem (breg.getD piece.p) (piece.blks * biosdiskSecsize) =
      bytesAt r.mem piece.p (piece.blks * biosdiskSecsize) := by
  cases breg with
  | none => rfl
  | some region =>
    have there := bytesAt_write r.mem region (bytesAt r.mem piece.p (piece.blks * biosdiskSecsize))
    rw [length_bytesAt] at there
    exact there

theorem drain_mem {wr : Bool} (breg : Option Nat)
    (outside : wr = true ∨ a < piece.p ∨ piece.p + piece.blks * biosdiskSecsize ≤ a) (r : Run) :
    (drain wr breg piece r).mem a = r.mem a := by
  cases breg with
  | none => rfl
  | some _ => cases wr with
    | true => rfl
    | false =>
      have apart := outside.resolve_left (by decide)
      exact write_outside (by rw [length_bytesAt]; omega)

theorem drain_dest (breg : Option Nat) (piece : Piece) (r : Run) :
    bytesAt (drain false breg piece r).mem piece.p (piece.blks * biosdiskSecsize) =
      bytesAt r.mem (breg.getD piece.p) (piece.blks * biosdiskSecsize) := by
  cases breg with
  | none => rfl
  | some region =>
    have there := bytesAt_write r.mem piece.p (bytesAt r.mem region (piece.blks * biosdiskSecsize))
    rw [length_bytesAt] at there
    exact there

theorem Outside.place (small : piece.blks ≤ most) (clear : Outside breg most a)
    (outside : a < piece.p ∨ piece.p + piece.blks * biosdiskSecsize ≤ a) :
    a < breg.getD piece.p ∨ breg.getD piece.p + piece.blks * biosdiskSecsize ≤ a := by
  cases breg with
  | none => exact outside
  | some region =>
    have size : piece.blks * biosdiskSecsize ≤ most * biosdiskSecsize := Nat.mul_le_mul_right _ small
    have apart := clear region rfl
    rw [Option.getD_some]
    omega

theorem Spoilt.moved {r : Run} (right : Right od wr breg piece) (small : piece.blks ≤ most)
    (spoilt : Spoilt od piece.dblk (asks od wr breg piece) (fill wr breg piece r) r') :
    Moved wr breg most piece.dblk piece.blks piece.p r r' False := by
  obtain ⟨_, mem, disk⟩ := spoilt
  rw [right.block, right.count, right.writes] at disk
  rw [right.addr, right.count, right.writes] at mem
  refine ⟨fun a outside clear => ?_, fun a outside => ?_, fun none => none.elim, fun none => none.elim⟩
  · exact (mem a (outside.imp_right (clear.place small))).trans (fill_mem wr small clear r)
  · rw [disk a outside, fill_disk]

theorem movePiece_moved (right : Right od wr breg piece) (small : piece.blks ≤ most) (bios : Bios) (r : Run) :
    Moved wr breg most piece.dblk piece.blks piece.p r (movePiece od bios wr breg piece r).2
      ((movePiece od bios wr breg piece r).1 = false) := by
  have fails : ∀ {r' : Run}, Moved wr breg most piece.dblk piece.blks piece.p r r' False →
      Moved wr breg most piece.dblk piece.blks piece.p r r' (true = false) :=
    fun moved => ⟨moved.mem, moved.disk, fun none => (by cases none), fun none => (by cases none)⟩
  rcases movePiece_cases od bios wr breg piece r with ⟨_, ran⟩ | ⟨_, r', spoilt, ran | ran⟩
  · rw [ran]
    exact fails (Spoilt.moved right small (Spoilt.refl od piece.dblk _ _))
  · rw [ran]
    have before := Spoilt.moved right small spoilt
    have memSame := spoilt.mem
    have diskSame := spoilt.disk
    rw [right.addr, right.count, right.writes] at memSame
    rw [served, right.writes, right.block, right.count, right.addr]
    cases wr with
    | true =>
      rw [if_pos rfl]
      refine ⟨fun a outside clear => ?_, fun a outside => ?_, fun _ none => (by cases none), fun _ _ => ?_⟩
      · rw [drain_mem breg outside]
        exact before.mem a outside clear
      · rw [drain_disk, ← before.disk a outside]
        have apart := outside.resolve_left (by decide)
        rw [Nat.add_mul] at apart
        exact write_outside (by rw [length_bytesAt]; omega)
      · have there := bytesAt_write r'.disk (piece.dblk * biosdiskSecsize)
          (bytesAt r'.mem (breg.getD piece.p) (piece.blks * biosdiskSecsize))
        rw [length_bytesAt] at there
        rw [drain_disk, there, ← fill_source breg piece r]
        exact bytesAt_congr fun a _ _ => memSame a (Or.inl rfl)
    | false =>
      rw [if_neg Bool.false_ne_true]
      refine ⟨fun a outside clear => ?_, fun a outside => ?_, fun _ _ => ?_, fun _ none => (by cases none)⟩
      · have apart := clear.place small (outside.resolve_left (by decide))
        rw [drain_mem breg outside, ← before.mem a outside clear]
        exact write_outside (by rw [length_bytesAt]; omega)
      · rw [drain_disk]
        exact before.disk a outside
      · have there := bytesAt_write r'.mem (breg.getD piece.p)
          (bytesAt r'.disk (piece.dblk * biosdiskSecsize) (piece.blks * biosdiskSecsize))
        rw [length_bytesAt] at there
        rw [drain_dest, there]
        exact bytesAt_congr fun a _ _ => before.disk a (Or.inl rfl)
  · rw [ran]
    exact fails (Spoilt.moved right small spoilt)

theorem failure_ne : ¬ (-1 : Int) = 0 := by decide

theorem runPieces_moved (bios : Bios) (ps : List Piece) : ∀ {d p resid : Nat} (r : Run), Tiles sec most d p resid ps →
    (∀ piece ∈ ps, Right od wr breg piece) → Apart breg most p resid →
    Moved wr breg most d resid p r (runPieces od bios wr breg ps r).2 ((runPieces od bios wr breg ps r).1 = 0) := by
  induction ps with
  | nil =>
    intro d p resid r tiles _ _
    obtain rfl : resid = 0 := tiles
    exact Moved.nil wr breg most d p r _
  | cons piece ps ih =>
    rintro d p resid r ⟨⟨rfl, rfl, _, le, _, small⟩, rest⟩ right apart
    have first := movePiece_moved (right piece mem_cons_self) small bios r
    rw [runPieces]
    rcases ran : movePiece od bios wr breg piece r with ⟨_ | _, r₁⟩
    · rw [ran] at first
      have whole : piece.blks + (resid - piece.blks) = resid := by omega
      have apart' : Apart breg most (piece.p + piece.blks * biosdiskSecsize) (resid - piece.blks) := by
        intro a low high
        refine apart a (by omega) ?_
        rw [← whole, Nat.add_mul]
        omega
      have later := ih r₁ rest (fun piece inside => right piece (mem_cons_of_mem _ inside)) apart'
      have done : Moved wr breg most piece.dblk piece.blks piece.p r r₁ True :=
        ⟨first.mem, first.disk, fun _ => first.reads rfl, fun _ => first.writes rfl⟩
      have all := done.append later (by rw [whole]; exact apart)
      rw [whole] at all
      exact all
    · rw [ran] at first
      have failed : Moved wr breg most piece.dblk piece.blks piece.p r r₁ False :=
        ⟨first.mem, first.disk, fun none => none.elim, fun none => none.elim⟩
      have wide := failed.widen le
      exact ⟨wide.mem, wide.disk, fun none => absurd none failure_ne, fun none => absurd none failure_ne⟩

def done (od : OpenDisk) (wr : Bool) (breg : Option Nat) (piece : Piece) : Call :=
  ⟨piece.dblk, asks od wr breg piece, true⟩

def For (od : OpenDisk) (wr : Bool) (breg : Option Nat) (ps : List Piece) (call : Call) : Prop :=
  ∃ piece ∈ ps, Accepts od piece.dblk ∧ call.dblk = piece.dblk ∧ call.request = asks od wr breg piece

theorem movePiece_log (od : OpenDisk) (bios : Bios) (wr : Bool) (breg : Option Nat) (piece : Piece) (r : Run) :
    ∃ log, (movePiece od bios wr breg piece r).2.log = r.log ++ log ∧ (∀ call ∈ log, For od wr breg [piece] call) ∧
      ((movePiece od bios wr breg piece r).1 = false → Accepts od piece.dblk ∧
        log.filter (·.ok) = [done od wr breg piece]) := by
  rcases movePiece_cases od bios wr breg piece r with ⟨_, ran⟩ | ⟨accepts, _, spoilt, ran | ran⟩
  · rw [ran]
    refine ⟨[], ?_, fun _ none => (by cases none), fun none => (by cases none)⟩
    rw [append_nil]
    exact fill_log wr breg piece r
  · obtain ⟨log, logged, same⟩ := spoilt.log
    have isFor : ∀ ok, For od wr breg [piece] ⟨piece.dblk, asks od wr breg piece, ok⟩ := fun ok =>
      ⟨piece, mem_singleton_self _, accepts, rfl, rfl⟩
    rw [ran]
    refine ⟨log ++ [done od wr breg piece], ?_, fun call inside => ?_, fun _ => ⟨accepts, ?_⟩⟩
    · rw [drain_log, served_log, logged, fill_log, append_assoc]
      rfl
    · rcases mem_append.mp inside with failed | last
      · rw [same call failed]
        exact isFor false
      · rw [mem_singleton.mp last]
        exact isFor true
    · have none : log.filter (·.ok) = [] :=
        filter_eq_nil_iff.mpr fun call failed => by rw [same call failed]; exact Bool.false_ne_true
      rw [filter_append, none]
      rfl
  · obtain ⟨log, logged, same⟩ := spoilt.log
    rw [ran]
    refine ⟨log, by rw [logged, fill_log], fun call failed => ?_, fun none => (by cases none)⟩
    rw [same call failed]
    exact ⟨piece, mem_singleton_self _, accepts, rfl, rfl⟩

theorem runPieces_log (od : OpenDisk) (bios : Bios) (wr : Bool) (breg : Option Nat) (ps : List Piece) : ∀ r : Run,
    ∃ log, (runPieces od bios wr breg ps r).2.log = r.log ++ log ∧ (∀ call ∈ log, For od wr breg ps call) ∧
      ((runPieces od bios wr breg ps r).1 = 0 →
        (∀ piece ∈ ps, Accepts od piece.dblk) ∧ log.filter (·.ok) = ps.map (done od wr breg)) := by
  induction ps with
  | nil => exact fun r => ⟨[], (append_nil _).symm, fun _ none => (by cases none), fun _ => ⟨fun _ none => (by cases none), rfl⟩⟩
  | cons piece ps ih =>
    intro r
    obtain ⟨log, logged, calls, works⟩ := movePiece_log od bios wr breg piece r
    have first : ∀ call ∈ log, For od wr breg (piece :: ps) call := fun call inside => by
      obtain ⟨piece', only, facts⟩ := calls call inside
      rw [mem_singleton.mp only] at facts
      exact ⟨piece, mem_cons_self, facts⟩
    rw [runPieces]
    rcases ran : movePiece od bios wr breg piece r with ⟨_ | _, r₁⟩
    · rw [ran] at logged works
      obtain ⟨accepts, one⟩ := works rfl
      obtain ⟨log', logged', calls', works'⟩ := ih r₁
      refine ⟨log ++ log', ?_, fun call inside => ?_, fun ends => ⟨fun piece inside => ?_, ?_⟩⟩
      · rw [logged', logged, append_assoc]
      · rcases mem_append.mp inside with before | after
        · exact first call before
        · obtain ⟨piece', later, facts⟩ := calls' call after
          exact ⟨piece', mem_cons_of_mem _ later, facts⟩
      · rcases mem_cons.mp inside with rfl | later
        · exact accepts
        · exact (works' ends).1 piece later
      · rw [filter_append, one, (works' ends).2]
        rfl
    · rw [ran] at logged
      exact ⟨log, logged, first, fun none => absurd none failure_ne⟩

end Pcbsd.DiskIo
