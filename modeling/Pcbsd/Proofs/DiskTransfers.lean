import Pcbsd.Proofs.DiskMoves

/-! When bd_io moves the blocks that were asked for. -/

namespace Pcbsd.DiskIo
open Lib Bioscd List Option

variable {od : OpenDisk} {bios : Bios} {wr : Bool} {breg : Option Nat}

theorem movePiece_works (steady : ∀ n, bios.ok n = true) {piece : Piece} (accepts : Accepts od piece.dblk) (r : Run) :
    movePiece od bios wr breg piece r =
      (false, drain wr breg piece (served od piece.dblk (asks od wr breg piece) (fill wr breg piece r))) := by
  rw [movePiece, attempts, bdOnce_eq, if_pos accepts, v86int_works (steady _)]
  rfl

theorem runPieces_works (wr : Bool) (breg : Option Nat) (steady : ∀ n, bios.ok n = true) (ps : List Piece) : ∀ r : Run,
    (∀ piece ∈ ps, Accepts od piece.dblk) →
    (runPieces od bios wr breg ps r).1 = 0 := by
  induction ps with
  | nil => exact fun _ _ => rfl
  | cons piece ps ih =>
    intro r accepts
    rw [runPieces, movePiece_works steady (accepts piece mem_cons_self)]
    exact ih _ fun piece later => accepts piece (mem_cons_of_mem _ later)

theorem runPieces_first (wr : Bool) (breg : Option Nat) (steady : ∀ n, bios.ok n = true) {piece : Piece}
    (accepts : Accepts od piece.dblk) (ps : List Piece) (r : Run) :
    ∃ log, (runPieces od bios wr breg (piece :: ps) r).2.log = r.log ++ done od wr breg piece :: log := by
  rw [runPieces, movePiece_works steady accepts]
  obtain ⟨log, logged, _⟩ := runPieces_log od bios wr breg ps
    (drain wr breg piece (served od piece.dblk (asks od wr breg piece) (fill wr breg piece r)))
  refine ⟨log, ?_⟩
  rw [logged, drain_log, served_log, fill_log, append_assoc]
  rfl

def lastPiece (sec dblk blks : Nat) : Nat := max dblk (dblk + blks - 1 - (dblk + blks - 1) % sec)

theorem track_le {sec d : Nat} (last : Nat) (whole : d % sec = 0) (le : d ≤ last) : d ≤ last - last % sec := by
  have tracks := Nat.mul_le_mul_left sec (Nat.div_le_div_right (c := sec) le)
  have split := Nat.div_add_mod d sec
  have split' := Nat.div_add_mod last sec
  omega

theorem pieces_last {sec : Nat} (track : 0 < sec) (fuel : Nat) : ∀ resid d p, 0 < resid → resid ≤ fuel →
    (∃ piece ∈ pieces sec 0 fuel resid d p, piece.dblk = lastPiece sec d resid) ∧
      ∀ piece ∈ pieces sec 0 fuel resid d p, piece.dblk ≤ lastPiece sec d resid := by
  induction fuel with
  | zero => exact fun resid d p some enough => by omega
  | succ fuel ih =>
    intro resid d p some enough
    have inside := Nat.mod_lt d track
    have split := Nat.mod_add_div d sec
    rw [pieces, if_neg (by omega)]
    simp only [Nat.lt_irrefl, if_false]
    by_cases ends : resid ≤ sec - d % sec
    · have rest : ∀ d p, pieces sec 0 fuel 0 d p = [] := fun d p => by
        cases fuel with
        | zero => rfl
        | succ fuel => rw [pieces, if_pos rfl]
      have start : lastPiece sec d resid = d := by
        have last : d + resid - 1 = sec * (d / sec) + (d % sec + resid - 1) := by omega
        have offset : (d + resid - 1) % sec = d % sec + resid - 1 := by
          rw [last, Nat.mul_add_mod, Nat.mod_eq_of_lt (by omega)]
        rw [lastPiece, offset]
        omega
      rw [Nat.min_eq_right ends, Nat.sub_self, rest, start]
      exact ⟨⟨_, mem_singleton_self _, rfl⟩, fun piece only => by rw [mem_singleton.mp only]⟩
    · rw [Nat.min_eq_left (by omega)]
      have whole : (d + (sec - d % sec)) % sec = 0 := by
        have next : d + (sec - d % sec) = sec * (d / sec + 1) := by rw [Nat.mul_add]; omega
        rw [next, Nat.mul_mod_right]
      have further := track_le (d + resid - 1) whole (by omega)
      have same : lastPiece sec (d + (sec - d % sec)) (resid - (sec - d % sec)) = lastPiece sec d resid := by
        have last : d + (sec - d % sec) + (resid - (sec - d % sec)) - 1 = d + resid - 1 := by omega
        rw [lastPiece, lastPiece, last]
        omega
      obtain ⟨⟨piece, there, start⟩, le⟩ :=
        ih (resid - (sec - d % sec)) (d + (sec - d % sec)) (p + (sec - d % sec) * biosdiskSecsize) (by omega) (by omega)
      rw [same] at start le
      refine ⟨⟨piece, mem_cons_of_mem _ there, start⟩, fun piece inside => ?_⟩
      rcases mem_cons.mp inside with rfl | later
      · exact Nat.le_max_left _ _
      · exact le piece later

def bounceBlocks (blks : Nat) : Nat := min floppyBouncebuf blks

def regionOf (od : OpenDisk) (stack dest blks : Nat) : Option Nat :=
  if Bounces od dest blks then some (bounceRegion stack (bounceBlocks blks)) else none

def Unbroken (start size : Nat) : Prop := size = 0 ∨ start / 2 ^ 16 = (start + size - 1) / 2 ^ 16

def mostBlocks (od : OpenDisk) (dest blks : Nat) : Nat := if Bounces od dest blks then bounceBlocks blks else 63

/-- All transfers are for the blocks that were meant. If bd_io returns 0, they cover the request in order, each to or
from its place in the caller's buffer or the bounce region, and the data is there. -/
def Transfers (od : OpenDisk) (wr : Bool) (breg : Option Nat) (most dblk blks dest : Nat) (r : Run)
    (out : Int × Run) : Prop :=
  (∃ log, out.2.log = r.log ++ log ∧ (∀ call ∈ log, call.request.block od = call.dblk ∧ call.request.InTrack od) ∧
    (out.1 = 0 →
      ((log.filter (·.ok)).flatMap fun call => range' (call.request.block od) call.request.count) = range' dblk blks ∧
      ∀ call ∈ log.filter (·.ok),
        call.request.addr = breg.getD (dest + (call.dblk - dblk) * biosdiskSecsize) ∧ call.request.writes = wr)) ∧
  (out.1 = 0 → Moved wr breg most dblk blks dest r out.2 True)

theorem bounceRegion_range (stack x : Nat) :
    stack ≤ bounceRegion stack x ∧ bounceRegion stack x + x * biosdiskSecsize ≤ stack + 2 * (x * biosdiskSecsize) := by
  rw [bounceRegion]
  split
  · omega
  · omega

theorem bounceRegion_unbroken (stack : Nat) {x : Nat} (small : x ≤ floppyBouncebuf) :
    Unbroken (bounceRegion stack x) (x * biosdiskSecsize) := by
  have size : x * biosdiskSecsize ≤ 18 * 512 := Nat.mul_le_mul_right 512 small
  rcases Nat.eq_zero_or_pos (x * biosdiskSecsize) with none | _
  · exact Or.inl none
  · refine Or.inr ?_
    rw [bounceRegion]
    split
    · omega
    · omega

theorem transfers_of {sec most dblk blks dest : Nat} {ps : List Piece} (tiles : Tiles sec most dblk dest blks ps)
    (few : sec < 64)
    (blocks : ∀ piece ∈ ps, Accepts od piece.dblk → (asks od wr breg piece).block od = piece.dblk ∧
      (asks od wr breg piece).InTrack od)
    (places : (∀ piece ∈ ps, Accepts od piece.dblk) → ∀ piece ∈ ps, segOff (breg.getD piece.p) = breg.getD piece.p)
    (apart : Apart breg most dest blks) (bios : Bios) (r : Run) :
    Transfers od wr breg most dblk blks dest r (runPieces od bios wr breg ps r) := by
  have count : ∀ piece ∈ ps, (asks od wr breg piece).count = piece.blks ∧ (asks od wr breg piece).writes = wr :=
    fun piece inside => by
    obtain ⟨_, _, _, _, _, _⟩ := tiles.place ps piece inside
    exact ⟨request_count od wr _ _ (by omega), request_writes od wr _ _ (by omega)⟩
  obtain ⟨log, logged, calls, ends⟩ := runPieces_log od bios wr breg ps r
  refine ⟨⟨log, logged, fun call inside => ?_, fun zero => ?_⟩, fun zero => ?_⟩
  · obtain ⟨piece, there, accepts, block, request⟩ := calls call inside
    rw [request, block]
    exact blocks piece there accepts
  · obtain ⟨accepts, all⟩ := ends zero
    rw [all]
    refine ⟨?_, fun call inside => ?_⟩
    · rw [flatMap_map, ← tiles.blocks ps, flatMap_def, flatMap_def]
      refine congrArg flatten (map_congr_left fun piece inside => ?_)
      rw [done, (blocks piece inside (accepts piece inside)).1, (count piece inside).1]
    · obtain ⟨piece, there, rfl⟩ := List.mem_map.mp inside
      refine ⟨?_, (count piece there).2⟩
      obtain ⟨_, _, place, _⟩ := tiles.place ps piece there
      rw [done, ← place, asks, request_addr]
      exact places accepts piece there
  · obtain ⟨accepts, _⟩ := ends zero
    have moved := runPieces_moved bios ps r tiles
      (fun piece there => ⟨(blocks piece there (accepts piece there)).1, (count piece there).1,
      (request_addr od wr _ _ _).trans (places accepts piece there), (count piece there).2⟩) apart
    exact ⟨moved.mem, moved.disk, fun _ => moved.reads zero, fun _ => moved.writes zero⟩

def Reaches (od : OpenDisk) (dblk blks dest : Nat) : Prop :=
  Bounces od dest blks ∨ dest + (lastPiece od.sec dblk blks - dblk) * biosdiskSecsize < 2 ^ 20

/-- Extended requests, or none that is let through after its block number was cut to 32 bits. -/
def Sound (od : OpenDisk) (dblk blks dest : Nat) : Prop :=
  blks = 0 ∨
    if od.flags &&& bdModeedd1 ≠ 0 then Reaches od dblk blks dest
    else 1024 * (od.sec * od.hds) ≤ dblk % 2 ^ 32 ∨
      dblk < 2 ^ 32 ∧ (1024 * (od.sec * od.hds) < dblk + blks ∨ Reaches od dblk blks dest)

instance (od : OpenDisk) (dblk blks dest : Nat) : Decidable (Reaches od dblk blks dest) :=
  inferInstanceAs (Decidable (_ ∨ _))

instance (od : OpenDisk) (dblk blks dest : Nat) : Decidable (Sound od dblk blks dest) :=
  inferInstanceAs (Decidable (_ ∨ _))

theorem bdIo_eq (od : OpenDisk) (bios : Bios) (stack dblk blks dest : Nat) (wr : Bool) (r : Run) :
    bdIo od bios stack dblk blks dest wr r = runPieces od bios wr (regionOf od stack dest blks)
      (pieces od.sec (if Bounces od dest blks then bounceBlocks blks else 0) blks blks dblk dest) r := by
  rw [bdIo, if_neg (by omega), Int.toNat_natCast, regionOf]
  dsimp only
  split
  · exact ioLoop_eq od bios wr _ _ _ _ _ _ r
  · exact ioLoop_eq od bios wr _ _ _ _ _ _ r

theorem accepts_chs (valid : od.Valid) (chs : ¬ od.flags &&& bdModeedd1 ≠ 0) (d : Nat) :
    Accepts od d ↔ d % 2 ^ 32 < 1024 * (od.sec * od.hds) := by
  have bpc : 0 < od.sec * od.hds := Nat.mul_pos valid.sec.1 valid.hds.1
  rw [← Nat.div_lt_iff_lt_mul bpc, Accepts, or_iff_right chs]
  omega

section
variable {stack dblk blks dest : Nat}

theorem apart_region
    (clear : stack + 2 * (bounceBlocks blks * biosdiskSecsize) ≤ dest ∨ dest + blks * biosdiskSecsize ≤ stack) :
    Apart (regionOf od stack dest blks) (mostBlocks od dest blks) dest blks := by
  intro a above below start taken
  rw [regionOf] at taken
  split at taken
  next bounces =>
    cases taken
    rw [mostBlocks, if_pos bounces]
    have range := bounceRegion_range stack (bounceBlocks blks)
    omega
  next => cases taken

theorem segOff_region (low : stack + 2 * (bounceBlocks blks * biosdiskSecsize) ≤ 2 ^ 20) (some : 0 < blks) {p : Nat}
    (reaches : Bounces od dest blks ∨ p < 2 ^ 20) : segOff ((regionOf od stack dest blks).getD p) =
    (regionOf od stack dest blks).getD p := by
  rw [regionOf]
  split
  next _ =>
    have range := bounceRegion_range stack (bounceBlocks blks)
    have one : 1 * 512 ≤ bounceBlocks blks * biosdiskSecsize := Nat.mul_le_mul_right 512 (Nat.le_min.mpr ⟨by decide, some⟩)
    exact segOff_low (by rw [getD_some]; omega)
  next direct => exact segOff_low (reaches.resolve_left direct)

theorem pieces_tiles (valid : od.Valid) (some : 0 < blks) : Tiles od.sec (mostBlocks od dest blks) dblk dest blks
    (pieces od.sec (if Bounces od dest blks then bounceBlocks blks else 0) blks blks dblk dest) := by
  refine pieces_tile valid.sec.1 ?_ blks blks dblk dest (Nat.le_refl _)
  rw [mostBlocks]
  have one : 0 < bounceBlocks blks := Nat.lt_min.mpr ⟨by decide, some⟩
  split
  next _ => exact Nat.le_refl _
  next _ =>
    exact valid.sec.2

theorem piece_reaches (valid : od.Valid) (some : 0 < blks) (reaches : Reaches od dblk blks dest) : ∀ piece ∈
    pieces od.sec (if Bounces od dest blks then bounceBlocks blks else 0) blks blks dblk dest,
      Bounces od dest blks ∨ piece.p < 2 ^ 20 := by
  intro piece inside
  rcases reaches with bounces | _
  · exact Or.inl bounces
  · by_cases bounces : Bounces od dest blks
    · exact Or.inl bounces
    · obtain ⟨_, _, place, _⟩ := (pieces_tiles valid some).place _ piece inside
      rw [if_neg bounces] at inside
      have le := (pieces_last valid.sec.1 blks blks dblk dest some (Nat.le_refl _)).2 piece inside
      have offset : (piece.dblk - dblk) * biosdiskSecsize ≤ (lastPiece od.sec dblk blks - dblk) * biosdiskSecsize :=
        Nat.mul_le_mul_right _ (by omega)
      exact Or.inr (by omega)

def piecesOf (od : OpenDisk) (dblk blks dest : Nat) : List Piece :=
  pieces od.sec (if Bounces od dest blks then bounceBlocks blks else 0) blks blks dblk dest

theorem piecesOf_cons (valid : od.Valid) (some : 0 < blks) :
    ∃ piece rest, piecesOf od dblk blks dest = piece :: rest ∧ piece.dblk =
    dblk := by
  have tiles : Tiles od.sec (mostBlocks od dest blks) dblk dest blks (piecesOf od dblk blks dest) :=
    pieces_tiles valid some
  rcases start : piecesOf od dblk blks dest with _ | ⟨piece, rest⟩
  all_goals rw [start] at tiles
  · exact absurd tiles (Nat.ne_of_gt some)
  · exact ⟨piece, rest, rfl, tiles.1.1⟩

theorem track_end {sec d x m : Nat} (within : d % sec + x ≤ sec) (below : d < sec * m) : d + x ≤ sec * m := by
  have track : d / sec + 1 ≤ m := Nat.div_lt_of_lt_mul below
  have tracks := Nat.mul_le_mul_left sec track
  rw [Nat.mul_add, Nat.mul_one] at tracks
  have split := Nat.div_add_mod d sec
  omega

theorem ends_near (valid : od.Valid) (chs : ¬ od.flags &&& bdModeedd1 ≠ 0) (some : 0 < blks)
    (range : dblk + blks ≤ 2 ^ 32) (accepts : ∀ piece ∈ piecesOf od dblk blks dest, Accepts od piece.dblk) :
    dblk + blks ≤ 1024 * (od.sec * od.hds) := by
  have tiles : Tiles od.sec (mostBlocks od dest blks) dblk dest blks (piecesOf od dblk blks dest) :=
    pieces_tiles valid some
  have last : dblk + blks - 1 ∈ range' dblk blks := mem_range'_1.mpr ⟨by omega, by omega⟩
  rw [← tiles.blocks] at last
  obtain ⟨piece, inside, block⟩ := mem_flatMap.mp last
  obtain ⟨_, _, _, _, within, _⟩ := tiles.place _ piece inside
  have near := (accepts_chs valid chs piece.dblk).mp (accepts piece inside)
  rw [Nat.mod_eq_of_lt (by omega), Nat.mul_left_comm] at near
  have ends := track_end within near
  have covers := (mem_range'_1.mp block).2
  rw [Nat.mul_left_comm]
  omega

theorem transfers_far (valid : od.Valid) (some : 0 < blks) (given : ¬ Accepts od dblk) (most : Nat) (bios : Bios) (r : Run) :
    Transfers od wr breg most dblk blks dest r (runPieces od bios wr breg (piecesOf od dblk blks dest) r) := by
  obtain ⟨piece, _, start, first⟩ := @piecesOf_cons od dblk blks dest valid some
  rcases movePiece_cases od bios wr breg piece r with ⟨_, ran⟩ | ⟨accepts, _⟩
  · rw [start, runPieces, ran]
    refine ⟨⟨[], ?_, fun _ none => (by cases none), fun none => absurd none failure_ne⟩, fun none => absurd none failure_ne⟩
    rw [append_nil]
    exact fill_log wr breg piece r
  · rw [first] at accepts
    exact absurd accepts given

theorem transfers_of_sound (valid : od.Valid) (low : stack + 2 * (bounceBlocks blks * biosdiskSecsize) ≤ 2 ^ 20)
    (clear : stack + 2 * (bounceBlocks blks * biosdiskSecsize) ≤ dest ∨ dest + blks * biosdiskSecsize ≤ stack)
    (count : blks < 2 ^ 31) (range : dblk + blks ≤ 2 ^ 63) (some : 0 < blks) (sound : Sound od dblk blks dest)
    (bios : Bios) (r : Run) :
    Transfers od wr (regionOf od stack dest blks) (mostBlocks od dest blks) dblk blks dest r
      (runPieces od bios wr (regionOf od stack dest blks) (piecesOf od dblk blks dest) r) := by
  have tiles : Tiles od.sec (mostBlocks od dest blks) dblk dest blks (piecesOf od dblk blks dest) :=
    pieces_tiles valid some
  have place := tiles.place
  have few : od.sec < 64 := Nat.lt_succ_of_le valid.sec.2
  have all : Reaches od dblk blks dest → ∀ piece ∈ piecesOf od dblk blks dest,
      segOff ((regionOf od stack dest blks).getD piece.p) = (regionOf od stack dest blks).getD piece.p :=
    fun reaches piece inside => segOff_region low some (piece_reaches valid some reaches piece inside)
  have small : od.sec * od.hds ≤ 63 * 256 := Nat.mul_le_mul valid.sec.2 valid.hds.2
  replace sound := sound.resolve_left (by omega)
  by_cases edd : od.flags &&& bdModeedd1 ≠ 0
  · rw [if_pos edd] at sound
    refine transfers_of tiles few (fun piece inside _ => ?_) (fun _ => all sound) (apart_region clear) bios r
    obtain ⟨_, high, _⟩ := place piece inside
    exact request_edd edd (by omega) _ _
  · rw [if_neg edd] at sound
    by_cases given : Accepts od dblk
    · have near := (accepts_chs valid edd dblk).mp given
      obtain ⟨_, ends⟩ := sound.resolve_left (by omega)
      refine transfers_of tiles few (fun piece inside accepts => ?_) (fun accepts => ?_) (apart_region clear) bios r
      · obtain ⟨_, high, _, _, within, _⟩ := place piece inside
        have same : piece.dblk % 2 ^ 32 = piece.dblk := Nat.mod_eq_of_lt (by omega)
        have chs := request_chs wr valid edd ((regionOf od stack dest blks).getD piece.p) accepts
          (show piece.blks < 64 by omega)
        rw [same] at chs
        exact ⟨chs.1, chs.2 within⟩
      · refine all (ends.resolve_left fun beyond => ?_)
        have near := ends_near valid edd some (by omega) accepts
        omega
    · exact transfers_far valid some given _ bios r

def steady : Bios := ⟨fun _ => true, fun _ => []⟩

theorem segOff_lt (addr : Nat) : segOff addr < 2 ^ 20 := by
  rw [segOff]
  omega

theorem reaches_of_transfers (valid : od.Valid) (some : 0 < blks) {most : Nat} {r : Run}
    (accepts : ∀ piece ∈ piecesOf od dblk blks dest, Accepts od piece.dblk)
    (transfers : Transfers od wr (regionOf od stack dest blks) most dblk blks dest r
      (runPieces od steady wr (regionOf od stack dest blks) (piecesOf od dblk blks dest) r)) :
    Reaches od dblk blks dest := by
  by_contra missed
  obtain ⟨direct, _⟩ := not_or.mp missed
  have none : regionOf od stack dest blks = none := if_neg direct
  rw [none] at transfers
  have zero := runPieces_works wr Option.none (fun _ => rfl : ∀ n, steady.ok n = true) _ r accepts
  obtain ⟨⟨log, logged, _, ends⟩, _⟩ := transfers
  obtain ⟨_, logged', _, ends'⟩ := runPieces_log od steady wr Option.none (piecesOf od dblk blks dest) r
  rw [logged, append_cancel_left_eq] at logged'
  subst logged'
  obtain ⟨piece, inside, start⟩ := (pieces_last valid.sec.1 blks blks dblk dest some (Nat.le_refl _)).1
  have inside' : piece ∈ piecesOf od dblk blks dest := by
    rw [piecesOf, if_neg direct]
    exact inside
  have there : done od wr Option.none piece ∈ log.filter (·.ok) := by
    rw [(ends' zero).2]
    exact mem_map_of_mem inside'
  have place := ((ends zero).2 _ there).1
  have least := segOff_lt piece.p
  rw [done, asks, request_addr, getD_none, getD_none, start] at place
  change segOff piece.p = dest + (lastPiece od.sec dblk blks - dblk) * biosdiskSecsize at place
  omega

theorem sound_of_transfers (valid : od.Valid) (count : blks < 2 ^ 31) (some : 0 < blks) {most : Nat} {r : Run}
    (transfers : Transfers od wr (regionOf od stack dest blks) most dblk blks dest r
      (runPieces od steady wr (regionOf od stack dest blks) (piecesOf od dblk blks dest) r)) : Sound od dblk blks dest := by
  refine Or.inr ?_
  by_cases edd : od.flags &&& bdModeedd1 ≠ 0
  · rw [if_pos edd]
    exact reaches_of_transfers valid some (fun piece _ => Or.inl edd) transfers
  · rw [if_neg edd]
    by_contra broken
    obtain ⟨_, broken⟩ := not_or.mp broken
    have accepts : Accepts od dblk := (accepts_chs valid edd dblk).mpr (by omega)
    have small : od.sec * od.hds ≤ 63 * 256 := Nat.mul_le_mul valid.sec.2 valid.hds.2
    by_cases cut : dblk < 2 ^ 32
    · obtain ⟨_, unreached⟩ := not_or.mp fun other => broken ⟨cut, other⟩
      have tiles : Tiles od.sec (mostBlocks od dest blks) dblk dest blks (piecesOf od dblk blks dest) := pieces_tiles valid some
      refine unreached (reaches_of_transfers valid some (fun piece inside => (accepts_chs valid edd piece.dblk).mpr ?_) transfers)
      obtain ⟨_, _, _, _, _⟩ := tiles.place _ piece inside
      omega
    · -- The first transfer is for another block.
      obtain ⟨piece, rest, start, first⟩ := @piecesOf_cons od dblk blks dest valid some
      have tiles : Tiles od.sec (mostBlocks od dest blks) dblk dest blks (piecesOf od dblk blks dest) := pieces_tiles valid some
      obtain ⟨_, _, _, _, _, _⟩ := tiles.place _ piece (by rw [start]; exact mem_cons_self)
      rw [← first] at accepts
      rw [start] at transfers
      obtain ⟨_, logged⟩ := runPieces_first wr (regionOf od stack dest blks) (fun _ => rfl : ∀ n, steady.ok n = true)
        accepts rest r
      obtain ⟨⟨_, logged', calls, _⟩, _⟩ := transfers
      rw [logged', append_cancel_left_eq] at logged
      obtain ⟨block, _⟩ := calls (done od wr (regionOf od stack dest blks) piece) (by rw [logged]; exact mem_cons_self)
      have few : piece.blks < 64 := by have most := valid.sec.2; omega
      have decoded := (request_chs wr valid edd ((regionOf od stack dest blks).getD piece.p) accepts few).1
      rw [done, asks, decoded, first] at block
      change dblk % 2 ^ 32 = dblk at block
      omega

/-- bd_io moves exactly the blocks asked for, whatever the BIOS does, just when the request is sound. -/
theorem bdIo_transfers_iff (valid : od.Valid) (wr : Bool) {n : Int}
    (low : stack + 2 * (bounceBlocks n.toNat * biosdiskSecsize) ≤ 2 ^ 20)
    (clear : stack + 2 * (bounceBlocks n.toNat * biosdiskSecsize) ≤ dest ∨ dest + n.toNat * biosdiskSecsize ≤ stack)
    (count : n < 2 ^ 31) (range : dblk + n.toNat ≤ 2 ^ 63) :
    ((∀ start, regionOf od stack dest n.toNat = some start → Unbroken start (bounceBlocks n.toNat * biosdiskSecsize)) ∧
      ∀ bios r, Transfers od wr (regionOf od stack dest n.toNat) (mostBlocks od dest n.toNat) dblk n.toNat dest r
        (bdIo od bios stack dblk n dest wr r)) ↔ Sound od dblk n.toNat dest := by
  have unbroken : ∀ start, regionOf od stack dest n.toNat = some start →
    Unbroken start (bounceBlocks n.toNat * biosdiskSecsize) := by
    intro start taken
    rw [regionOf] at taken
    split at taken
    · cases taken
      exact bounceRegion_unbroken stack (Nat.min_le_left _ _)
    · cases taken
  refine (and_iff_right unbroken).trans ?_
  rcases Int.lt_or_le n 0 with below | above
  · rw [Int.toNat_of_nonpos (by omega)]
    refine ⟨fun _ => Or.inl rfl, fun _ bios r => ?_⟩
    rw [bdIo, if_pos below]
    exact ⟨⟨[], (append_nil _).symm, fun _ none => (by cases none), fun none => absurd none failure_ne⟩,
      fun none => absurd none failure_ne⟩
  · obtain ⟨blks, rfl⟩ := Int.eq_ofNat_of_zero_le above
    have same : ∀ bios r, bdIo od bios stack dblk blks dest wr r =
        runPieces od bios wr (regionOf od stack dest blks) (piecesOf od dblk blks dest) r :=
      fun bios r => bdIo_eq od bios stack dblk blks dest wr r
    rcases Nat.eq_zero_or_pos blks with rfl | some
    · refine ⟨fun _ => Or.inl rfl, fun _ bios r => ?_⟩
      rw [same]
      exact ⟨⟨[], (append_nil _).symm, fun _ none => (by cases none), fun _ => ⟨rfl, fun _ none => (by cases none)⟩⟩,
        fun _ => Moved.nil wr _ _ dblk dest r True⟩
    · constructor
      · intro all
        have transfers := all steady ⟨fun _ => 0, fun _ => 0, 0, []⟩
        rw [same] at transfers
        exact sound_of_transfers valid (by omega) some transfers
      · intro sound bios r
        rw [same]
        exact transfers_of_sound valid low clear (by omega) range some sound bios r

end

def eddDisk : OpenDisk := ⟨0x80, 16, 63, bdModeedd1⟩
def chsDisk : OpenDisk := ⟨0x80, 16, 63, bdModeint13⟩

theorem diskValid (flags : Nat) : OpenDisk.Valid ⟨0x80, 16, 63, flags⟩ :=
  ⟨show 1 ≤ 63 ∧ 63 ≤ 63 by decide, show 1 ≤ 16 ∧ 16 ≤ 256 by decide, show 0x80 < 256 by decide⟩

theorem bdIo_transfers_pieces :
    let r : Run := ⟨fun _ => 0, fun a => UInt8.ofNat a, 0, []⟩
    Transfers eddDisk false (regionOf eddDisk 0x90000 0x7000 10) (mostBlocks eddDisk 0x7000 10) 60 10 0x7000 r
      (bdIo eddDisk steady 0x90000 60 10 0x7000 false r) := by
  intro r
  have iff := @bdIo_transfers_iff ⟨0x80, 16, 63, bdModeedd1⟩ 0x90000 60 0x7000
    (diskValid bdModeedd1) false 10 (by decide) (by decide) (by decide) (by decide)
  exact (iff.mpr (by decide)).2 steady r

/-- Block 2^32 is read from block 0 through the sector interface. -/
theorem bdIo_cut :
    ¬ ∀ (od : OpenDisk) (bios : Bios) (stack dblk : Nat) (n : Int) (dest : Nat) (wr : Bool) (r : Run), od.Valid →
    stack + 2 * (bounceBlocks n.toNat * biosdiskSecsize) ≤ dest ∨ dest + n.toNat * biosdiskSecsize ≤ stack →
    Transfers od wr (regionOf od stack dest n.toNat) (mostBlocks od dest n.toNat) dblk n.toNat dest r
      (bdIo od bios stack dblk n dest wr r) := by
  intro all
  have transfers := all chsDisk steady 0x90000 (2 ^ 32) (1 : Nat) 0x7000 false ⟨fun _ => 0, fun _ => 0, 0, []⟩
    (diskValid bdModeint13) (by decide)
  exact absurd (sound_of_transfers (diskValid bdModeint13) (by decide) (by decide) transfers) (by decide)

end Pcbsd.DiskIo
