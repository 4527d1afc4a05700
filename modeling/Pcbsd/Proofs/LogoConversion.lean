import Mathlib.Data.List.Dedup
import Mathlib.Data.List.Induction
import Mathlib.Data.List.Nodup
import Mathlib.Data.List.Perm.Subperm
import Pcbsd.Bitmapfont

/-! The boot logo between bitmaptofont and vga_printlogo: which cells of the image the screen shows. -/

namespace Pcbsd.Bitmapfont
open Lib List Option

def lines (glyph : Bytes) : Bytes := glyph.take fontHeight

/-- The font after some cells: codes count down from 255, no two glyphs are alike, and every cell has the code of a
glyph that is alike. -/
structure Converted (done : List Bytes) (s : State) : Prop where
  codes : ∀ f (inside : f < s.font.length), s.font[f].1 = 255 - (f : Int)
  next : s.currentidx = 255 - (s.font.length : Int)
  apart : (s.font.map fun known => lines known.2).Nodup
  taken : ∀ known ∈ s.font, known.2 ∈ done
  first : s.font.head?.map (·.2) = done.head?
  length : s.charmap.length = done.length
  coded : ∀ k (inside : k < done.length), ∃ f, ∃ known : f < s.font.length,
    s.charmap[k]? = some (charCell (255 - (f : Int))) ∧ lines s.font[f].2 = lines done[k]

theorem converted_nil : Converted [] ⟨[], 0xff, []⟩ where
  codes f inside := absurd inside (Nat.not_lt_zero f)
  next := rfl
  apart := nodup_nil
  taken _ member := by cases member
  first := rfl
  length := rfl
  coded k inside := absurd inside (Nat.not_lt_zero k)

variable {image : GimpImage} {font : List (Int × Bytes)} {glyph : Bytes} {row col scan h : Nat}

theorem findGlyph_some {known : Int × Bytes} (found : findGlyph font glyph = some known) :
    known ∈ font ∧ lines known.2 = lines glyph := by
  have alike := List.find?_some found
  exact ⟨mem_of_find?_eq_some found, eq_of_beq alike⟩

theorem findGlyph_none (missing : findGlyph font glyph = none) :
    lines glyph ∉ font.map fun known => lines known.2 := by
  rw [findGlyph, List.find?_eq_none] at missing
  intro member
  obtain ⟨known, inside, same⟩ := List.mem_map.mp member
  exact missing known inside (beq_iff_eq.mpr same)

theorem addCell_converted {done : List Bytes} {s : State} (converted : Converted done s) (glyph : Bytes) :
    Converted (done ++ [glyph]) (addCell s glyph) := by
  obtain ⟨codes, next, apart, taken, first, length, coded⟩ := converted
  rw [addCell]
  split
  next known found =>
    obtain ⟨member, alike⟩ := findGlyph_some found
    obtain ⟨f, inside, here⟩ := getElem_of_mem member
    refine ⟨codes, next, apart, fun other member => mem_append_left _ (taken other member), ?_, ?_, ?_⟩
    · cases done with
      | nil =>
        have empty : s.font.head? = none := by simpa using first
        rw [List.head?_eq_none_iff.mp empty] at member
        cases member
      | cons => exact first
    · rw [length_append, length_append, length]
      rfl
    · intro k before
      rw [length_append, length_singleton] at before
      rcases Nat.lt_succ_iff_lt_or_eq.mp before with old | rfl
      · obtain ⟨f, inside, code, same⟩ := coded k old
        refine ⟨f, inside, ?_, ?_⟩
        · rw [List.getElem?_append_left (by omega)]
          exact code
        · rw [getElem_append_left old]
          exact same
      · refine ⟨f, inside, ?_, ?_⟩
        · rw [← length, List.getElem?_append_right (Nat.le_refl _), Nat.sub_self, List.getElem?_cons_zero, ← codes f inside, here]
        · rw [getElem_append_right (Nat.le_refl _), here]
          simpa using alike
  next missing =>
    have new := findGlyph_none missing
    refine ⟨?_, ?_, ?_, ?_, ?_, ?_, ?_⟩
    · intro f before
      rw [length_append, length_singleton] at before
      rcases Nat.lt_succ_iff_lt_or_eq.mp before with old | rfl
      · rw [getElem_append_left old]
        exact codes f old
      · rw [getElem_append_right (Nat.le_refl _)]
        simpa using next
    · dsimp only
      rw [next, length_append, length_singleton]
      omega
    · rw [map_append, nodup_append]
      refine ⟨apart, nodup_singleton _, ?_⟩
      intro a old b fresh same
      rw [map_singleton, mem_singleton] at fresh
      rw [same, fresh] at old
      exact new old
    · intro known member
      rcases mem_append.mp member with old | fresh
      · exact mem_append_left _ (taken known old)
      · rw [mem_singleton.mp fresh]
        exact mem_append_right _ mem_cons_self
    · dsimp only
      cases done with
      | nil =>
        have empty : s.font.head? = none := by simpa using first
        rw [List.head?_eq_none_iff.mp empty]
        rfl
      | cons _ done =>
        rw [List.head?_append]
        cases front : s.font.head? with
        | none =>
          rw [front] at first
          cases first
        | some known =>
          rw [front] at first
          exact first
    · rw [length_append, length_append, length]
      rfl
    · intro k before
      rw [length_append, length_singleton] at before
      rcases Nat.lt_succ_iff_lt_or_eq.mp before with old | rfl
      · obtain ⟨f, inside, code, same⟩ := coded k old
        refine ⟨f, by rw [length_append]; omega, ?_, ?_⟩
        · rw [List.getElem?_append_left (by omega)]
          exact code
        · rw [getElem_append_left old, getElem_append_left inside]
          exact same
      · refine ⟨s.font.length, by rw [length_append, length_singleton]; omega, ?_, ?_⟩
        · rw [← length, List.getElem?_append_right (Nat.le_refl _), Nat.sub_self, List.getElem?_cons_zero, next]
        · rw [getElem_append_right (Nat.le_refl _), getElem_append_right (Nat.le_refl _)]
          simp

theorem convert_converted (image : GimpImage) : Converted (cells image) (convert image) := by
  rw [convert]
  generalize cells image = all
  induction all using List.reverseRecOn with
  | nil => exact converted_nil
  | append_singleton _ glyph ih =>
    rw [foldl_append]
    exact addCell_converted ih glyph

theorem length_newchar (image : GimpImage) (xcnt ycnt : Nat) : (newchar image xcnt ycnt).length = 32 := by
  rw [newchar, length_append, length_map, length_range, length_replicate]
  rfl

theorem length_of_mem_cells (member : glyph ∈ cells image) : glyph.length = 32 := by
  obtain ⟨_, -, row⟩ := mem_flatMap.mp member
  obtain ⟨_, -, rfl⟩ := List.mem_map.mp row
  exact length_newchar ..

def distinct (image : GimpImage) : Nat := ((cells image).map lines).dedup.length

theorem length_font_le (image : GimpImage) : (convert image).font.length ≤ distinct image := by
  obtain ⟨-, -, apart, taken, -⟩ := convert_converted image
  have subset : ((convert image).font.map fun known => lines known.2) ⊆ ((cells image).map lines).dedup := by
    intro glyph member
    obtain ⟨known, inside, rfl⟩ := List.mem_map.mp member
    exact mem_dedup.mpr (List.mem_map.mpr ⟨known.2, taken known inside, rfl⟩)
  have bound := (subperm_of_subset apart subset).length_le
  rwa [length_map] at bound

theorem rowMajor {α : Type} (g : Nat → Nat → α) (w : Nat) (rows : row < h) (cols : col < w) :
    ((List.range h).flatMap fun y => (List.range w).map (g y))[row * w + col]? = some (g row col) := by
  have length (h : Nat) : ((List.range h).flatMap fun y => (List.range w).map (g y)).length = h * w := by
    induction h with
    | zero => rw [Nat.zero_mul]; rfl
    | succ h ih =>
      rw [List.range_succ, flatMap_append, length_append, ih, flatMap_singleton, length_map,
        length_range, Nat.succ_mul]
  induction h with
  | zero => omega
  | succ h ih =>
    rw [List.range_succ, flatMap_append, flatMap_singleton]
    rcases Nat.lt_succ_iff_lt_or_eq.mp rows with before | rfl
    · have inside : row * w + col < h * w := by
        have bound := Nat.mul_le_mul_right w before
        rw [Nat.succ_mul] at bound
        omega
      rw [List.getElem?_append_left (by rw [length]; exact inside)]
      exact ih before
    · rw [List.getElem?_append_right (by rw [length]; omega), length, Nat.add_sub_cancel_left, List.getElem?_map,
        List.getElem?_range cols]
      rfl

theorem length_cells (image : GimpImage) : (cells image).length = image.heightchars * image.widthchars := by
  rw [cells]
  induction image.heightchars with
  | zero => rw [Nat.zero_mul]; rfl
  | succ _ ih =>
    rw [List.range_succ, flatMap_append, length_append, ih, flatMap_singleton, length_map,
      length_range, Nat.succ_mul]

theorem cells_at (rows : row < image.heightchars) (cols : col < image.widthchars) :
    (cells image)[row * image.widthchars + col]? = some (newchar image col row) :=
  rowMajor (fun y x => newchar image x y) image.widthchars rows cols

def Agrees (image : GimpImage) : Prop :=
  (printedFont image).declared = (printedFont image).glyphs.length ∧
    32 * (printedFont image).count = (printedFont image).glyphs.length ∧
    (printedLogo image).declared = (printedLogo image).charmap.length

/-- The screen shows the image with its upper left cell at column `x` of row `y`. -/
def Drawn (image : GimpImage) (x y : Nat) (vga : Vga) : Prop :=
  ∀ row col scan pixel, row < image.heightchars → col < image.widthchars → scan < fontHeight → pixel < 8 →
    (shown vga (y + row) (x + col) scan).toNat.testBit (7 - pixel) = image.dark (row * fontHeight + scan) (col * 8 + pixel)

/-- The printed structures agree with themselves, and drawing them shows the image. -/
def Survives (image : GimpImage) : Prop :=
  Agrees image ∧ ∀ x y vga behind behindMap, x + image.widthchars ≤ screenWidth →
    Drawn image x y (vgaPrintlogo x y (printedLogo image) (printedFont image) behind behindMap vga)

theorem sized_font (image : GimpImage) (f : Nat) :
    ((convert image).font.getD f (-1, List.replicate 32 0)).2.length = 32 := by
  rw [getD_eq_getElem?_getD]
  cases here : (convert image).font[f]? with
  | none => rfl
  | some known => exact length_of_mem_cells ((convert_converted image).taken known (mem_of_getElem? here))

theorem length_glyphs (image : GimpImage) : (printedFont image).glyphs.length = (convert image).font.length * 32 := by
  have converted := convert_converted image
  rw [printedFont, length_flatMap_of_sized (sized_font image), length_reverse, length_range, converted.next]
  congr 1
  omega

theorem glyphs_overrun (image : GimpImage) :
    ((printedFont image).glyphs.length : Int) = (printedFont image).declared + 32 := by
  rw [length_glyphs, printedFont]
  dsimp only
  rw [(convert_converted image).next]
  omega

theorem glyphs_at {f : Nat} (inside : f < (convert image).font.length) (low : scan < 32) :
    (printedFont image).glyphs[32 * ((convert image).font.length - 1 - f) + scan]? = (convert image).font[f].2[scan]? := by
  have converted := convert_converted image
  have count : (255 - ((convert image).currentidx + 1) + 1).toNat = (convert image).font.length := by
    rw [converted.next]
    omega
  have whole := slice_flatMap (sized_font image) [] (l := (List.range (convert image).font.length).reverse)
    (j := (convert image).font.length - 1 - f) (by rw [length_reverse, length_range]; omega)
  rw [append_nil, getElem_reverse, getElem_range, length_range] at whole
  have back : (convert image).font.length - 1 - ((convert image).font.length - 1 - f) = f := by omega
  rw [back, getD_eq_getElem?_getD, List.getElem?_eq_getElem inside, getD_some] at whole
  rw [← whole, getElem?_slice, if_pos low, printedFont, count]

set_option maxRecDepth 8000 in
theorem charCell_spec {n : Nat} (small : n < 256) :
    (charCell n).toNat.testBit 11 = true ∧ (charCell n).toNat % 256 = n := by
  have each : ∀ n : Nat, n < 256 → (charCell n).toNat.testBit 11 = true ∧ (charCell n).toNat % 256 = n := by decide
  exact each n small

theorem screen_rows {α : Type} (source : Nat → Nat → α) {x y w : Nat} (fits : x + w ≤ screenWidth) (screen : Nat → α)
    (rows : row < h) (cols : col < w) :
    ((List.range h).foldl (fun screen yc => memcpy screen ((y + yc) * screenWidth + x) w (source yc)) screen)
      ((y + row) * screenWidth + (x + col)) = source row col := by
  rw [show screenWidth = 80 from rfl] at fits ⊢
  induction h with
  | zero => omega
  | succ h ih =>
    rw [List.range_succ, foldl_append, foldl_cons, foldl_nil, memcpy]
    rcases Nat.lt_succ_iff_lt_or_eq.mp rows with before | rfl
    · rw [if_neg (by omega)]
      exact ih before
    · rw [if_pos (by omega)]
      congr 1
      omega

theorem scanByte_bit (image : GimpImage) (xcnt ycnt scan : Nat) {pixel : Nat} (low : pixel < 8) :
    (scanByte image xcnt ycnt scan).toNat.testBit (7 - pixel) = image.dark (ycnt * fontHeight + scan) (xcnt * 8 + pixel) := by
  have each : ∀ a b c d e f g h : Bool,
      let byte : UInt8 := 0 ||| (if a then UInt8.ofNat (2 ^ (7 - 0)) else 0) ||| (if b then UInt8.ofNat (2 ^ (7 - 1)) else 0) |||
        (if c then UInt8.ofNat (2 ^ (7 - 2)) else 0) ||| (if d then UInt8.ofNat (2 ^ (7 - 3)) else 0) |||
        (if e then UInt8.ofNat (2 ^ (7 - 4)) else 0) ||| (if f then UInt8.ofNat (2 ^ (7 - 5)) else 0) |||
        (if g then UInt8.ofNat (2 ^ (7 - 6)) else 0) ||| (if h then UInt8.ofNat (2 ^ (7 - 7)) else 0)
      byte.toNat.testBit 7 = a ∧ byte.toNat.testBit 6 = b ∧ byte.toNat.testBit 5 = c ∧ byte.toNat.testBit 4 = d ∧
        byte.toNat.testBit 3 = e ∧ byte.toNat.testBit 2 = f ∧ byte.toNat.testBit 1 = g ∧ byte.toNat.testBit 0 = h := by
    decide +kernel
  have eight : List.range 8 = [0, 1, 2, 3, 4, 5, 6, 7] := rfl
  rw [scanByte, eight]
  obtain ⟨p0, p1, p2, p3, p4, p5, p6, p7⟩ := each (image.dark (ycnt * fontHeight + scan) (xcnt * 8 + 0))
    (image.dark (ycnt * fontHeight + scan) (xcnt * 8 + 1)) (image.dark (ycnt * fontHeight + scan) (xcnt * 8 + 2))
    (image.dark (ycnt * fontHeight + scan) (xcnt * 8 + 3)) (image.dark (ycnt * fontHeight + scan) (xcnt * 8 + 4))
    (image.dark (ycnt * fontHeight + scan) (xcnt * 8 + 5)) (image.dark (ycnt * fontHeight + scan) (xcnt * 8 + 6))
    (image.dark (ycnt * fontHeight + scan) (xcnt * 8 + 7))
  match pixel, low with
  | 0, _ => exact p0
  | 1, _ => exact p1
  | 2, _ => exact p2
  | 3, _ => exact p3
  | 4, _ => exact p4
  | 5, _ => exact p5
  | 6, _ => exact p6
  | 7, _ => exact p7

theorem byte_ext {a b : UInt8} (same : ∀ pixel < 8, a.toNat.testBit (7 - pixel) = b.toNat.testBit (7 - pixel)) :
    a = b := by
  apply UInt8.toNat_inj.mp
  apply Nat.eq_of_testBit_eq
  intro i
  by_cases low : i < 8
  · have bit := same (7 - i) (by omega)
    rwa [show 7 - (7 - i) = i by omega] at bit
  · have high (c : UInt8) : c.toNat.testBit i = false := by
      apply Nat.testBit_lt_two_pow
      exact Nat.lt_of_lt_of_le c.toNat_lt (Nat.pow_le_pow_right (by decide) (by omega))
    rw [high, high]

theorem lines_newchar (image : GimpImage) (xcnt ycnt : Nat) (low : scan < fontHeight) :
    (lines (newchar image xcnt ycnt))[scan]? = some (scanByte image xcnt ycnt scan) := by
  rw [lines, List.getElem?_take, if_pos low, newchar,
    List.getElem?_append_left (by rw [length_map, length_range]; exact low), List.getElem?_map, List.getElem?_range low]
  rfl

section
variable {image : GimpImage} (few : distinct image ≤ 256) {x y : Nat}
    (fits : x + image.widthchars ≤ screenWidth) (vga : Vga)
  (behind : Nat → UInt8) (behindMap : Nat → UInt16)
include few fits

theorem shown_cell {row col scan : Nat} (rows : row < image.heightchars) (cols : col < image.widthchars)
    (low : scan < fontHeight) :
    ∃ f, ∃ known : f < (convert image).font.length, lines (convert image).font[f].2 = lines (newchar image col row) ∧
      shown (vgaPrintlogo x y (printedLogo image) (printedFont image) behind behindMap vga) (y + row) (x + col) scan =
        if f = 0 then vga.secondFont (32 * 255 + scan) else scanByte image col row scan := by
  have converted := convert_converted image
  have here := cells_at rows cols
  have inside := (List.getElem?_eq_some_iff.mp here).1
  obtain ⟨f, known, code, alike⟩ := converted.coded _ inside
  rw [(List.getElem?_eq_some_iff.mp here).2] at alike
  refine ⟨f, known, alike, ?_⟩
  have size := Nat.le_trans (length_font_le image) few
  have cell : (vgaPrintlogo x y (printedLogo image) (printedFont image) behind behindMap vga).screen
      ((y + row) * screenWidth + (x + col)) = charCell ((255 - f : Nat) : Int) := by
    have drawn := screen_rows (y := y)
      (fun yc i => arrayAt (printedLogo image).declared (printedLogo image).charmap behindMap
      (yc * (printedLogo image).width + i)) fits vga.screen rows cols
    refine Eq.trans drawn ?_
    rw [arrayAt]
    have declared : ((row * image.widthchars + col : Nat) : Int) < (printedLogo image).declared := by
      rw [length_cells, Nat.mul_comm image.heightchars] at inside
      have bound := Int.ofNat_lt.mpr inside
      rwa [Int.natCast_mul] at bound
    rw [printedLogo] at declared ⊢
    rw [if_pos declared, code, getD_some]
    congr 1
    omega
  obtain ⟨second, character⟩ := charCell_spec (n := 255 - f) (by omega)
  rw [shown, cell, if_pos second, character, vgaPrintlogo]
  dsimp only
  rw [memcpy, printedFont]
  dsimp only
  rw [converted.next]
  have scan32 : scan < 32 := Nat.lt_trans low (by decide)
  have dest : ((255 - ((convert image).font.length : Int) + 1) * 32).toNat =
    32 * (256 - (convert image).font.length) := by omega
  have count : (32 * (255 - (255 - ((convert image).font.length : Int) + 1)) % 2 ^ 32).toNat =
    32 * ((convert image).font.length - 1) := by
    omega
  rw [dest, count]
  by_cases blank : f = 0
  · rw [if_pos blank, if_neg (by omega), blank]
  · rw [if_neg blank, if_pos (by omega), arrayAt, if_pos (by omega)]
    have offset : 32 * (255 - f) + scan - 32 * (256 - (convert image).font.length) =
        32 * ((convert image).font.length - 1 - f) + scan := by omega
    have glyph := glyphs_at known scan32
    rw [printedFont] at glyph
    rw [converted.next] at glyph
    rw [offset, glyph]
    have line := lines_newchar image col row low
    rw [← alike, lines, List.getElem?_take, if_pos low] at line
    rw [line, getD_some]

theorem drawn_iff (nonempty : 0 < image.heightchars ∧ 0 < image.widthchars) :
    Drawn image x y (vgaPrintlogo x y (printedLogo image) (printedFont image) behind behindMap vga) ↔
      ∀ scan < fontHeight, vga.secondFont (32 * 255 + scan) = scanByte image 0 0 scan := by
  have converted := convert_converted image
  have firstCell := cells_at nonempty.1 nonempty.2
  rw [Nat.zero_mul, Nat.zero_add] at firstCell
  have firstGlyph : ∀ (known : 0 < (convert image).font.length), (convert image).font[0].2 = newchar image 0 0 := by
    intro known
    have same := converted.first
    rw [List.head?_eq_getElem?, List.head?_eq_getElem?, firstCell, List.getElem?_eq_getElem known] at same
    exact some.inj same
  constructor
  · intro drawn scan low
    obtain ⟨f, known, alike, shows⟩ := shown_cell few fits vga behind behindMap nonempty.1 nonempty.2 low
    have zero : f = 0 := by
      have present : 0 < (convert image).font.length := by omega
      rw [← firstGlyph present] at alike
      have inside : f < ((convert image).font.map fun known => lines known.2).length := by rwa [length_map]
      have start : 0 < ((convert image).font.map fun known => lines known.2).length := by rwa [length_map]
      refine (@List.Nodup.getElem_inj_iff _ _ converted.apart f inside 0 start).mp ?_
      rw [getElem_map, getElem_map]
      exact alike
    rw [if_pos zero] at shows
    apply byte_ext
    intro pixel left
    rw [← shows, drawn 0 0 scan pixel nonempty.1 nonempty.2 low left, scanByte_bit image 0 0 scan left]
  · intro held row col scan pixel rows cols low left
    obtain ⟨f, known, alike, shows⟩ := shown_cell few fits vga behind behindMap rows cols low
    rw [shows, ← scanByte_bit image col row scan left]
    split
    next zero =>
      subst zero
      have line := lines_newchar image col row low
      rw [← alike, firstGlyph known, lines_newchar image 0 0 low] at line
      rw [held scan low, some.inj line]
    · rfl

end

/-- No image survives: one glyph more is listed than declared, and the one that is left out is that of the first
cell. -/
theorem logo_never_survives (image : GimpImage) (few : distinct image ≤ 256) :
    ¬Survives image ∧
      (0 < image.heightchars ∧ 0 < image.widthchars → ∀ x y vga behind behindMap, x + image.widthchars ≤ screenWidth →
        (Drawn image x y (vgaPrintlogo x y (printedLogo image) (printedFont image) behind behindMap vga) ↔
          ∀ scan < fontHeight, vga.secondFont (32 * 255 + scan) = scanByte image 0 0 scan)) := by
  refine ⟨?_, fun nonempty x y vga behind behindMap fits => drawn_iff few fits vga behind behindMap nonempty⟩
  rintro ⟨⟨_, -⟩, -⟩
  have overrun := glyphs_overrun image
  omega

def darkCell : GimpImage := ⟨8, 16, fun _ => 0⟩

theorem darkCell_few : distinct darkCell ≤ 256 := by decide

/-- The only glyph of a dark cell is not loaded. -/
theorem dark_cell_is_lost : ¬Survives darkCell := by
  rintro ⟨⟨declared, -⟩, -⟩
  exact absurd declared (by decide +kernel)

theorem logo_never_survives_dark_cell :
    ¬Survives darkCell ∧ ¬Drawn darkCell 0 0
      (vgaPrintlogo 0 0 (printedLogo darkCell) (printedFont darkCell) (fun _ => 0) (fun _ => 0)
        ⟨fun _ => 0, fun _ => 0, fun _ => 0⟩) := by
  obtain ⟨lost, drawn⟩ := logo_never_survives darkCell darkCell_few
  refine ⟨lost, fun shows => ?_⟩
  have held := (drawn (by decide) 0 0 ⟨fun _ => 0, fun _ => 0, fun _ => 0⟩ (fun _ => 0) (fun _ => 0) (by decide)).mp
    shows 0 (by decide)
  exact absurd held (by decide +kernel)

end Pcbsd.Bitmapfont
