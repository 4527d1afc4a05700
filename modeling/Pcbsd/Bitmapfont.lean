import Pcbsd.Lib.Bytes

/-! The boot logo: boot-aux/bitmaptofont/main.cpp, which turns an image into text cells and glyphs,
and vga_printlogo of boot/i386/loader/vgaeffects.c, which draws them. -/

namespace Pcbsd.Bitmapfont
open Lib List

def fontHeight : Nat := 16

/-- gimp_image: two bytes for a pixel, of which the first one is 0 for a dark pixel. -/
structure GimpImage where
  width : Nat
  height : Nat
  pixelData : Nat → UInt8

def GimpImage.widthchars (image : GimpImage) : Nat := (image.width + 7) / 8

def GimpImage.heightchars (image : GimpImage) : Nat := (image.height + fontHeight - 1) / fontHeight

def GimpImage.dark (image : GimpImage) (row col : Nat) : Bool := image.pixelData (2 * (row * image.width + col)) == 0

/-- One scan line of the cell at `xcnt`, `ycnt`: the leftmost pixel is the highest bit. -/
def scanByte (image : GimpImage) (xcnt ycnt scan : Nat) : UInt8 :=
  (range 8).foldl (fun byte pixel =>
    byte ||| if image.dark (ycnt * fontHeight + scan) (xcnt * 8 + pixel) then UInt8.ofNat (2 ^ (7 - pixel)) else 0) 0

def newchar (image : GimpImage) (xcnt ycnt : Nat) : Bytes :=
  (range fontHeight).map (scanByte image xcnt ycnt) ++ replicate (32 - fontHeight) 0

/-- The glyphs so far with their character codes, the next code, and charmap. -/
structure State where
  font : List (Int × Bytes)
  currentidx : Int
  charmap : List UInt16

def findGlyph (font : List (Int × Bytes)) (glyph : Bytes) : Option (Int × Bytes) :=
  font.find? fun known => known.2.take fontHeight == glyph.take fontHeight

def charCell (idx : Int) : UInt16 := 0xf800 ||| UInt16.ofNat (idx % 65536).toNat

def addCell (s : State) (glyph : Bytes) : State :=
  match findGlyph s.font glyph with
  | some known => { s with charmap := s.charmap ++ [charCell known.1] }
  | none => ⟨s.font ++ [(s.currentidx, glyph)], s.currentidx - 1, s.charmap ++ [charCell s.currentidx]⟩

def cells (image : GimpImage) : List Bytes :=
  (range image.heightchars).flatMap fun ycnt => (range image.widthchars).map fun xcnt => newchar image xcnt ycnt

def convert (image : GimpImage) : State := (cells image).foldl addCell ⟨[], 0xff, []⟩

/-- The printed structures: what they declare for an array, and what they list for it. -/
structure TextmodeBitmap where
  declared : Int
  width : Nat
  height : Nat
  charmap : List UInt16

structure BitmapGlyphs where
  declared : Int
  start : Int
  count : Int
  glyphs : Bytes

def printedLogo (image : GimpImage) : TextmodeBitmap :=
  ⟨image.widthchars * image.heightchars, image.widthchars, image.heightchars, (convert image).charmap⟩

/-- The glyphs are listed from f = 255 - (currentidx + 1) down to 0. -/
def printedFont (image : GimpImage) : BitmapGlyphs :=
  let s := convert image
  let last := 255 - (s.currentidx + 1)
  ⟨32 * (0xff - (s.currentidx + 1)), s.currentidx + 1, 0xff - (s.currentidx + 1),
    (range (last + 1).toNat).reverse.flatMap fun f => (s.font.getD f (-1, replicate 32 0)).2⟩

structure Vga where
  screen : Nat → UInt16
  secondFont : Nat → UInt8
  firstFont : Nat → UInt8

def screenWidth : Nat := 80

/-- memcpy to `dest`, of the first `n` elements of a source. -/
def memcpy {α : Type} (mem : Nat → α) (dest n : Nat) (source : Nat → α) : Nat → α :=
  fun a => if dest ≤ a ∧ a < dest + n then source (a - dest) else mem a

/-- An array of C: what is listed beyond its declared length is left out, and `behind` is what follows it. -/
def arrayAt {α : Type} (declared : Int) (listed : List α) (behind : Nat → α) (i : Nat) : α :=
  if (i : Int) < declared then (listed[i]?).getD (behind i) else behind i

/-- vga_printlogo. A negative count is a size of 2^32 and more less. -/
def vgaPrintlogo (x y : Nat) (logo : TextmodeBitmap) (font : BitmapGlyphs) (behind : Nat → UInt8)
    (behindMap : Nat → UInt16) (vga : Vga) : Vga :=
  { vga with
    secondFont := memcpy vga.secondFont (font.start * 32).toNat ((32 * font.count) % 2 ^ 32).toNat
      (arrayAt font.declared font.glyphs behind)
    screen := (range logo.height).foldl (fun screen yc =>
      memcpy screen ((y + yc) * screenWidth + x) logo.width fun i =>
        arrayAt logo.declared logo.charmap behindMap (yc * logo.width + i))
      vga.screen }

/-- A scan line of the character that a cell of the screen shows. -/
def shown (vga : Vga) (row col scan : Nat) : UInt8 :=
  let cell := (vga.screen (row * screenWidth + col)).toNat
  if cell.testBit 11 then vga.secondFont (32 * (cell % 256) + scan) else vga.firstFont (32 * (cell % 256) + scan)

end Pcbsd.Bitmapfont
