import Mathlib.Algebra.Order.Ring.Nat
import Mathlib.Logic.Function.Basic

/-! The registers behind the banner of boot/i386/loader/vgaeffects.c: the ports of a VGA, the palette calls of its
BIOS, and the functions that show the banner and slide it away. What they write into the screen and into the font is
left out. -/

namespace Pcbsd.Vgaeffects

structure Latches where
  crtc : UInt8
  seq : UInt8
  gfx : UInt8
  attr : UInt8
  attrData : Bool

/-- The registers of the CRTC, the sequencer, the graphics and the attribute controller, the colors, and
vga_savedregisters. -/
structure Vga where
  latches : Latches
  crtc : UInt8 → UInt8
  seq : UInt8 → UInt8
  gfx : UInt8 → UInt8
  attr : UInt8 → UInt8
  dac : UInt8 → UInt8 × UInt8 × UInt8
  saved : Nat → UInt8

/-- A write to the selected register of the CRTC. Bit 7 of register 0x11 protects the first eight ones, but not bit 4
of register 7. -/
def crtcWrite (crtc : UInt8 → UInt8) (r value : UInt8) : UInt8 → UInt8 :=
  if r < 8 ∧ crtc 0x11 &&& 0x80 ≠ 0 then
    if r = 7 then Function.update crtc 7 (crtc 7 &&& 0xef ||| value &&& 0x10) else crtc
  else Function.update crtc r value

def isaOutb (port : Nat) (value : UInt8) (s : Vga) : Vga :=
  if port = 0x3d4 then { s with latches := { s.latches with crtc := value } }
  else if port = 0x3d5 then { s with crtc := crtcWrite s.crtc s.latches.crtc value }
  else if port = 0x3c4 then { s with latches := { s.latches with seq := value } }
  else if port = 0x3c5 then { s with seq := Function.update s.seq s.latches.seq value }
  else if port = 0x3ce then { s with latches := { s.latches with gfx := value } }
  else if port = 0x3cf then { s with gfx := Function.update s.gfx s.latches.gfx value }
  else if port = 0x3c0 then
    if s.latches.attrData then
      { s with attr := Function.update s.attr (s.latches.attr &&& 0x1f) value, latches := { s.latches with attrData := false } }
    else { s with latches := { s.latches with attr := value, attrData := true } }
  else s

/-- Of the status port 0x3da only its effect on port 0x3c0 is told. -/
def isaInb (port : Nat) (s : Vga) : UInt8 × Vga :=
  if port = 0x3d5 then (s.crtc s.latches.crtc, s)
  else if port = 0x3c5 then (s.seq s.latches.seq, s)
  else if port = 0x3c1 then (s.attr (s.latches.attr &&& 0x1f), s)
  else if port = 0x3da then (0, { s with latches := { s.latches with attrData := false } })
  else (0, s)

def outReg (port : Nat) (r value : UInt8) (s : Vga) : Vga := isaOutb (port + 1) value (isaOutb port r s)

def inReg (port : Nat) (r : UInt8) (s : Vga) : UInt8 × Vga := isaInb (port + 1) (isaOutb port r s)

def changeReg (port : Nat) (r : UInt8) (change : UInt8 → UInt8) (s : Vga) : Vga :=
  let (value, s) := inReg port r s
  isaOutb (port + 1) (change value) s

section

def low (n : Int) : UInt8 := UInt8.ofNat (n % 256).toNat

def shiftRight (n : Int) (k : Nat) : Int := n / 2 ^ k

variable (bios : Latches → Latches)

/-- v86int with the interrupt 0x10: the palette calls, which leave the index registers in any state. -/
def v86int (eax ebx ecx edx : Int) (s : Vga) : Vga :=
  let s := { s with latches := bios s.latches }
  if eax = 0x1000 then { s with attr := Function.update s.attr (low ebx) (low (shiftRight ebx 8)) }
  else if eax = 0x1003 then
    { s with attr := Function.update s.attr 0x10 (if low ebx = 0 then s.attr 0x10 &&& 0xf7 else s.attr 0x10 ||| 0x08) }
  else if eax = 0x1010 then { s with dac := Function.update s.dac (low ebx) (low (shiftRight edx 8),
    low (shiftRight ecx 8), low ecx) }
  else s

def standardColors : List (Int × Int × Int) :=
  [(0, 0, 0), (0, 0, 42), (0, 42, 0), (0, 42, 42), (42, 0, 0), (42, 0, 42), (42, 21, 0), (42, 42, 42), (21, 21, 21),
    (21, 21, 63), (21, 63, 21), (21, 63, 63), (63, 21, 21), (63, 21, 63), (63, 63, 21), (63, 63, 63)]

def logoColors : List (Int × Int × Int) :=
  [(0, 0, 0), (12, 20, 32), (32, 32, 36), (22, 35, 45), (32, 5, 5), (55, 5, 8), (60, 62, 62), (62, 63, 63)]

def setColor (register : Int) (color : Int × Int × Int) (s : Vga) : Vga :=
  v86int bios 0x1010 register (color.2.1 * 2 ^ 8 + color.2.2) (color.1 * 2 ^ 8) s

def setPalette (s : Vga) : Vga := (List.range 16).foldl (fun s (f : Nat) => v86int bios 0x1000 (f + f * 2 ^ 8) 0 0 s) s

def setColors (s : Vga) : Vga := standardColors.zipIdx.foldl (fun s (color, f) => setColor bios f color s) s

def vgaInitpalette (s : Vga) : Vga := setColors bios (setPalette bios s)

def vgaSetpalette (s : Vga) : Vga :=
  logoColors.zipIdx.foldl (fun s (color, f) => setColor bios f color (setColor bios (f + 8) color s)) s

end

def vgaSync (s : Vga) : Vga := (isaInb 0x3da s).2

def numlines : Int := 4
def frames : Nat := 30
def charHeight : Int := 16

def setSplit (scanline : Int) (s : Vga) : Vga :=
  let s := outReg 0x3d4 0x18 (low scanline) s
  let s := changeReg 0x3d4 7 (fun value : UInt8 => value &&& (0xef : UInt8) ||| low (shiftRight scanline 4) &&& (0x10 : UInt8)) s
  changeReg 0x3d4 9 (fun value : UInt8 => value &&& (0xbf : UInt8) ||| low (shiftRight scanline 3) &&& (0x40 : UInt8)) s

def splitLine (s : Vga) : Int × Vga :=
  let (first, s) := inReg 0x3d4 0x18 s
  let (second, s) := inReg 0x3d4 7 s
  let (third, s) := inReg 0x3d4 9 s
  (((first.toNat ||| (second &&& (0x10 : UInt8)).toNat <<< 4 ||| (third &&& (0x40 : UInt8)).toNat <<< 3 : Nat) : Int) + 1, s)

def save (i : Nat) (read : UInt8 × Vga) : Vga := { read.2 with saved := Function.update read.2.saved i read.1 }

def vgaInit (bios : Latches → Latches) (s : Vga) : Vga :=
  let s := (isaInb 0x3da (vgaSync s)).2
  let s := save 5 (isaInb 0x3c1 (isaOutb 0x3c0 0x30 s))
  let s := (isaInb 0x3da s).2
  let s := save 0 (inReg 0x3d4 0x18 s)
  let s := save 1 (inReg 0x3d4 7 s)
  let s := save 2 (inReg 0x3d4 9 s)
  let s := save 3 (inReg 0x3d4 0xc s)
  let s := save 4 (inReg 0x3d4 0xd s)
  let s := v86int bios 0x1003 0 0 0 (vgaSync s)
  let s := setSplit 0 s
  let s := outReg 0x3d4 0xd 0 (outReg 0x3d4 0xc 0x30 s)
  vgaInitpalette bios (changeReg 0x3c4 1 (· ||| 1) s)

def vgaMapfonts (s : Vga) : Vga :=
  let s := outReg 0x3c4 4 7 (outReg 0x3c4 2 4 s)
  outReg 0x3ce 4 2 (outReg 0x3ce 6 4 (outReg 0x3ce 5 0 s))

def vgaUnmapfonts (s : Vga) : Vga :=
  let s := outReg 0x3c4 4 3 (outReg 0x3c4 2 3 s)
  outReg 0x3ce 4 0 (outReg 0x3ce 6 0xe (outReg 0x3ce 5 0x10 s))

/-- vga_printlogo, with the second font enabled. -/
def vgaPrintlogo (bios : Latches → Latches) (s : Vga) : Vga :=
  vgaUnmapfonts (outReg 0x3c4 3 4 (vgaMapfonts (vgaSetpalette bios s)))

def vgaSlidedown (totallines : Int) (s : Vga) : Vga :=
  let (startscan, s) := splitLine s
  let const : Int := ((totallines * charHeight - startscan) * 2 ^ 16).tdiv (frames * frames)
  let s := (List.range (frames + 1)).foldl (fun s (framecnt : Nat) =>
    setSplit (shiftRight (framecnt * framecnt * const) 16 + startscan) (vgaSync s)) s
  setSplit (totallines * charHeight - 1) (vgaSync s)

def vgaShowbanner (bios : Latches → Latches) (s : Vga) : Vga := vgaSlidedown numlines (vgaPrintlogo bios s)

def slideup (s : Vga) : Vga :=
  let (scanline, s) := splitLine s
  let const : Int := (scanline * 2 ^ 16).tdiv (frames * frames)
  (List.range (frames + 1)).reverse.foldl
    (fun s (framecnt : Nat) => setSplit (shiftRight (framecnt * framecnt * const) 16) (vgaSync s)) s

def restoreSaved (s : Vga) : Vga :=
  let s := (isaInb 0x3da (isaOutb 0x3c0 (s.saved 5) (isaOutb 0x3c0 0x30 s))).2
  let s := outReg 0x3d4 0xd (s.saved 4) (outReg 0x3d4 0xc (s.saved 3) s)
  outReg 0x3d4 9 (s.saved 2) (outReg 0x3d4 7 (s.saved 1) (outReg 0x3d4 0x18 (s.saved 0) s))

def vgaSlideupandexit (bios : Latches → Latches) (s : Vga) : Vga :=
  vgaSync (vgaInitpalette bios (restoreSaved (vgaSync (slideup s))))

end Pcbsd.Vgaeffects
