import Pcbsd.Lib.Bytes

/-! The terminal emulator of the video console, boot/i386/libi386/vidconsole.c with TERM_EMU. The
screen is the adapter's: it comes in through the video services of the BIOS. -/

namespace Pcbsd.Vidconsole
open Lib

def maxargs : Int := 8
def defaultFgcolor : Int := 7
def defaultBgcolor : Int := 0

/-- INT 10h over the state `σ` of the adapter. Rows and columns are bytes, as DH and DL hold them. -/
structure Video (σ : Type) where
  /-- AH = 2 -/
  setCursor : (row col : UInt8) → σ → σ
  /-- AH = 3 -/
  cursor : σ → UInt8 × UInt8
  /-- AH = 6, with AL and the whole of EBX, ECX and EDX -/
  scroll : UInt8 → (ebx ecx edx : Int) → σ → σ
  /-- AH = 8 -/
  charAt : σ → UInt8
  /-- AH = 9, once, with EBX -/
  writeChar : UInt8 → Int → σ → σ
  /-- AH = 0eh -/
  teletype : UInt8 → σ → σ

/-- What the services do to the cursor. Teletype output is used for the bell only. -/
structure Video.Lawful {σ : Type} (video : Video σ) : Prop where
  cursor_setCursor : ∀ row col s, video.cursor (video.setCursor row col s) = (row, col)
  cursor_scroll : ∀ lines ebx ecx edx s, video.cursor (video.scroll lines ebx ecx edx s) = video.cursor s
  cursor_writeChar : ∀ c ebx s, video.cursor (video.writeChar c ebx s) = video.cursor s
  cursor_bell : ∀ s, video.cursor (video.teletype 7 s) = video.cursor s

/-- The statics of the emulator and the adapter. `touched` lists the indices at which args was read or
written. -/
structure State (σ : Type) where
  args : Int → Int
  argc : Int
  touched : List Int
  fgC : Int
  bgC : Int
  curx : Int
  cury : Int
  esc : UInt8
  started : Bool
  adapter : σ

def charBell : UInt8 := 0x07
def charBackspace : UInt8 := 0x08
def charTab : UInt8 := 0x09
def charNewline : UInt8 := 0x0a
def charReturn : UInt8 := 0x0d
def charEscape : UInt8 := 0x1b
def charSpace : UInt8 := 0x20
def charSemicolon : UInt8 := 0x3b
def charBracket : UInt8 := 0x5b

def isdigit (c : UInt8) : Bool := 0x30 ≤ c && c ≤ 0x39

def lowByte (x : Int) : UInt8 := UInt8.ofNat (x % 256).toNat

def toInt (x : Int) : Int := x.bmod (2 ^ 32)

def isvisible (c : UInt8) : Bool := 32 ≤ c && c < 255

section
variable {σ : Type} (video : Video σ)

def State.touch (s : State σ) (i : Int) : State σ := { s with touched := s.touched ++ [i] }

def State.setArg (s : State σ) (i value : Int) : State σ :=
  { s.touch i with args := Function.update s.args i value }

def writeChar (c : UInt8) (fg bg : Int) (s : State σ) : State σ :=
  { s with adapter := video.writeChar c (bg * 16 + fg) s.adapter }

def scrollUp (rows : Int) (fgcol bgcol : Int) (s : State σ) : State σ :=
  let rows := if rows = 0 then 25 else rows
  { s with adapter := video.scroll (lowByte rows) (bgcol * 4096 + fgcol * 256) 0 0x184f s.adapter }

def getPos (s : State σ) : State σ :=
  let (row, col) := video.cursor s.adapter
  { s with curx := col.toNat, cury := row.toNat }

def cursMove (x y : Int) (s : State σ) : State σ :=
  let t : State σ := { s with adapter := video.setCursor (lowByte y) (lowByte x) s.adapter, curx := x, cury := y }
  if isvisible (video.charAt t.adapter) then t else writeChar video charSpace t.fgC t.bgC t

def biosputchar (c : UInt8) (s : State σ) : State σ := { s with adapter := video.teletype c s.adapter }

def putPlain (c : UInt8) (s : State σ) : State σ :=
  if c = charBell then biosputchar video c s
  else if c = charReturn then cursMove video 0 s.cury s
  else if c = charNewline then
    if s.cury + 1 > 24 then scrollUp video 1 s.fgC s.bgC s
    else cursMove video s.curx (s.cury + 1) s
  else if c = charBackspace then
    if s.curx > 0 then cursMove video (s.curx - 1) s.cury s else s
  else
    let s := writeChar video c s.fgC s.bgC s
    let (x, y) := if s.curx + 1 > 79 then (0, s.cury + 1) else (s.curx + 1, s.cury)
    if y > 24 then cursMove video 0 (y - 1) (scrollUp video 1 s.fgC s.bgC s) else cursMove video x y s

def rawputchar (c : UInt8) (s : State σ) : State σ :=
  if c = charTab then (putPlain video charSpace)^[8] s else putPlain video c s

def rawputs (str : Bytes) (s : State σ) : State σ := str.foldl (fun s c => rawputchar video c s) s

def endTerm (s : State σ) : State σ := { s with esc := 0, argc := -1 }

def clearDisplay (s : State σ) : State σ :=
  let s := getPos video s
  let fill : Int := s.bgC * 16 + s.fgC
  if s.curx > 0 then
    let t := { s with
      adapter := video.scroll 0 fill (s.cury * 256 + s.curx) (s.cury * 256 + 79) s.adapter
      cury := s.cury + 1 }
    if t.cury > 24 then endTerm t
    else endTerm { t with adapter := video.scroll 0 fill (t.cury * 256) (24 * 256 + 79) t.adapter }
  else endTerm { s with adapter := video.scroll 0 fill (s.cury * 256) (24 * 256 + 79) s.adapter }

def lowerArg (i : Int) (s : State σ) : State σ :=
  let s := s.touch i
  if s.args i > 0 then s.setArg i (s.args i - 1) else s

def cursorMotion (s : State σ) : State σ :=
  let s := lowerArg 1 (lowerArg 0 s)
  endTerm (cursMove video (s.args 1) (s.args 0) ((s.touch 1).touch 0))

def homeCursor (s : State σ) : State σ :=
  cursorMotion video ((({ s with argc := 1 } : State σ).setArg 1 1).setArg 0 1)

def decimal (n : Int) : Bytes := (toString n).toList.map fun c => UInt8.ofNat c.toNat

def bailArgs (i : Int) : Nat → State σ → State σ
  | 0, s => s
  | n + 1, s => bailArgs (i + 1) n (rawputs video (decimal (s.args i)) (s.touch i))

def bailOut (c : UInt8) (s : State σ) : State σ :=
  let shown :=
    if s.esc ≠ 0 then
      let t := rawputchar video charEscape s
      let t := if s.esc ≠ charEscape then rawputchar video s.esc t else t
      bailArgs video 0 (s.argc + 1).toNat t
    else s
  endTerm (rawputchar video c shown)

def getArg (c : UInt8) (s : State σ) : State σ :=
  let s := if s.argc < 0 then { s with argc := 0 } else s
  s.setArg s.argc (toInt (toInt (s.args s.argc * 10) + (c.toNat - 0x30)))

def ansiCol (n : Nat) : Int := [0, 4, 2, 6, 1, 5, 3, 7].getD n 0

def rendition (arg : Int) (fg bg : Int) : Int × Int :=
  if arg = 0 then (defaultFgcolor, defaultBgcolor)
  else if arg = 1 then (((fg.toNat ||| 8 : Nat) : Int), bg)
  else if arg = 4 ∨ arg = 5 then (fg, ((bg.toNat ||| 8 : Nat) : Int))
  else if arg = 7 then (bg, fg)
  else if 30 ≤ arg ∧ arg ≤ 37 then (ansiCol (arg - 30).toNat, bg)
  else if arg = 39 then (defaultFgcolor, bg)
  else if 40 ≤ arg ∧ arg ≤ 47 then (fg, ansiCol (arg - 40).toNat)
  else if arg = 49 then (fg, defaultBgcolor)
  else (fg, bg)

/-- The loop over the arguments of 'm' from `i` for `n` rounds. -/
def renditions (i : Int) : Nat → State σ → State σ
  | 0, s => s
  | n + 1, s =>
    let (fg, bg) := rendition (s.args i) s.fgC s.bgC
    renditions (i + 1) n { s.touch i with fgC := fg, bgC := bg }

def graphicRendition (s : State σ) : State σ :=
  let s := if s.argc < 0 then { s with fgC := defaultFgcolor, bgC := defaultBgcolor } else s
  endTerm (renditions 0 (s.argc + 1).toNat s)

def sequenceChar (c : UInt8) (s : State σ) : State σ :=
  if c = charSemicolon then
    if s.argc < 0 then { s with argc := 0 }
    else if s.argc + 1 ≥ maxargs then bailOut video c s
    else ({ s with argc := s.argc + 1 } : State σ).setArg (s.argc + 1) 0
  else if c = 0x48 then
    if s.argc < 0 then homeCursor video s
    else if s.argc = 1 then cursorMotion video s
    else bailOut video c s
  else if c = 0x4a then
    if s.argc < 0 then clearDisplay video s else bailOut video c s
  else if c = 0x6d then graphicRendition s
  else if isdigit c then getArg c s
  else bailOut video c s

def termEmu (c : UInt8) (s : State σ) : State σ :=
  if s.esc = 0 then
    if c = charEscape then { s with esc := c } else rawputchar video c s
  else if s.esc = charEscape then
    if c = charBracket then { s.setArg 0 0 with esc := c, argc := -1 } else bailOut video c s
  else if s.esc = charBracket then sequenceChar video c s
  else bailOut video c s

def putchar (c : UInt8) (s : State σ) : State σ := termEmu video c s

/-- vidc_init, without the keys that it throws away. -/
def init (arg : Int) (s : State σ) : State σ :=
  if s.started ∧ arg = 0 then s
  else
    let t := getPos video (endTerm { s with started := true })
    { cursMove video t.curx t.cury t with fgC := defaultFgcolor, bgC := defaultBgcolor }

def run (bytes : Bytes) (s : State σ) : State σ := bytes.foldl (fun s c => putchar video c s) s

end

end Pcbsd.Vidconsole
