import Pcbsd.Gptboot
import Pcbsd.Ufsread

/-! The boot block boot/i386/boot2/boot2.c: parse, dskread and the loop of main. Offsets in the MBR and in
a label are those of sys/diskmbr.h and sys/disklabel.h. -/

namespace Pcbsd.Boot2
open Lib Gpt Gptboot Boot Drv Ufsread

def wholeDiskSlice : Nat := 0
def compatibilitySlice : Nat := 1
def baseSlice : Nat := 2
def ndospart : Nat := 4
def dospartoff : Nat := 446
def dosptyp386bsd : Nat := 0xa5
def labelsector : Nat := 1
def diskmagic : Nat := 0x82564557
def dtypeScsi : Nat := 4
def rawPart : Nat := 2
def typeDa : Nat := 1

structure Dsk where
  drive : Nat
  type : Nat
  unit : Nat
  slice : Nat
  part : Nat
  start : Nat
  init : Nat
  deriving DecidableEq

def dpFlag (sec : Bytes) (i : Nat) : Nat := le 1 (dospartoff + 16 * i) sec
def dpTyp (sec : Bytes) (i : Nat) : Nat := le 1 (dospartoff + 16 * i + 4) sec
def dpStart (sec : Bytes) (i : Nat) : Nat := le 4 (dospartoff + 16 * i + 8) sec

def dMagic (sec : Bytes) : Nat := le 4 0 sec
def dType (sec : Bytes) : Nat := le 2 4 sec
def dMagic2 (sec : Bytes) : Nat := le 4 132 sec
def dNpartitions (sec : Bytes) : Nat := le 2 138 sec
def pSize (sec : Bytes) (part : Nat) : Nat := le 4 (148 + 16 * part) sec
def pOffset (sec : Bytes) (part : Nat) : Nat := le 4 (152 + 16 * part) sec

def active (sec : Bytes) (i : Nat) : Bool := dpFlag sec i &&& 0x80 != 0

def sliceLoop (sec : Bytes) (slice : Nat) : List Nat → (sl : Nat) → Nat
  | [], sl => sl
  | i :: rest, sl =>
    if dpTyp sec i = dosptyp386bsd ∧ (active sec i = true ∨ sl < baseSlice) then
      if active sec i = true ∨ slice = compatibilitySlice then baseSlice + i else sliceLoop sec slice rest (baseSlice + i)
    else sliceLoop sec slice rest sl

def chosen (mbr : Bytes) (slice : Nat) : Nat :=
  if slice < baseSlice then sliceLoop mbr slice (List.range ndospart) slice else slice

structure Vars where
  dsk : Dsk
  dskMeta : Bool
  console : Console
  kname : Option Bytes
  deriving DecidableEq

/-- A call of parse with its variables, and a read for the file system: dsk_meta, dsk, and the drive and the
sector of dsk.start when sbbuf was last read. -/
inductive Event where
  | command (buf : Bytes) (keyboard : Bool) (vars : Vars)
  | read (dskMeta : Bool) (dsk : Dsk) (sbFrom : Nat × Nat)
  deriving DecidableEq

/-- What dskread knows of. sbFrom and log are not kept by the code. -/
structure Around (σ : Type) where
  dsk : Dsk
  outside : σ
  sbFrom : Nat × Nat
  log : List Event

variable {σ : Type} (drives : Drives σ) (disk : Nat × Nat → Sector) (behind : Bytes)

def readSec (a : Around σ) (lba : Nat) : Option Bytes × Around σ :=
  match drives.answer a.outside a.dsk.drive lba 1 with
  | (none, outside) => (some (disk (a.dsk.drive, lba)).bytes, { a with outside })
  | (some _, outside) => (none, { a with outside })

/-- The partition in the label `sec` of the slice at dsk.start. -/
def findPart (sec : Bytes) (a : Around σ) : Bool × Around σ :=
  if dMagic sec ≠ diskmagic ∨ dMagic2 sec ≠ diskmagic then (a.dsk.part = rawPart, a)
  else
    let dsk := if a.dsk.init = 0 then { a.dsk with type := if dType sec = dtypeScsi then typeDa else a.dsk.type, init := 1 } else a.dsk
    if dNpartitions sec ≤ dsk.part ∨ pSize sec dsk.part = 0 then (false, { a with dsk })
    else
      let start := (dsk.start + pOffset sec dsk.part + (2 ^ 32 - pOffset sec rawPart)) % 2 ^ 32
      (true, { a with dsk := { dsk with start } })

/-- The slice in the MBR, in the memory `mbr` from secbuf on. -/
def findSlice (mbr : Bytes) (a : Around σ) : Bool × Around σ :=
  let sl := chosen mbr a.dsk.slice
  let dsk := if a.dsk.slice = wholeDiskSlice then { a.dsk with slice := sl } else a.dsk
  if sl = wholeDiskSlice then (true, { a with dsk })
  else if dpTyp mbr (sl - baseSlice) ≠ dosptyp386bsd then (false, { a with dsk })
  else (true, { a with dsk := { dsk with start := dpStart mbr (sl - baseSlice) } })

/-- The part of dskread for a new selection, with `behind` the memory behind secbuf. -/
def locate (a : Around σ) : Bool × Around σ :=
  match readSec drives disk { a with dsk := { a.dsk with start := 0 } } 0 with
  | (none, a) => (false, a)
  | (some sec, a) =>
    match findSlice (sec ++ behind) a with
    | (false, a) => (false, a)
    | (true, a) =>
      match readSec drives disk a ((a.dsk.start + labelsector) % 2 ^ 32) with
      | (none, a) => (false, a)
      | (some sec, a) => findPart sec a

def dskread (dskMeta : Bool) (a : Around σ) (lba nblk : Nat) (buf : Bytes) : Bool × Bytes × Around σ :=
  match if dskMeta then (true, a) else locate drives disk behind a with
  | (false, a) => (false, buf, a)
  | (true, a) =>
    let log := a.log ++ [.read dskMeta a.dsk a.sbFrom]
    let sbFrom := if dskMeta then a.sbFrom else (a.dsk.drive, a.dsk.start)
    match drvread drives disk a.outside a.dsk.drive ((a.dsk.start + lba) % 2 ^ 32) nblk buf with
    | (ok, buf, outside) => (ok, buf, { a with outside, log, sbFrom })

def dev : Dev (Around σ) where
  dskread := dskread drives disk behind

def minus8 (c k : UInt8) : Nat := (c - k).toNat

def Vars.setDsk (v : Vars) (dsk : Dsk) : Vars := { v with dsk }

/-- The slice that may stand before the letter of the partition, and where the letter is. -/
def parseSlice (mem : Bytes) (arg : Nat) : Nat × Nat :=
  if mem.getD (arg + 1) 0 = 0x2c then ((minus8 (mem.getD arg 0) 0x30 + 1) % 2 ^ 8, arg + 2) else (wholeDiskSlice, arg)

/-- A device such as ad(0,1,a) behind the drive number that may stand before it, in the memory `mem` from the
word on. The result is where it ends, or none on an error. -/
def parseUnit (v : Vars) (mem : Bytes) (q arg : Nat) (drv : Option Nat) : Vars × Option Nat :=
  if q ≠ arg + 2 then (v, none)
  else
    match devNm.findIdx? fun nm => mem.getD arg 0 == nm.1 && mem.getD (arg + 1) 0 == nm.2 with
    | none => (v, none)
    | some type =>
      let unit := digit (mem.getD (arg + 3) 0)
      let v := v.setDsk { v.dsk with type, unit := (unit % 2 ^ 32).toNat }
      if mem.getD (arg + 4) 0 ≠ 0x2c ∨ ¬(0 ≤ unit ∧ unit ≤ 9) then (v, none)
      else
        let (slice, arg) := parseSlice mem (arg + 5)
        let v := v.setDsk { v.dsk with slice }
        if ndospart + 1 < slice then (v, none)
        else if mem.getD (arg + 1) 0 ≠ 0x29 then (v, none)
        else
          let part := minus8 (mem.getD arg 0) 0x61
          let v := v.setDsk { v.dsk with part }
          if 7 < part then (v, none)
          else
            let drive := (if type ≤ typeMaxhard then drvHard else 0) + drv.getD unit.toNat
            ({ v with dsk := { v.dsk with drive }, dskMeta := false }, some (arg + 2))

def parseDev (v : Vars) (mem : Bytes) (q : Nat) : Vars × Option Nat :=
  if mem.getD 1 0 = 0x3a then
    let drv := digit (mem.getD 0 0)
    if ¬(0 ≤ drv ∧ drv ≤ 9) then (v, none) else parseUnit v mem q 2 (some drv.toNat)
  else parseUnit v mem q 0 none

def parseKname (v : Vars) (name : Bytes) : Vars × Bool :=
  if name = [] then (v, true) else if 1024 ≤ name.length then (v, false) else ({ v with kname := some name }, true)

/-- One word, of which `mem` is the memory from its start on. The flag is false on an error. -/
def parseWord (keyboard : Bool) (v : Vars) (tok mem : Bytes) : Vars × Bool :=
  match tok with
  | [] => (v, true)
  | c :: word =>
    if c = 0x2d then
      match parseOpts keyboard word v.console with
      | (console, false) => ({ v with console }, false)
      | (console, true) => ({ v with console := setIoctrl console }, true)
    else
      match word.findIdx? (· == 0x28) with
      | none => parseKname v tok
      | some q =>
        match parseDev v mem (q + 1) with
        | (v, none) => (v, false)
        | (v, some arg) => parseKname v (tok.drop arg)

/-- parse over the buffer of a command, whose string ends at its first NUL. -/
def parse (keyboard : Bool) : (fuel : Nat) → Bytes → Vars → Vars × Bool
  | 0, _, v => (v, true)
  | _ + 1, [], v => (v, true)
  | fuel + 1, c :: arg, v =>
    if c = 0 then (v, true)
    else if isSpace c then parse keyboard fuel arg v
    else
      let word := arg.takeWhile fun c => !(c == 0) && !isSpace c
      let rest := arg.drop word.length
      match parseWord keyboard v (c :: word) (c :: word ++ 0 :: rest.tail) with
      | (v, false) => (v, false)
      | (v, true) => if rest.headD 0 = 0 then (v, true) else parse keyboard fuel rest.tail v

structure Main (σ : Type) where
  around : Around σ
  reader : Reader
  console : Console
  kname : Option Bytes

def Main.vars (m : Main σ) : Vars := ⟨m.around.dsk, m.reader.dskMeta, m.console, m.kname⟩

def Main.setVars (m : Main σ) (v : Vars) : Main σ :=
  { around := { m.around with dsk := v.dsk }, reader := { m.reader with dskMeta := v.dskMeta }, console := v.console,
    kname := v.kname }

def Main.note (m : Main σ) (event : Event) : Main σ :=
  { m with around := { m.around with log := m.around.log ++ [event] } }

/-- What a command line and its load get from outside: the buffer, the BIOS flag that -P tests, what load
does with the files, and whether it boots. -/
structure Entry where
  buf : Bytes
  keyboard : Bool
  load : Option Bytes → Client
  boots : Bool

variable (layout : Layout)

def runParse (buf : Bytes) (keyboard : Bool) (m : Main σ) : Bool × Main σ :=
  match parse keyboard buf.length buf m.vars with
  | (v, ok) => (ok, (m.note (.command buf keyboard m.vars)).setVars v)

def runClient (client : Client) (m : Main σ) : Main σ :=
  match exec layout (dev drives disk behind) client m.reader m.around with
  | (reader, around) => { m with reader, around }

/-- The prompt loop, for the entries made one after the other. -/
def prompt : List Entry → Main σ → Main σ
  | [], m => m
  | entry :: rest, m =>
    match runParse entry.buf entry.keyboard m with
    | (false, m) => prompt rest m
    | (true, m) =>
      let m := runClient drives disk behind layout (entry.load m.kname) m
      if entry.boots then m else prompt rest m

/-- main before the prompt: the configuration file is read by `config`, which leaves `first.buf` in cmd, and
the loader is tried if no key is hit. -/
def main (config : Client) (first : Entry) (keyhit : Bool) (entries : List Entry) (m : Main σ) : Main σ :=
  let m := runClient drives disk behind layout config m
  let (ok, m) := if first.buf.headD 0 = 0 then (true, m) else runParse first.buf first.keyboard m
  if m.kname = none then
    let m := { m with kname := some pathBoot3 }
    if ok ∧ keyhit = false then
      let m := runClient drives disk behind layout (first.load m.kname) m
      if first.boots then m else prompt drives disk behind layout entries { m with kname := some pathKernel }
    else prompt drives disk behind layout entries m
  else prompt drives disk behind layout entries m

end Pcbsd.Boot2
