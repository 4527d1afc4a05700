import Pcbsd.Gpt

/-! The boot block boot/i386/gptboot/gptboot.c up to its boot prompt: parse, gptinit and the
first loop of main. What the file system of a partition holds, the keyboard and whether an
image can be loaded come from outside. -/

namespace Pcbsd.Gptboot
open Lib Gpt

/-- GPT_ENT_TYPE_FREEBSD_UFS. -/
def freebsdUfsUuid : Bytes :=
  [0xb6, 0x7c, 0x6e, 0x51, 0xcf, 0x6e, 0xd6, 0x11, 0x8f, 0xf8, 0x00, 0x02, 0x2d, 0x09, 0x71, 0x2b]

def pathBoot3 : Bytes := [0x2f, 0x62, 0x6f, 0x6f, 0x74, 0x2f, 0x6c, 0x6f, 0x61, 0x64, 0x65, 0x72]

def pathKernel : Bytes :=
  [0x2f, 0x62, 0x6f, 0x6f, 0x74, 0x2f, 0x6b, 0x65, 0x72, 0x6e, 0x65, 0x6c, 0x2f, 0x6b, 0x65, 0x72, 0x6e, 0x65, 0x6c]

def drvHard : Nat := 0x80
def drvMask : Nat := 0x7f
def typeAd : Nat := 0
def typeMaxhard : Nat := 1
def typeFd : Nat := 2

def rbxSerial : Nat := 0xc
def rbxDual : Nat := 0x1d

/-- optstr and flags: "DhaCcdgmnpqrsv" with the RBX_ number of each letter. -/
def optFlags : List (UInt8 × Nat) :=
  [(0x44, 0x1d), (0x68, 0xc), (0x61, 0x0), (0x43, 0xd), (0x63, 0xa), (0x64, 0x6), (0x67, 0xf), (0x6d, 0x10),
    (0x6e, 0x1c), (0x70, 0x14), (0x71, 0x15), (0x72, 0x5), (0x73, 0x1), (0x76, 0xb)]

/-- dev_nm: "ad", "da", "fd". -/
def devNm : List (UInt8 × UInt8) := [(0x61, 0x64), (0x64, 0x61), (0x66, 0x64)]

/-- Everything gptboot asks of its surroundings. `config` is what lookup and fsread deliver of
/boot/config or /boot.config on the file system at a drive and start, `load` tells whether
load boots that image, `keyboard` is the BIOS flag that -P tests, and `behind` is the memory
behind cmdtmp, read when a command of 512 bytes has no end. -/
structure Env where
  bios : Bios
  config : Nat → Nat → Option Bytes
  load : Dsk → Bytes → Bool
  keyhit : Bool
  keyboard : Bool
  behind : Bytes

/-- The variables of gptboot.c. kname is the string before its NUL. -/
structure Main where
  gpt : State
  dsk : Dsk
  opts : BitVec 32
  ioctrl : Nat
  comspeed : Int
  kname : Bytes
  cmd : Bytes
  autoboot : Bool

def optSet (opt : Nat) : BitVec 32 := 1#32 <<< opt

def Main.optCheck (m : Main) (opt : Nat) : Bool := m.opts &&& optSet opt != 0

def ioKeyboard : Nat := 1
def ioSerial : Nat := 2

def isSpace (c : UInt8) : Bool := c == 0x20 || c == 0x09 || c == 0x0a

def digit (c : UInt8) : Int := c.toInt8.toInt - 0x30

/-- The digits of -S: the number read, in 32 bits, and what follows them. -/
def parseSpeed : Bytes → Int → Int × Bytes
  | [], j => (j, [])
  | c :: arg, j => if 0 ≤ digit c ∧ digit c ≤ 9 then parseSpeed arg (Int.bmod (j * 10 + digit c) (2 ^ 32)) else (j, c :: arg)

/-- The letters behind a '-'. The flag is false on an error. -/
@[grind =] def parseOpts (env : Env) : Bytes → Main → Main × Bool
  | [], m => (m, true)
  | c :: arg, m =>
    if c = 0x50 then
      parseOpts env arg (if env.keyboard then m else { m with opts := m.opts ||| optSet rbxDual ||| optSet rbxSerial })
    else if c = 0x53 then
      match parseSpeed arg 0 with
      | (j, []) => if 0 < j then ({ m with comspeed := j }, true) else (m, false)
      | (_, _ :: _) => (m, false)
    else
      match optFlags.find? (·.1 == c) with
      | none => (m, false)
      | some (_, flag) => parseOpts env arg { m with opts := m.opts ^^^ optSet flag }

def setIoctrl (m : Main) : Main :=
  { m with ioctrl := if m.optCheck rbxDual then ioSerial ||| ioKeyboard else if m.optCheck rbxSerial then ioSerial
    else ioKeyboard }

/-- A device such as ad(0p1) at index `arg`, whose '(' is at index `q`, up to its ')': where it
ends, or none on an error. The members of dsk change as they are read, also when the rest is wrong. -/
def parseUnit (m : Main) (tok : Bytes) (q arg : Nat) (drv : Option Nat) : Main × Option Nat :=
  if q ≠ arg + 2 then (m, none)
  else
    match devNm.findIdx? fun nm => tok.getD arg 0 == nm.1 && tok.getD (arg + 1) 0 == nm.2 with
    | none => (m, none)
    | some type =>
      let unit := digit (tok.getD (arg + 3) 0)
      let m := { m with dsk := { m.dsk with type, unit := (unit % 2 ^ 32).toNat } }
      if tok.getD (arg + 4) 0 ≠ 0x70 ∨ ¬ (0 ≤ unit ∧ unit ≤ 9) then (m, none)
      else
        let part := digit (tok.getD (arg + 5) 0)
        let m := { m with dsk := { m.dsk with part } }
        if part < 1 ∨ 9 < part then (m, none)
        else if tok.getD (arg + 6) 0 ≠ 0x29 then (m, none)
        else
          let drive := (if type ≤ typeMaxhard then drvHard else 0) + drv.getD unit.toNat
          ({ m with dsk := { m.dsk with drive } }, some (arg + 7))

/-- The same with the drive number that may stand before it, as in 0:ad(0p1). -/
def parseDev (m : Main) (tok : Bytes) (q : Nat) : Main × Option Nat :=
  if tok.getD 1 0 = 0x3a then
    let drv := digit (tok.getD 0 0)
    if ¬ (0 ≤ drv ∧ drv ≤ 9) then (m, none) else parseUnit m tok q 2 (some drv.toNat)
  else parseUnit m tok q 0 none

def parseKname (m : Main) (name : Bytes) : Option Main :=
  if name = [] then some m
  else if 1024 ≤ name.length then none
  else some { m with kname := name }

/-- One argument of a command, its first character included. The flag is dskupdated. -/
def parseArg (env : Env) (m : Main) (updated : Bool) (tok : Bytes) : Main × Option Bool :=
  match tok with
  | [] => (m, some updated)
  | c :: word =>
    if c = 0x2d then
      match parseOpts env word m with
      | (m, false) => (m, none)
      | (m, true) => (setIoctrl m, some updated)
    else
      match word.findIdx? (· == 0x28) with
      | none =>
        match parseKname m tok with
        | none => (m, none)
        | some m => (m, some updated)
      | some q =>
        match parseDev m tok (q + 1) with
        | (m, none) => (m, none)
        | (m, some arg) =>
          match parseKname m (tok.drop arg) with
          | none => (m, none)
          | some m => (m, some true)

/-- The loop of parse over a string; `none` is the error return. -/
@[grind =] def parseLoop (env : Env) : (fuel : Nat) → Bytes → Main → Bool → Main × Option Bool
  | 0, _, m, updated => (m, some updated)
  | _ + 1, [], m, updated => (m, some updated)
  | fuel + 1, c :: arg, m, updated =>
    if isSpace c then parseLoop env fuel arg m updated
    else
      let word := arg.takeWhile fun c => !isSpace c
      match parseArg env m updated (c :: word) with
      | (m, none) => (m, none)
      | (m, some updated) => parseLoop env fuel (arg.drop (word.length + 1)) m updated

def cstring (env : Env) (buf : Bytes) : Bytes := (buf ++ env.behind).takeWhile (· != 0)

def parse (env : Env) (m : Main) (cmdstr : Bytes) : Main × Option Bool :=
  parseLoop env (cstring env cmdstr).length (cstring env cmdstr) m false

@[grind =] def gptinit (env : Env) (m : Main) : Bool × Main :=
  match gptread env.bios m.gpt m.dsk with
  | (0, gpt, dsk) =>
    match gptfind env.bios gpt freebsdUfsUuid dsk dsk.part with
    | (0, gpt, dsk) => (true, { m with gpt, dsk })
    | (_, gpt, dsk) => (false, { m with gpt, dsk })
  | (_, gpt, dsk) => (false, { m with gpt, dsk })

/-- The configuration file of the partition is read over the start of cmd. -/
def readConfig (env : Env) (m : Main) : Main :=
  match env.config m.dsk.drive m.dsk.start with
  | none => m
  | some content => { m with cmd := put 0 (content.take 512) m.cmd }

/-- The command in cmd is executed. The flag is false when the loop is left. -/
def runConfig (env : Env) (m : Main) : Main × Bool :=
  if m.cmd.headD 0 = 0 then (m, true)
  else
    match parse env m m.cmd with
    | (m, none) => (m, false)
    | (m, some false) => ({ m with cmd := put 0 [0] m.cmd }, true)
    | (m, some true) =>
      match gptinit env m with
      | (false, m) => (m, false)
      | (true, m) => ({ m with cmd := put 0 [0] m.cmd }, true)

inductive Step where
  | again (m : Main)
  | prompt (m : Main)
  | booted (m : Main)

/-- The images that an iteration tries, one after the other. -/
def images (m : Main) : List Bytes := (if m.kname = [] then [] else [m.kname]) ++ [pathBoot3, pathKernel]

def iteration (env : Env) (m : Main) : Step :=
  match runConfig env (readConfig env { m with kname := [] }) with
  | (m, false) => .prompt m
  | (m, true) =>
    if m.autoboot ∧ env.keyhit then .prompt { m with kname := if m.kname = [] then pathBoot3 else m.kname }
    else
      let m := { m with autoboot := false }
      match (images m).find? (env.load m.dsk) with
      | some kname => .booted { m with kname }
      | none =>
        let m := { m with kname := pathKernel, gpt := gptbootfailed env.bios m.gpt m.dsk }
        match gptfind env.bios m.gpt freebsdUfsUuid m.dsk (-1) with
        | (0, gpt, dsk) => .again { m with gpt, dsk }
        | (_, gpt, dsk) => .prompt { m with gpt, dsk }

/-- The loop with at most `fuel` rounds: none when it has not ended by then. -/
@[grind =] def loop (env : Env) : Nat → Main → Option Step
  | 0, _ => none
  | fuel + 1, m =>
    match iteration env m with
    | .again m => loop env fuel m
    | .prompt m => some (.prompt m)
    | .booted m => some (.booted m)

/-- main before the loop: the drive comes from the BIOS, `stack` is what cmd happens to hold,
and the statics of gpt.c are as at start-up. The flag is the result of gptinit. -/
def start (env : Env) (gpt : State) (drive : UInt8) (stack : Bytes) (comspeed : Int) : Bool × Main :=
  let drive := drive.toNat
  let dsk : Dsk :=
    { drive, type := if drive &&& drvHard ≠ 0 then typeAd else typeFd, unit := drive &&& drvMask, part := -1, start := 0 }
  let m : Main := { gpt, dsk, opts := 0, ioctrl := ioKeyboard, comspeed, kname := [], cmd := stack, autoboot := true }
  let (ok, m) := gptinit env m
  (ok, { m with cmd := put 0 [0] m.cmd })

end Pcbsd.Gptboot

/-! drvread of boot/i386/common/drv.c and of boot2.c, for any number of sectors. -/

namespace Pcbsd.Drv
open Lib Gpt

/-- How the BIOS answers a read: with success, or with an error and something else in the buffer. -/
structure Drives (σ : Type) where
  answer : σ → (drive lba nblk : Nat) → Option Bytes × σ

def sectors (disk : Nat × Nat → Sector) (drive lba nblk : Nat) : Bytes :=
  (List.range nblk).flatMap fun i => (disk (drive, lba + i)).bytes

def drvread {σ : Type} (drives : Drives σ) (disk : Nat × Nat → Sector) (outside : σ) (drive lba nblk : Nat)
    (buf : Bytes) : Bool × Bytes × σ :=
  match drives.answer outside drive lba nblk with
  | (none, outside) => (true, put 0 (sectors disk drive lba nblk) buf, outside)
  | (some junk, outside) => (false, put 0 (junk.take (nblk * devBsize)) buf, outside)

end Pcbsd.Drv

/-! The option words that boot2.c and zfsboot.c read with the same text as gptboot.c, over the
variables of the console alone. -/

namespace Pcbsd.Boot
open Lib Gptboot

structure Console where
  opts : BitVec 32
  ioctrl : Nat
  comspeed : Int
  deriving DecidableEq

def Console.optCheck (console : Console) (opt : Nat) : Bool := console.opts &&& optSet opt != 0

/-- The letters behind a '-', where `keyboard` is the BIOS flag that -P tests. The flag is false on an
error. -/
def parseOpts (keyboard : Bool) : Bytes → Console → Console × Bool
  | [], console => (console, true)
  | c :: arg, console =>
    if c = 0x50 then
      parseOpts keyboard arg
        (if keyboard then console else { console with opts := console.opts ||| optSet rbxDual ||| optSet rbxSerial })
    else if c = 0x53 then
      match parseSpeed arg 0 with
      | (j, []) => if 0 < j then ({ console with comspeed := j }, true) else (console, false)
      | (_, _ :: _) => (console, false)
    else
      match optFlags.find? (·.1 == c) with
      | none => (console, false)
      | some (_, flag) => parseOpts keyboard arg { console with opts := console.opts ^^^ optSet flag }

def setIoctrl (console : Console) : Console :=
  { console with
    ioctrl := if console.optCheck rbxDual then ioSerial ||| ioKeyboard
      else if console.optCheck rbxSerial then ioSerial else ioKeyboard }

/-- The words of a command: the space between them is skipped, and a word ends before the next one. -/
def words : (fuel : Nat) → Bytes → List Bytes
  | 0, _ => []
  | _ + 1, [] => []
  | fuel + 1, c :: arg =>
    if isSpace c then words fuel arg
    else
      let word := arg.takeWhile fun c => !isSpace c
      (c :: word) :: words fuel (arg.drop (word.length + 1))

def commandWords (cmd : Bytes) : List Bytes := words cmd.length cmd

end Pcbsd.Boot
