import Pcbsd.Gptboot
import Pcbsd.Ufsread

/-! The main of boot/i386/gptboot/gptboot.c with its boot prompt, and with the UFS reader and its dsk_meta
beside the variables of Pcbsd.Gptboot. -/

namespace Pcbsd.Gptboot
open Lib Gpt Drv Ufsread

/-- A call of parse, and a read for the file system: dsk_meta, dsk, the drive and the sector of dsk.start when
sbbuf was last read, and the drives as gptread last found them. -/
inductive Event where
  | command (env : Env) (cmd : Bytes) (m : Main)
  | read (dskMeta : Bool) (dsk : Dsk) (sbFrom : Nat × Nat) (seen : Nat × Nat → Sector)

/-- What dskread knows of. seen, sbFrom and log are not kept by the code. -/
structure Around (σ : Type) where
  main : Main
  outside : σ
  seen : Nat × Nat → Sector
  sbFrom : Nat × Nat
  log : List Event

structure Session (σ : Type) where
  around : Around σ
  reader : Reader

variable {σ : Type} (drives : Drives σ) (layout : Layout)

def dskread (dskMeta : Bool) (a : Around σ) (lba nblk : Nat) (buf : Bytes) : Bool × Bytes × Around σ :=
  let dsk := a.main.dsk
  let log := a.log ++ [.read dskMeta dsk a.sbFrom a.seen]
  let sbFrom := if dskMeta then a.sbFrom else (dsk.drive, dsk.start)
  match drvread drives a.main.gpt.disk a.outside dsk.drive ((lba + dsk.start) % 2 ^ 64) nblk buf with
  | (ok, buf, outside) => (ok, buf, { a with outside, log, sbFrom })

def dev : Dev (Around σ) where
  dskread := dskread drives

namespace Session

def main (t : Session σ) : Main := t.around.main

def setMain (t : Session σ) (main : Main) : Session σ := { t with around := { t.around with main } }

def note (t : Session σ) (event : Event) : Session σ :=
  { t with around := { t.around with log := t.around.log ++ [event] } }

def resetMeta (t : Session σ) : Session σ := { t with reader := { t.reader with dskMeta := false } }

def setSeen (t : Session σ) (seen : Nat × Nat → Sector) : Session σ := { t with around := { t.around with seen } }

@[simp] theorem main_setMain (t : Session σ) (m : Main) : (t.setMain m).main = m := rfl

@[simp] theorem main_note (t : Session σ) (event : Event) : (t.note event).main = t.main := rfl

@[simp] theorem main_resetMeta (t : Session σ) : t.resetMeta.main = t.main := rfl

end Session

@[grind =] def initSession (env : Env) (t : Session σ) : Bool × Session σ :=
  let seen := t.main.gpt.disk
  match gptinit env t.main with
  | (false, m) => (false, (t.setMain m).setSeen seen)
  | (true, m) => (true, ((t.setMain m).setSeen seen).resetMeta)

/-- A command line, with the gptinit that it may call for. The flag is false when one of the two fails. -/
def command (env : Env) (cmd : Bytes) (t : Session σ) : Bool × Session σ :=
  let t := t.note (.command env cmd t.main)
  match parse env t.main cmd with
  | (m, none) => (false, t.setMain m)
  | (m, some false) => (true, t.setMain m)
  | (m, some true) => initSession env (t.setMain m)

def runClient (client : Client) (t : Session σ) : Session σ :=
  match exec layout (dev drives) client t.reader t.around with
  | (reader, around) => { reader, around }

/-- A round of the first loop of main: `reading` is the search for the configuration file, and `loading` what
load does with the files. -/
structure Round where
  env : Env
  reading : Client
  loading : Bytes → Client

/-- The images of a round, one after the other. The flag is true when one boots. -/
def loadImages (round : Round) : List Bytes → Session σ → Bool × Session σ
  | [], t => (false, t)
  | kname :: rest, t =>
    let t := runClient drives layout (round.loading kname) (t.setMain { t.main with kname })
    if round.env.load t.main.dsk kname then (true, t) else loadImages round rest t

inductive Next where
  | again
  | prompt
  | booted

def configCommand (env : Env) (t : Session σ) : Bool × Session σ :=
  if t.main.cmd.headD 0 = 0 then (true, t)
  else
    match command env t.main.cmd t with
    | (false, t) => (false, t)
    | (true, t) => (true, t.setMain { t.main with cmd := put 0 [0] t.main.cmd })

def config (round : Round) (t : Session σ) : Bool × Session σ :=
  let t := runClient drives layout round.reading (t.setMain { t.main with kname := [] })
  configCommand round.env (t.setMain (readConfig round.env t.main))

def bootRound (round : Round) (t : Session σ) : Next × Session σ :=
  match config drives layout round t with
  | (false, t) => (.prompt, t)
  | (true, t) =>
    if t.main.autoboot ∧ round.env.keyhit then
      (.prompt, t.setMain { t.main with kname := if t.main.kname = [] then pathBoot3 else t.main.kname })
    else
      match loadImages drives layout round (images t.main) (t.setMain { t.main with autoboot := false }) with
      | (true, t) => (.booted, t)
      | (false, t) =>
        let gpt := gptbootfailed round.env.bios t.main.gpt t.main.dsk
        match gptfind round.env.bios gpt freebsdUfsUuid t.main.dsk (-1) with
        | (0, gpt, dsk) => (.again, (t.setMain { t.main with gpt, dsk }).resetMeta)
        | (_, gpt, dsk) => (.prompt, t.setMain { t.main with gpt, dsk })

/-- What a command line at the prompt and its load get from outside. -/
structure Entry where
  env : Env
  cmd : Bytes
  loading : Bytes → Client

/-- The prompt loop, for the entries made one after the other. -/
def prompt : List Entry → Session σ → Session σ
  | [], t => t
  | entry :: rest, t =>
    match command entry.env entry.cmd t with
    | (false, t) => prompt rest t
    | (true, t) =>
      let t := runClient drives layout (entry.loading t.main.kname) t
      if entry.env.load t.main.dsk t.main.kname then t else prompt rest t

@[grind =] def rounds (entries : List Entry) : List Round → Session σ → Session σ
  | [], t => t
  | round :: rest, t =>
    match bootRound drives layout round t with
    | (.again, t) => rounds entries rest t
    | (.prompt, t) => prompt drives layout entries t
    | (.booted, t) => t

/-- main, for the rounds of its first loop and the entries at the prompt. Before it dsk_meta is 0. -/
def session (env : Env) (gpt : State) (drive : UInt8) (stack : Bytes) (comspeed : Int) (reader : Reader) (outside : σ)
    (entries : List Entry) (script : List Round) : Session σ :=
  match start env gpt drive stack comspeed with
  | (ok, main) =>
    let t : Session σ := ⟨⟨main, outside, gpt.disk, (0, 0), []⟩, { reader with dskMeta := false }⟩
    if ok then rounds drives layout entries script t else t

end Pcbsd.Gptboot
