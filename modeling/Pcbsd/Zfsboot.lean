import Pcbsd.Gptboot

/-! The boot block boot/i386/zfsboot/zfsboot.c: main, parse and the pool that they boot from, with
zfs_mount and zfs_spa_init of boot/zfs/zfsimpl.c. A pool is a position in zfs_pools. What a pool holds,
and whether it can be read, comes from outside. -/

namespace Pcbsd.Zfsboot
open Lib Boot Gptboot

def pathBoot3 : Bytes := ascii ['/', 'b', 'o', 'o', 't', '/', 'z', 'f', 's', 'l', 'o', 'a', 'd', 'e', 'r']

def rbxQuiet : Nat := 0x15

def charColon : UInt8 := 0x3a

def wordStatus : Bytes := ascii ['s', 't', 'a', 't', 'u', 's']

structure Spa (μ : Type) where
  name : Bytes
  inited : Bool
  mos : μ

structure Zfsmount (μ : Type) where
  spa : Option Nat
  objset : μ
  rootobj : Nat
  deriving DecidableEq

/-- How reading from a pool ends: with a value, with an error, or with the division by the block size
of an empty dnode. -/
inductive Reply (α : Type) where
  | ok (value : α)
  | failed
  | trapped

/-- What zfsboot asks of its surroundings `σ`, where `μ` is the contents of an objset_phys_t. The
functions that read get the spa_mos of the pool, and the two that fill in an object set get what it
contains before and tell what it contains behind, also when they fail. `config` is the string that
the configuration file puts into cmd, `load` ends with an error when load returns. -/
structure Env (μ σ : Type) where
  keyboard : Bool
  readMos : σ → Nat → μ → Bool × μ × σ
  getRoot : σ → Nat → μ → Reply Nat × σ
  lookupDataset : σ → Nat → μ → Bytes → Reply Nat × σ
  mountDataset : σ → Nat → μ → Nat → μ → Reply Unit × μ × σ
  rlookup : σ → Nat → μ → Nat → Reply Bytes × σ
  list : σ → Zfsmount μ → Bytes → Reply Unit × σ
  config : σ → Zfsmount μ → Reply Bytes × σ
  load : σ → Nat → Zfsmount μ → Bytes → Reply Unit × σ

/-- The variables of zfsboot.c; `pools` is zfs_pools and kname the string before its NUL. -/
structure Main (μ σ : Type) where
  pools : List (Spa μ)
  spa : Nat
  zfsmount : Zfsmount μ
  console : Console
  kname : Bytes
  outside : σ

variable {μ σ : Type} (env : Env μ σ)

def Main.pool (m : Main μ σ) (p : Nat) : Option (Spa μ) := m.pools[p]?

def spaFindByName (m : Main μ σ) (name : Bytes) : Option Nat := m.pools.findIdx? fun spa => spa.name == name

def mountRoot (spa rootobj : Nat) (mos : μ) (m : Main μ σ) : Reply Unit × Main μ σ :=
  match env.mountDataset m.outside spa mos rootobj m.zfsmount.objset with
  | (.ok _, objset, outside) => (.ok (), { m with zfsmount := { m.zfsmount with objset, rootobj }, outside })
  | (ended, objset, outside) => (ended, { m with zfsmount := { m.zfsmount with objset }, outside })

def zfsMount (spa rootobj : Nat) (m : Main μ σ) : Reply Unit × Main μ σ :=
  let m := { m with zfsmount := { m.zfsmount with spa := some spa } }
  match m.pool spa with
  | none => (.trapped, m)
  | some pool =>
    if rootobj = 0 then
      match env.getRoot m.outside spa pool.mos with
      | (.ok rootobj, outside) => mountRoot env spa rootobj pool.mos { m with outside }
      | (.failed, outside) => (.failed, { m with outside })
      | (.trapped, outside) => (.trapped, { m with outside })
    else mountRoot env spa rootobj pool.mos m

def zfsSpaInit (spa : Nat) (m : Main μ σ) : Bool × Main μ σ :=
  match m.pool spa with
  | none => (false, m)
  | some pool =>
    if pool.inited then (true, m)
    else
      match env.readMos m.outside spa pool.mos with
      | (ok, mos, outside) => (ok, { m with pools := m.pools.set spa { pool with mos, inited := ok }, outside })

inductive Parsed where
  | accepted
  | rejected
  | trapped
  deriving DecidableEq

def parseKname (name : Bytes) (m : Main μ σ) : Parsed × Main μ σ :=
  if name = [] then (.accepted, m)
  else if 1024 ≤ name.length then (.rejected, m)
  else (.accepted, { m with kname := name })

def switchMount (spa newroot : Nat) (name : Bytes) (m : Main μ σ) : Parsed × Main μ σ :=
  match zfsMount env spa newroot m with
  | (.ok _, m) => parseKname name m
  | (.failed, m) => (.rejected, m)
  | (.trapped, m) => (.trapped, m)

/-- The switch to the pool `newspa`, where `arg` is what stands behind the first colon. -/
def switchPool (newspa : Nat) (arg : Bytes) (m : Main μ σ) : Parsed × Main μ σ :=
  let m := { m with spa := newspa }
  match arg.findIdx? (· == charColon) with
  | none => switchMount env newspa 0 arg m
  | some q =>
    match m.pool newspa with
    | none => (.trapped, m)
    | some pool =>
      match env.lookupDataset m.outside newspa pool.mos (arg.take q) with
      | (.ok newroot, outside) => switchMount env newspa newroot (arg.drop (q + 1)) { m with outside }
      | (.failed, outside) => (.rejected, { m with outside })
      | (.trapped, outside) => (.trapped, { m with outside })

/-- One word of a command. Behind the options of a word that starts with '-' the pointer stands at the
end of the word, and the code for a name finds an empty one there. -/
def parseWord (tok : Bytes) (m : Main μ σ) : Parsed × Main μ σ :=
  match tok with
  | [] => (.accepted, m)
  | c :: word =>
    if c = 0x2d then
      match parseOpts env.keyboard word m.console with
      | (console, false) => (.rejected, { m with console })
      | (console, true) => (.accepted, { m with console := setIoctrl console })
    else if c = 0x3f then
      match env.list m.outside m.zfsmount word with
      | (.trapped, outside) => (.trapped, { m with outside })
      | (_, outside) => (.rejected, { m with outside })
    else if tok = wordStatus then (.rejected, m)
    else
      match tok.findIdx? (· == charColon) with
      | none => parseKname tok m
      | some q =>
        match spaFindByName m (tok.take q) with
        | none => (.rejected, m)
        | some newspa => switchPool env newspa (tok.drop (q + 1)) m

def parseWords : List Bytes → Main μ σ → Parsed × Main μ σ
  | [], m => (.accepted, m)
  | tok :: rest, m =>
    match parseWord env tok m with
    | (.accepted, m) => parseWords rest m
    | ended => ended

def parse (cmd : Bytes) (m : Main μ σ) : Parsed × Main μ σ := parseWords env (commandWords cmd) m

/-- A call of parse, a call of load, each with the variables that it starts from, and a return of -1
from parse, with the variables before and behind it. -/
inductive Event (μ σ : Type) where
  | command (cmd : Bytes) (m : Main μ σ)
  | load (m : Main μ σ)
  | rejected (before after : Main μ σ)

def runLoad (m : Main μ σ) (next : Main μ σ → List (Event μ σ)) : List (Event μ σ) :=
  .load m ::
    match env.load m.outside m.spa m.zfsmount m.kname with
    | (.failed, outside) => next { m with outside }
    | _ => []

/-- A command, with what goes on when it was accepted and when it was rejected. -/
def runParse (cmd : Bytes) (m : Main μ σ) (accepted rejected : Main μ σ → List (Event μ σ)) : List (Event μ σ) :=
  .command cmd m ::
    match parse env cmd m with
    | (.accepted, after) => accepted after
    | (.rejected, after) => .rejected m after :: rejected after
    | (.trapped, _) => []

/-- What the prompt shows: the name of the mounted dataset is looked up. It is none after a trap. -/
def showPrompt (auto : Bool) (m : Main μ σ) : Option (Main μ σ) :=
  if auto ∧ m.console.optCheck rbxQuiet then some m
  else
    match m.pool m.spa with
    | none => none
    | some pool =>
      match env.rlookup m.outside m.spa pool.mos m.zfsmount.rootobj with
      | (.trapped, _) => none
      | (_, outside) => some { m with outside }

/-- The prompt loop, for the commands that are typed one after the other. -/
def prompt : List Bytes → Bool → Main μ σ → List (Event μ σ)
  | [], _, _ => []
  | cmd :: rest, auto, m =>
    match showPrompt env auto m with
    | none => []
    | some m => runParse env cmd m (fun m => runLoad env m (prompt rest false)) (prompt rest false)

def autoboot (auto keyhit : Bool) (cmds : List Bytes) (m : Main μ σ) : List (Event μ σ) :=
  if auto ∧ m.kname = [] then
    let m := { m with kname := pathBoot3 }
    if keyhit then prompt env cmds auto m
    else runLoad env m fun m => prompt env cmds auto { m with kname := pathKernel }
  else prompt env cmds auto m

/-- main behind the mount of the default pool, which may have failed. -/
def configured (mounted keyhit : Bool) (cmds : List Bytes) (m : Main μ σ) : List (Event μ σ) :=
  if mounted then
    match env.config m.outside m.zfsmount with
    | (.ok cmd, outside) =>
      runParse env cmd { m with outside } (autoboot env true keyhit cmds) (autoboot env false keyhit cmds)
    | (.failed, outside) => autoboot env true keyhit cmds { m with outside }
    | (.trapped, _) => []
  else autoboot env false keyhit cmds m

/-- The mount of the default pool: whether it succeeded, or none when it trapped. -/
def mountDefault (m : Main μ σ) : Option Bool × Main μ σ :=
  match zfsSpaInit env m.spa m with
  | (false, m) => (some false, m)
  | (true, m) =>
    match zfsMount env m.spa 0 m with
    | (.ok _, m) => (some true, m)
    | (.failed, m) => (some false, m)
    | (.trapped, m) => (none, m)

/-- main behind the probe of the drives, whose first pool is `m.spa`. -/
def main (keyhit : Bool) (cmds : List Bytes) (m : Main μ σ) : List (Event μ σ) :=
  match mountDefault env m with
  | (none, _) => []
  | (some mounted, m) => configured env mounted keyhit cmds m

end Pcbsd.Zfsboot
