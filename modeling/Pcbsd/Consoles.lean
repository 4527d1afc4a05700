import Pcbsd.Lib.Bytes

/-! The consoles of boot/common/console.c: the probe, and the variable $console with its hook. The functions of a
console are not there, but which ones are started is; none of them touches c_flags beside the probe of the console. -/

namespace Pcbsd.Consoles
open Lib

structure Flags where
  presentin : Bool
  presentout : Bool
  activein : Bool
  activeout : Bool
  deriving DecidableEq

def present : Flags := ⟨true, true, false, false⟩

structure Console where
  name : Bytes
  flags : Flags
  deriving DecidableEq

structure State where
  consoles : List Console
  inits : List Nat
  variable_ : Option Bytes
  deriving DecidableEq

def Console.probed (flags : Flags) (console : Console) : Console := { console with flags }

/-- `c_flags |= C_ACTIVEIN | C_ACTIVEOUT`, or `&= ~(C_ACTIVEIN | C_ACTIVEOUT)`. -/
def Console.setActive (active : Bool) (console : Console) : Console :=
  { console with flags := { console.flags with activein := active, activeout := active } }

def State.activate (i : Nat) (s : State) : State :=
  { s with consoles := s.consoles.modify i (Console.setActive true), inits := s.inits ++ [i] }

def consFind (consoles : List Console) (name : Bytes) : Option Nat :=
  consoles.findIdx? fun console => console.name == name

/-- The pieces that strsep delivers for the separators " ,". -/
def items (string : Bytes) : List Bytes := string.splitOnP fun c => c == 0x20 || c == 0x2c

/-- The loop of cons_check; none is -1. -/
def checkItems (consoles : List Console) : List Bytes → (cons : Option Nat) → Option Nat
  | [], cons => cons
  | curpos :: next, cons =>
    if curpos = [] then checkItems consoles next cons
    else
      match consFind consoles curpos with
      | none => none
      | some cons => checkItems consoles next (some cons)

def consCheck (consoles : List Console) (string : Bytes) : Option Nat := checkItems consoles (items string) none

def changeItem (s : State) (curpos : Bytes) : State :=
  if curpos = [] then s
  else
    match consFind s.consoles curpos with
    | none => s
    | some cons => s.activate cons

def consChange (string : Bytes) (s : State) : State :=
  (items string).foldl changeItem { s with consoles := s.consoles.map (Console.setActive false) }

/-- The hook of $console. The flag is false for CMD_ERROR. -/
def consSet (value : Option Bytes) (s : State) : Bool × State :=
  match value with
  | none => (false, s)
  | some value => if consCheck s.consoles value = none then (false, s)
      else (true, { consChange value s with variable_ := some value })

/-- The loop for the first working console; the consoles behind it are not probed again. -/
def findWorking (probe : Nat → Flags) : (cons : Nat) → List Console → List Console × Option Nat
  | _, [] => ([], none)
  | cons, console :: rest =>
    if probe cons = present then (console.probed (probe cons) :: rest, some cons)
    else
      let found := findWorking probe (cons + 1) rest
      (console.probed (probe cons) :: found.1, found.2)

/-- cons_probe, where the consoles answer `first` when they are all probed and `second` in the search. -/
def consProbe (first second : Nat → Flags) (s : State) : State :=
  let found := findWorking second 0 (s.consoles.mapIdx fun cons => Console.probed (first cons))
  let s := { s with consoles := found.1 }
  match s.variable_ with
  | some prefconsole => { consChange prefconsole s with variable_ := some prefconsole }
  | none =>
    let active := found.2.getD 0
    { s.activate active with variable_ := (s.consoles[active]?).map Console.name }

/-- Assignments to $console, one after the other. -/
def assign (values : List (Option Bytes)) (s : State) : State := values.foldl (fun s value => (consSet value s).2) s

end Pcbsd.Consoles
