import Pcbsd.Lib.Numeral

/-! The serial console boot/i386/libi386/comconsole.c: its probe, its start, and the hooks of the
variables that set its speed and its port. Characters are not sent here. -/

namespace Pcbsd.Comconsole
open Lib Numeral Function

def comport : Int := 0x3f8
def comspeed : Int := 9600

/-- The variables that the driver reads or writes. -/
inductive Name where
  | console
  | bootMulticons
  | comconsoleSpeed
  | comconsolePort
  | comconsolePcidev
  | hwUartConsole
  deriving DecidableEq

inductive Hook where
  | none
  | speedSet
  | portSet
  | noset
  deriving DecidableEq

/-- A variable of the environment. With `nounset` its unset hook is env_nounset. -/
structure EnvVar where
  value : Bytes
  sethook : Hook
  nounset : Bool

/-- The environment, the statics of the driver, and the arguments of the last comc_setup. -/
structure State where
  env : Name → Option EnvVar
  started : Bool
  curspeed : Int
  port : Int
  locator : Nat
  hardware : Option (Int × Int)

/-- What the probe finds: the divisor latch at a port, and the configuration space of PCI. -/
structure Machine where
  divisor : Int → UInt8 × UInt8
  readConfig : (locator reg : Nat) → Option (BitVec 32)

def comconsoleName : Bytes := ascii ['c', 'o', 'm', 'c', 'o', 'n', 's', 'o', 'l', 'e']

def State.getenv (s : State) (name : Name) : Option Bytes := (s.env name).map (·.value)

def comcParseint (speedstr : Bytes) : Int :=
  match strtol? 0 speedstr with
  | none => -1
  | some (speed, rest) => if rest ≠ [] ∨ speed ≤ 0 then -1 else speed

def comcSetup (speed port : Int) (s : State) : State :=
  { s with curspeed := speed, port := port, hardware := some (speed, port) }

def unsetenv (name : Name) (s : State) : State :=
  match s.env name with
  | some var => if var.nounset then s else { s with env := update s.env name none }
  | none => s

/-- env_setenv with EV_NOHOOK, on a variable that exists. -/
def storeValue (name : Name) (value : Bytes) (s : State) : State :=
  match s.env name with
  | some var => { s with env := update s.env name (some { var with value := value }) }
  | none => s

/-- env_setenv on hw.uart.console, whose hook rejects a new value. -/
def setHwConsoleHint (s : State) : State :=
  let s := unsetenv .hwUartConsole s
  let intbuf := ascii ['i', 'o', ':'] ++ printInt s.port ++ ascii [',', 'b', 'r', ':'] ++ printInt s.curspeed
  match s.env .hwUartConsole with
  | some _ => s
  | none => { s with env := update s.env .hwUartConsole (some ⟨intbuf, .noset, true⟩) }

/-- The hook of comconsole_speed; `false` is CMD_ERROR. -/
def comcSpeedSet (value : Bytes) (s : State) : Bool × State :=
  let speed := comcParseint value
  if speed ≤ 0 then (false, s)
  else
    let t := if s.started ∧ s.curspeed ≠ speed then comcSetup speed s.port s else s
    (true, storeValue .comconsoleSpeed value t)

def comcPortSet (value : Bytes) (s : State) : Bool × State :=
  let port := comcParseint value
  if port ≤ 0 then (false, s)
  else
    let t := if s.started ∧ s.port ≠ port then setHwConsoleHint (comcSetup s.curspeed port s) else s
    (true, storeValue .comconsolePort value t)

/-- env_setenv: a variable that exists has its hook called, and keeps its hooks. -/
def envSetenv (name : Name) (value : Bytes) (sethook : Hook) (nounset : Bool) (s : State) : State :=
  match s.env name with
  | some var =>
    match var.sethook with
    | .none => storeValue name value s
    | .speedSet => (comcSpeedSet value s).2
    | .portSet => (comcPortSet value s).2
    | .noset => s
  | none => { s with env := update s.env name (some ⟨value, sethook, nounset⟩) }

/-- biospci_locator, with the sign of its int8_t bus. -/
def biospciLocator (bus device function : Nat) : Nat :=
  (if 128 ≤ bus then 0xffff0000 else 0) ||| (bus <<< 8) ||| ((device &&& 0x1f) <<< 3) ||| (function &&& 7)

def pcidevField (str : Bytes) : Int × Bytes := (strtol? 0 str).getD (0, str)

def charColon : UInt8 := 0x3a

def comcParsePcidev (string : Bytes) : Nat :=
  match strtol? 0 string with
  | none => 0
  | some (bus, rest) =>
    if rest.head? ≠ some charColon ∨ bus < 0 then 0
    else
      let (dev, rest) := pcidevField rest.tail
      if rest.head? ≠ some charColon ∨ dev < 0 then 0
      else
        let (func, rest) := pcidevField rest.tail
        if (rest.head? ≠ some charColon ∧ rest ≠ []) ∨ func < 0 then 0
        else
          let locate (bar : Int) : Nat :=
            ((bar % 256).toNat <<< 16) ||| biospciLocator (bus % 256).toNat (dev % 256).toNat (func % 256).toNat
          if rest = [] then locate 0x10
          else
            let (bar, rest) := pcidevField rest.tail
            if rest ≠ [] ∨ bar ≤ 0 then 0 else locate bar

def pciBarIo (x : BitVec 32) : Bool := x.getLsbD 0

/-- The port that the base address register names, as the int that it is kept in. -/
def barPort (x : BitVec 32) : Int := (x &&& 0xfffffffc#32).toInt

def pcidevBar (m : Machine) (locator : Nat) : Option (BitVec 32) :=
  (m.readConfig (locator &&& 0xffff) ((locator &&& 0xff0000) >>> 16)).filter pciBarIo

def comcPcidevHandle (m : Machine) (locator : Nat) (s : State) : State :=
  match pcidevBar m locator with
  | none => s
  | some bar =>
    let s := unsetenv .comconsolePort s
    let s := envSetenv .comconsolePort (printInt (barPort bar)) .portSet true s
    let s := setHwConsoleHint (comcSetup s.curspeed (barPort bar) s)
    { s with locator := locator }

def comcGetspeed (m : Machine) (port : Int) : Int :=
  let (dlbl, dlbh) := m.divisor port
  let divisor := dlbh.toNat * 256 + dlbl.toNat
  if divisor = 0 then comspeed else ((115200 / divisor : Nat) : Int)

def earlierSpeed (m : Machine) (s : State) : Int :=
  if s.getenv .console = some comconsoleName ∨ s.getenv .bootMulticons ≠ none then comcGetspeed m s.port else comspeed

/-- A number that a variable gives instead of the driver's. -/
def chosen (var : Option Bytes) (own : Int) : Int :=
  match var with
  | some str => if comcParseint str > 0 then comcParseint str else own
  | none => own

/-- The three variables of the driver are made again with their hooks. The one of the PCI device is
only read here. -/
def comcProbe (m : Machine) (s : State) : State :=
  if s.curspeed = 0 then
    let s := { s with curspeed := chosen (s.getenv .comconsoleSpeed) (earlierSpeed m s) }
    let s := envSetenv .comconsoleSpeed (printInt s.curspeed) .speedSet true (unsetenv .comconsoleSpeed s)
    let s := { s with port := chosen (s.getenv .comconsolePort) s.port }
    let s := envSetenv .comconsolePort (printInt s.port) .portSet true (unsetenv .comconsolePort s)
    match s.getenv .comconsolePcidev with
    | some env => if comcParsePcidev env ≠ 0 then comcPcidevHandle m (comcParsePcidev env) s else s
    | none => s
  else s

def comcInit (arg : Int) (s : State) : State :=
  if s.started ∧ arg = 0 then s else comcSetup s.curspeed s.port { s with started := true }

/-- What can happen to the console after its probe. -/
inductive Op where
  | setSpeed (value : Bytes)
  | setPort (value : Bytes)
  | init (arg : Int)

/-- setenv of the two variables, or the start of the console. -/
def exec (op : Op) (s : State) : State :=
  match op with
  | .setSpeed value => envSetenv .comconsoleSpeed value .none false s
  | .setPort value => envSetenv .comconsolePort value .none false s
  | .init arg => comcInit arg s

def run (ops : List Op) (s : State) : State := ops.foldl (fun s op => exec op s) s

end Pcbsd.Comconsole
