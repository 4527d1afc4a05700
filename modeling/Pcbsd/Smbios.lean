import Pcbsd.Lib.Numeral

/-! The SMBIOS tables in boot/i386/libi386/smbios.c. A pointer is the memory from there on, and an access behind its
end is none. -/

namespace Pcbsd.Smbios
open Lib Numeral

def smbiosStart : Nat := 0xf0000
def smbiosLength : Nat := 0x10000
def smbiosStep : Nat := 0x10

def smbiosSig : Bytes := ascii ['_', 'S', 'M', '_']

def smbiosDmiSig : Bytes := ascii ['_', 'D', 'M', 'I', '_']

/-- Whether SMBIOS_SERIAL_NUMBERS and SMBIOS_LITTLE_ENDIAN_UUID are defined. -/
structure Build where
  serialNumbers : Bool
  littleEndianUuid : Bool

/-- The variables that are exported, without the smbios in front of their names. -/
inductive Name where
  | biosVendor
  | biosVersion
  | biosReldate
  | systemMaker
  | systemProduct
  | systemVersion
  | systemSerial
  | systemUuid
  | planarMaker
  | planarProduct
  | planarVersion
  | planarSerial
  | chassisMaker
  | chassisVersion
  | chassisSerial
  | chassisTag
  | version
  | memoryEnabled
  | socketEnabled
  | socketPopulated
  deriving DecidableEq

abbrev Env := Name → Option Bytes

/-- The environment and the static variables: two of 32 bits and two of 8. -/
structure State where
  env : Env
  enabledMemory : Nat
  oldEnabledMemory : Nat
  enabledSockets : Nat
  populatedSockets : Nat

def State.initial (env : Env) : State := ⟨env, 0, 0, 0, 0⟩

def setenv (name : Name) (value : Bytes) (s : State) : State :=
  { s with env := Function.update s.env name (some value) }

def get8 (base : Bytes) (off : Nat) : Option Nat := base[off]?.map UInt8.toNat

def get16 (base : Bytes) (off : Nat) : Option Nat :=
  (get8 base off).bind fun low => (get8 base (off + 1)).map fun high => low + 256 * high

def get32 (base : Bytes) (off : Nat) : Option Nat :=
  (get16 base off).bind fun low => (get16 base (off + 2)).map fun high => low + 2 ^ 16 * high

def getStr (base : Bytes) : Option Bytes := (get8 base 1).map fun len => base.drop len

def smbiosChecksum (addr : Bytes) (len : Nat) : Option Nat :=
  ((List.range len).mapM (get8 addr)).map fun bytes => bytes.sum % 2 ^ 8

def isEntryPoint (cp : Bytes) : Bool :=
  cp.take 4 = smbiosSig && (get8 cp 0x05).bind (smbiosChecksum cp) = some 0 &&
    (cp.drop 0x10).take 5 = smbiosDmiSig && smbiosChecksum (cp.drop 0x10) 0x0f = some 0

def sigsearchLoop : Nat → Bytes → Option Bytes
  | 0, _ => none
  | turns + 1, cp => if isEntryPoint cp then some cp else sigsearchLoop turns (cp.drop smbiosStep)

def smbiosSigsearch (addr : Bytes) (len : Nat) : Option Bytes :=
  sigsearchLoop ((len + smbiosStep - 1) / smbiosStep) addr

def strlen : Bytes → Option Nat
  | [] => none
  | c :: s => if c = 0 then some 0 else (strlen s).map (· + 1)

def skipStrings : Nat → Bytes → Option Bytes
  | 0, cp => some cp
  | n + 1, cp => (strlen cp).bind fun len => skipStrings n (cp.drop (len + 1))

def smbiosSetenv (name : Name) (addr : Bytes) (offset : Nat) (s : State) : Option State :=
  (get8 addr offset).bind fun idx =>
    if idx ≠ 0 then
      (getStr addr).bind fun cp => (skipStrings (idx - 1) cp).bind fun cp => (strlen cp).map fun len =>
        setenv name (cp.take len) s
    else some s

/-- The loop of smbios_setuuid over the four words: how many of them have only ones, or only zeros. -/
def uuidBits : List Nat → Nat → Nat → Nat × Nat
  | [], ones, zeros => (ones, zeros)
  | word :: rest, ones, zeros =>
    if zeros = 0 ∧ (word + 1) % 2 ^ 32 = 0 then uuidBits rest (ones + 1) zeros
    else if ones = 0 ∧ (word + 1) % 2 ^ 32 = 1 then uuidBits rest ones (zeros + 1)
    else (ones, zeros)

/-- A number of the first three fields, in the byte order of the table's version. -/
def uuidField (build : Build) (ver : Nat) (bytes : Bytes) : Nat :=
  if build.littleEndianUuid = false ∧ ver < 0x0206 then beNat bytes else leNat bytes

/-- What smbios_setuuid exports, from the 16 bytes of a UUID. -/
def uuidText (build : Build) (ver : Nat) (uuid : Bytes) : Option Bytes :=
  let (ones, zeros) := uuidBits ((List.range 4).map fun i => leNat (slice (4 * i) 4 uuid)) 0 0
  if ones ≠ 4 ∧ zeros ≠ 4 then
    some (printPadded 16 8 (uuidField build ver (slice 0 4 uuid)) ++ 0x2d ::
      printPadded 16 4 (uuidField build ver (slice 4 2 uuid)) ++
      0x2d :: printPadded 16 4 (uuidField build ver (slice 6 2 uuid)) ++ 0x2d ::
      (slice 8 2 uuid).flatMap (printPadded 16 2 ·.toNat) ++
      0x2d :: (slice 10 6 uuid).flatMap (printPadded 16 2 ·.toNat))
  else none

def smbiosSetuuid (build : Build) (name : Name) (addr : Bytes) (ver : Nat) (s : State) : Option State :=
  if 16 ≤ addr.length then some ((uuidText build ver (addr.take 16)).elim s fun text => setenv name text s) else none

/-- The strings that smbios_parse_table exports from a structure of a type, with the offsets of their indices. -/
def stringFields (build : Build) (type : Nat) : List (Name × Nat) :=
  if type = 0 then [(.biosVendor, 0x04), (.biosVersion, 0x05), (.biosReldate, 0x08)]
  else if type = 1 then
    [(.systemMaker, 0x04), (.systemProduct, 0x05), (.systemVersion, 0x06)] ++
      if build.serialNumbers then [(.systemSerial, 0x07)] else []
  else if type = 2 then
    [(.planarMaker, 0x04), (.planarProduct, 0x05), (.planarVersion, 0x06)] ++
      if build.serialNumbers then [(.planarSerial, 0x07)] else []
  else if type = 3 then
    [(.chassisMaker, 0x04), (.chassisVersion, 0x06)] ++ if build.serialNumbers then [(.chassisSerial, 0x07),
      (.chassisTag, 0x08)] else []
  else []

def setenvs (fields : List (Name × Nat)) (addr : Bytes) (s : State) : Option State :=
  fields.foldlM (fun s field => smbiosSetenv field.1 addr field.2 s) s

def processorInformation (addr : Bytes) (s : State) : Option State :=
  (get8 addr 0x18).map fun proc =>
    { s with
      enabledSockets := if proc &&& 0x07 = 1 then (s.enabledSockets + 1) % 2 ^ 8 else s.enabledSockets
      populatedSockets := if proc &&& 0x40 ≠ 0 then (s.populatedSockets + 1) % 2 ^ 8 else s.populatedSockets }

def memoryModule (addr : Bytes) (s : State) : Option State :=
  (get8 addr 0x0a).map fun byte =>
    let osize := byte &&& 0x7f
    if osize > 0 ∧ osize < 22 then { s with oldEnabledMemory := (s.oldEnabledMemory + 1 <<< (osize + 10)) % 2 ^ 32 } else s

def memoryDevice (addr : Bytes) (s : State) : Option State :=
  (get16 addr 0x0c).map fun size =>
    if size ≠ 0 ∧ size ≠ 0xffff then
      { s with enabledMemory := (s.enabledMemory + if size &&& 0x8000 ≠ 0 then size &&& 0x7fff else size <<< 10) % 2 ^ 32 }
    else s

/-- Find structure terminator: what is behind it. -/
def terminator : Bytes → Option Bytes
  | [] => none
  | _ :: [] => none
  | a :: b :: rest => if a = 0 ∧ b = 0 then some rest else terminator (b :: rest)

def parseType (build : Build) (ver type : Nat) (addr : Bytes) (s : State) : Option State :=
  if type = 4 then processorInformation addr s
  else if type = 6 then memoryModule addr s
  else if type = 17 then memoryDevice addr s
  else
    (setenvs (stringFields build type) addr s).bind fun s =>
      if type = 1 ∧ build.serialNumbers then smbiosSetuuid build .systemUuid (addr.drop 0x08) ver s else some s

def smbiosParseTable (build : Build) (ver : Nat) (addr : Bytes) (s : State) : Option (State × Bytes) :=
  (get8 addr 0).bind fun type => (parseType build ver type addr s).bind fun s =>
    (getStr addr).bind fun cp => (terminator cp).map fun next => (s, next)

/-- The loop of smbios_detect, with the pointers that it hands to smbios_parse_table. -/
def detectLoop (build : Build) (ver : Nat) (addr : Bytes) (length : Nat) : Nat → Bytes → State → Option (List Bytes × State)
  | 0, _, s => some ([], s)
  | i + 1, dmi, s =>
    -- dmi < addr + length
    if addr.length < dmi.length + length then
      (smbiosParseTable build ver dmi s).bind fun (s, next) =>
        (detectLoop build ver addr length i next s).map fun (visited, s) => (dmi :: visited, s)
    else some ([], s)

/-- The version of the table: its BCD revision, or else the two bytes of the entry point. -/
def tableVersion (ep : Bytes) : Option (Nat × Nat) :=
  (get8 ep 0x1e).bind fun ver =>
    if ver ≠ 0 ∧ ¬ (ver >>> 4 > 9 ∨ ver &&& 0x0f > 9) then some (ver >>> 4, ver &&& 0x0f)
    else (get8 ep 0x06).bind fun major => (get8 ep 0x07).map fun minor => (major, minor)

/-- What smbios_detect exports behind its loop. -/
def exportCounters (major minor : Nat) (s : State) : State :=
  let s := setenv .version (printNat 10 major ++ 0x2e :: printNat 10 minor) s
  let s := if s.enabledMemory > 0 ∨ s.oldEnabledMemory > 0 then
      setenv .memoryEnabled (printNat 10 (if s.enabledMemory > 0 then s.enabledMemory else s.oldEnabledMemory)) s
    else s
  let s := if s.enabledSockets > 0 then setenv .socketEnabled (printNat 10 s.enabledSockets) s else s
  if s.populatedSockets > 0 then setenv .socketPopulated (printNat 10 s.populatedSockets) s else s

/-- smbios_detect, with the pointers that its loop visits; `mem` is all the memory. -/
def smbiosDetect (build : Build) (mem : Bytes) (s : State) : Option (List Bytes × State) :=
  (smbiosSigsearch (mem.drop smbiosStart) smbiosLength).elim (some ([], s)) fun smbios =>
    (get16 smbios 0x16).bind fun length => (get32 smbios 0x18).bind fun paddr => (get16 smbios 0x1c).bind fun count =>
      (tableVersion smbios).bind fun (major, minor) =>
        let addr := mem.drop paddr
        (detectLoop build (major <<< 8 ||| minor) addr length count addr s).map fun (visited, s) =>
          (visited, exportCounters major minor s)

end Pcbsd.Smbios
