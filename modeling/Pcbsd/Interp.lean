import Pcbsd.Lib.Bytes

/-! The command-line parser of the loader, boot/common/interp_parse.c over interp_backslash.c, and
the set command of commands.c. A C string is its characters before the NUL. -/

namespace Pcbsd.Interp
open Lib

def parseBufsize : Nat := 1024
def maxargs : Nat := 20

def charBackslash : UInt8 := 0x5c
def charQuote : UInt8 := 0x22
def charApostrophe : UInt8 := 0x27
def charDollar : UInt8 := 0x24
def charSpace : UInt8 := 0x20
def charEquals : UInt8 := 0x3d

def isspace (c : UInt8) : Bool := c == 0x20 || (0x09 ≤ c && c ≤ 0x0d)

def isdigit (c : UInt8) : Bool := 0x30 ≤ c && c ≤ 0x39

def isxdigit (c : UInt8) : Bool := isdigit c || (0x41 ≤ c && c ≤ 0x46) || (0x61 ≤ c && c ≤ 0x66)

def isoctal (c : UInt8) : Bool := 0x30 ≤ c && c ≤ 0x37

def digitValue (c : UInt8) : UInt8 :=
  if isdigit c then c - 0x30 else if 0x61 ≤ c && c ≤ 0x7a then c + 10 - 0x61 else c + 10 - 0x41

/-- The letters that stand for one character behind a backslash. -/
def escapeChar (c : UInt8) : Option UInt8 :=
  if c = 0x62 then some 0x08
  else if c = 0x66 then some 0x0c
  else if c = 0x72 then some 0x0d
  else if c = 0x6e then some 0x0a
  else if c = 0x73 then some 0x20
  else if c = 0x74 then some 0x09
  else if c = 0x76 then some 0x0b
  else none

/-- What backslash() writes to new_str. An octal or hexadecimal constant may put a NUL into it. -/
@[grind =] def backslash : Bytes → Bytes
  | [] => []
  | c :: str =>
    if c ≠ charBackslash then c :: backslash str
    else
      match str with
      | [] => [charBackslash]
      | e :: rest =>
        if e = charBackslash then charBackslash :: backslash rest
        else if e = charApostrophe ∨ e = charQuote ∨ e = charDollar then charBackslash :: e :: backslash rest
        else if e = 0x7a then backslash rest
        else if isdigit e then
          match rest with
          | d :: f :: more =>
            if e ≤ 0x33 ∧ isoctal d ∧ isoctal f then
              ((digitValue e <<< 6) + (digitValue d <<< 3) + digitValue f) :: backslash more
            else if e = 0x30 ∧ (d = 0x78 ∨ d = 0x58) ∧ isxdigit f then
              match more with
              | g :: more =>
                if isxdigit g then ((digitValue f <<< 4) + digitValue g) :: backslash more
                else digitValue f :: backslash (g :: more)
              | [] => [digitValue f]
            -- Not a constant: the digit is copied in the next round.
            else e :: backslash (d :: f :: more)
          | rest => e :: backslash rest
        else (escapeChar e).getD e :: backslash rest

inductive State where
  | str
  | var
  | white
  deriving DecidableEq

/-- The variables of parse: the rest of the copy, the buffer of one argument with its length `i`,
and the arguments inserted so far. -/
structure Scan where
  p : Bytes
  state : State
  quote : UInt8
  token : UInt8
  buf : Nat → UInt8
  i : Nat
  args : List Bytes

def Scan.text (s : Scan) : Bytes := ((List.range s.i).map s.buf).takeWhile (· != 0)

/-- buf[i] = 0 and insert(), which refuses more than MAXARGS arguments. -/
def insert (s : Scan) : Option Scan :=
  if maxargs ≤ s.args.length then none
  else some { s with buf := Function.update s.buf s.i 0, args := s.args ++ [s.text] }

def Scan.put (s : Scan) (c : UInt8) : Scan := { s with buf := Function.update s.buf s.i c, i := s.i + 1 }

def isdelim (c : UInt8) : UInt8 := if c = 0x7b then 0x7d else if c = 0x28 then 0x29 else 0

def isquote (c : UInt8) : Bool := c == charApostrophe || c == charQuote

/-- strncpy to buf + i: what is left of the buffer is filled up with NULs. -/
def Scan.strncpy (s : Scan) (val : Bytes) : Scan :=
  { s with
    buf := fun k => if s.i ≤ k ∧ k < parseBufsize - 1 then val.getD (k - s.i) 0 else s.buf k
    i := s.i + min val.length (parseBufsize - 1) }

/-- One round of the loop on a character in state STR; none is PARSE_FAIL. -/
def stepStr (s : Scan) (c : UInt8) (rest : Bytes) : Option Scan :=
  if c = charBackslash ∧ rest ≠ [] then
    if s.i = parseBufsize - 1 then none else some { s.put (rest.headD 0) with p := rest.tail }
  else if isquote c then some { s with quote := if s.quote ≠ 0 then 0 else c, p := rest }
  else if isspace c ∧ s.quote = 0 then
    if s.i ≠ 0 then (insert { s with state := .white }).map ({ · with i := 0, p := rest })
    else some { s with state := .white, p := rest }
  else if c = charDollar then
    let token := isdelim (rest.headD 0)
    some { s with token, p := if token ≠ 0 then rest.tail else rest, state := .var }
  else if s.i = parseBufsize - 1 then none
  else some { s.put c with p := rest }

def stepWhite (s : Scan) (c : UInt8) (rest : Bytes) : Option Scan :=
  some (if isspace c then { s with p := rest } else { s with state := .str })

/-- The value of the variable that starts at p is added to the argument. -/
def stepVar (getenv : Bytes → Option Bytes) (s : Scan) : Option Scan :=
  if s.token ≠ 0 ∧ s.token ∉ s.p then none
  else
    let name := s.p.takeWhile fun c => if s.token ≠ 0 then c != s.token else !isspace c
    let s := { s with p := s.p.drop (name.length + if s.token ≠ 0 then 1 else 0), state := .str }
    some (match getenv name with
      | some val => s.strncpy val
      | none => s)

def parseStep (getenv : Bytes → Option Bytes) (s : Scan) (c : UInt8) (rest : Bytes) : Option Scan :=
  match s.state with
  | .str => stepStr s c rest
  | .white => stepWhite s c rest
  | .var => stepVar getenv s

def parseLoop (getenv : Bytes → Option Bytes) : Nat → Scan → Option Scan
  | 0, s => some s
  | fuel + 1, s =>
    match s.p with
    | [] => some s
    | c :: rest => (parseStep getenv s c rest).bind (parseLoop getenv fuel)

/-- *argc and *argv: the strings that argv[0], ..., argv[argc - 1] point to and the bytes of the
pointer argv[argc]. -/
structure Argv where
  argc : Nat
  args : List Bytes
  last : Bytes
  deriving DecidableEq

/-- Memory that parse gets from malloc: what its buffer holds, and the bytes from
sizeof(char *) * ac + 1 on of the memory that becomes argv, up to the end of argv[argc]. -/
structure Heap where
  buf : Nat → UInt8
  behind : Bytes

/-- The end of parse. Only one byte of the NULL behind the arguments is copied. -/
def finish (heap : Heap) (s : Scan) : Option Argv :=
  (if s.i ≠ 0 ∧ s.state = .str then insert s else some s).map fun s =>
    { argc := s.args.length, args := s.args, last := 0 :: heap.behind }

/-- None is the return value 1. Every second round takes a character. -/
def parse (getenv : Bytes → Option Bytes) (heap : Heap) (str : Bytes) : Option Argv :=
  let copy := (backslash str).takeWhile (· != 0)
  let s : Scan := { p := copy, state := .str, quote := 0, token := 0, buf := heap.buf, i := 0, args := [] }
  (parseLoop getenv (2 * copy.length) s).bind (finish heap)

/-- putenv: the text behind the first '=' becomes the value; none without one. -/
def putenv (s : Bytes) (env : Bytes → Option Bytes) : Option (Bytes → Option Bytes) :=
  if charEquals ∈ s then
    let name := s.takeWhile (· != charEquals)
    some (Function.update env name (some (s.drop (name.length + 1))))
  else none

def commandSet (argv : Argv) (env : Bytes → Option Bytes) : Option (Bytes → Option Bytes) :=
  if argv.argc ≠ 2 then none else putenv (argv.args.getD 1 []) env

def setWord : Bytes := [0x73, 0x65, 0x74]

/-- bf_command for an interpreted set with `tail` behind it in the input buffer. -/
def bfCommandSet (heap : Heap) (tail : Bytes) (env : Bytes → Option Bytes) : Option (Bytes → Option Bytes) :=
  let rest := tail.takeWhile fun c => c != 0 && c != 0x0a
  let line := setWord ++ (if rest = [] then [] else charSpace :: rest)
  (parse env heap line).bind fun argv => commandSet argv env

end Pcbsd.Interp

/-! backslash() of boot/common/interp_backslash.c over its memory: the string up to its NUL, and the copy that strdup
made. A read behind the NUL and a write behind the copy are none. -/

namespace Pcbsd.Backslash
open Lib Interp

/-- `str` is a place in the string, `i` one in the copy. -/
structure Scan where
  str : Nat
  seenbs : Bool
  newStr : Bytes
  i : Nat
  deriving DecidableEq

variable (mem : Bytes)

def Scan.read (s : Scan) (k : Nat) : Option UInt8 := mem[s.str + k]?

def Scan.put (s : Scan) (c : UInt8) : Option Scan :=
  if s.i < s.newStr.length then some { s with newStr := s.newStr.set s.i c, i := s.i + 1 } else none

def Scan.skip (k : Nat) (s : Scan) : Scan := { s with str := s.str + k }

/-- The && of C: what is on its right is read only when its left side holds. -/
def both (left right : Option Bool) : Option Bool := left.bind fun holds => if holds then right else some false

def Scan.octal (s : Scan) : Option Bool :=
  both ((s.read mem 0).map fun c => 0x30 ≤ c && c ≤ 0x33)
    (both ((s.read mem 1).map isoctal) ((s.read mem 2).map isoctal))

def Scan.hex (s : Scan) : Option Bool :=
  both ((s.read mem 0).map (· == 0x30))
    (both ((s.read mem 1).map fun c => c == 0x78 || c == 0x58) ((s.read mem 2).map isxdigit))

/-- The digits behind a backslash. A digit that begins no constant is left for the next round. -/
def Scan.constant (s : Scan) : Option Scan :=
  (s.octal mem).bind fun octal =>
    if octal then
      (s.read mem 0).bind fun a => (s.read mem 1).bind fun b => (s.read mem 2).bind fun c =>
        (s.put ((digitValue a <<< 6) + (digitValue b <<< 3) + digitValue c)).map (·.skip 3)
    else
      (s.hex mem).bind fun hex =>
        if hex then
          (s.read mem 2).bind fun c => (s.read mem 3).bind fun d =>
            if isxdigit d then (s.put ((digitValue c <<< 4) + digitValue d)).map (·.skip 4)
            else (s.put (digitValue c)).map (·.skip 3)
        else some s

def Scan.escape (s : Scan) (c : UInt8) : Option Scan :=
  if c = charBackslash then (s.put charBackslash).map (·.skip 1)
  else if c = charApostrophe ∨ c = charQuote ∨ c = charDollar then
    (s.put charBackslash).bind fun s => (s.put c).map (·.skip 1)
  else if c = 0x7a then some (s.skip 1)
  else if isdigit c then s.constant mem
  else (s.put ((escapeChar c).getD c)).map (·.skip 1)

def Scan.turn (s : Scan) (c : UInt8) : Option Scan :=
  if s.seenbs then { s with seenbs := false }.escape mem c
  else if c = charBackslash then some ({ s with seenbs := true }.skip 1)
  else (s.put c).map (·.skip 1)

/-- Behind the loop; the result is new_str. -/
def Scan.finish (s : Scan) : Option Bytes :=
  (if s.seenbs then s.put charBackslash else some s).bind fun s => (s.put 0).map (·.newStr)

inductive Outcome where
  | running
  | outside
  | null
  | returned (newStr : Bytes)
  deriving DecidableEq

def leave : Option Bytes → Outcome
  | none => .outside
  | some newStr => .returned newStr

def loop : Nat → Scan → Outcome
  | 0, _ => .running
  | fuel + 1, s =>
    match s.read mem 0 with
    | none => .outside
    | some c =>
      if c = 0 then leave s.finish
      else
        match s.turn mem c with
        | none => .outside
        | some s => loop fuel s

/-- backslash of the string that `mem` is, at most `fuel` rounds. `room` says whether strdup found memory. -/
def backslash (room : Bool) (fuel : Nat) : Outcome := if room then loop mem fuel ⟨0, false, mem, 0⟩ else .null

end Pcbsd.Backslash
