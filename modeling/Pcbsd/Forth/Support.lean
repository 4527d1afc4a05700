import Pcbsd.Interp

/-! The configuration files of the loader, boot/forth/support.4th: reading lines, the parser of an
assignment and what is done with one. A string is its bytes; memory is not exhausted, so that
ENOMEM and EFREE do not occur. -/

namespace Pcbsd.Forth
open Lib

/-- ESYNTAX, ESETERROR, EREAD, EOPEN and EEXEC. -/
inductive Exception where
  | syntaxError
  | eseterror
  | eread
  | eopen
  | eexec
  deriving DecidableEq

def tab : UInt8 := 9
def lf : UInt8 := 10
def bl : UInt8 := 0x20

/-- A result of fread: the bytes read, none at the end of the file, or the -1 of an error with
what it has already put into the buffer. -/
inductive Fread where
  | got (piece : Bytes)
  | failed (left : Bytes)

/-- read_buffer up to its .len, read_buffer_ptr, end_of_file? and line_buffer. -/
structure Reader where
  buffer : Bytes
  ptr : Nat
  eof : Bool
  line : Bytes
  deriving DecidableEq

def skipNewlines (r : Reader) : Reader :=
  { r with ptr := r.ptr + ((r.buffer.drop r.ptr).takeWhile (· == lf)).length }

def readFromBuffer (r : Reader) : Reader :=
  let piece := (r.buffer.drop r.ptr).takeWhile (· != lf)
  { r with ptr := r.ptr + piece.length, line := r.line ++ piece }

def refillRequired (r : Reader) : Bool := r.buffer.length == r.ptr && !r.eof

def refill (r : Reader) (piece : Bytes) : Reader := { r with buffer := piece, ptr := 0, eof := r.eof || piece.isEmpty }

/-- The loop of read_line. The list is what fread will return; at its end the file ends. The flag is
false when EREAD is thrown. -/
def readLoop : List Fread → Reader → Bool × List Fread × Reader
  | [], r =>
    let r := readFromBuffer r
    if refillRequired r then (true, [], readFromBuffer (refill r [])) else (true, [], r)
  | .got piece :: input, r =>
    let r := readFromBuffer r
    if refillRequired r then readLoop input (refill r piece) else (true, .got piece :: input, r)
  | .failed left :: input, r =>
    let r := readFromBuffer r
    if refillRequired r then (false, input, { r with buffer := put 0 (left.take r.buffer.length) r.buffer, ptr := 0 })
    else (true, .failed left :: input, r)

def readLine (input : List Fread) (r : Reader) : Bool × List Fread × Reader :=
  readLoop input (skipNewlines { r with line := [] })

def resetLineReading (r : Reader) : Reader := { r with ptr := 0, eof := false }

def isLetter (c : UInt8) : Bool := (0x41 ≤ c && c ≤ 0x5a) || (0x61 ≤ c && c ≤ 0x7a)
def isDigit (c : UInt8) : Bool := c == 0x2d || (0x30 ≤ c && c ≤ 0x39)
def isNameChar (c : UInt8) : Bool := isLetter c || isDigit c || c == 0x5f || c == 0x2e
def isSpace (c : UInt8) : Bool := c == bl || c == tab
def charQuote : UInt8 := 0x22
def charAssign : UInt8 := 0x3d
def charComment : UInt8 := 0x23
def charBackslash : UInt8 := 0x5c

/-- parsing_function. -/
inductive Parsing where
  | whiteSpace1
  | variableName
  | whiteSpace2
  | assignmentSign
  | whiteSpace3
  | variableValue
  | whiteSpace4
  | comment
  deriving DecidableEq

/-- The parser: what is left of the line, name_buffer and value_buffer. -/
structure Parser where
  fn : Parsing
  rest : Bytes
  name : Bytes
  value : Bytes
  deriving DecidableEq

def eatSpace (s : Bytes) : Bytes := s.dropWhile isSpace

def removeBackslashes (s : Bytes) : Bytes := s.filter (· != charBackslash)

/-- The loop of parse_quote: the text up to the closing quote and what follows it, or none when the
line ends before. -/
@[grind =] def scanQuote : Bytes → Option (Bytes × Bytes)
  | [] => none
  | c :: rest =>
    if c = charQuote then some ([c], rest)
    else if c = charBackslash then
      match rest with
      | [] => none
      | d :: rest => (scanQuote rest).map fun (text, rest) => (c :: d :: text, rest)
    else (scanQuote rest).map fun (text, rest) => (c :: text, rest)

def parseQuote (s : Bytes) : Option (Bytes × Bytes) :=
  (scanQuote s.tail).map fun (text, rest) => (removeBackslashes (charQuote :: text), rest)

def parseName (s : Bytes) : Bytes × Bytes := (s.takeWhile isNameChar, s.dropWhile isNameChar)

def readValue (s : Bytes) : Option (Bytes × Bytes) :=
  if s.head? = some charQuote then parseQuote s else some (parseName s)

/-- One call of parsing_function; none is ESYNTAX. `past` is the byte behind the line, which is
tested when the blanks reach up to it. -/
def Parser.step (past : UInt8) (p : Parser) : Option Parser :=
  let eaten := eatSpace p.rest
  let c := eaten.headD past
  match p.fn with
  | .whiteSpace1 =>
    if isLetter c then some { p with rest := eaten, fn := .variableName }
    else if c = charComment then some { p with rest := eaten, fn := .comment }
    else if eaten ≠ [] then none
    else some { p with rest := eaten }
  | .variableName =>
    let (name, rest) := parseName p.rest
    some { p with rest, name, fn := .whiteSpace2 }
  | .whiteSpace2 => if c = charAssign then some { p with rest := eaten, fn := .assignmentSign } else none
  | .assignmentSign => some { p with rest := p.rest.tail, fn := .whiteSpace3 }
  | .whiteSpace3 =>
    if isLetter c || isDigit c || c == charQuote then some { p with rest := eaten, fn := .variableValue } else none
  | .variableValue => (readValue p.rest).map fun (value, rest) => { p with rest, value, fn := .whiteSpace4 }
  | .whiteSpace4 =>
    if c = charComment then some { p with rest := eaten, fn := .comment }
    else if eaten ≠ [] then none
    else some { p with rest := eaten }
  | .comment => some { p with rest := [] }

/-- The loop of get_assignment. Every round but the last one changes parsing_function, which never
returns, so that there are at most eight. -/
def Parser.run (past : UInt8) : Nat → Parser → Option Parser
  | 0, p => some p
  | fuel + 1, p => if p.rest = [] then some p else (p.step past).bind (Parser.run past fuel)

/-- get_assignment: name_buffer and value_buffer, or none for ESYNTAX. -/
def getAssignment (past : UInt8) (line : Bytes) : Option (Bytes × Bytes) :=
  (Parser.run past 8 { fn := .whiteSpace1, rest := line, name := [], value := [] }).bind fun p =>
    if p.rest = [] ∧ (p.fn = .comment ∨ p.fn = .whiteSpace1 ∨ p.fn = .whiteSpace4) then some (p.name, p.value) else none

abbrev Env := Bytes → Option Bytes

structure ModuleOption where
  flag : Bool := false
  name : Bytes
  loadname : Bytes := []
  type : Bytes := []
  args : Bytes := []
  beforeload : Bytes := []
  afterload : Bytes := []
  loaderror : Bytes := []
  deriving DecidableEq

/-- name_buffer, value_buffer, the flags, nextboot_conf_file, conf_files, module_options and the
environment. `count` is the number of lines parsed so far. -/
structure Conf where
  name : Bytes := []
  value : Bytes := []
  nextboot : Bool := false
  verbose : Bool := false
  nextbootConfFile : Bytes
  confFiles : Bytes := []
  modules : List ModuleOption := []
  env : Env
  count : Nat := 0

/-- What the words of support.4th ask of their surroundings: evaluate, which is false when it throws,
and the byte behind the n-th line in memory. -/
structure Ficl where
  evaluate : Bytes → Env → Bool × Env
  past : Nat → UInt8

def loadModuleSuffix : Bytes := ascii ['_', 'l', 'o', 'a', 'd']
def moduleLoadnameSuffix : Bytes := ascii ['_', 'n', 'a', 'm', 'e']
def moduleTypeSuffix : Bytes := ascii ['_', 't', 'y', 'p', 'e']
def moduleArgsSuffix : Bytes := ascii ['_', 'f', 'l', 'a', 'g', 's']
def moduleBeforeloadSuffix : Bytes := ascii ['_', 'b', 'e', 'f', 'o', 'r', 'e']
def moduleAfterloadSuffix : Bytes := ascii ['_', 'a', 'f', 't', 'e', 'r']
def moduleLoaderrorSuffix : Bytes := ascii ['_', 'e', 'r', 'r', 'o', 'r']

def loaderConfFiles : Bytes :=
  ascii ['l', 'o', 'a', 'd', 'e', 'r', '_', 'c', 'o', 'n', 'f', '_', 'f', 'i', 'l', 'e', 's']
def nextbootEnable : Bytes := ascii ['n', 'e', 'x', 't', 'b', 'o', 'o', 't', '_', 'e', 'n', 'a', 'b', 'l', 'e']
def nextbootConf : Bytes := ascii ['n', 'e', 'x', 't', 'b', 'o', 'o', 't', '_', 'c', 'o', 'n', 'f']
def verboseLoading : Bytes := ascii ['v', 'e', 'r', 'b', 'o', 's', 'e', '_', 'l', 'o', 'a', 'd', 'i', 'n', 'g']
def exec : Bytes := ascii ['e', 'x', 'e', 'c']
def setCommand : Bytes := ascii ['s', 'e', 't']

def suffixType (suffix name : Bytes) : Bool := suffix.length < name.length && suffix.isSuffixOf name

def unquote (s : Bytes) : Bytes := if s.head? = some charQuote then (s.drop 1).take (s.length - 2) else s

def yes : Bytes := ascii ['y', 'e', 's']
def yesUpper : Bytes := ascii ['Y', 'E', 'S']
def quoted (s : Bytes) : Bytes := charQuote :: (s ++ [charQuote])

def yesValue (value : Bytes) : Bool :=
  value = quoted yesUpper ∨ value = quoted yes ∨ value = yesUpper ∨ value = yes

def setEnvironmentVariable (ficl : Ficl) (c : Conf) : Option Exception × Conf :=
  match ficl.evaluate (setCommand ++ [bl] ++ c.name ++ [charAssign] ++ c.value) c.env with
  | (true, env) => (none, { c with env })
  | (false, env) => (some .eseterror, { c with env })

def setConfFiles (ficl : Ficl) (c : Conf) : Option Exception × Conf :=
  match setEnvironmentVariable ficl c with
  | (none, c) => (none, { c with confFiles := (c.env loaderConfFiles).getD [] })
  | failed => failed

def modifyModule (modules : List ModuleOption) (name : Bytes) (f : ModuleOption → ModuleOption) : List ModuleOption :=
  match modules.findIdx? (·.name == name) with
  | some i => modules.modify i f
  | none => modules ++ [f { name }]

/-- The set_module_ words: the name loses its suffix and a member of its options is set. -/
def setModule (c : Conf) (suffix : Bytes) (f : ModuleOption → ModuleOption) : Conf :=
  let name := c.name.take (c.name.length - suffix.length)
  { c with name, modules := modifyModule c.modules name f }

def executeCommand (ficl : Ficl) (c : Conf) : Option Exception × Conf :=
  match ficl.evaluate (unquote c.value) c.env with
  | (true, env) => (none, { c with env })
  | (false, env) => (some .eexec, { c with env })

def processAssignment (ficl : Ficl) (c : Conf) : Option Exception × Conf :=
  if c.name = [] then (none, c)
  else if c.name = loaderConfFiles then setConfFiles ficl c
  else if c.name = nextbootEnable then (none, { c with nextboot := yesValue c.value })
  else if c.name = nextbootConf then (none, { c with nextbootConfFile := unquote c.value })
  else if c.name = verboseLoading then (none, { c with verbose := yesValue c.value })
  else if c.name = exec then executeCommand ficl c
  else if suffixType loadModuleSuffix c.name then
    (none, setModule c loadModuleSuffix ({ · with flag := yesValue c.value }))
  else if suffixType moduleLoadnameSuffix c.name then
    (none, setModule c moduleLoadnameSuffix ({ · with loadname := unquote c.value }))
  else if suffixType moduleTypeSuffix c.name then
    (none, setModule c moduleTypeSuffix ({ · with type := unquote c.value }))
  else if suffixType moduleArgsSuffix c.name then
    (none, setModule c moduleArgsSuffix ({ · with args := unquote c.value }))
  else if suffixType moduleBeforeloadSuffix c.name then
    (none, setModule c moduleBeforeloadSuffix ({ · with beforeload := unquote c.value }))
  else if suffixType moduleAfterloadSuffix c.name then
    (none, setModule c moduleAfterloadSuffix ({ · with afterload := unquote c.value }))
  else if suffixType moduleLoaderrorSuffix c.name then
    (none, setModule c moduleLoaderrorSuffix ({ · with loaderror := unquote c.value }))
  else setEnvironmentVariable ficl c

/-- get_assignment, process_assignment and free_buffers on a line. -/
def processLine (ficl : Ficl) (line : Bytes) (c : Conf) : Option Exception × Conf :=
  match getAssignment (ficl.past c.count) line with
  | none => (some .syntaxError, { c with name := [], value := [], count := c.count + 1 })
  | some (name, value) =>
    match processAssignment ficl { c with name, value, count := c.count + 1 } with
    | (exception, c) => (exception, { c with name := [], value := [] })

structure Session where
  reader : Reader
  conf : Conf

/-- The exception that a word ends with, and the lines handed to get_assignment, each with the
exception that it raises there or in process_assignment. -/
structure Result where
  exception : Option Exception
  trace : List (Bytes × Option Exception)
  session : Session

/-- The loop of process_conf, none when it has not ended after `fuel` rounds. -/
def processConf (ficl : Ficl) : Nat → List Fread → Session → Option Result
  | 0, _, _ => none
  | fuel + 1, input, s =>
    if s.reader.eof then some ⟨none, [], s⟩
    else
      match readLine input s.reader with
      | (false, _, reader) => some ⟨some .eread, [], { s with reader }⟩
      | (true, input, reader) =>
        match processLine ficl reader.line s.conf with
        | (some e, conf) => some ⟨some e, [(reader.line, some e)], { reader, conf }⟩
        | (none, conf) =>
          (processConf ficl fuel input { reader, conf }).map fun result =>
            { result with trace := (reader.line, none) :: result.trace }

def pending : List Fread → Bytes
  | [] => []
  | .got piece :: input => piece ++ pending input
  | .failed _ :: input => pending input

/-- Every round takes bytes, another piece or the end of the file. -/
def enoughRounds (input : List Fread) (s : Session) : Nat :=
  s.reader.buffer.length + (pending input).length + input.length + 2

/-- load_conf of a file that fread delivers as `input`, or that cannot be opened. -/
def loadConf (ficl : Ficl) (input : Option (List Fread)) (s : Session) : Option Result :=
  let s := { s with reader := resetLineReading s.reader }
  match input with
  | none => some ⟨some .eopen, [], s⟩
  | some input => processConf ficl (enoughRounds input s) input s

/-- peek_file: the first line only. An exception of process_assignment is dropped. -/
def peekFile (ficl : Ficl) (input : Option (List Fread)) (s : Session) : Result :=
  let s := { s with reader := resetLineReading s.reader }
  match input with
  | none => ⟨some .eopen, [], s⟩
  | some input =>
    match readLine input s.reader with
    | (false, _, reader) => ⟨some .eread, [], { s with reader }⟩
    | (true, _, reader) =>
      match getAssignment (ficl.past s.conf.count) reader.line, processLine ficl reader.line s.conf with
      | none, (e, conf) => ⟨some .syntaxError, [(reader.line, e)], { reader, conf }⟩
      | some _, (e, conf) => ⟨none, [(reader.line, e)], { reader, conf }⟩

/-- The files behind fopen: the pieces in which fread delivers a file after the n-th fopen, and the
files that can be opened for writing. -/
structure Disk where
  split : Nat → Bytes → List Bytes
  whole : ∀ n content, (split n content).flatten = content
  pieces : ∀ n content, ∀ piece ∈ split n content, 0 < piece.length ∧ piece.length ≤ 80
  writable : Bytes → Bool

structure World where
  session : Session
  files : Bytes → Option Bytes
  opens : Nat

/-- fopen for reading of the file that nextboot_conf_file names. -/
def openNextboot (disk : Disk) (w : World) : Option (List Fread) × World :=
  ((w.files w.session.conf.nextbootConfFile).map fun content => (disk.split w.opens content).map .got,
    { w with opens := w.opens + 1 })

def nextbootNo : Bytes := nextbootEnable ++ [charAssign] ++ quoted (ascii ['N', 'O']) ++ [bl]

/-- fwrite at the start of a file, which does not make it longer. -/
def overwrite (text content : Bytes) : Bytes := text.take content.length ++ content.drop text.length

/-- rewrite_nextboot_file and the name of the file it has written, if any. -/
def rewriteNextbootFile (disk : Disk) (w : World) : Option Bytes × World :=
  let name := w.session.conf.nextbootConfFile
  match w.files name with
  | some content =>
    if disk.writable name then
      (some name, { w with files := Function.update w.files name (some (overwrite nextbootNo content)) })
    else (none, w)
  | none => (none, w)

/-- How include_nextboot_file ends: nextboot? was false after the first line, or the file was loaded
and then a file was rewritten, or an exception that process_conf_errors does not know ended it. -/
inductive Include where
  | skipped
  | applied (rewritten : Option Bytes)
  | aborted
  deriving DecidableEq

def includeNextbootFile (ficl : Ficl) (disk : Disk) (w : World) : Include × World :=
  match openNextboot disk w with
  | (input, w) =>
    let w := { w with session := (peekFile ficl input w.session).session }
    if w.session.conf.nextboot then
      match openNextboot disk w with
      | (input, w) =>
        match loadConf ficl input w.session with
        | none => (.aborted, w)
        | some result =>
          let w := { w with session := result.session }
          if result.exception = some .eexec then (.aborted, w)
          else
            match rewriteNextbootFile disk w with
            | (rewritten, w) => (.applied rewritten, w)
    else (.skipped, w)

end Pcbsd.Forth

/-! include_conf_files of boot/forth/support.4th: the configuration files that conf_files names, and
those that they name. -/

namespace Pcbsd.Forth
open Lib

/-- What fread delivers of a file after the n-th fopen, none if it cannot be opened. -/
structure ConfDisk where
  deliver : Nat → Bytes → Option (List Fread)

/-- The variables of the parser, any_conf_read? and current_file_name_ref; `opens` counts the fopens. -/
structure Loading where
  session : Session
  anyConfRead : Bool
  currentFile : Bytes
  opens : Nat

def Loading.confFiles (st : Loading) : Bytes := st.session.conf.confFiles

def Loading.cleared (st : Loading) : Loading :=
  { st with session := { st.session with conf := { st.session.conf with confFiles := [] } } }

/-- skip_leading_spaces; the string is what is left of it from pos on. -/
def skipLeadingSpaces (rest : Bytes) : Bytes := rest.dropWhile (· == bl)

def getFileName (rest : Bytes) : Option (Bytes × Bytes) :=
  if rest = [] then none else some (rest.takeWhile (· != bl), rest.dropWhile (· != bl))

def getNextFile (rest : Bytes) : Option (Bytes × Bytes) := getFileName (skipLeadingSpaces rest)

/-- What process_conf_errors throws again. The others end in a warning. -/
def processConfErrors (exception : Option Exception) (st : Loading) : Option Exception × Loading :=
  match exception with
  | none => (none, { st with anyConfRead := true })
  | some .eexec => (some .eexec, st)
  | some _ => (none, st)

/-- load_conf and process_conf_errors for one name. -/
def loadFile (ficl : Ficl) (disk : ConfDisk) (name : Bytes) (st : Loading) : Option (Option Exception × Loading) :=
  (loadConf ficl (disk.deliver st.opens name) st.session).map fun result =>
    processConfErrors result.exception { st with session := result.session, currentFile := name, opens := st.opens + 1 }

/-- What include_conf_files ends with: an exception, the names that load_conf was called with, and the
variables. -/
structure Included where
  thrown : Option Exception
  trace : List Bytes
  loading : Loading

/-- The loop of include_conf_files, at most `rounds` names; `recurse` is include_conf_files itself. -/
def includeLoop (ficl : Ficl) (disk : ConfDisk) (recurse : Loading → Option Included) : Nat → Bytes → Loading →
    Option Included
  | 0, _, _ => none
  | rounds + 1, rest, st =>
    match getNextFile rest with
    | none => some ⟨none, [], st⟩
    | some (name, rest) =>
      match loadFile ficl disk name st with
      | none => none
      | some (some e, st) => some ⟨some e, [name], st⟩
      | some (none, st) =>
        -- An empty conf_files has an address as well, but nothing is in it.
        if st.confFiles ≠ [] then
          (recurse st).bind fun inner =>
            match inner.thrown with
            | some e => some ⟨some e, name :: inner.trace, inner.loading⟩
            | none => (includeLoop ficl disk recurse rounds rest inner.loading).map fun later =>
              { later with trace := name :: (inner.trace ++ later.trace) }
        else (includeLoop ficl disk recurse rounds rest st).map fun later => { later with trace := name :: later.trace }

/-- include_conf_files, nested at most `fuel` deep. -/
def includeConfFiles (ficl : Ficl) (disk : ConfDisk) : Nat → Loading → Option Included
  | 0, _ => none
  | fuel + 1, st => includeLoop ficl disk (includeConfFiles ficl disk fuel) (st.confFiles.length + 1) st.confFiles st.cleared

end Pcbsd.Forth
