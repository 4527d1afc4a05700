import Pcbsd.Zmanager.Pools

/-! The listing of `zpool status` as it is printed from a description of the pools, and what pc-zmanager's
reader does with each of its lines. -/

namespace Pcbsd.Zmanager
open Lib Text List

inductive Health where
  | online
  | offline
  | degraded
  | faulted
  | removed
  | unavail
  | avail
  | inuse
  deriving DecidableEq

def inuse : Bytes := ascii ['I', 'N', 'U', 'S', 'E']

def Health.text : Health → Bytes
  | .online => Zmanager.online
  | .offline => Zmanager.offline
  | .degraded => Zmanager.degraded
  | .faulted => Zmanager.faulted
  | .removed => Zmanager.removed
  | .unavail => Zmanager.unavail
  | .avail => Zmanager.avail
  | .inuse => Zmanager.inuse

structure ListedDisk where
  name : Bytes
  word : Word name
  health : Health
  notes : Option Bytes

inductive GroupKind where
  | mirror
  | raidz1
  | raidz2
  | raidz3
  deriving DecidableEq

def GroupKind.text : GroupKind → Bytes
  | .mirror => Zmanager.mirror
  | .raidz1 => raidz ++ [0x31]
  | .raidz2 => Zmanager.raidz2
  | .raidz3 => Zmanager.raidz3

def GroupKind.type : GroupKind → Bytes
  | .mirror => Zmanager.mirror
  | .raidz1 => raidz
  | .raidz2 => Zmanager.raidz2
  | .raidz3 => Zmanager.raidz3

def Health.ofPool (health : Health) : Prop := health ≠ .avail ∧ health ≠ .inuse

inductive Top where
  | disk (disk : ListedDisk)
  | group (kind : GroupKind) (number : Nat) (health : Health) (known : health.ofPool) (notes : Option Bytes)
      (members : List ListedDisk)

def groupName (kind : GroupKind) (number : Nat) : Bytes := kind.text ++ 0x2d :: Numeral.printNat 10 number

inductive Special where
  | logs
  | cache
  | spares
  deriving DecidableEq

def Special.text : Special → Bytes
  | .logs => Zmanager.logs
  | .cache => Zmanager.cache
  | .spares => Zmanager.spares

/-- A name that zpool accepts for a pool: it starts with a letter and is not reserved. -/
structure LegalName (name : Bytes) : Prop where
  letter : ∃ c rest, name = c :: rest ∧ ((0x41 ≤ c ∧ c ≤ 0x5a) ∨ (0x61 ≤ c ∧ c ≤ 0x7a))
  free : startsWith name mirror = false ∧ startsWith name raidz = false ∧
    startsWith name (ascii ['s', 'p', 'a', 'r', 'e']) = false ∧ name ≠ ascii ['l', 'o', 'g']

/-- A line between the state of a pool and its devices: text that no key begins. A line of a text that goes on is
indented by a tab, and no device or section is. -/
structure Between (line : Bytes) : Prop where
  keyless : startsWith line poolKey = false ∧ startsWith line statusKey = false ∧ startsWith line errorsKey = false
  deviceless : startsWith line (tab ++ blanks 2) = false ∧ startsWith line (tab ++ logs) = false ∧
    startsWith line (tab ++ spares) = false ∧ startsWith line (tab ++ cache) = false

/-- A pool as it is listed. `action`, `see` and `scan` are among the lines between its state and its devices. -/
structure ListedPool where
  name : Bytes
  legal : LegalName name
  health : Health
  known : health.ofPool
  status : Option (Bytes × List Bytes)
  between : List Bytes
  plain : ∀ line ∈ between, Between line
  ended : status ≠ none → ∀ line ∈ between.head?, startsWith line tab = false
  width : Nat
  header : Bytes
  notes : Option Bytes
  top : List Top
  present : top ≠ []
  sections : List (Special × List ListedDisk)
  errors : Option Bytes
  behind : List Bytes
  done : ∀ line ∈ behind, startsWith line poolKey = false ∧ startsWith line tab = false

def deviceLine (width depth : Nat) (name : Bytes) (health : Health) (notes : Option Bytes) : Bytes :=
  tab ++ (blanks depth ++ (name ++ (blanks (width - depth - name.length + 2) ++ (health.text ++
    (blanks (8 - health.text.length) ++ notes.elim [] (0x20 :: ·))))))

def diskLine (width depth : Nat) (disk : ListedDisk) : Bytes := deviceLine width depth disk.name disk.health disk.notes

def topLines (width : Nat) : Top → List Bytes
  | .disk disk => [diskLine width 2 disk]
  | .group kind number health _ notes members =>
    deviceLine width 2 (groupName kind number) health notes :: members.map (diskLine width 4)

def sectionLines (width : Nat) (part : Special × List ListedDisk) : List Bytes :=
  (tab ++ part.1.text) :: part.2.map (diskLine width 2)

def statusLines : Option (Bytes × List Bytes) → List Bytes
  | none => []
  | some (first, more) => (statusKey ++ first) :: more.map (tab ++ ·)

def config : Bytes := ascii ['c', 'o', 'n', 'f', 'i', 'g', ':']
def nameColumn : Bytes := ascii ['N', 'A', 'M', 'E']

def ListedPool.lines (pool : ListedPool) : List Bytes :=
  [poolKey ++ pool.name, stateKey ++ pool.health.text] ++ (statusLines pool.status ++
    ((pool.between ++ [config, [], tab ++ nameColumn ++ pool.header]) ++
    (deviceLine pool.width 0 pool.name pool.health pool.notes :: (pool.top.flatMap (topLines pool.width) ++
    (pool.sections.flatMap (sectionLines pool.width) ++
    ([] :: (pool.errors.elim [] ([errorsKey ++ ·]) ++ pool.behind)))))))

section

theorem startsWith_cons (c d : UInt8) (str front : Bytes) :
    startsWith (c :: str) (d :: front) = (d == c && startsWith str front) := rfl

variable {s : Topology} {line str : Bytes} {t : Topology}

theorem poolLine_within (within : startsWith line poolKey = false) :
    poolLine s line =
      readErrors (readVdev (readSection cache (readSection spares (readSection logs (beginVdevs
        (readStatus (readState s line line) line line) line) line) line) line) line line) line := by
  rw [poolLine, beginPool, if_neg (by rw [within]; exact Bool.false_ne_true)]

theorem readState_skip (other : s.state ≠ 1) (str line : Bytes) : readState s str line = s :=
  if_neg fun both => other both.2

theorem readStatus_skip (second : s.state ≠ 2) (third : s.state ≠ 3) (str line : Bytes) :
    readStatus s str line = s := by
  rw [readStatus, if_neg fun both => second both.2, if_neg third]

theorem beginVdevs_skip (other : s.state ≠ 2 ∧ s.state ≠ 4) (str : Bytes) : beginVdevs s str = s :=
  if_neg fun both => both.2.elim other.1 other.2

theorem readSection_skip {title : Bytes} (other : startsWith str (tab ++ title) = false ∨ s.state ≠ 5) :
    readSection title s str = s := by
  rw [readSection, if_neg (unkeyed other)]

theorem readVdev_skip (line : Bytes)
    (other : startsWith str (tab ++ blanks 2) = false ∨ s.state ≠ 5) : readVdev s str line = s := by
  rw [readVdev, if_neg (unkeyed other)]

theorem readErrors_skip (other : startsWith str errorsKey = false ∨ s.state ≠ 5) :
    readErrors s str = s := by
  rw [readErrors, if_neg (unkeyed other)]

theorem late_skip (before : s.state ≠ 5) (str line : Bytes) :
    readErrors (readVdev (readSection cache (readSection spares (readSection logs s str) str) str) str line) str = s := by
  rw [readSection_skip (Or.inr before), readSection_skip (Or.inr before), readSection_skip (Or.inr before),
    readVdev_skip line (Or.inr before), readErrors_skip (Or.inr before)]

theorem early_skip (reading : s.state = 5) (str line : Bytes) :
    beginVdevs (readStatus (readState s str line) str line) str = s := by
  rw [readState_skip (by omega), readStatus_skip (by omega) (by omega), beginVdevs_skip (by omega)]

def Topology.finished (s : Topology) : List Zpool := if s.state ≠ 0 then s.pools ++ [s.pool] else s.pools

theorem poolLine_begin (s : Topology) {name : Bytes} (legal : LegalName name) :
    poolLine s (poolKey ++ name) =
      ⟨s.disks, s.finished, s.errors,
        { s.pool with name, size := 0, free := 0, status := .unknown, vdevs := [], type := [] }, s.err, 1⟩ := by
  obtain ⟨c, rest, rfl, letter⟩ := legal.letter
  have first : startsWith (c :: rest) stateKey = false := by
    have other : ((0x20 : UInt8) == c) = false := by
      rw [beq_eq_false_iff_ne]
      rintro rfl
      revert letter
      decide
    rw [show stateKey = 0x20 :: stateKey.tail from rfl, startsWith_cons, other]
    rfl
  rw [poolLine, beginPool, if_pos (startsWith_append poolKey _)]
  dsimp only
  rw [show (poolKey ++ c :: rest).drop 8 = c :: rest from rfl, readState, if_neg, readStatus_skip,
    beginVdevs_skip, late_skip]
  · rfl
  all_goals simp [first]

theorem poolLine_state (begun : s.state = 1) (text : Bytes) :
    poolLine s (stateKey ++ text) = { s with pool := { s.pool with status := poolState text }, state := 2 } := by
  have status : startsWith (stateKey ++ text) statusKey = false := rfl
  have own : startsWith (stateKey ++ text) (tab ++ s.pool.name) = false := rfl
  rw [poolLine_within rfl, readState, if_pos ⟨startsWith_append stateKey text, begun⟩, readStatus,
    if_neg (by simp [status]), if_neg (by simp), beginVdevs, if_neg (by simp [own]), late_skip (by simp)]
  rfl

theorem poolLine_status (stated : s.state = 2) (text : Bytes) :
    poolLine s (statusKey ++ text) = { s with err := ⟨s.pool.name, text⟩, state := 3 } := by
  rw [poolLine_within rfl, readState_skip (by omega), readStatus, if_pos ⟨startsWith_append statusKey text, stated⟩,
    beginVdevs_skip (by simp), late_skip (by simp)]
  rfl

theorem poolLine_more (going : s.state = 3) (text : Bytes) :
    poolLine s (tab ++ text) = { s with err := { s.err with error := s.err.error ++ 0x20 :: text } } := by
  have status : startsWith (tab ++ text) statusKey = false := rfl
  rw [poolLine_within rfl, readState_skip (by omega), readStatus, if_neg (by simp [status]), if_pos going,
    if_pos (startsWith_append tab text), beginVdevs_skip (by simp [going]), late_skip (by simp [going])]
  rfl

theorem poolLine_ended (going : s.state = 3) (between : Between line)
    (ends : startsWith line tab = false) : poolLine s line = { s with errors := s.errors ++ [s.err], state := 4 } := by
  have own : startsWith line (tab ++ s.pool.name) = false := by
    rw [Bool.eq_false_iff, Ne, startsWith_iff]
    intro front
    rw [startsWith_iff.mpr ((prefix_append tab _).trans front)] at ends
    cases ends
  rw [poolLine_within between.keyless.1, readState_skip (by omega), readStatus, if_neg (by simp [between.keyless.2.1]),
    if_pos going, if_neg (by simp [ends]), beginVdevs, if_neg (by simp [own]), late_skip (by simp)]

/-- Behind the state of a pool, and its error text, and before its devices. A line that starts like the pool's name
may be taken for the pool already. -/
structure Waiting (s t : Topology) : Prop where
  state : t.state = 2 ∨ t.state = 4 ∨ t.state = 5
  same : { t with state := s.state } = s

theorem poolLine_between (waiting : Waiting s t) (between : Between line) : Waiting s (poolLine t line) := by
  have begun : readStatus (readState t line line) line line = t := by
    rw [readState_skip (by have := waiting.state; omega), readStatus, if_neg (by simp [between.keyless.2.1]),
      if_neg (by have := waiting.state; omega)]
  rw [poolLine_within between.keyless.1, begun, readSection_skip (Or.inl between.deviceless.2.1),
    readSection_skip (Or.inl between.deviceless.2.2.1), readSection_skip (Or.inl between.deviceless.2.2.2),
    readVdev_skip line (Or.inl between.deviceless.1), readErrors_skip (Or.inl between.keyless.2.2), beginVdevs]
  split
  · exact ⟨Or.inr (Or.inr rfl), waiting.same⟩
  · exact waiting

theorem foldl_between (waiting : Waiting s t) {lines : List Bytes} (between : ∀ line ∈ lines, Between line) :
    Waiting s (lines.foldl poolLine t) := by
  induction lines generalizing t with
  | nil => exact waiting
  | cons line lines ih =>
    exact ih (poolLine_between waiting (between line mem_cons_self)) fun other member =>
      between other (mem_cons_of_mem line member)

theorem foldl_more (going : s.state = 3) (more : List Bytes) :
    (more.map (tab ++ ·)).foldl poolLine s =
      { s with err := { s.err with error := more.foldl (fun error text => error ++ 0x20 :: text) s.err.error } } := by
  induction more generalizing s with
  | nil => rfl
  | cons text more ih =>
    rw [map_cons, foldl_cons, poolLine_more going, ih (by exact going)]
    rfl

def Health.state : Health → State
  | .online => .online
  | .offline => .offline
  | .degraded => .degraded
  | .faulted => .faulted
  | .removed => .removed
  | .unavail => .unavail
  | .avail => .avail
  | .inuse => .unknown

theorem vdevState_text (health : Health) : vdevState health.text = health.state := by
  cases health <;> decide

theorem poolState_eq {health : Health} (known : health.ofPool) : poolState health.text = health.state := by
  cases health with
  | avail => exact absurd rfl known.1
  | inuse => exact absurd rfl known.2
  | _ => decide

theorem text_word (health : Health) : Word health.text := by
  cases health <;> exact ⟨by decide, by decide +kernel⟩

structure MemberView where
  name : Bytes
  status : State
  inPool : Bytes
  deriving DecidableEq

structure VdevView where
  name : Bytes
  type : Bytes
  status : State
  inPool : Bytes
  members : List MemberView
  deriving DecidableEq

def Vdev.asMember (v : Vdev) : MemberView := ⟨v.name, v.status, v.inPool⟩

def Vdev.view (v : Vdev) : VdevView := ⟨v.name, v.partType, v.status, v.inPool, v.partitions.map Vdev.asMember⟩

def own (pool : Bytes) (names : List Bytes) (disks : List Vdev) : List Vdev :=
  names.foldl (fun disks name => (changeDiskbyName (fun dsk => { dsk with inPool := pool }) disks name).getD disks)
    disks

/-- In the list of devices of a pool: what was read before, and the names and the devices so far. -/
structure Reading (b : Topology) (names : List Bytes) (views : List VdevView) (s : Topology) : Prop where
  state : s.state = 5
  disks : s.disks = own b.pool.name names b.disks
  pools : s.pools = b.pools
  errors : s.errors = b.errors
  name : s.pool.name = b.pool.name
  status : s.pool.status = b.pool.status
  views : s.pool.vdevs.map Vdev.view = views

def isSpecial (type : Bytes) : Bool := type = logs ∨ type = cache ∨ type = spares

def addView (views : List VdevView) (level : Nat) (view : VdevView) : List VdevView :=
  if level ≠ 0 then
    match views.getLast? with
    | none => []
    | some last => views.dropLast ++ [{ last with members := last.members ++ [⟨view.name, view.status, view.inPool⟩] }]
  else views ++ [view]

theorem addView_top (views : List VdevView) (view : VdevView) : addView views 0 view = views ++ [view] := rfl

theorem addView_below (views : List VdevView) (last view : VdevView) :
    addView (views ++ [last]) 1 view =
      views ++ [{ last with members := last.members ++ [⟨view.name, view.status, view.inPool⟩] }] := by
  rw [addView, if_pos Nat.one_ne_zero, getLast?_concat, dropLast_concat]

theorem appendToLast_view (vdevs : List Vdev) (vdev : Vdev) :
    (appendToLast vdevs vdev).map Vdev.view = addView (vdevs.map Vdev.view) 1 vdev.view := by
  rw [appendToLast, addView, if_pos Nat.one_ne_zero, getLast?_map]
  cases vdevs.getLast? with
  | none => rfl
  | some _ =>
    rw [map_append, map_dropLast]
    simp only [Option.map_some, map_cons, map_nil, Vdev.view, map_append, Vdev.asMember]

theorem Reading.addVdev {b s : Topology} {names : List Bytes} {views : List VdevView}
    (reading : Reading b names views s) (name : Bytes) (level : Nat) (status : State) :
    Reading b (names ++ [name]) (addView views level ⟨name, groupType name, status, b.pool.name, []⟩)
      (addVdev s name level status) := by
  refine ⟨reading.state, ?_, reading.pools, reading.errors, reading.name, reading.status, ?_⟩
  · have before : own b.pool.name (names ++ [name]) b.disks =
        (changeDiskbyName (fun dsk => { dsk with inPool := b.pool.name }) (own b.pool.name names b.disks) name).getD
          (own b.pool.name names b.disks) := foldl_append ..
    rw [before, ← reading.disks, ← reading.name]
    rfl
  rw [Zmanager.addVdev]
  dsimp only
  split
  next inside =>
    rw [appendToLast_view, reading.views, ← reading.name, addView, addView, if_pos Nat.one_ne_zero, if_pos inside]
    rfl
  next top =>
    rw [map_append, reading.views, ← reading.name, addView, if_neg top]
    rfl

variable {views : List VdevView} {names : List Bytes} {b : Topology} {name : Bytes} {depth : Nat}

theorem tokens_deviceLine (word : Word name) (width depth : Nat) (health : Health) (notes : Option Bytes) :
    ∃ rest, tokens ((deviceLine width (depth + 2) name health notes).drop 3) = name :: health.text :: rest := by
  have front : (deviceLine width (depth + 2) name health notes).drop 3 =
      blanks depth ++ (name ++ 0x20 :: (blanks (width - (depth + 2) - name.length + 1) ++ (health.text ++
        (blanks (8 - health.text.length) ++ notes.elim [] (0x20 :: ·))))) := rfl
  rw [front, tokens_blanks, tokens_word word, tokens_blanks]
  cases pad : 8 - health.text.length with
  | zero =>
    cases notes with
    | none =>
      rw [show blanks 0 ++ Option.elim none [] ((0x20 : UInt8) :: ·) = [] from rfl, append_nil,
        tokens_single (text_word health)]
      exact ⟨[], rfl⟩
    | some notes =>
      rw [show blanks 0 ++ Option.elim (some notes) [] ((0x20 : UInt8) :: ·) = 0x20 :: notes from rfl,
        tokens_word (text_word health)]
      exact ⟨tokens notes, rfl⟩
  | succ n =>
    rw [show blanks (n + 1) ++ notes.elim [] ((0x20 : UInt8) :: ·) = 0x20 ::
      (blanks n ++ notes.elim [] (0x20 :: ·)) from rfl, tokens_word (text_word health)]
    exact ⟨_, rfl⟩

def levelOf (views : List VdevView) (depth : Nat) : Nat :=
  if 2 ≤ depth then 1 else if views.getLast?.any fun last => isSpecial last.type then 1 else 0

theorem vdevLevel_deviceLine {vdevs : List Vdev} (word : Word name) (width : Nat) (two : depth = 0 ∨ depth = 2)
    (health : Health) (notes : Option Bytes) :
    vdevLevel vdevs ((deviceLine width (depth + 2) name health notes).drop 3) =
      levelOf (vdevs.map Vdev.view) depth := by
  have same : (vdevs.getLast?.any fun last => decide (last.partType = logs ∨ last.partType = cache ∨
    last.partType = spares)) = (vdevs.map Vdev.view).getLast?.any fun last => isSpecial last.type := by
    rw [getLast?_map]
    cases vdevs.getLast? <;> rfl
  rw [vdevLevel, levelOf, same]
  rcases two with rfl | rfl
  · have indented : startsWith ((deviceLine width (0 + 2) name health notes).drop 3) (blanks 2) = false := by
      obtain ⟨nonempty, spaceless⟩ := word
      cases name with
      | nil => exact absurd rfl nonempty
      | cons c name =>
        have other : ((0x20 : UInt8) == c) = false := by
          rw [beq_eq_false_iff_ne]
          rintro rfl
          have printable := spaceless 0x20 mem_cons_self
          revert printable
          decide
        change ((0x20 == c) && startsWith _ (blanks 1)) = false
        rw [other]
        rfl
    rw [indented, if_neg Bool.false_ne_true, if_neg (show ¬2 ≤ 0 by omega)]
  · have indented : startsWith ((deviceLine width (2 + 2) name health notes).drop 3) (blanks 2) = true := rfl
    rw [if_pos indented, if_pos (Nat.le_refl 2)]

variable (reading : Reading b names views s)

include reading

theorem Reading.device (word : Word name) (width : Nat) (two : depth = 0 ∨ depth = 2) (health : Health)
    (notes : Option Bytes) :
    Reading b (if health.state = .unknown then names else names ++ [name])
      (if health.state = .unknown then views
        else addView views (levelOf views depth) ⟨name, groupType name, health.state, b.pool.name, []⟩)
      (poolLine s (deviceLine width (depth + 2) name health notes)) := by
  have indented : startsWith (deviceLine width (depth + 2) name health notes) (tab ++ blanks 2) = true := rfl
  obtain ⟨_, words⟩ := tokens_deviceLine word width depth health notes
  rw [poolLine_within rfl, early_skip reading.state, readSection_skip (Or.inl rfl), readSection_skip (Or.inl rfl),
    readSection_skip (Or.inl rfl), readErrors_skip (Or.inl rfl), readVdev,
    if_pos (And.intro indented reading.state)]
  dsimp only
  rw [words]
  dsimp only
  rw [vdevState_text]
  by_cases unknown : health.state = .unknown
  · rw [if_pos unknown, if_pos unknown, if_pos unknown]
    exact reading
  · rw [if_neg unknown, if_neg unknown, if_neg unknown, vdevLevel_deviceLine word width two, reading.views]
    exact reading.addVdev name _ _

def sectionView (pool title : Bytes) (members : List MemberView) : VdevView :=
  ⟨title, title, .notApplicable, pool, members⟩

theorem Reading.section (title str : Bytes) :
    Reading b names (views ++ if startsWith str (tab ++ title) then [sectionView b.pool.name title []] else [])
      (readSection title s str) := by
  rw [readSection]
  by_cases titled : startsWith str (tab ++ title) = true
  · rw [if_pos titled, if_pos (And.intro titled reading.state)]
    refine ⟨reading.state, reading.disks, reading.pools, reading.errors, reading.name, reading.status, ?_⟩
    rw [map_append, reading.views, ← reading.name]
    rfl
  · rw [if_neg titled, if_neg (fun both => titled both.1), append_nil]
    exact reading

theorem Reading.sections (str : Bytes) :
    Reading b names
      (((views ++ if startsWith str (tab ++ logs) then [sectionView b.pool.name logs []] else []) ++
        if startsWith str (tab ++ spares) then [sectionView b.pool.name spares []] else []) ++
        if startsWith str (tab ++ cache) then [sectionView b.pool.name cache []] else [])
      (readSection cache (readSection spares (readSection logs s str) str) str) :=
  ((reading.section logs str).section spares str).section cache str

theorem Reading.title (special : Special) :
    Reading b names (views ++ [sectionView b.pool.name special.text []]) (poolLine s (tab ++ special.text)) := by
  have read := reading.sections (tab ++ special.text)
  have within : startsWith (tab ++ special.text) poolKey = false := rfl
  have plain : startsWith (tab ++ special.text) (tab ++ blanks 2) = false := by cases special <;> rfl
  rw [poolLine_within within, early_skip reading.state, readVdev_skip _ (Or.inl plain), readErrors_skip (Or.inl rfl)]
  cases special with
  | logs =>
    rw [if_pos (by decide), if_neg (by decide), if_neg (by decide), append_nil, append_nil] at read
    exact read
  | cache =>
    rw [if_neg (by decide), if_neg (by decide), if_pos (by decide), append_nil, append_nil] at read
    exact read
  | spares =>
    rw [if_neg (by decide), if_pos (by decide), if_neg (by decide), append_nil, append_nil] at read
    exact read

omit reading

def mistaken (name : Bytes) : List VdevView :=
  (if startsWith name logs then [sectionView name logs []] else []) ++
    if startsWith name cache then [sectionView name cache []] else []

theorem poolLine_own {t : Topology} (waiting : Waiting s t) (legal : LegalName s.pool.name) (none : s.pool.vdevs = [])
    (width : Nat) (health : Health) (notes : Option Bytes) :
    Reading s [] (mistaken s.pool.name) (poolLine t (deviceLine width 0 s.pool.name health notes)) := by
  have disks : t.disks = s.disks := by
    have disks := congrArg Topology.disks waiting.same
    exact disks
  have same : t.pools = s.pools ∧ t.errors = s.errors ∧ t.pool = s.pool := by
    have pools := congrArg Topology.pools waiting.same
    have errors := congrArg Topology.errors waiting.same
    have pool := congrArg Topology.pool waiting.same
    exact ⟨pools, errors, pool⟩
  obtain ⟨pad, line⟩ : ∃ pad, deviceLine width 0 s.pool.name health notes = tab ++ (s.pool.name ++ 0x20 :: pad) :=
    ⟨_, rfl⟩
  have named {title : Bytes} (word : (0x20 : UInt8) ∉ title) :
      startsWith (tab ++ (s.pool.name ++ 0x20 :: pad)) (tab ++ title) = startsWith s.pool.name title := by
    rw [startsWith_append_append, startsWith_blank word]
  have begun : Reading s [] [] (beginVdevs t (tab ++ (s.pool.name ++ 0x20 :: pad))) := by
    have own : startsWith (tab ++ (s.pool.name ++ 0x20 :: pad)) (tab ++ t.pool.name) = true := by
      rw [same.2.2, startsWith_append_append, startsWith_append]
    rw [beginVdevs]
    split
    · exact ⟨rfl, disks, same.1, same.2.1, congrArg Zpool.name same.2.2,
        congrArg Zpool.status same.2.2, by rw [same.2.2, none]; rfl⟩
    next no =>
      have five : t.state = 5 := by
        have states := waiting.state
        have other : ¬(t.state = 2 ∨ t.state = 4) := fun early => no ⟨own, early⟩
        omega
      exact ⟨five, disks, same.1, same.2.1, congrArg Zpool.name same.2.2,
        congrArg Zpool.status same.2.2, by rw [same.2.2, none]; rfl⟩
  have status : readStatus (readState t (tab ++ (s.pool.name ++ 0x20 :: pad)) (tab ++ (s.pool.name ++ 0x20 :: pad)))
      (tab ++ (s.pool.name ++ 0x20 :: pad)) (tab ++ (s.pool.name ++ 0x20 :: pad)) = t := by
    have states := waiting.state
    have other : startsWith (tab ++ (s.pool.name ++ 0x20 :: pad)) statusKey = false := rfl
    rw [readState_skip (by omega), readStatus, if_neg (by simp [other]), if_neg (by omega)]
  have plain : startsWith (tab ++ (s.pool.name ++ 0x20 :: pad)) (tab ++ blanks 2) = false := by
    obtain ⟨c, _, name, letter⟩ := legal.letter
    have other : ((0x20 : UInt8) == c) = false := by
      rw [beq_eq_false_iff_ne]
      rintro rfl
      revert letter
      decide
    rw [startsWith_append_append, name]
    change ((0x20 == c) && startsWith _ (blanks 1)) = false
    rw [other]
    rfl
  have reserved : startsWith s.pool.name spares = false := by
    rw [Bool.eq_false_iff, Ne, startsWith_iff]
    intro front
    have spare := legal.free.2.2.1
    have shorter : ascii ['s', 'p', 'a', 'r', 'e'] <+: spares := ⟨ascii ['s'], rfl⟩
    rw [startsWith_iff.mpr (shorter.trans front)] at spare
    cases spare
  have read := begun.sections (tab ++ (s.pool.name ++ 0x20 :: pad))
  rw [named (by decide), named (by decide), named (by decide), reserved, if_neg Bool.false_ne_true, append_nil,
    nil_append] at read
  rw [line, poolLine_within rfl, status, readVdev_skip _ (Or.inl plain), readErrors_skip (Or.inl rfl)]
  exact read

end

end Pcbsd.Zmanager
