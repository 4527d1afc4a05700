import Pcbsd.Proofs.PoolLines

/-! The listing of `zpool status` read by pc-zmanager: the devices of a pool, a pool, and the whole listing. -/

namespace Pcbsd.Zmanager
open Lib Text List Option

section
variable (pool : Bytes)

def ListedDisk.member (disk : ListedDisk) : MemberView := ⟨disk.name, disk.health.state, pool⟩

def ListedDisk.known (disk : ListedDisk) : Bool := disk.health.state ≠ .unknown

def readMembers (disks : List ListedDisk) : List MemberView := (disks.filter ListedDisk.known).map (·.member pool)

def readTop : Top → Option VdevView
  | .disk disk => if disk.known then some ⟨disk.name, groupType disk.name, disk.health.state, pool, []⟩ else none
  | .group kind number health _ _ members =>
    some ⟨groupName kind number, kind.type, health.state, pool, readMembers pool members⟩

def readSpecial (part : Special × List ListedDisk) : VdevView := sectionView pool part.1.text (readMembers pool part.2)

end

def readNames (disks : List ListedDisk) : List Bytes := (disks.filter ListedDisk.known).map ListedDisk.name

def topNames : Top → List Bytes
  | .disk disk => readNames [disk]
  | .group kind number _ _ _ members => groupName kind number :: readNames members

section
variable {b s : Topology} {names : List Bytes} {views : List VdevView}

theorem Reading.members {last : VdevView} (reading : Reading b names (views ++ [last]) s) (width : Nat) {depth : Nat}
    (below : depth = 2 ∨ depth = 0 ∧ isSpecial last.type = true) (disks : List ListedDisk) :
    Reading b (names ++ readNames disks) (views ++ [{ last with members := last.members ++ readMembers b.pool.name disks }])
      ((disks.map (diskLine width (depth + 2))).foldl poolLine s) := by
  induction disks generalizing s last names with
  | nil =>
    rw [readMembers, readNames, filter_nil, map_nil, map_nil, append_nil, append_nil]
    exact reading
  | cons disk disks ih =>
    have level : levelOf (views ++ [last]) depth = 1 := by
      rw [levelOf]
      rcases below with rfl | ⟨rfl, special⟩
      · rfl
      · rw [if_neg (by omega), if_pos]
        rw [getLast?_concat]
        exact special
    have next := reading.device disk.word width (by omega : depth = 0 ∨ depth = 2) disk.health disk.notes
    rw [map_cons, foldl_cons]
    by_cases unknown : disk.health.state = .unknown
    · have dropped : disk.known = false := by rw [ListedDisk.known, unknown]; rfl
      rw [if_pos unknown, if_pos unknown] at next
      rw [readMembers, readNames, filter_cons_of_neg (by rw [dropped]; exact Bool.false_ne_true)]
      exact ih next below
    · have kept : disk.known = true := decide_eq_true unknown
      rw [if_neg unknown, if_neg unknown, level, addView_below] at next
      have split : last.members ++ readMembers b.pool.name (disk :: disks) =
          last.members ++ [disk.member b.pool.name] ++ readMembers b.pool.name disks := by
        rw [readMembers, filter_cons_of_pos kept, map_cons, append_assoc]
        rfl
      have front : names ++ readNames (disk :: disks) = names ++ [disk.name] ++ readNames disks := by
        rw [readNames, filter_cons_of_pos kept, map_cons, append_assoc]
        rfl
      rw [split, front]
      exact ih next below

def Plain (views : List VdevView) : Prop := ∀ last ∈ views.getLast?, isSpecial last.type = false

theorem groupType_plain (name : Bytes) : isSpecial (groupType name) = false := by
  rw [groupType]
  split
  · rfl
  split
  · rfl
  split
  · rfl
  split <;> rfl

theorem plain_concat (views : List VdevView) {last : VdevView} (plain : isSpecial last.type = false) :
    Plain (views ++ [last]) := by
  intro other member
  rw [getLast?_concat] at member
  cases member
  exact plain

theorem levelOf_plain (plain : Plain views) : levelOf views 0 = 0 := by
  rw [levelOf, if_neg (by omega), if_neg]
  rw [Option.any_eq_true]
  rintro ⟨last, member, special⟩
  rw [plain last member] at special
  cases special

theorem groupName_word (kind : GroupKind) (number : Nat) : Word (groupName kind number) := by
  have digits := printNat_word number
  refine ⟨by cases kind <;> exact cons_ne_nil _ _, ?_⟩
  intro c member
  rw [groupName, mem_append, mem_cons] at member
  rcases member with _ | rfl | digit
  · revert c
    cases kind <;> decide +kernel
  · rfl
  · exact digits.2 c digit

theorem groupType_groupName (kind : GroupKind) (number : Nat) : groupType (groupName kind number) = kind.type := by
  cases kind <;> rfl

theorem Reading.top (reading : Reading b names views s) (plain : Plain views) (width : Nat) (top : Top) :
    Reading b (names ++ topNames top) (views ++ (readTop b.pool.name top).toList)
      ((topLines width top).foldl poolLine s) ∧ Plain (views ++ (readTop b.pool.name top).toList) := by
  cases top with
  | disk disk =>
    have next := reading.device disk.word width (Or.inl rfl) disk.health disk.notes
    rw [levelOf_plain plain, addView_top] at next
    rw [readTop, topNames, readNames]
    by_cases unknown : disk.health.state = .unknown
    · have dropped : disk.known = false := by rw [ListedDisk.known, unknown]; rfl
      rw [if_pos unknown, if_pos unknown] at next
      rw [dropped, if_neg Bool.false_ne_true, toList_none, append_nil,
        filter_cons_of_neg (by rw [dropped]; exact Bool.false_ne_true), filter_nil, map_nil, append_nil]
      exact ⟨next, plain⟩
    · have kept : disk.known = true := decide_eq_true unknown
      rw [if_neg unknown, if_neg unknown] at next
      rw [if_pos kept, toList_some, filter_cons_of_pos kept, filter_nil]
      exact ⟨next, plain_concat views (groupType_plain disk.name)⟩
  | group kind number health known notes members =>
    have line := reading.device (groupName_word kind number) width (Or.inl rfl) health notes
    have state : health.state ≠ .unknown := by
      cases health with
      | avail => exact absurd rfl known.1
      | inuse => exact absurd rfl known.2
      | _ => decide
    rw [if_neg state, if_neg state, levelOf_plain plain, addView_top, groupType_groupName] at line
    have whole := line.members width (Or.inl rfl) members
    rw [append_assoc] at whole
    exact ⟨whole, plain_concat views (by cases kind <;> rfl)⟩

theorem Reading.tops (reading : Reading b names views s) (plain : Plain views) (width : Nat) (tops : List Top) :
    Reading b (names ++ tops.flatMap topNames) (views ++ tops.filterMap (readTop b.pool.name))
      ((tops.flatMap (topLines width)).foldl poolLine s) := by
  induction tops generalizing s views names with
  | nil =>
    rw [filterMap_nil, flatMap_nil, append_nil, append_nil]
    exact reading
  | cons top tops ih =>
    obtain ⟨next, still⟩ := reading.top plain width top
    have rest := ih next still
    have front : (top :: tops).filterMap (readTop b.pool.name) =
        (readTop b.pool.name top).toList ++ tops.filterMap (readTop b.pool.name) := by
      cases read : readTop b.pool.name top <;> simp [read]
    have lines : (top :: tops).flatMap (topLines width) = topLines width top ++ tops.flatMap (topLines width) :=
      flatMap_cons
    rw [lines, foldl_append, front, ← append_assoc, flatMap_cons, ← append_assoc]
    exact rest

theorem Reading.specials (reading : Reading b names views s) (width : Nat)
    (sections : List (Special × List ListedDisk)) :
    Reading b (names ++ sections.flatMap fun part => readNames part.2) (views ++ sections.map (readSpecial b.pool.name))
      ((sections.flatMap (sectionLines width)).foldl poolLine s) := by
  induction sections generalizing s views names with
  | nil =>
    rw [map_nil, flatMap_nil, append_nil, append_nil]
    exact reading
  | cons part sections ih =>
    have special : isSpecial part.1.text = true := by cases part.1 <;> rfl
    have next := (reading.title part.1).members width (Or.inr ⟨rfl, special⟩) part.2
    have rest := ih next
    have lines : (part :: sections).flatMap (sectionLines width) = sectionLines width part ++
      sections.flatMap (sectionLines width) :=
      flatMap_cons
    rw [lines, foldl_append, flatMap_cons, ← append_assoc, map_cons, append_cons]
    exact rest

structure Ended (b : Topology) (names : List Bytes) (views : List VdevView) (s : Topology) : Prop where
  state : s.state = 5 ∨ s.state = 6
  reading : Reading b names views { s with state := 5 }

theorem poolLine_behind (ended : Ended b names views s) {line : Bytes}
    (plain : startsWith line poolKey = false ∧ startsWith line tab = false) :
    Ended b names views (poolLine s line) := by
  have other (title : Bytes) : startsWith line (tab ++ title) = false := by
    rw [Bool.eq_false_iff, Ne, startsWith_iff]
    intro front
    have tabbed := plain.2
    rw [startsWith_iff.mpr ((prefix_append tab _).trans front)] at tabbed
    cases tabbed
  have states := ended.state
  rw [poolLine_within plain.1, readState_skip (by omega), readStatus_skip (by omega) (by omega),
    beginVdevs_skip (by omega),
    readSection_skip (Or.inl (other logs)), readSection_skip (Or.inl (other spares)),
    readSection_skip (Or.inl (other cache)),
    readVdev_skip line (Or.inl (other _)), readErrors]
  split
  · exact ⟨Or.inr rfl, ended.reading⟩
  · exact ended

theorem foldl_behind (ended : Ended b names views s) {lines : List Bytes}
    (plain : ∀ line ∈ lines, startsWith line poolKey = false ∧ startsWith line tab = false) :
    Ended b names views (lines.foldl poolLine s) := by
  induction lines generalizing s with
  | nil => exact ended
  | cons line lines ih =>
    exact ih (poolLine_behind ended (plain line mem_cons_self)) fun other member =>
      plain other (mem_cons_of_mem line member)

def errorText (first : Bytes) (more : List Bytes) : Bytes := more.foldl (fun error text => error ++ 0x20 :: text) first

def ListedPool.zerrors (pool : ListedPool) : List Zerror :=
  pool.status.elim [] fun status => [⟨pool.name, errorText status.1 status.2⟩]

theorem lines_between (pool : ListedPool) :
    ∀ line ∈ pool.between ++ [config, [], tab ++ nameColumn ++ pool.header], Between line := by
  intro line member
  simp only [mem_append, mem_cons, not_mem_nil, or_false] at member
  rcases member with between | rfl | rfl | rfl
  · exact pool.plain line between
  · exact ⟨by decide, by decide⟩
  · exact ⟨by decide, by decide⟩
  · exact ⟨⟨rfl, rfl, rfl⟩, rfl, rfl, rfl, rfl⟩

theorem foldl_status (pool : ListedPool) {t : Topology} (stated : t.state = 2) (named : t.pool.name = pool.name) :
    ∃ err, Waiting { t with errors := t.errors ++ pool.zerrors, err }
      ((statusLines pool.status ++ (pool.between ++ [config, [], tab ++ nameColumn ++ pool.header])).foldl poolLine t) := by
  have plain := lines_between pool
  cases status : pool.status with
  | none =>
    refine ⟨t.err, ?_⟩
    rw [ListedPool.zerrors, status, statusLines, nil_append, elim_none, append_nil]
    exact foldl_between ⟨Or.inl stated, rfl⟩ plain
  | some message =>
    obtain ⟨first, more⟩ := message
    obtain ⟨line, rest, lines, ends⟩ : ∃ line rest,
        pool.between ++ [config, [], tab ++ nameColumn ++ pool.header] = line :: rest ∧ startsWith line tab = false := by
      cases between : pool.between with
      | nil => exact ⟨_, _, rfl, rfl⟩
      | cons line rest =>
        refine ⟨line, _, rfl, pool.ended (by rw [status]; exact some_ne_none _) line ?_⟩
        rw [between]
        rfl
    rw [lines] at plain
    refine ⟨⟨pool.name, errorText first more⟩, ?_⟩
    rw [ListedPool.zerrors, status, statusLines, foldl_append, foldl_cons, poolLine_status stated, foldl_more rfl, lines,
      foldl_cons, poolLine_ended rfl (plain line mem_cons_self) ends]
    refine foldl_between ⟨Or.inr (Or.inl rfl), ?_⟩ fun other member => plain other (mem_cons_of_mem line member)
    simp only [named, stated, errorText, elim_some]

def ListedPool.read (pool : ListedPool) : List VdevView :=
  mistaken pool.name ++ pool.top.filterMap (readTop pool.name) ++ pool.sections.map (readSpecial pool.name)

end

section
variable (pool : Bytes)

def owner (disks : List Vdev) (name : Bytes) : Option Bytes := (getDiskbyName disks name).map Vdev.inPool

def given (name other : Bytes) (found : Option Vdev) : Option Bytes :=
  found.map fun v => if other = name then pool else v.inPool

def give (v : Vdev) : Vdev := { v with inPool := pool }

theorem changeFirst_isSome {α β : Type} {change : α → Option α} {find : α → Option β}
    (each : ∀ a, (change a).isSome = (find a).isSome) (l : List α) :
    (changeFirst change l).isSome = (l.findSome? find).isSome := by
  induction l with
  | nil => rfl
  | cons a l ih =>
    have first := each a
    rw [changeFirst, findSome?_cons]
    cases changed : change a with
    | some _ =>
      rw [changed] at first
      cases found : find a with
      | some c => rfl
      | none =>
        rw [found] at first
        cases first
    | none =>
      rw [changed] at first
      cases found : find a with
      | some c =>
        rw [found] at first
        cases first
      | none =>
        rw [isSome_map]
        exact ih

theorem changeNamed_isSome (change : Vdev → Vdev) (name : Bytes) (depth : Nat) (v : Vdev) :
    (v.changeNamed change name depth).isSome = (v.named name depth).isSome := by
  induction depth generalizing v with
  | zero =>
    rw [Vdev.changeNamed, Vdev.named]
    split <;> rfl
  | succ depth ih =>
    rw [Vdev.changeNamed, Vdev.named]
    split
    · rfl
    · rw [isSome_map]
      exact changeFirst_isSome ih v.partitions

theorem findSome_changed {name other : Bytes} {depth : Nat} {l l' : List Vdev}
    (each : ∀ v v' : Vdev, v.changeNamed (give pool) name depth = some v' →
      (v'.named other depth).map Vdev.inPool = given pool name other (v.named other depth))
    (changed : changeFirst (Vdev.changeNamed (give pool) name depth) l = some l') :
    (l'.findSome? (Vdev.named other depth)).map Vdev.inPool = given pool name other (l.findSome? (Vdev.named other depth)) := by
  induction l generalizing l' with
  | nil => cases changed
  | cons v l ih =>
    have first := changeNamed_isSome (give pool) name depth v
    rw [changeFirst] at changed
    cases here : v.changeNamed (give pool) name depth with
    | some v' =>
      rw [here] at changed first
      cases changed
      have found := each v v' here
      rw [findSome?_cons, findSome?_cons]
      cases before : v.named other depth with
      | some w =>
        rw [before] at found
        cases after : v'.named other depth with
        | some w' =>
          rw [after] at found
          exact found
        | none =>
          rw [after] at found
          cases found
      | none =>
        rw [before] at found
        cases after : v'.named other depth with
        | some w' =>
          rw [after] at found
          cases found
        | none =>
          have apart : other ≠ name := by
            rintro rfl
            rw [before] at first
            cases first
          simp only [given, if_neg apart]
    | none =>
      rw [here] at changed first
      obtain ⟨_, behind, rfl⟩ := map_eq_some_iff.mp changed
      rw [findSome?_cons, findSome?_cons]
      cases before : v.named other depth with
      | some w =>
        have apart : other ≠ name := by
          rintro rfl
          rw [before] at first
          cases first
        simp only [given, if_neg apart, map_some]
      | none => exact ih behind

theorem named_changed {name : Bytes} (other : Bytes) {depth : Nat} {v v' : Vdev}
    (changed : v.changeNamed (give pool) name depth = some v') :
    (v'.named other depth).map Vdev.inPool = given pool name other (v.named other depth) := by
  induction depth generalizing v v' with
  | zero =>
    rw [Vdev.changeNamed] at changed
    split at changed
    next same =>
      cases changed
      rw [Vdev.named, Vdev.named, show (give pool v).name = v.name from rfl]
      split
      next found =>
        rw [given, map_some, map_some, if_pos (found.symm.trans same)]
        rfl
      next => rfl
    next => cases changed
  | succ depth ih =>
    rw [Vdev.changeNamed] at changed
    split at changed
    next same =>
      cases changed
      rw [Vdev.named, Vdev.named, show (give pool v).name = v.name from rfl, show (give pool v).partitions =
        v.partitions from rfl]
      split
      next found =>
        rw [given, map_some, map_some, if_pos (found.symm.trans same)]
        rfl
      next apart =>
        simp only [given, if_neg (fun equal : other = name => apart (same.trans equal.symm))]
    next apart =>
      obtain ⟨partitions, inside, rfl⟩ := map_eq_some_iff.mp changed
      rw [Vdev.named, Vdev.named]
      split
      next found =>
        rw [given, map_some, map_some, if_neg (fun equal => apart (found.trans equal))]
      next => exact findSome_changed pool (fun v v' => ih) inside

theorem owner_given (disks : List Vdev) (name other : Bytes) :
    owner ((changeDiskbyName (give pool) disks name).getD disks) other = given pool name other (getDiskbyName disks other) := by
  have whole := changeFirst_isSome (changeNamed_isSome (give pool) name 2) disks
  rw [owner, changeDiskbyName, getDiskbyName, getDiskbyName]
  cases changed : changeFirst (Vdev.changeNamed (give pool) name 2) disks with
  | some _ => exact findSome_changed pool (fun v v' => named_changed pool other) changed
  | none =>
    rw [changed] at whole
    rw [getD_none]
    by_cases same : other = name
    · subst same
      cases found : disks.findSome? (Vdev.named other 2) with
      | none => rfl
      | some v =>
        rw [found] at whole
        cases whole
    · simp only [given, if_neg same]

theorem owner_own (names : List Bytes) (disks : List Vdev) (other : Bytes) :
    owner (own pool names disks) other = if other ∈ names then (owner disks other).map fun _ => pool else owner disks other := by
  induction names generalizing disks with
  | nil => rfl
  | cons name names ih =>
    have first : own pool (name :: names) disks = own pool names ((changeDiskbyName (give pool) disks name).getD disks) := rfl
    rw [first, ih, owner_given, given]
    by_cases same : other = name
    · simp [same, owner, Function.comp_def]
    · by_cases later : other ∈ names
      · simp [same, later, owner]
      · simp [same, later, owner]

end

section

structure PoolView where
  name : Bytes
  status : State
  vdevs : List VdevView
  deriving DecidableEq

def Zpool.view (pool : Zpool) : PoolView := ⟨pool.name, pool.status, pool.vdevs.map Vdev.view⟩

def ListedPool.readNames (pool : ListedPool) : List Bytes :=
  pool.top.flatMap topNames ++ pool.sections.flatMap fun part => Zmanager.readNames part.2

def ListedPool.deviceLines (pool : ListedPool) : List Bytes :=
  pool.top.flatMap (topLines pool.width) ++ pool.sections.flatMap (sectionLines pool.width)

theorem pool_begun (pool : ListedPool) (s : Topology) :
    ∃ b t, Reading b [] (mistaken pool.name) t ∧ b.disks = s.disks ∧ b.pools = s.finished ∧
      b.errors = s.errors ++ pool.zerrors ∧ b.pool.name = pool.name ∧ b.pool.status = pool.health.state ∧
      pool.lines.foldl poolLine s =
        ([] :: (pool.errors.elim [] ([errorsKey ++ ·]) ++ pool.behind)).foldl poolLine
          (pool.deviceLines.foldl poolLine t) := by
  obtain ⟨_, waiting⟩ := foldl_status pool (t := ({ (poolLine s (poolKey ++ pool.name)) with
    pool := { (poolLine s (poolKey ++ pool.name)).pool with status := poolState pool.health.text }, state := 2 } :
    Topology)) rfl
    (by rw [poolLine_begin s pool.legal])
  rw [poolLine_begin s pool.legal] at waiting
  refine ⟨_, _, poolLine_own waiting pool.legal rfl pool.width pool.health pool.notes, rfl, rfl, rfl, rfl,
    poolState_eq pool.known, ?_⟩
  simp only [ListedPool.lines, ListedPool.deviceLines, foldl_append, foldl_cons, foldl_nil]
  rw [poolLine_begin s pool.legal, poolLine_state rfl]

variable {views : List VdevView} {b s : Topology}

theorem pool_ended (pool : ListedPool) {names : List Bytes} (reading : Reading b names views s) :
    Ended b names views (([] :: (pool.errors.elim [] ([errorsKey ++ ·]) ++ pool.behind)).foldl poolLine s) := by
  have five : { s with state := 5 } = s := by rw [← reading.state]
  refine foldl_behind ⟨Or.inl reading.state, by rw [five]; exact reading⟩ fun line member => ?_
  rcases mem_cons.mp member with rfl | rest
  · exact ⟨rfl, rfl⟩
  · rcases mem_append.mp rest with errors | behind
    · cases text : pool.errors with
      | none =>
        rw [text] at errors
        cases errors
      | some _ =>
        rw [text] at errors
        rw [mem_singleton.mp errors]
        exact ⟨rfl, rfl⟩
    · exact pool.done line behind

theorem Ended.finished {names : List Bytes} (ended : Ended b names views s) :
    s.finished = b.pools ++ [s.pool] ∧ s.pool.view = ⟨b.pool.name, b.pool.status, views⟩ ∧ s.errors = b.errors ∧
      s.disks = own b.pool.name names b.disks := by
  have pools : s.pools = b.pools := ended.reading.pools
  have present : s.state ≠ 0 := by
    have states := ended.state
    omega
  refine ⟨by rw [Topology.finished, if_pos present, pools], ?_, ended.reading.errors, ended.reading.disks⟩
  rw [Zpool.view, ← ended.reading.name, ← ended.reading.status, ← ended.reading.views]

theorem pool_run (pool : ListedPool) (own : mistaken pool.name = []) (s : Topology) :
    (pool.lines.foldl poolLine s).finished.map Zpool.view = s.finished.map Zpool.view ++
        [⟨pool.name, pool.health.state, pool.top.filterMap (readTop pool.name) ++ pool.sections.map (readSpecial pool.name)⟩] ∧
      (pool.lines.foldl poolLine s).errors = s.errors ++ pool.zerrors ∧
      (pool.lines.foldl poolLine s).disks = Zmanager.own pool.name pool.readNames s.disks := by
  obtain ⟨_, _, reading, disks, pools, errors, name, status, lines⟩ := pool_begun pool s
  rw [own] at reading
  have plain : Plain ([] : List VdevView) := by
    intro last member
    cases member
  have devices := (reading.tops plain pool.width pool.top).specials pool.width pool.sections
  rw [← foldl_append, name, nil_append, nil_append] at devices
  obtain ⟨finished, view, ends, owned⟩ := (pool_ended pool devices).finished
  rw [lines]
  refine ⟨?_, by rw [ListedPool.deviceLines, ends, errors], by rw [ListedPool.deviceLines, owned, name, disks]; rfl⟩
  rw [ListedPool.deviceLines, finished, map_append, map_singleton, view, pools, name, status]

section
variable {b s : Topology}

def Headed (b s : Topology) : Prop :=
  ∃ names first views, Reading b names (first :: views) s ∧ first.status = .notApplicable

theorem addView_head (first : VdevView) (views : List VdevView) (level : Nat) (view : VdevView) :
    ∃ first' views', addView (first :: views) level view = first' :: views' ∧ first'.status = first.status := by
  rw [addView]
  split
  next _ =>
    rcases eq_nil_or_concat' views with rfl | ⟨_, _, rfl⟩
    · exact ⟨_, _, rfl, rfl⟩
    · rw [← cons_append, getLast?_concat, dropLast_concat]
      exact ⟨first, _, rfl, rfl⟩
  next _ => exact ⟨first, views ++ [view], rfl, rfl⟩

theorem Headed.device (headed : Headed b s) {name : Bytes} (word : Word name) (width : Nat) {depth : Nat}
    (two : depth = 0 ∨ depth = 2) (health : Health) (notes : Option Bytes) :
    Headed b (poolLine s (deviceLine width (depth + 2) name health notes)) := by
  obtain ⟨_, first, views, reading, status⟩ := headed
  have next := reading.device word width two health notes
  by_cases unknown : health.state = .unknown
  · rw [if_pos unknown, if_pos unknown] at next
    exact ⟨_, _, _, next, status⟩
  · obtain ⟨_, _, added, same⟩ :=
      addView_head first views (levelOf (first :: views) depth) ⟨name, groupType name, health.state, b.pool.name, []⟩
    rw [if_neg unknown, if_neg unknown, added] at next
    exact ⟨_, _, _, next, same.trans status⟩

theorem Headed.disks (headed : Headed b s) (width : Nat) {depth : Nat} (two : depth = 0 ∨ depth = 2)
    (disks : List ListedDisk) :
    Headed b ((disks.map (diskLine width (depth + 2))).foldl poolLine s) := by
  induction disks generalizing s with
  | nil => exact headed
  | cons disk disks ih => exact ih (headed.device disk.word width two disk.health disk.notes)

theorem Headed.tops (headed : Headed b s) (width : Nat) (tops : List Top) :
    Headed b ((tops.flatMap (topLines width)).foldl poolLine s) := by
  induction tops generalizing s with
  | nil => exact headed
  | cons top tops ih =>
    rw [flatMap_cons, foldl_append]
    cases top with
    | disk disk => exact ih (headed.disks width (Or.inl rfl) [disk])
    | group kind number health _ notes members =>
      exact ih ((headed.device (groupName_word kind number) width (Or.inl rfl) health notes).disks width (Or.inr rfl) members)

theorem Headed.specials (headed : Headed b s) (width : Nat) (sections : List (Special × List ListedDisk)) :
    Headed b ((sections.flatMap (sectionLines width)).foldl poolLine s) := by
  induction sections generalizing s with
  | nil => exact headed
  | cons part sections ih =>
    obtain ⟨_, _, _, reading, status⟩ := headed
    have titled : Headed b (poolLine s (tab ++ part.1.text)) := ⟨_, _, _, reading.title part.1, status⟩
    rw [flatMap_cons, foldl_append]
    exact ih (titled.disks width (Or.inl rfl) part.2)

theorem pool_mistaken (pool : ListedPool) {first : VdevView} {views : List VdevView}
    (own : mistaken pool.name = first :: views) (s : Topology) :
    ∃ read first views, (pool.lines.foldl poolLine s).finished.map Zpool.view = s.finished.map Zpool.view ++ [read] ∧
      (pool.lines.foldl poolLine s).errors = s.errors ++ pool.zerrors ∧ read.vdevs = first :: views ∧
      first.status = .notApplicable := by
  obtain ⟨b, t, reading, _, pools, errors, name, status, lines⟩ := pool_begun pool s
  have section_ : first.status = .notApplicable := by
    have members : ∀ view ∈ mistaken pool.name, view.status = .notApplicable := by
      intro view member
      rw [mistaken, mem_append] at member
      rcases member with log | cached
      · split at log
        · rw [mem_singleton.mp log]
          rfl
        · cases log
      · split at cached
        · rw [mem_singleton.mp cached]
          rfl
        · cases cached
    exact members first (by rw [own]; exact mem_cons_self)
  rw [own] at reading
  have headed : Headed b t := ⟨_, _, _, reading, section_⟩
  obtain ⟨_, first', views', devices, special⟩ := (headed.tops pool.width pool.top).specials pool.width pool.sections
  rw [← foldl_append] at devices
  obtain ⟨finished, view, ends, -⟩ := (pool_ended pool devices).finished
  refine ⟨⟨b.pool.name, b.pool.status, first' :: views'⟩, first', views', ?_, ?_, rfl, special⟩
  · rw [lines, ListedPool.deviceLines, finished, map_append, map_singleton, view, pools]
  · rw [lines, ListedPool.deviceLines, ends, errors]

end

def expectedTop (pool : Bytes) : Top → VdevView
  | .disk disk => ⟨disk.name, [], disk.health.state, pool, []⟩
  | .group kind number health _ _ members =>
    ⟨groupName kind number, kind.type, health.state, pool, members.map (·.member pool)⟩

def expectedSpecial (pool : Bytes) (part : Special × List ListedDisk) : VdevView :=
  sectionView pool part.1.text (part.2.map (·.member pool))

def ListedPool.expected (pool : ListedPool) : PoolView :=
  ⟨pool.name, pool.health.state, pool.top.map (expectedTop pool.name) ++ pool.sections.map (expectedSpecial pool.name)⟩

def Top.disks : Top → List ListedDisk
  | .disk single => [single]
  | .group _ _ _ _ _ members => members

def ListedPool.disks (pool : ListedPool) : List ListedDisk :=
  pool.top.flatMap Top.disks ++ pool.sections.flatMap (·.2)

/-- A pool that is read as it is listed: its name does not start like the title of a section, no disk is a spare in
use, and no top-level disk has a name that starts like that of a group. -/
structure Readable (pool : ListedPool) : Prop where
  name : startsWith pool.name logs = false ∧ startsWith pool.name cache = false
  known : ∀ disk ∈ pool.disks, disk.health ≠ .inuse
  plain : ∀ disk, Top.disk disk ∈ pool.top → startsWith disk.name mirror = false ∧ startsWith disk.name raidz = false

theorem mistaken_iff (name : Bytes) :
    mistaken name = [] ↔ startsWith name logs = false ∧ startsWith name cache = false := by
  rw [mistaken, append_eq_nil_iff]
  cases startsWith name logs <;> cases startsWith name cache <;> simp

theorem groupType_nil_iff (name : Bytes) :
    groupType name = [] ↔ startsWith name mirror = false ∧ startsWith name raidz = false := by
  have longer {tail : Bytes} (front : startsWith name (raidz ++ tail) = true) : startsWith name raidz = true :=
    startsWith_iff.mpr ((prefix_append raidz tail).trans (startsWith_iff.mp front))
  rw [groupType]
  split
  next three =>
    rw [longer three]
    simp [raidz3]
  split
  next two =>
    rw [longer two]
    simp [raidz2]
  split
  next one =>
    rw [one]
    simp [raidz, ascii]
  next none =>
    rw [Bool.not_eq_true] at none
    rw [none]
    cases startsWith name mirror <;> simp [mirror, ascii]

theorem filterMap_eq_map_iff {α β : Type} {f : α → Option β} {g : α → β} {l : List α} :
    l.filterMap f = l.map g ↔ ∀ a ∈ l, f a = some (g a) := by
  induction l with
  | nil => simp
  | cons a l ih =>
    rw [forall_mem_cons, ← ih]
    cases value : f a with
    | none =>
      rw [filterMap_cons_none value]
      constructor
      · intro same
        have lengths := congrArg length same
        have short := length_filterMap_le f l
        rw [length_map, length_cons] at lengths
        omega
      · rintro ⟨wrong, -⟩
        cases wrong
    | some _ =>
      rw [filterMap_cons_some value, map_cons, List.cons.injEq, Option.some.injEq]

theorem known_iff (disk : ListedDisk) : disk.known = true ↔ disk.health ≠ .inuse := by
  rw [ListedDisk.known]
  cases disk.health <;> decide

theorem readMembers_iff (pool : Bytes) (disks : List ListedDisk) :
    readMembers pool disks = disks.map (·.member pool) ↔ ∀ disk ∈ disks, disk.health ≠ .inuse := by
  constructor
  · intro same
    have lengths := congrArg length same
    rw [readMembers, length_map, length_map, length_filter_eq_length_iff] at lengths
    exact fun disk member => (known_iff disk).mp (lengths disk member)
  · intro known
    rw [readMembers, filter_eq_self.mpr fun disk member => (known_iff disk).mpr (known disk member)]

theorem readTop_iff (pool : Bytes) (top : Top) :
    readTop pool top = some (expectedTop pool top) ↔ (∀ disk ∈ top.disks, disk.health ≠ .inuse) ∧
      ∀ disk, top = .disk disk → startsWith disk.name mirror = false ∧ startsWith disk.name raidz = false := by
  cases top with
  | disk disk =>
    rw [readTop, expectedTop, Top.disks, forall_mem_singleton, ← known_iff]
    cases known : disk.known with
    | false => simp
    | true => simp [← groupType_nil_iff]
  | group _ _ health _ _ _ =>
    rw [readTop, expectedTop, Top.disks, Option.some.injEq, VdevView.mk.injEq, readMembers_iff]
    simp

theorem devices_read_iff (pool : ListedPool) :
    (pool.top.filterMap (readTop pool.name) ++ pool.sections.map (readSpecial pool.name) =
        pool.top.map (expectedTop pool.name) ++ pool.sections.map (expectedSpecial pool.name)) ↔
      (∀ disk ∈ pool.disks, disk.health ≠ .inuse) ∧
        ∀ disk, Top.disk disk ∈ pool.top → startsWith disk.name mirror = false ∧ startsWith disk.name raidz = false := by
  have sections : pool.sections.map (readSpecial pool.name) = pool.sections.map (expectedSpecial pool.name) ↔
      ∀ part ∈ pool.sections, ∀ disk ∈ part.2, disk.health ≠ .inuse := by
    rw [map_inj_left]
    refine forall₂_congr fun part _ => ?_
    rw [readSpecial, expectedSpecial, sectionView, sectionView, VdevView.mk.injEq, readMembers_iff]
    simp
  have split : (pool.top.filterMap (readTop pool.name) ++ pool.sections.map (readSpecial pool.name) =
      pool.top.map (expectedTop pool.name) ++ pool.sections.map (expectedSpecial pool.name)) ↔
      pool.top.filterMap (readTop pool.name) = pool.top.map (expectedTop pool.name) ∧
        pool.sections.map (readSpecial pool.name) = pool.sections.map (expectedSpecial pool.name) :=
    append_eq_append_iff_of_size_eq_right (by rw [length_map, length_map])
  rw [split, sections, filterMap_eq_map_iff, ListedPool.disks]
  simp only [readTop_iff, mem_append, mem_flatMap]
  constructor
  · rintro ⟨tops, parts⟩
    refine ⟨?_, fun disk member => (tops _ member).2 disk rfl⟩
    rintro disk (⟨top, member, inside⟩ | ⟨part, member, inside⟩)
    · exact (tops top member).1 disk inside
    · exact parts part member disk inside
  · rintro ⟨known, plain⟩
    refine ⟨fun top member => ⟨fun disk inside => known disk (Or.inl ⟨top, member, inside⟩), ?_⟩,
      fun part member disk inside => known disk (Or.inr ⟨part, member, inside⟩)⟩
    rintro disk rfl
    exact plain disk member

theorem state_listed (health : Health) : health.state ≠ .notApplicable := by
  cases health <;> decide

theorem pool_read (pool : ListedPool) (s : Topology) :
    ∃ read, (pool.lines.foldl poolLine s).finished.map Zpool.view = s.finished.map Zpool.view ++ [read] ∧
      (pool.lines.foldl poolLine s).errors = s.errors ++ pool.zerrors ∧ (read = pool.expected ↔ Readable pool) := by
  cases own : mistaken pool.name with
  | nil =>
    obtain ⟨finished, errors, -⟩ := pool_run pool own s
    refine ⟨_, finished, errors, ?_⟩
    rw [ListedPool.expected, PoolView.mk.injEq]
    have name := (mistaken_iff pool.name).mp own
    constructor
    · rintro ⟨-, -, devices⟩
      obtain ⟨known, plain⟩ := (devices_read_iff pool).mp devices
      exact ⟨name, known, plain⟩
    · exact fun readable => ⟨rfl, rfl, (devices_read_iff pool).mpr ⟨readable.known, readable.plain⟩⟩
  | cons _ _ =>
    obtain ⟨read, first', _, finished, errors, devices, special⟩ := pool_mistaken pool own s
    refine ⟨read, finished, errors, ?_, fun readable => ?_⟩
    · rintro rfl
      cases top : pool.top with
      | nil => exact absurd top pool.present
      | cons head _ =>
        have same : expectedTop pool.name head = first' := by
          rw [ListedPool.expected, top] at devices
          exact (List.cons.inj devices).1
        rw [← same] at special
        cases head with
        | disk disk => exact absurd special (state_listed disk.health)
        | group _ _ health => exact absurd special (state_listed health)
    · rw [(mistaken_iff pool.name).mpr readable.name] at own
      cases own

theorem listing_read (pools : List ListedPool) (s : Topology) :
    ∃ read, ((pools.flatMap ListedPool.lines).foldl poolLine s).finished.map Zpool.view = s.finished.map Zpool.view ++ read ∧
      ((pools.flatMap ListedPool.lines).foldl poolLine s).errors = s.errors ++ pools.flatMap ListedPool.zerrors ∧
      (read = pools.map ListedPool.expected ↔ ∀ pool ∈ pools, Readable pool) := by
  induction pools generalizing s with
  | nil => exact ⟨[], by simp, by simp, by simp⟩
  | cons pool pools ih =>
    obtain ⟨first, finished, errors, right⟩ := pool_read pool s
    obtain ⟨rest, finished', errors', right'⟩ := ih (pool.lines.foldl poolLine s)
    refine ⟨first :: rest, ?_, ?_, ?_⟩
    · rw [flatMap_cons, foldl_append, finished', finished, append_assoc]
      rfl
    · rw [flatMap_cons, foldl_append, errors', errors, flatMap_cons, append_assoc]
    · rw [map_cons, List.cons.injEq, right, right', forall_mem_cons]

theorem listing_disks {pools : List ListedPool} (readable : ∀ pool ∈ pools, Readable pool) (s : Topology) :
    ((pools.flatMap ListedPool.lines).foldl poolLine s).disks =
      pools.foldl (fun disks pool => own pool.name pool.readNames disks) s.disks := by
  induction pools generalizing s with
  | nil => rfl
  | cons pool pools ih =>
    have name := (mistaken_iff pool.name).mpr (readable pool mem_cons_self).name
    rw [flatMap_cons, foldl_append, ih (fun other member => readable other (mem_cons_of_mem pool member)),
      (pool_run pool name s).2.2]
    rfl

theorem owner_later (pools : List ListedPool) (disks : List Vdev) {name : Bytes}
    (free : ∀ pool ∈ pools, name ∉ pool.readNames) :
    owner (pools.foldl (fun disks pool => own pool.name pool.readNames disks) disks) name = owner disks name := by
  induction pools generalizing disks with
  | nil => rfl
  | cons pool pools ih =>
    rw [foldl_cons, ih _ (fun other member => free other (mem_cons_of_mem pool member)), owner_own,
      if_neg (free pool mem_cons_self)]

theorem owner_kept {α : Type} (value : α) (pools : List ListedPool) (disks : List Vdev) (name : Bytes) :
    (owner (pools.foldl (fun disks pool => own pool.name pool.readNames disks) disks) name).map (fun _ => value) =
      (owner disks name).map fun _ => value := by
  induction pools generalizing disks with
  | nil => rfl
  | cons pool pools ih =>
    rw [foldl_cons, ih, owner_own]
    split
    · rw [Option.map_map]
      rfl
    · rfl

theorem names_read {pool : ListedPool} (readable : Readable pool) {disk : ListedDisk} (member : disk ∈ pool.disks) :
    disk.name ∈ pool.readNames := by
  have known := (known_iff disk).mpr (readable.known disk member)
  have read {disks : List ListedDisk} (inside : disk ∈ disks) : disk.name ∈ Zmanager.readNames disks :=
    mem_map_of_mem (mem_filter.mpr ⟨inside, known⟩)
  rw [ListedPool.readNames, mem_append]
  rcases mem_append.mp member with top | part
  · obtain ⟨top, top_member, inside⟩ := mem_flatMap.mp top
    refine Or.inl (mem_flatMap.mpr ⟨top, top_member, ?_⟩)
    cases top with
    | disk _ => exact read inside
    | group => exact mem_cons_of_mem _ (read inside)
  · obtain ⟨part, part_member, inside⟩ := mem_flatMap.mp part
    exact Or.inr (mem_flatMap.mpr ⟨part, part_member, read inside⟩)

def ListedPool.names (pool : ListedPool) : List Bytes :=
  pool.top.flatMap (fun top => match top with
    | .disk disk => [disk.name]
    | .group kind number _ _ _ members => groupName kind number :: members.map ListedDisk.name) ++
  pool.sections.flatMap fun part => part.2.map ListedDisk.name

theorem readNames_subset (pool : ListedPool) {name : Bytes} (read : name ∈ pool.readNames) : name ∈ pool.names := by
  have filtered {disks : List ListedDisk} (inside : name ∈ Zmanager.readNames disks) :
    name ∈ disks.map ListedDisk.name := by
    obtain ⟨disk, member, rfl⟩ := List.mem_map.mp inside
    exact mem_map_of_mem (mem_of_mem_filter member)
  rw [ListedPool.names, mem_append]
  rcases mem_append.mp read with top | part
  · obtain ⟨top, member, inside⟩ := mem_flatMap.mp top
    refine Or.inl (mem_flatMap.mpr ⟨top, member, ?_⟩)
    cases top with
    | disk disk => exact filtered inside
    | group =>
      rcases mem_cons.mp inside with rfl | members
      · exact mem_cons_self
      · exact mem_cons_of_mem _ (filtered members)
  · obtain ⟨part, member, inside⟩ := mem_flatMap.mp part
    exact Or.inr (mem_flatMap.mpr ⟨part, member, filtered inside⟩)

/-- The listing is read as it is: the pools in order, each with its name, its state and its devices, the error texts,
and every disk that is among Disks with the pool that lists it last. -/
structure Faithful (disks : List Vdev) (listed : List ListedPool) : Prop where
  pools : (readPools disks (listed.flatMap ListedPool.lines)).pools.map Zpool.view = listed.map ListedPool.expected
  errors : (readPools disks (listed.flatMap ListedPool.lines)).errors = listed.flatMap ListedPool.zerrors
  owned : ∀ before pool later, listed = before ++ pool :: later →
    ∀ disk ∈ pool.disks, (∀ other ∈ later, disk.name ∉ other.names) →
    owner (readPools disks (listed.flatMap ListedPool.lines)).disks disk.name = (owner disks disk.name).map fun _ =>
      pool.name

theorem readPools_fields (disks : List Vdev) (lines : List Bytes) :
    (readPools disks lines).pools = (lines.foldl poolLine ⟨disks, [], [], {}, {}, 0⟩).finished ∧
      (readPools disks lines).errors = (lines.foldl poolLine ⟨disks, [], [], {}, {}, 0⟩).errors ∧
      (readPools disks lines).disks = (lines.foldl poolLine ⟨disks, [], [], {}, {}, 0⟩).disks := by
  rw [readPools, Topology.finished]
  split <;> exact ⟨rfl, rfl, rfl⟩

/-- `zpool status` is read faithfully exactly when every pool is readable. -/
theorem status_faithful_iff (disks : List Vdev) (pools : List ListedPool) :
    Faithful disks pools ↔ ∀ pool ∈ pools, Readable pool := by
  obtain ⟨read, finished, errors, right⟩ := listing_read pools ⟨disks, [], [], {}, {}, 0⟩
  obtain ⟨pools_eq, errors_eq, disks_eq⟩ := readPools_fields disks (pools.flatMap ListedPool.lines)
  have first : (readPools disks (pools.flatMap ListedPool.lines)).pools.map Zpool.view = read := by
    rw [pools_eq, finished]
    rfl
  constructor
  · intro faithful
    exact right.mp (first.symm.trans faithful.pools)
  · intro readable
    refine ⟨first.trans (right.mpr readable), by rw [errors_eq, errors]; rfl, ?_⟩
    rintro before pool later rfl disk member free
    have names := names_read (readable pool (mem_append_right before mem_cons_self)) member
    rw [disks_eq, listing_disks readable, foldl_append, foldl_cons,
      owner_later later _ (fun other inside read => free other inside (readNames_subset other read)), owner_own, if_pos names]
    exact owner_kept pool.name before disks disk.name

theorem legal_logs1 : LegalName (logs ++ [0x31]) := ⟨⟨0x6c, _, rfl, by decide⟩, by decide⟩

theorem word_ada0 : Word (ascii ['a', 'd', 'a', '0']) := ⟨by decide, by decide +kernel⟩

theorem online_ofPool : Health.online.ofPool := ⟨by decide, by decide⟩

def logsPool : ListedPool where
  name := logs ++ [0x31]
  legal := legal_logs1
  health := .online
  known := online_ofPool
  status := none
  between := []
  plain := fun _ none => nomatch none
  ended := fun _ _ none => nomatch none
  width := 8
  header := []
  notes := none
  top := [.disk ⟨ascii ['a', 'd', 'a', '0'], word_ada0, .online, none⟩]
  present := cons_ne_nil _ _
  sections := []
  errors := none
  behind := []
  done := fun _ none => nomatch none

/-- Its own line is taken for the title of the log devices. -/
theorem logsPool_misread : ¬Faithful [] [logsPool] := by
  intro faithful
  have pools := faithful.pools
  revert pools
  decide +kernel

end

end Pcbsd.Zmanager
