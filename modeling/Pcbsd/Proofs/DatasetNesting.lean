import Pcbsd.Zmanager.DatasetTree

/-! Which lists of datasets are shown as a complete and correctly nested tree: where the first pass puts a dataset,
what the second pass does with a clone, and what may go wrong in between. -/

namespace Pcbsd.Zmanager.DatasetTree
open Lib Text List Option

variable {names names' : List Bytes} {path n pool : Bytes} {fsList fsList' : FsList} {fs : Zfs}

theorem longestStart_of_some (found : longestStart names path = some n) :
    n ∈ names ∧ n <+: path ∧ ∀ m ∈ names, m <+: path → m.length ≤ n.length := by
  obtain ⟨⟨len, text⟩, best, rfl⟩ := map_eq_some_iff.mp found
  have greatest := bestOf_eq_some_iff.mp best
  have member {m : Bytes} (listed : m ∈ names) (start : m <+: path) :
      ((m.length : Int), m) ∈ (names.filter fun text => startsWith path text).map fun text => ((text.length : Int), text) :=
    List.mem_map.mpr ⟨m, mem_filter.mpr ⟨listed, startsWith_iff.mpr start⟩, rfl⟩
  have inside : (len, text) ∈ (names.filter fun text => startsWith path text).map fun text => ((text.length : Int), text) := by
    obtain ⟨_, _, split, -, -⟩ := greatest.place
    rw [split]
    exact mem_append_right _ mem_cons_self
  obtain ⟨m, listed, same⟩ := List.mem_map.mp inside
  cases same
  obtain ⟨listed, start⟩ := mem_filter.mp listed
  refine ⟨listed, startsWith_iff.mp start, fun m other starts => ?_⟩
  have shorter := greatest.le (member other starts) rfl
  exact Int.ofNat_le.mp shorter

theorem longestStart_eq_none_iff : longestStart names path = none ↔ ∀ m ∈ names, ¬ m <+: path := by
  rw [longestStart, map_eq_none_iff, bestOf_eq_none_iff]
  constructor
  · intro small m listed start
    have low := small _ (List.mem_map.mpr ⟨m, mem_filter.mpr ⟨listed, startsWith_iff.mpr start⟩, rfl⟩) rfl
    omega
  · intro apart item member _
    obtain ⟨m, listed, rfl⟩ := List.mem_map.mp member
    obtain ⟨listed, start⟩ := mem_filter.mp listed
    exact absurd (startsWith_iff.mp start) (apart m listed)

theorem longestStart_eq_some_iff :
    longestStart names path = some n ↔ n ∈ names ∧ n <+: path ∧ ∀ m ∈ names, m <+: path → m.length ≤ n.length := by
  refine ⟨longestStart_of_some, ?_⟩
  rintro ⟨listed, start, longest⟩
  cases found : longestStart names path with
  | none => exact absurd start (longestStart_eq_none_iff.mp found n listed)
  | some other =>
    obtain ⟨member, starts, greatest⟩ := longestStart_of_some found
    have length := le_antisymm (longest other member starts) (greatest n listed start)
    rw [(prefix_of_prefix_length_le starts start length.le).eq_of_length length]

theorem longestStart_congr (same : ∀ m, m ∈ names ↔ m ∈ names') (path : Bytes) :
    longestStart names path = longestStart names' path := by
  apply ext
  intro n
  simp only [longestStart_eq_some_iff, same]

theorem longestStart_self (listed : path ∈ names) : longestStart names path = some path :=
  longestStart_eq_some_iff.mpr ⟨listed, prefix_refl path, fun _ _ start => start.length_le⟩

/-- A path that goes on behind another with a slash, or with the @ of a snapshot. -/
def Below (upper path : Bytes) : Prop := ∃ sep ∈ ascii ['/', '@'], upper ++ [sep] <+: path

instance (upper path : Bytes) : Decidable (Below upper path) := decidableBEx _ _

def InPool (pool path : Bytes) : Prop := path = pool ∨ Below pool path

instance (pool path : Bytes) : Decidable (InPool pool path) := instDecidableOr

theorem Below.start {upper path : Bytes} (below : Below upper path) : upper <+: path := by
  obtain ⟨sep, -, start⟩ := below
  exact (prefix_append upper [sep]).trans start

theorem InPool.start (inside : InPool pool path) : startsWith path pool = true := by
  apply startsWith_iff.mpr
  rcases inside with rfl | below
  · exact prefix_refl _
  · exact below.start

def Nearest (paths : List Bytes) (path upper : Bytes) : Prop :=
  upper ∈ paths ∧ Below upper path ∧ ∀ other ∈ paths, Below other path → other.length ≤ upper.length

instance (listed : List Bytes) (path upper : Bytes) : Decidable (Nearest listed path upper) := instDecidableAnd

def paths (fileSystems : List Zfs) : List Bytes := fileSystems.map Zfs.fullPath

def parents (fsList : FsList) : List (Option Bytes × Bytes) :=
  (fsList.links FsItem.text none).map fun link => (link.1, link.2.text)

structure RightTree (pool : Bytes) (fileSystems : List Zfs) (fsList : FsList) : Prop where
  once : (fsList.keys FsItem.text).Nodup
  complete : ∀ path, path ∈ fsList.keys FsItem.text ↔ path ∈ paths fileSystems ∧ InPool pool path
  nested : ∀ fs ∈ fileSystems, InPool pool fs.fullPath → originOf fs = none →
    ∀ upper, Nearest (paths fileSystems) fs.fullPath upper → (some upper, fs.fullPath) ∈ parents fsList
  clones : ∀ fs ∈ fileSystems, InPool pool fs.fullPath →
    ∀ origin, originOf fs = some origin → origin ∈ paths fileSystems → (some origin, fs.fullPath) ∈ parents fsList

def Right (pool : Bytes) (fileSystems : List Zfs) : Prop :=
  ∃ fsList, currentItemChanged fileSystems (some pool) = some fsList ∧ RightTree pool fileSystems fsList

abbrev Link : Type := Option Bytes × Zfs

def shown (pool : Bytes) (fileSystems : List Zfs) : List Zfs := fileSystems.filter fun fs => startsWith fs.fullPath pool

/-- The datasets with the longest start of their paths, or of their origins, among the paths before them. -/
def placed (names : List Bytes) : List Zfs → List Link
  | [] => []
  | fs :: rest => (longestStart names ((originOf fs).getD fs.fullPath), fs) :: placed (names ++ [fs.fullPath]) rest

def target (names : List Bytes) (fs : Zfs) : Option Bytes := (originOf fs).bind (longestStart names)

def settle (names : List Bytes) (link : Link) : Link := ((target names link.2).or link.1, link.2)

/-- A clone that moves is not on the highest level, and what it moves to is not below it. -/
def Movable (names : List Bytes) (front : List Link) (link : Link) (back : List Link) : Prop :=
  ∀ parent, target names link.2 = some parent →
    link.1 ≠ none ∧ ¬ ItemTree.Hangs Zfs.fullPath (front ++ link :: back) link.2.fullPath parent

def OwnPaths (pool : Bytes) (fileSystems : List Zfs) : Prop :=
  ∀ path ∈ paths fileSystems, startsWith path pool = true → InPool pool path

def FreeMoves (pool : Bytes) (fileSystems : List Zfs) : Prop :=
  ∀ front link back, placed [] (shown pool fileSystems) = front ++ link :: back →
    Movable (paths (shown pool fileSystems)) (front.map (settle (paths (shown pool fileSystems)))) link back

/-- Each dataset that is no clone is listed behind its nearest ancestor, and no longer path before it is a start of
its own. -/
def NearestLongest (pool : Bytes) (fileSystems : List Zfs) : Prop :=
  ∀ front fs back, shown pool fileSystems = front ++ fs :: back → originOf fs = none →
    ∀ upper, Nearest (paths fileSystems) fs.fullPath upper →
      upper ∈ paths front ∧ ∀ other ∈ paths front, other <+: fs.fullPath → other.length ≤ upper.length

structure Straight (pool : Bytes) (fileSystems : List Zfs) : Prop where
  own : OwnPaths pool fileSystems
  origins : ∀ fs ∈ fileSystems, InPool pool fs.fullPath →
    ∀ origin, originOf fs = some origin → origin ∈ paths fileSystems → InPool pool origin
  nearest : NearestLongest pool fileSystems
  free : FreeMoves pool fileSystems

variable {links front back : List Link} {link : Link}

def Shows (pool : Bytes) (fsList : FsList) (links : List Link) : Prop :=
  (fsList.links FsItem.text none).Perm (links.map fun link => (link.1, fsItem pool link.2))

def linked (links : List Link) : List Bytes := links.map fun link => link.2.fullPath

theorem Shows.keys (shows_ : Shows pool fsList links) : (fsList.keys FsItem.text).Perm (linked links) := by
  rw [← ItemTree.links_keys none fsList]
  have mapped := shows_.map fun link => link.2.text
  rwa [List.map_map] at mapped

theorem Shows.found (shows_ : Shows pool fsList links) (same : ∀ m, m ∈ linked links ↔ m ∈ names) (path : Bytes) :
    getParentFileSystem fsList path = longestStart names path :=
  longestStart_congr (fun m => shows_.keys.mem_iff.trans (same m)) path

theorem Shows.hangs_iff (shows_ : Shows pool fsList links) (c x : Bytes) :
    ItemTree.Hangs FsItem.text (fsList.links FsItem.text none) c x ↔ ItemTree.Hangs Zfs.fullPath links c x := by
  have relation : (fun y x => ∃ a, FsItem.text a = x ∧ (some y, a) ∈ fsList.links FsItem.text none) =
      fun y x => ∃ fs, Zfs.fullPath fs = x ∧ (some y, fs) ∈ links := by
    funext y x
    apply propext
    constructor
    · rintro ⟨a, rfl, member⟩
      obtain ⟨⟨_, fs⟩, listed, same⟩ := List.mem_map.mp (shows_.mem_iff.mp member)
      cases same
      exact ⟨fs, rfl, listed⟩
    · rintro ⟨fs, rfl, listed⟩
      exact ⟨fsItem pool fs, rfl, shows_.mem_iff.mpr (List.mem_map.mpr ⟨(some y, fs), listed, rfl⟩)⟩
  rw [ItemTree.Hangs, ItemTree.Hangs, relation]

theorem addItem_shows (start : startsWith fs.fullPath pool = true) (shows_ : Shows pool fsList links) :
    Shows pool (addItem pool fsList fs) (links ++ [(longestStart (linked links) ((originOf fs).getD fs.fullPath), fs)]) := by
  rw [addItem, if_pos start, shows_.found fun _ => Iff.rfl]
  cases found : longestStart (linked links) ((originOf fs).getD fs.fullPath) with
  | none =>
    rw [bind_none, getD_none, Shows, ItemTree.links_append, map_append]
    exact shows_.append_right _
  | some parent =>
    have listed := shows_.keys.mem_iff.mpr (longestStart_of_some found).1
    cases more : addChild parent (.cons (fsItem pool fs) .nil .nil) fsList with
    | none => exact absurd listed ((ItemTree.addBelow_eq_none_iff _ _ _).mp more)
    | some _ =>
      rw [bind_some, more, getD_some, Shows, map_append]
      exact (ItemTree.addBelow_links more none).trans (shows_.append_right _)

theorem shown_start (start : startsWith fs.fullPath pool = true) (rest : List Zfs) :
    shown pool (fs :: rest) = fs :: shown pool rest := by
  rw [shown, shown, filter_cons, if_pos start]

theorem shown_other (other : ¬ startsWith fs.fullPath pool = true) (rest : List Zfs) :
    shown pool (fs :: rest) = shown pool rest := by
  rw [shown, shown, filter_cons, if_neg other]

theorem addItems_shows (links : List Link) (rest : List Zfs) (shows_ : Shows pool fsList links) :
    Shows pool (rest.foldl (addItem pool) fsList) (links ++ placed (linked links) (shown pool rest)) := by
  induction rest generalizing fsList links with
  | nil => rwa [shown, filter_nil, placed, append_nil]
  | cons fs rest ih =>
    rw [foldl_cons]
    by_cases start : startsWith fs.fullPath pool = true
    · have more := ih _ (addItem_shows start shows_)
      rw [append_assoc] at more
      rw [shown_start start, placed]
      have longer : linked (links ++ [(longestStart (linked links) ((originOf fs).getD fs.fullPath), fs)]) =
        linked links ++ [fs.fullPath] :=
        map_append
      rwa [longer] at more
    · rw [addItem, if_neg start, shown_other start]
      exact ih links shows_

theorem linked_settle (links : List Link) : linked (links.map (settle names)) = linked links := by
  rw [linked, List.map_map]
  rfl

theorem linked_settled (names : List Bytes) (front : List Link) (link : Link) (back : List Link) :
    linked (front ++ [settle names link] ++ back) = linked (front ++ link :: back) := by
  rw [← append_cons, linked, linked, map_append, map_append]
  rfl

theorem reattach_keys {parent : Bytes} (moved : reattach fsList fs parent = some fsList') {x : Bytes}
    (member : x ∈ fsList'.keys FsItem.text) :
    x ∈ fsList.keys FsItem.text := by
  obtain ⟨_, -, moved⟩ := bind_eq_some_iff.mp moved
  obtain ⟨_, -, moved⟩ := bind_eq_some_iff.mp moved
  obtain ⟨⟨⟨a, below⟩, rest⟩, taken, rfl⟩ := map_eq_some_iff.mp moved
  obtain ⟨-, _, split⟩ := ItemTree.take_links taken none
  have keys := split.map fun link => link.2.text
  rw [map_cons, map_append, ItemTree.links_keys, ItemTree.links_keys, ItemTree.links_keys] at keys
  apply keys.mem_iff.mpr
  cases more : addChild parent (.cons a below .nil) rest with
  | none =>
    rw [more] at member
    exact mem_cons_of_mem _ (mem_append_right _ member)
  | some fsList' =>
    rw [more, getD_some] at member
    have links := (ItemTree.addBelow_links more none).map fun link => link.2.text
    rw [map_append, ItemTree.links_keys, ItemTree.links_keys, ItemTree.links_keys, ItemTree.keys_cons] at links
    rcases mem_append.mp (links.mem_iff.mp member) with other | whole
    · exact mem_cons_of_mem _ (mem_append_right _ other)
    · rcases mem_cons.mp whole with rfl | lower
      · exact mem_cons_self
      · rw [ItemTree.keys_nil, append_nil] at lower
        exact mem_cons_of_mem _ (mem_append_left _ lower)

theorem moveItem_keys (moved : moveItem pool fsList fs = some fsList') {x : Bytes}
    (member : x ∈ fsList'.keys FsItem.text) :
    x ∈ fsList.keys FsItem.text := by
  rw [moveItem] at moved
  split at moved
  · cases found : (originOf fs).bind (getParentFileSystem fsList) with
    | none =>
      rw [found] at moved
      cases moved
      exact member
    | some _ =>
      rw [found] at moved
      exact reattach_keys moved member
  · cases moved
    exact member

theorem moveItems_keys {rest : List Zfs} (moved : rest.foldlM (moveItem pool) fsList = some fsList') {x : Bytes}
    (member : x ∈ fsList'.keys FsItem.text) : x ∈ fsList.keys FsItem.text := by
  induction rest generalizing fsList with
  | nil =>
    cases moved
    exact member
  | cons _ rest ih =>
    obtain ⟨_, first, later⟩ := bind_eq_some_iff.mp moved
    exact moveItem_keys first (ih later)

theorem moveItem_eq (start : startsWith fs.fullPath pool = true) (shows_ : Shows pool fsList links)
    (same : ∀ m, m ∈ linked links ↔ m ∈ names) :
    moveItem pool fsList fs = (target names fs).elim (some fsList) (reattach fsList fs) := by
  rw [moveItem, if_pos start, target]
  congr 1
  exact congrArg _ (funext (shows_.found same))

theorem taken (distinct : (linked (front ++ link :: back)).Nodup) (shows_ : Shows pool fsList (front ++ link :: back)) :
    ∃ below rest, takeChild link.2.fullPath fsList = some ((fsItem pool link.2, below), rest) ∧
      (below.links FsItem.text (some link.2.fullPath) ++ rest.links FsItem.text none).Perm
        ((front ++ back).map fun link => (link.1, fsItem pool link.2)) ∧
      (linked (front ++ link :: back)).Perm (link.2.fullPath :: (below.keys FsItem.text ++ rest.keys FsItem.text)) ∧
      ∀ x, x = link.2.fullPath ∨ x ∈ below.keys FsItem.text ↔
      ItemTree.Hangs Zfs.fullPath (front ++ link :: back) link.2.fullPath x := by
  have listed : link.2.fullPath ∈ fsList.keys FsItem.text := by
    apply shows_.keys.mem_iff.mpr
    rw [linked, map_append]
    exact mem_append_right _ mem_cons_self
  have once : (fsList.keys FsItem.text).Nodup := shows_.keys.nodup_iff.mpr distinct
  cases found : takeChild link.2.fullPath fsList with
  | none => exact absurd listed ((ItemTree.take_eq_none_iff _ _).mp found)
  | some t =>
    obtain ⟨⟨_, below⟩, rest⟩ := t
    obtain ⟨named, _, split⟩ := ItemTree.take_links found none
    have whole : (link.1, fsItem pool link.2) ∈ fsList.links FsItem.text none := by
      apply shows_.mem_iff.mpr
      rw [map_append]
      exact mem_append_right _ mem_cons_self
    rw [← ItemTree.links_keys none fsList] at once
    have here := inj_on_of_nodup_map once (split.mem_iff.mpr mem_cons_self) whole named
    cases here
    have middle : ((front ++ link :: back).map fun link => (link.1, fsItem pool link.2)).Perm
        ((link.1, fsItem pool link.2) :: (front ++ back).map fun link => (link.1, fsItem pool link.2)) :=
          perm_middle.map _
    refine ⟨below, rest, rfl, (split.symm.trans (shows_.trans middle)).cons_inv, ?_, fun x => ?_⟩
    · have keys := split.map fun link => link.2.text
      rw [map_cons, map_append, ItemTree.links_keys, ItemTree.links_keys, ItemTree.links_keys] at keys
      exact shows_.keys.symm.trans keys
    · rw [ItemTree.links_keys] at once
      exact (ItemTree.take_hangs once found).trans (shows_.hangs_iff _ _)

theorem reattach_eq (distinct : (linked (front ++ link :: back)).Nodup)
    (shows_ : Shows pool fsList (front ++ link :: back)) (parent : Bytes) :
    reattach fsList link.2 parent =
      link.1.bind fun _ => (takeChild link.2.fullPath fsList).map fun taken =>
        (addChild parent (.cons taken.1.1 taken.1.2 .nil) taken.2).getD taken.2 := by
  have member : (link.1, fsItem pool link.2) ∈ fsList.links FsItem.text none := by
    apply shows_.mem_iff.mpr
    rw [map_append]
    exact mem_append_right _ mem_cons_self
  have listed : link.2.fullPath ∈ linked (front ++ link :: back) := by
    rw [linked, map_append]
    exact mem_append_right _ mem_cons_self
  have above := ItemTree.above_eq (shows_.keys.nodup_iff.mpr distinct) member
  rw [reattach, shows_.found fun _ => Iff.rfl, longestStart_self listed, bind_some]
  rw [show FsItem.text (fsItem pool link.2) = link.2.fullPath from rfl] at above
  rw [above]

theorem move_free (start : startsWith link.2.fullPath pool = true) (distinct : (linked (front ++ link :: back)).Nodup)
    (shows_ : Shows pool fsList (front ++ link :: back)) (same : ∀ m, m ∈ linked (front ++ link :: back) ↔ m ∈ names)
    (movable : Movable names front link back) :
    ∃ fsList', moveItem pool fsList link.2 = some fsList' ∧ Shows pool fsList' (front ++ settle names link :: back) := by
  rw [moveItem_eq start shows_ same, settle]
  cases found : target names link.2 with
  | none => exact ⟨fsList, rfl, shows_⟩
  | some parent =>
    obtain ⟨nested, apart⟩ := movable parent found
    obtain ⟨_, first⟩ := ne_none_iff_exists'.mp nested
    obtain ⟨below, rest, out, split, keys, under⟩ := taken distinct shows_
    obtain ⟨_, -, longest⟩ := bind_eq_some_iff.mp found
    have listed := shows_.keys.mem_iff.mpr ((same parent).mpr (longestStart_of_some longest).1)
    rw [elim_some, reattach_eq distinct shows_, first, bind_some, out, map_some]
    refine ⟨_, rfl, ?_⟩
    cases more : addChild parent (.cons (fsItem pool link.2) below .nil) rest with
    | none =>
      -- The parent is in the tree, and not below what was taken out.
      have missing := (ItemTree.addBelow_eq_none_iff _ _ _).mp more
      rcases mem_cons.mp (keys.mem_iff.mp (shows_.keys.mem_iff.mp listed)) with here | inside
      · exact absurd ((under parent).mp (Or.inl here)) apart
      · rcases mem_append.mp inside with lower | other
        · exact absurd ((under parent).mp (Or.inr lower)) apart
        · exact absurd other missing
    | some fsList' =>
      have links := ItemTree.addBelow_links more none
      rw [ItemTree.links, ItemTree.links, append_nil] at links
      rw [getD_some, Shows, some_or]
      have middle : ((front ++ (some parent, link.2) :: back).map fun link => (link.1, fsItem pool link.2)).Perm
          ((some parent, fsItem pool link.2) :: (front ++ back).map fun link => (link.1, fsItem pool link.2)) := perm_middle.map _
      refine (links.trans ?_).trans middle.symm
      exact perm_middle.trans ((perm_append_comm.trans split).cons _)

theorem move_stuck (start : startsWith link.2.fullPath pool = true) (distinct : (linked (front ++ link :: back)).Nodup)
    (shows_ : Shows pool fsList (front ++ link :: back)) (same : ∀ m, m ∈ linked (front ++ link :: back) ↔ m ∈ names)
    (stuck : ¬ Movable names front link back) {fsList' : FsList} (moved : moveItem pool fsList link.2 = some fsList') :
    link.2.fullPath ∉ fsList'.keys FsItem.text := by
  obtain ⟨parent, failing⟩ := not_forall.mp stuck
  obtain ⟨found, failing⟩ := Classical.not_imp.mp failing
  rw [moveItem_eq start shows_ same, found, elim_some, reattach_eq distinct shows_] at moved
  obtain ⟨_, first, moved⟩ := bind_eq_some_iff.mp moved
  have hangs := not_not.mp fun apart => failing ⟨fun top => some_ne_none _ (first.symm.trans top), apart⟩
  obtain ⟨below, rest, out, -, keys, under⟩ := taken distinct shows_
  have apart := keys.nodup_iff.mp distinct
  rw [nodup_cons, nodup_append] at apart
  have missing : parent ∉ rest.keys FsItem.text := by
    intro member
    rcases (under parent).mpr hangs with rfl | lower
    · exact apart.1 (mem_append_right _ member)
    · exact apart.2.2.2 _ lower _ member rfl
  have lost : addChild parent (.cons (fsItem pool link.2) below .nil) rest = none :=
    (ItemTree.addBelow_eq_none_iff _ _ _).mpr missing
  rw [out, map_some, some_inj, lost, getD_none] at moved
  subst moved
  exact fun member => apart.1 (mem_append_right _ member)

theorem moves_free {rest : List Zfs} (front : List Link) (each : back.map Prod.snd = shown pool rest)
    (distinct : (linked (front ++ back)).Nodup)
    (shows_ : Shows pool fsList (front ++ back)) (same : ∀ m, m ∈ linked (front ++ back) ↔ m ∈ names)
    (free : ∀ mid link tail, back = mid ++ link :: tail → Movable names (front ++ mid.map (settle names)) link tail) :
    ∃ fsList', rest.foldlM (moveItem pool) fsList = some fsList' ∧ Shows pool fsList' (front ++ back.map (settle names)) := by
  induction rest generalizing front back fsList with
  | nil =>
    rw [shown, filter_nil, map_eq_nil_iff] at each
    subst each
    exact ⟨fsList, rfl, shows_⟩
  | cons fs rest ih =>
    by_cases start : startsWith fs.fullPath pool = true
    · rw [shown_start start] at each
      obtain ⟨link, tail, rfl, rfl, later⟩ := map_eq_cons_iff.mp each
      have movable := free [] link tail rfl
      rw [map_nil, append_nil] at movable
      obtain ⟨_, moved, shows'⟩ := move_free start distinct shows_ same movable
      have unchanged := linked_settled names front link tail
      rw [append_cons] at shows'
      obtain ⟨fsList', run, final⟩ := ih _ later (by rwa [unchanged]) shows' (by rwa [unchanged]) fun mid link' tail' split => by
        have turn := free (link :: mid) link' tail' (congrArg (link :: ·) split)
        rwa [map_cons, append_cons] at turn
      refine ⟨fsList', ?_, by rwa [map_cons, append_cons]⟩
      rw [foldlM_cons, moved]
      exact run
    · rw [shown_other start] at each
      obtain ⟨fsList', run, final⟩ := ih front each distinct shows_ same free
      refine ⟨fsList', ?_, final⟩
      rw [foldlM_cons, moveItem, if_neg start]
      exact run

theorem moves_stuck {rest : List Zfs} (front : List Link) (each : back.map Prod.snd = shown pool rest)
    (distinct : (linked (front ++ back)).Nodup) (shows_ : Shows pool fsList (front ++ back))
    (same : ∀ m, m ∈ linked (front ++ back) ↔ m ∈ names) {mid tail : List Link} (split : back = mid ++ link :: tail)
    (stuck : ¬ Movable names (front ++ mid.map (settle names)) link tail)
    (run : rest.foldlM (moveItem pool) fsList = some fsList') : ∃ fs ∈ rest, startsWith fs.fullPath pool =
    true ∧ fs.fullPath ∉ fsList'.keys FsItem.text := by
  induction rest generalizing front back mid fsList with
  | nil =>
    rw [shown, filter_nil, map_eq_nil_iff] at each
    subst each
    exact absurd split.symm (append_ne_nil_of_right_ne_nil _ (cons_ne_nil _ _))
  | cons fs rest ih =>
    obtain ⟨_, moved, later⟩ := bind_eq_some_iff.mp run
    by_cases start : startsWith fs.fullPath pool = true
    · rw [shown_start start] at each
      obtain ⟨first, others, rfl, rfl, others_⟩ := map_eq_cons_iff.mp each
      by_cases movable : Movable names front first others
      · obtain ⟨_, moved', shows'⟩ := move_free start distinct shows_ same movable
        rw [moved'] at moved
        cases moved
        have unchanged := linked_settled names front first others
        rw [append_cons] at shows'
        cases mid with
        | nil =>
          cases split
          rw [map_nil, append_nil] at stuck
          exact absurd movable stuck
        | cons _ mid =>
          cases split
          rw [map_cons, append_cons] at stuck
          obtain ⟨fs, member, found⟩ := ih _ others_ (by rwa [unchanged]) shows' (by rwa [unchanged]) rfl stuck later
          exact ⟨fs, mem_cons_of_mem _ member, found⟩
      · have lost := move_stuck start distinct shows_ same movable moved
        exact ⟨first.2, mem_cons_self, start, fun member => lost (moveItems_keys later member)⟩
    · rw [shown_other start] at each
      rw [moveItem, if_neg start] at moved
      cases moved
      obtain ⟨fs, member, found⟩ := ih front each distinct shows_ same split stuck later
      exact ⟨fs, mem_cons_of_mem _ member, found⟩

variable {fileSystems rest : List Zfs}

theorem placed_datasets (names : List Bytes) (rest : List Zfs) : (placed names rest).map Prod.snd = rest := by
  induction rest generalizing names with
  | nil => rfl
  | cons _ rest ih => rw [placed, map_cons, ih]

theorem linked_placed (names : List Bytes) (rest : List Zfs) : linked (placed names rest) = paths rest := by
  rw [paths, ← congrArg (List.map Zfs.fullPath) (placed_datasets names rest), List.map_map]
  rfl

theorem mem_shown : fs ∈ shown pool fileSystems ↔ fs ∈ fileSystems ∧ startsWith fs.fullPath pool = true := mem_filter

theorem mem_paths_shown :
    path ∈ paths (shown pool fileSystems) ↔ path ∈ paths fileSystems ∧ startsWith path pool = true := by
  constructor
  · intro member
    obtain ⟨fs, listed, rfl⟩ := List.mem_map.mp member
    obtain ⟨listed, start⟩ := mem_shown.mp listed
    exact ⟨mem_map_of_mem listed, start⟩
  · rintro ⟨member, start⟩
    obtain ⟨fs, listed, rfl⟩ := List.mem_map.mp member
    exact mem_map_of_mem (mem_shown.mpr ⟨listed, start⟩)

theorem placed_distinct (distinct : (paths fileSystems).Nodup) :
    (linked (placed [] (shown pool fileSystems))).Nodup := by
  rw [linked_placed]
  exact distinct.sublist (filter_sublist.map Zfs.fullPath)

theorem placed_of_mem (member : fs ∈ fileSystems) (start : startsWith fs.fullPath pool = true) :
    ∃ up, (up, fs) ∈ placed [] (shown pool fileSystems) := by
  have listed := mem_shown.mpr ⟨member, start⟩
  rw [← placed_datasets [] (shown pool fileSystems)] at listed
  obtain ⟨⟨up, fs⟩, inside, rfl⟩ := List.mem_map.mp listed
  exact ⟨up, inside⟩

theorem mem_placed_iff : link ∈ placed names rest ↔
    ∃ front back, rest = front ++ link.2 :: back ∧ link.1 = longestStart (names ++ paths front)
      ((originOf link.2).getD link.2.fullPath) := by
  induction rest generalizing names with
  | nil => exact ⟨fun member => absurd member not_mem_nil,
    fun ⟨_, _, wrong, _⟩ => append_ne_nil_of_right_ne_nil _ (cons_ne_nil _ _) wrong.symm |>.elim⟩
  | cons fs rest ih =>
    rw [placed, mem_cons, ih]
    constructor
    · rintro (rfl | ⟨front, back, rfl, first⟩)
      · exact ⟨[], rest, rfl, congrArg (longestStart · _) (append_nil _).symm⟩
      · refine ⟨fs :: front, back, rfl, first.trans (congrArg (longestStart · _) ?_)⟩
        exact (append_cons names fs.fullPath (paths front)).symm
    · rintro ⟨front, back, split, first⟩
      cases front with
      | nil =>
        cases split
        exact Or.inl (Prod.ext (first.trans (congrArg (longestStart · _) (append_nil _))) rfl)
      | cons _ front =>
        cases split
        exact Or.inr ⟨front, back, rfl, first.trans (congrArg (longestStart · _) (append_cons names fs.fullPath (paths front)))⟩

theorem nearest_iff : NearestLongest pool fileSystems ↔ ∀ link ∈ placed [] (shown pool fileSystems), originOf link.2 = none →
    ∀ upper, Nearest (paths fileSystems) link.2.fullPath upper → link.1 = some upper := by
  constructor
  · intro longest link member plain upper nearest
    obtain ⟨front, back, split, first⟩ := mem_placed_iff.mp member
    obtain ⟨before, greatest⟩ := longest front link.2 back split plain upper nearest
    rw [first, plain]
    exact longestStart_eq_some_iff.mpr ⟨before, nearest.2.1.start, greatest⟩
  · intro first front fs back split plain upper nearest
    have member : (longestStart ([] ++ paths front) ((originOf fs).getD fs.fullPath), fs) ∈ placed [] (shown pool fileSystems) :=
      mem_placed_iff.mpr ⟨front, back, split, rfl⟩
    have found := first _ member plain upper nearest
    rw [plain] at found
    obtain ⟨before, -, greatest⟩ := longestStart_eq_some_iff.mp found
    exact ⟨before, greatest⟩

def settled (pool : Bytes) (fileSystems : List Zfs) : List Link :=
  (placed [] (shown pool fileSystems)).map (settle (paths (shown pool fileSystems)))

theorem linked_settled_all : linked (settled pool fileSystems) = paths (shown pool fileSystems) :=
  (linked_settle _).trans (linked_placed _ _)

theorem shows_first (pool : Bytes) (fileSystems : List Zfs) :
    Shows pool (fileSystems.foldl (addItem pool) .nil) (placed [] (shown pool fileSystems)) :=
  addItems_shows [] fileSystems (List.Perm.refl _)

theorem free_shows (distinct : (paths fileSystems).Nodup) (free : FreeMoves pool fileSystems) :
    ∃ fsList, currentItemChanged fileSystems (some pool) = some fsList ∧ Shows pool fsList (settled pool fileSystems) :=
  moves_free [] (placed_datasets _ _) (placed_distinct distinct) (shows_first pool fileSystems)
    (fun m => by rw [nil_append, linked_placed]) free

theorem stuck_lost (distinct : (paths fileSystems).Nodup) (stuck : ¬ FreeMoves pool fileSystems)
    (run : currentItemChanged fileSystems (some pool) = some fsList) :
    ∃ fs ∈ fileSystems, startsWith fs.fullPath pool = true ∧ fs.fullPath ∉ fsList.keys FsItem.text := by
  rw [FreeMoves] at stuck
  push Not at stuck
  obtain ⟨_, _, _, split, failing⟩ := stuck
  exact moves_stuck [] (placed_datasets _ _) (placed_distinct distinct) (shows_first pool fileSystems)
    (fun m => by rw [nil_append, linked_placed]) split failing run

theorem mem_parents_iff (shows_ : Shows pool fsList links) (distinct : (linked links).Nodup) (member : link ∈ links)
    (up : Option Bytes) :
    (up, link.2.fullPath) ∈ parents fsList ↔ link.1 = up := by
  have whole : (link.1, link.2.fullPath) ∈ parents fsList :=
    List.mem_map.mpr ⟨(link.1, fsItem pool link.2), shows_.mem_iff.mpr (mem_map_of_mem member), rfl⟩
  have once : ((parents fsList).map Prod.snd).Nodup := by
    have keys := shows_.keys.nodup_iff.mpr distinct
    rw [← ItemTree.links_keys none fsList] at keys
    rwa [parents, List.map_map]
  constructor
  · intro other
    exact congrArg Prod.fst (inj_on_of_nodup_map once whole other rfl)
  · rintro rfl
    exact whole

theorem mem_keys_iff (shows_ : Shows pool fsList (settled pool fileSystems)) (path : Bytes) :
    path ∈ fsList.keys FsItem.text ↔ path ∈ paths fileSystems ∧ startsWith path pool = true := by
  rw [shows_.keys.mem_iff, linked_settled_all, mem_paths_shown]

theorem own_iff (own : OwnPaths pool fileSystems) (listed : path ∈ paths fileSystems) :
    startsWith path pool = true ↔ InPool pool path :=
  ⟨own path listed, InPool.start⟩

theorem settle_plain {link : Link} (plain : originOf link.2 = none) : settle names link = link := by
  rw [settle, target, plain, bind_none, none_or]

theorem settle_clone {link : Link} {origin : Bytes} (clone : originOf link.2 = some origin) (listed : origin ∈ names) :
    settle names link = (some origin, link.2) := by
  rw [settle, target, clone, bind_some, longestStart_self listed, some_or]

theorem Straight.right (straight : Straight pool fileSystems) (distinct : (paths fileSystems).Nodup) :
    Right pool fileSystems := by
  obtain ⟨fsList, run, shows_⟩ := free_shows distinct straight.free
  have once : (linked (settled pool fileSystems)).Nodup := by
    rw [linked_settled_all, ← linked_placed []]
    exact placed_distinct distinct
  refine ⟨fsList, run, ⟨shows_.keys.nodup_iff.mpr once, fun path => ?_, ?_, ?_⟩⟩
  · rw [mem_keys_iff shows_]
    exact and_congr_right fun listed => own_iff straight.own listed
  · intro fs member inside plain upper nearest
    obtain ⟨up, listed⟩ := placed_of_mem member inside.start
    have first : up = some upper := nearest_iff.mp straight.nearest (up, fs) listed plain upper nearest
    have settled_ : (up, fs) ∈ settled pool fileSystems := List.mem_map.mpr ⟨(up, fs), listed, settle_plain plain⟩
    exact (mem_parents_iff shows_ once settled_ (some upper)).mpr first
  · intro fs member inside origin clone listed
    obtain ⟨up, first⟩ := placed_of_mem member inside.start
    have own := mem_paths_shown.mpr ⟨listed, (straight.origins fs member inside origin clone listed).start⟩
    have settled_ := List.mem_map.mpr ⟨(up, fs), first, settle_clone clone own⟩
    exact (mem_parents_iff shows_ once settled_ (some origin)).mpr rfl

theorem RightTree.listed {upper : Bytes} (right : RightTree pool fileSystems fsList)
    (hangs : (some upper, path) ∈ parents fsList) :
    upper ∈ paths fileSystems ∧ InPool pool upper := by
  obtain ⟨link, member, same⟩ := List.mem_map.mp hangs
  have up : link.1 = some upper := congrArg Prod.fst same
  apply (right.complete upper).mp
  rcases ItemTree.up_of_link member with top | ⟨_, inside, here⟩
  · cases top.symm.trans up
  · cases here.symm.trans up
    exact inside

theorem Right.free (right : Right pool fileSystems) (distinct : (paths fileSystems).Nodup)
    (own : OwnPaths pool fileSystems) :
    FreeMoves pool fileSystems := by
  obtain ⟨_, run, right⟩ := right
  by_contra stuck
  obtain ⟨fs, member, start, lost⟩ := stuck_lost distinct stuck run
  have listed : fs.fullPath ∈ paths fileSystems := mem_map_of_mem member
  exact lost ((right.complete _).mpr ⟨listed, own _ listed start⟩)

theorem Right.own (right : Right pool fileSystems) (distinct : (paths fileSystems).Nodup)
    (free : FreeMoves pool fileSystems) :
    OwnPaths pool fileSystems := by
  obtain ⟨_, run, right⟩ := right
  obtain ⟨_, run', shows_⟩ := free_shows distinct free
  cases run.symm.trans run'
  intro path listed start
  exact ((right.complete path).mp ((mem_keys_iff shows_ path).mpr ⟨listed, start⟩)).2

theorem Right.straight (right : Right pool fileSystems) (distinct : (paths fileSystems).Nodup)
    (own : OwnPaths pool fileSystems) (free : FreeMoves pool fileSystems) : Straight pool fileSystems := by
  obtain ⟨_, run, right⟩ := right
  obtain ⟨_, run', shows_⟩ := free_shows distinct free
  cases run.symm.trans run'
  have once : (linked (settled pool fileSystems)).Nodup := by
    rw [linked_settled_all, ← linked_placed []]
    exact placed_distinct distinct
  refine ⟨own, ?_, nearest_iff.mpr ?_, free⟩
  · intro fs member inside origin clone listed
    exact (right.listed (right.clones fs member inside origin clone listed)).2
  · intro link member plain upper nearest
    have shown_ : link.2 ∈ shown pool fileSystems := by
      rw [← placed_datasets [] (shown pool fileSystems)]
      exact mem_map_of_mem member
    obtain ⟨listed, start⟩ := mem_shown.mp shown_
    have hangs := right.nested link.2 listed (own _ (mem_map_of_mem listed) start) plain upper nearest
    have settled_ : link ∈ settled pool fileSystems := List.mem_map.mpr ⟨link, member, settle_plain plain⟩
    exact (mem_parents_iff shows_ once settled_ (some upper)).mp hangs

theorem not_hangs_of_leaf {c x : Bytes} (leaf : ∀ link ∈ links, link.1 ≠ some c)
    (other : x ≠ c) : ¬ ItemTree.Hangs Zfs.fullPath links c x := by
  intro hangs
  rcases hangs.cases_head with same | ⟨_, ⟨_, -, member⟩, -⟩
  · exact other same.symm
  · exact leaf _ member rfl

theorem leaves_free
    (leaves : ∀ link ∈ placed [] (shown pool fileSystems), ∀ parent ∈ target (paths (shown pool fileSystems)) link.2,
      link.1 ≠ none ∧ parent ≠ link.2.fullPath ∧
      ∀ other ∈ placed [] (shown pool fileSystems) ++ settled pool fileSystems, other.1 ≠ some link.2.fullPath) :
    FreeMoves pool fileSystems := by
  intro front link back split parent found
  have whole : link ∈ placed [] (shown pool fileSystems) := by
    rw [split]
    exact mem_append_right _ mem_cons_self
  obtain ⟨nested, apart, leaf⟩ := leaves link whole parent found
  refine ⟨nested, not_hangs_of_leaf (fun other member => leaf other ?_) apart⟩
  rw [settled, split, map_append]
  rcases mem_append.mp member with early | late
  · exact mem_append_right _ (mem_append_left _ early)
  · exact mem_append_left _ (mem_append_right _ late)

/-- The tree of a pool is right when the list is straight. Of the others, one with foreign paths that start like the
pool's and also with clones that cannot be moved may come out right by chance. -/
theorem tree_right (pool : Bytes) (fileSystems : List Zfs) (distinct : (paths fileSystems).Nodup) :
    (Straight pool fileSystems → Right pool fileSystems) ∧
      (OwnPaths pool fileSystems ∨ FreeMoves pool fileSystems → (Right pool fileSystems ↔ Straight pool fileSystems)) := by
  have enough (straight : Straight pool fileSystems) : Right pool fileSystems := straight.right distinct
  refine ⟨enough, fun usual => ⟨fun right => ?_, enough⟩⟩
  rcases usual with own | free
  · exact right.straight distinct own (right.free distinct own)
  · exact right.straight distinct (right.own distinct free) free

def plain (path : Bytes) : Zfs := ⟨path, []⟩

def cloned (path origin : Bytes) : Zfs := ⟨path, [{ name := ascii ['o', 'r', 'i', 'g', 'i', 'n'], value := origin }]⟩

def tank : Bytes := ascii ['t', 'a', 'n', 'k']

def withClone : List Zfs :=
  [plain tank, plain (tank ++ ascii ['/', 'a']), plain (tank ++ ascii ['/', 'a', '@', 's']),
    cloned (tank ++ ascii ['/', 'b']) (tank ++ ascii ['/', 'a', '@', 's'])]

theorem clone_shown : Right tank withClone := by
  have own : ∀ path ∈ paths withClone, InPool tank path := by decide
  have nearest : ∀ link ∈ placed [] (shown tank withClone), originOf link.2 = none →
      ∀ upper ∈ paths withClone, Nearest (paths withClone) link.2.fullPath upper → link.1 = some upper := by decide
  apply (tree_right tank withClone (by decide)).1
  exact ⟨fun path listed _ => own path listed, fun _ _ _ _ _ listed => own _ listed,
    nearest_iff.mpr fun link member plain upper near => nearest link member plain upper near.1 near,
    leaves_free (by decide)⟩

def siblings : List Zfs := [plain tank, plain (tank ++ ascii ['/', 'a']), plain (tank ++ ascii ['/', 'a', 'b'])]

/-- A dataset is shown below another one with a shorter name next to it. -/
theorem sibling_misplaced : (paths siblings).Nodup ∧ (paths siblings).Pairwise
    (fun early late => ¬ Below late early) ∧ ¬ Right tank siblings := by
  refine ⟨by decide, by decide, ?_⟩
  rintro ⟨_, run, right⟩
  have below : Nearest (paths siblings) (tank ++ ascii ['/', 'a', 'b']) tank := by decide
  have hangs := right.nested (plain (tank ++ ascii ['/', 'a', 'b']))
    (mem_cons_of_mem _ (mem_cons_of_mem _ mem_cons_self)) (by decide) (by decide) tank below
  have tree : (currentItemChanged siblings (some tank)).map parents =
      some [(none, tank), (some tank, tank ++ ascii ['/', 'a']),
        (some (tank ++ ascii ['/', 'a']), tank ++ ascii ['/', 'a', 'b'])] :=
        by decide
  rw [run, map_some, some_inj] at tree
  rw [tree] at hangs
  revert hangs
  decide

end Pcbsd.Zmanager.DatasetTree
