import Pcbsd.Lib.Guarded
import Pcbsd.Proofs.GeomLines
import Pcbsd.Proofs.PoolLines
import Pcbsd.Zmanager.CurrentTopology

/-! Which outputs of the commands make GetCurrentTopology go outside of a list: the condition of each line, in the
state that the lines before it lead to. -/

namespace Pcbsd.Zmanager.CurrentTopology
open Lib Text List Option
open DatasetTree (Zfs)

theorem startsWith_apart {str front other : Bytes} (starts : startsWith str front = true)
    (apart : startsWith front other = false) (apart' : startsWith other front = false) :
    startsWith str other = false := by
  rw [← Bool.not_eq_true]
  intro both
  rcases prefix_or_prefix_of_prefix (startsWith_iff.mp starts) (startsWith_iff.mp both) with shorter | longer
  · rw [startsWith_iff.mpr shorter] at apart'
    cases apart'
  · rw [startsWith_iff.mpr longer] at apart
    cases apart

theorem tokens_eq_nil_iff (str : Bytes) : tokens str = [] ↔ ∃ n, str = blanks n := by
  constructor
  · intro none
    induction str with
    | nil => exact ⟨0, rfl⟩
    | cons c str ih =>
      by_cases blank : c = 0x20
      · subst blank
        obtain ⟨n, rfl⟩ := ih none
        exact ⟨n + 1, rfl⟩
      · rw [tokens, splitOn_cons_eq_if_modifyHead, if_neg (by simpa using blank)] at none
        obtain ⟨_, _, split⟩ := exists_cons_of_ne_nil (splitOn_ne_nil (0x20 : UInt8) str)
        rw [split, modifyHead_cons, filter_cons_of_pos (by simp)] at none
        cases none
  · rintro ⟨n, rfl⟩
    have none := tokens_blanks n []
    rwa [append_nil, tokens_nil] at none

section

/-- "   Mediasize: " and nothing but blanks behind it. -/
def BlankSize (str : Bytes) : Prop := ∃ n, str = mediasizeKey ++ blanks n

theorem blankSize_iff (str : Bytes) :
    BlankSize str ↔ startsWith str mediasizeKey = true ∧ tokens (str.drop 14) = [] := by
  constructor
  · rintro ⟨n, rfl⟩
    exact ⟨startsWith_append mediasizeKey _, (tokens_eq_nil_iff _).mpr ⟨n, rfl⟩⟩
  · rintro ⟨key, none⟩
    obtain ⟨_, rfl⟩ := startsWith_iff.mp key
    obtain ⟨n, blank⟩ := (tokens_eq_nil_iff _).mp none
    exact ⟨n, by rw [← blank]; rfl⟩

theorem skipEmpty_map {β : Type} (first : Bytes → β) (empty : β) (pieces : List Bytes) :
    ((skipEmpty pieces).map fun rest => rest.head?.elim empty first) = (pieces.filter (· ≠ [])).head?.map first := by
  induction pieces with
  | nil => rfl
  | cons piece pieces ih =>
    rw [skipEmpty]
    by_cases nothing : piece = []
    · rw [if_pos nothing, filter_cons_of_neg (by simpa using nothing)]
      exact ih
    · rw [if_neg nothing, filter_cons_of_pos (by simpa using nothing)]
      rfl

theorem mediasizeAt_eq (text : Bytes) (size : Nat) : mediasizeAt text size = (tokens text).head?.map toULongLong :=
  skipEmpty_map toULongLong size _

theorem mediasizeAt_isSome (text : Bytes) (size : Nat) : (mediasizeAt text size).isSome ↔ tokens text ≠ [] := by
  rw [mediasizeAt_eq, isSome_map, isSome_head?]

theorem mediasize_of_at {text : Bytes} {size read : Nat} (reads : mediasizeAt text size = some read) :
    read = mediasize text size := by
  rw [mediasizeAt_eq] at reads
  rw [mediasize]
  cases split : tokens text with
  | nil =>
    rw [split] at reads
    cases reads
  | cons _ _ =>
    rw [split] at reads
    cases reads
    rfl

section

variable {α : Type} {s : GeomReader} {str : Bytes} {k : Int} {size : Nat} {take : Nat → α} {other read : α}

private theorem sized_isSome :
    (if startsWith str mediasizeKey = true ∧ s.state = k then (mediasizeAt (str.drop 14) size).map take
    else some other).isSome ↔ ¬(s.state = k ∧ BlankSize str) := by
  rw [blankSize_iff]
  by_cases test : startsWith str mediasizeKey = true ∧ s.state = k
  · rw [if_pos test, isSome_map, mediasizeAt_isSome]
    simp only [test, true_and]
  · rw [if_neg test]
    exact iff_of_true rfl fun both => test ⟨both.2.1, both.1⟩

private theorem sized_of_at
    (reads : (if startsWith str mediasizeKey = true ∧ s.state = k then (mediasizeAt (str.drop 14) size).map take
      else some other) = some read) :
    read = if startsWith str mediasizeKey = true ∧ s.state = k then take (mediasize (str.drop 14) size) else other := by
  split at reads
  next test =>
    obtain ⟨size, found, rfl⟩ := map_eq_some_iff.mp reads
    rw [if_pos test, mediasize_of_at found]
  next test =>
    rw [if_neg test]
    exact (some.inj reads).symm

end

theorem diskMediasizeAt_isSome (s : GeomReader) (str : Bytes) :
    (diskMediasizeAt s str).isSome ↔ ¬(s.state = 1 ∧ BlankSize str) := sized_isSome

variable {s : GeomReader} {line : Bytes} {read : GeomReader × Bytes} {str : Bytes} {next : GeomReader}

theorem diskMediasize_of_at (reads : diskMediasizeAt s str = some read) :
    read = diskMediasize s str := sized_of_at reads

def DiskFine (s : GeomReader) (line : Bytes) : Prop :=
  ¬(s.state = 1 ∧ BlankSize line) ∧ ¬(startsWith line geomKey = true ∧ BlankSize (line.drop 11))

theorem BlankSize.geom (blank : BlankSize line) : startsWith line geomKey = false := by
  obtain ⟨_, rfl⟩ := blank
  exact startsWith_apart (startsWith_append mediasizeKey _) (by decide) (by decide)

theorem diskLineAt_isSome (s : GeomReader) (line : Bytes) : (diskLineAt s line).isSome ↔ DiskFine s line := by
  rw [diskLineAt, DiskFine]
  by_cases geom : startsWith line geomKey = true
  · rw [diskGeom, if_pos geom, isSome_map, diskMediasizeAt_isSome]
    constructor
    · intro sized
      refine ⟨fun both => ?_, fun both => sized ⟨rfl, both.2⟩⟩
      rw [both.2.geom] at geom
      cases geom
    · rintro ⟨_, sized⟩ ⟨_, blank⟩
      exact sized ⟨geom, blank⟩
  · rw [diskGeom, if_neg geom, isSome_map, diskMediasizeAt_isSome]
    exact ⟨fun sized => ⟨sized, fun both => geom both.1⟩, fun both => both.1⟩

theorem diskLine_of_at (reads : diskLineAt s line = some next) : next = diskLineOf s line := by
  obtain ⟨_, found, rfl⟩ := map_eq_some_iff.mp reads
  rw [diskMediasize_of_at found]
  rfl

theorem partMediasizeAt_isSome (s : GeomReader) (str : Bytes) :
    (partMediasizeAt s str).isSome ↔ ¬(s.state = 4 ∧ BlankSize str) := sized_isSome

theorem partMediasize_of_at (reads : partMediasizeAt s str = some read) :
    read = partMediasize s str := sized_of_at reads

def partNamed (s : GeomReader) (line : Bytes) : GeomReader × Bytes :=
  let (s, str) := partGeom s line
  let (s, str) := partScheme s str
  let s := partProviders s str
  partName s str

theorem partLineAt_eq (s : GeomReader) (line : Bytes) :
    partLineAt s line = (partMediasizeAt (partNamed s line).1 (partNamed s line).2).map fun read =>
      partFields read.1 read.2 := rfl

/-- A line of `gpart list` that has a size where one is looked for. Nine characters are taken off a line with a name. -/
def PartFine (s : GeomReader) (line : Bytes) : Prop :=
  ¬(s.state = 4 ∧ BlankSize line) ∧ ¬(3 ≤ s.state ∧ contains line nameKey = true ∧ BlankSize (line.drop 9))

theorem BlankSize.front (blank : BlankSize str) : startsWith str (blanks 3) = true := by
  obtain ⟨_, rfl⟩ := blank
  exact startsWith_iff.mpr (prefix_append (blanks 3) _)

theorem BlankSize.unnamed (blank : BlankSize line) : contains line nameKey = false := by
  obtain ⟨_, rfl⟩ := blank
  rw [← Bool.not_eq_true, contains_iff]
  intro named
  rcases mem_append.mp (named.subset (a := (0x2e : UInt8)) (by decide)) with key | text
  · revert key
    decide
  · cases eq_of_mem_replicate text

theorem BlankSize.drop_key {key : Bytes} (starts : startsWith line key = true) (long : 10 ≤ key.length)
    (other : startsWith (key.drop 9) (blanks 1) = false) : ¬BlankSize (line.drop 9) := by
  intro blank
  obtain ⟨_, rfl⟩ := startsWith_iff.mp starts
  have front := blank.front
  rw [drop_append_of_le_length (by omega)] at front
  obtain ⟨_, _, split⟩ := exists_cons_of_ne_nil (l := key.drop 9) (by
    rw [← length_pos_iff, length_drop]
    omega)
  rw [split] at front other
  rw [cons_append, blanks, replicate_succ, startsWith_cons, Bool.and_eq_true] at front
  rw [blanks, replicate_succ, startsWith_cons, front.1] at other
  cases other

theorem partName_size (s : GeomReader) (str : Bytes) :
    (partName s str).1.state = 4 ∧ BlankSize (partName s str).2 ↔
      s.state = 4 ∧ BlankSize str ∨ 3 ≤ s.state ∧ contains str nameKey = true ∧ BlankSize (str.drop 9) := by
  rw [partName]
  by_cases named : contains str nameKey = true ∧ 3 ≤ s.state
  · rw [if_pos named]
    constructor
    · rintro ⟨_, blank⟩
      exact Or.inr ⟨named.2, named.1, blank⟩
    · rintro (⟨_, blank⟩ | ⟨_, _, blank⟩)
      · rw [blank.unnamed] at named
        cases named.1
      · exact ⟨rfl, blank⟩
  · rw [if_neg named]
    exact ⟨Or.inl, fun either => either.resolve_right fun all => named ⟨all.2.1, all.1⟩⟩

theorem partProviders_size (early : s.state < 3) :
    ¬((partName (partProviders s str) str).1.state = 4 ∧ BlankSize (partName (partProviders s str) str).2) := by
  rw [partName_size, partProviders]
  by_cases test : startsWith str providersKey = true ∧ s.state = 2
  · rw [if_pos test]
    rintro (⟨state, _⟩ | ⟨_, _, blank⟩)
    · cases state
    · exact BlankSize.drop_key test.1 (by decide) (by decide) blank
  · rw [if_neg test]
    rintro (⟨state, _⟩ | ⟨state, _⟩) <;> omega

theorem partScheme_early (early : s.state < 3) (str : Bytes) : (partScheme s str).1.state < 3 := by
  rw [partScheme]
  split
  · exact (by decide : (2 : Int) < 3)
  · exact early

theorem partNamed_size (s : GeomReader) (line : Bytes) :
    (partNamed s line).1.state = 4 ∧ BlankSize (partNamed s line).2 ↔
      s.state = 4 ∧ BlankSize line ∨ 3 ≤ s.state ∧ contains line nameKey = true ∧ BlankSize (line.drop 9) := by
  rw [partNamed]
  by_cases geom : startsWith line geomKey = true
  · have early : (partGeom s line).1.state < 3 := by
      rw [partGeom, if_pos geom]
      exact (by decide : (1 : Int) < 3)
    apply iff_of_false (partProviders_size (partScheme_early early _))
    rintro (⟨_, blank⟩ | ⟨_, _, blank⟩)
    · rw [blank.geom] at geom
      cases geom
    · exact BlankSize.drop_key geom (by decide) (by decide) blank
  · rw [partGeom_skip (Bool.not_eq_true _ ▸ geom)]
    dsimp only
    by_cases early : s.state < 3
    · apply iff_of_false (partProviders_size (partScheme_early early line))
      rintro (⟨state, _⟩ | ⟨state, _⟩) <;> omega
    · rw [partScheme_skip (Or.inr (by omega))]
      dsimp only
      rw [partProviders_skip (Or.inr (by omega))]
      exact partName_size s line

theorem partLineAt_isSome (s : GeomReader) (line : Bytes) : (partLineAt s line).isSome ↔ PartFine s line := by
  rw [partLineAt_eq, isSome_map, partMediasizeAt_isSome, partNamed_size, PartFine, not_or]

theorem partLine_of_at (reads : partLineAt s line = some next) : next = partLine s line := by
  rw [partLineAt_eq] at reads
  obtain ⟨_, found, rfl⟩ := map_eq_some_iff.mp reads
  rw [partMediasize_of_at found, partLine_stages]
  rfl

theorem readGeoms_of_at {g h : List Bytes} {disks : List Vdev} (reads : readGeomsAt g h = some disks) :
    disks = readGeoms g h := by
  obtain ⟨_, first, rest⟩ := bind_eq_some_iff.mp reads
  obtain ⟨_, second, rfl⟩ := map_eq_some_iff.mp rest
  rw [Guarded.foldl_of_foldlM (fun _ _ _ => diskLine_of_at) first] at second
  rw [Guarded.foldl_of_foldlM (fun _ _ _ => partLine_of_at) second]
  rfl

theorem readGeomsAt_isSome (g h : List Bytes) :
    (readGeomsAt g h).isSome ↔
      Guarded.Along diskLineAt DiskFine ⟨[], {}, {}, 0⟩ g ∧
      Guarded.Along partLineAt PartFine { readDiskList g with state := 0 } h := by
  rw [readGeomsAt, ← Guarded.isSome_iff_along diskLineAt_isSome, ← Guarded.isSome_iff_along partLineAt_isSome]
  cases first : g.foldlM diskLineAt ⟨[], {}, {}, 0⟩ with
  | none => exact iff_of_false Bool.false_ne_true fun both => Bool.false_ne_true both.1
  | some _ =>
    rw [Guarded.foldl_of_foldlM (fun _ _ _ => diskLine_of_at) first, bind_some, isSome_map, isSome_some]
    exact (and_iff_right rfl).symm

end

section

/-- Not the "=>" of a disk that is there, its name, and no word behind the name. -/
def ShowFine (disks : List Vdev) (line : Bytes) : Prop :=
  ∀ start count name, tokens line = [mainMark, start, count, name] → getDiskbyName disks name = none

theorem setSectors_isSome (disks : List Vdev) (mainitem : Bool) (start count name : Bytes) (rest : List Bytes) :
    (setSectors disks mainitem (start :: count :: name :: rest)).isSome ↔
    (rest = [] → getDiskbyName disks name = none) := by
  change ((getDiskbyName disks name).elim (some disks) _).isSome ↔ _
  cases getDiskbyName disks name with
  | none => exact iff_of_true rfl fun _ => rfl
  | some existDisk =>
    rw [elim_some]
    generalize (!mainitem || existDisk.sectorStart == 0) = first
    cases rest with
    | nil =>
      apply iff_of_false
      · cases first <;> exact Bool.false_ne_true
      · intro unknown
        cases unknown rfl
    | cons _ rest =>
      apply iff_of_true
      · cases first <;> rfl
      · rintro ⟨⟩

theorem changeFirst_length {α : Type} {change : α → Option α} {l l' : List α}
    (changed : changeFirst change l = some l') :
    l'.length = l.length := by
  induction l generalizing l' with
  | nil => cases changed
  | cons a l ih =>
    rw [changeFirst] at changed
    cases here : change a with
    | some _ =>
      rw [here] at changed
      cases changed
      rfl
    | none =>
      rw [here] at changed
      obtain ⟨_, behind, rfl⟩ := map_eq_some_iff.mp changed
      rw [length_cons, length_cons, ih behind]

theorem changeDiskbyName_length (change : Vdev → Vdev) (disks : List Vdev) (name : Bytes) :
    ((changeDiskbyName change disks name).getD disks).length = disks.length := by
  cases found : changeDiskbyName change disks name with
  | none => rfl
  | some _ => exact changeFirst_length found

variable {disks' disks : List Vdev}

theorem setSectors_length {mainitem : Bool} {words : List Bytes}
    (changed : setSectors disks mainitem words = some disks') : disks'.length = disks.length := by
  obtain ⟨name, _, rest⟩ := bind_eq_some_iff.mp changed
  cases known : getDiskbyName disks name with
  | none =>
    rw [known] at rest
    cases rest
    rfl
  | some _ =>
    rw [known, elim_some] at rest
    obtain ⟨_, _, rest⟩ := bind_eq_some_iff.mp rest
    obtain ⟨_, _, rest⟩ := bind_eq_some_iff.mp rest
    obtain ⟨_, _, rfl⟩ := map_eq_some_iff.mp rest
    exact changeDiskbyName_length _ disks name

theorem showLine_length {line : Bytes} (reads : showLine disks line = some disks') :
    disks'.length = disks.length := by
  rw [showLine] at reads
  split at reads
  · obtain ⟨_, _, rest⟩ := bind_eq_some_iff.mp reads
    split at rest <;> exact setSectors_length rest
  · cases reads
    rfl

theorem show_length {h2 : List Bytes} (shown : h2.foldlM showLine disks = some disks') :
    disks'.length = disks.length :=
  Guarded.invariant (fun now => now.length = disks.length)
    (fun _ _ _ same reads => (showLine_length reads).trans same) rfl shown

theorem showLine_isSome (disks : List Vdev) (line : Bytes) : (showLine disks line).isSome ↔ ShowFine disks line := by
  rw [showLine, ShowFine]
  rcases tokens line with _ | ⟨first, _ | ⟨second, _ | ⟨third, _ | ⟨fourth, rest⟩⟩⟩⟩
  · exact iff_of_true rfl (by rintro _ _ _ ⟨⟩)
  · exact iff_of_true rfl (by rintro _ _ _ ⟨⟩)
  · exact iff_of_true rfl (by rintro _ _ _ ⟨⟩)
  · exact iff_of_true rfl (by rintro _ _ _ ⟨⟩)
  · change (if first = mainMark then setSectors disks true (second :: third :: fourth :: rest)
      else setSectors disks false (first :: second :: third :: fourth :: rest)).isSome ↔ _
    by_cases mainitem : first = mainMark
    · rw [if_pos mainitem, setSectors_isSome]
      constructor
      · rintro unknown start count name split
        cases split
        exact unknown rfl
      · rintro fine rfl
        exact fine second third fourth (by rw [mainitem])
    · rw [if_neg mainitem, setSectors_isSome]
      apply iff_of_true
      · intro nothing
        cases nothing
      · rintro start count name split
        cases split
        exact absurd rfl mainitem

end

section

variable {α β : Type} {hit : Label → Option (Option Label)}

variable {look : β → Option (Option β)} {disks' disks : List LabelledDisk}

/-- A loop that looks at something that is never there goes through only when it has nothing to look at. -/
theorem changeList_outside (outside : ∀ b, look b = none) (l : List β) :
    (changeList look l).isSome ↔ l = [] := by
  cases l with
  | nil => exact iff_of_true rfl rfl
  | cons b l =>
    rw [changeList, outside b]
    exact iff_of_false Bool.false_ne_true (cons_ne_nil b l)

theorem changeList_inside (inside : ∀ b, (look b).isSome) (l : List β) : (changeList look l).isSome := by
  induction l with
  | nil => rfl
  | cons b l _ =>
    obtain ⟨found, looked⟩ := isSome_iff_exists.mp (inside b)
    rw [changeList, looked, bind_some]
    cases found with
    | none => rwa [elim_none, isSome_map]
    | some b => rfl

theorem changeList_length {l l' : List β} (changed : changeList look l = some (some l')) :
    l'.length = l.length := by
  induction l generalizing l' with
  | nil => cases changed
  | cons _ l ih =>
    obtain ⟨found, _, rest⟩ := bind_eq_some_iff.mp changed
    cases found with
    | none =>
      obtain ⟨_, behind, same⟩ := map_eq_some_iff.mp rest
      obtain ⟨_, rfl, rfl⟩ := map_eq_some_iff.mp same
      rw [length_cons, length_cons, ih behind]
    | some _ =>
      cases rest
      rfl

theorem lookInside_outside {look : α → Option (Option α)} (outside : ∀ a, look a = none) (never : ∀ v, hit v = none)
    (device : Labelled α) : lookInside look hit device = none := by
  rw [lookInside]
  cases partitions : device.partitions with
  | nil => rw [changeList, bind_some, elim_none, never, map_none]
  | cons part _ =>
    rw [changeList, outside part]
    rfl

theorem lookInside_inside {look : α → Option (Option α)} (inside : ∀ a, (look a).isSome) (always : ∀ v, (hit v).isSome)
    (device : Labelled α) : (lookInside look hit device).isSome := by
  obtain ⟨found, looked⟩ := isSome_iff_exists.mp (changeList_inside inside device.partitions)
  rw [lookInside, looked, bind_some]
  cases found with
  | none =>
    rw [elim_none, isSome_map]
    exact always device.label
  | some partitions => rfl

theorem changeDisks_outside (never : ∀ v, hit v = none) (disks : List LabelledDisk) :
    (changeDisks hit disks).isSome ↔ disks = [] := by
  rw [changeDisks, isSome_map]
  exact changeList_outside (lookInside_outside (lookInside_outside never never) never) disks

theorem changeDisks_inside (always : ∀ v, (hit v).isSome) (disks : List LabelledDisk) :
    (changeDisks hit disks).isSome := by
  rw [changeDisks, isSome_map]
  exact changeList_inside (lookInside_inside (lookInside_inside always always) always) disks

theorem changeDisks_length (changed : changeDisks hit disks = some disks') :
    disks'.length = disks.length := by
  obtain ⟨found, looked, rfl⟩ := map_eq_some_iff.mp changed
  cases found with
  | none => rfl
  | some disks' => exact changeList_length looked

theorem labelHit_isSome (words : List Bytes) (long : 3 ≤ words.length) (v : Label) : (labelHit words v).isSome := by
  rw [labelHit, getElem?_eq_getElem (by omega : 2 < words.length), bind_some]
  split
  · rw [getElem?_eq_getElem (by omega : 0 < words.length)]
    rfl
  · rfl

theorem labelLine_isSome (disks : List LabelledDisk) (line : Bytes) :
    (labelLine disks line).isSome ↔ disks = [] ∨ (tokens line).length ≠ 2 := by
  rw [labelLine]
  by_cases two : (tokens line).length = 2
  · have never (v : Label) : labelHit (tokens line) v = none := by
      rw [labelHit, getElem?_eq_none (by omega)]
      rfl
    rw [if_pos (by omega), changeDisks_outside never]
    exact (or_iff_left fun other => other two).symm
  · refine iff_of_true ?_ (Or.inr two)
    split
    · exact changeDisks_inside (labelHit_isSome (tokens line) (by omega)) disks
    · rfl

theorem labelLine_length {line : Bytes} (reads : labelLine disks line = some disks') :
    disks'.length = disks.length := by
  rw [labelLine] at reads
  split at reads
  · exact changeDisks_length reads
  · cases reads
    rfl

theorem labelLines_isSome (disks : List LabelledDisk) (lbl : List Bytes) :
    (lbl.foldlM labelLine disks).isSome ↔ disks = [] ∨ ∀ line ∈ lbl, (tokens line).length ≠ 2 := by
  rw [Guarded.isSome_iff_forall (fun now => now.length = disks.length) (fun line => disks = [] ∨
    (tokens line).length ≠ 2) ?_ ?_ rfl]
  · constructor
    · intro all
      by_cases none : disks = []
      · exact Or.inl none
      · exact Or.inr fun line member => (all line member).resolve_left none
    · rintro (none | all) line member
      · exact Or.inl none
      · exact Or.inr (all line member)
  · intro now line same
    rw [labelLine_isSome, ← length_eq_zero_iff, same, length_eq_zero_iff]
  · intro now line next same reads
    exact (labelLine_length reads).trans same

theorem labels_isSome (disks geoms : List Vdev) (same : disks.length = geoms.length) (lbl : List Bytes) :
    (lbl.foldlM labelLine (disks.map diskLabel)).isSome ↔ geoms = [] ∨ ∀ line ∈ lbl, (tokens line).length ≠ 2 := by
  rw [labelLines_isSome, ← length_eq_zero_iff, length_map, same, length_eq_zero_iff]

theorem mountHit_isSome (words : List Bytes) (long : 3 ≤ words.length) (mountPoint : Bytes) (v : Label) :
    (mountHit words mountPoint v).isSome := by
  rw [mountHit, getElem?_eq_getElem (by omega : 0 < words.length), bind_some]
  split
  · rfl
  · split <;> rfl

theorem mountLine_isSome (disks : List LabelledDisk) (line : Bytes) :
    (mountLine disks line).isSome ↔ 3 ≤ (tokens line).length := by
  rw [mountLine]
  by_cases long : 3 ≤ (tokens line).length
  · refine iff_of_true ?_ long
    rw [getElem?_eq_getElem (by omega : 2 < (tokens line).length), bind_some, if_neg (by omega)]
    exact changeDisks_inside (mountHit_isSome (tokens line) long _) disks
  · rw [getElem?_eq_none (by omega)]
    exact iff_of_false Bool.false_ne_true long

theorem mounts_isSome (disks : List LabelledDisk) (m : List Bytes) :
    (m.foldlM mountLine disks).isSome ↔ ∀ line ∈ m, 3 ≤ (tokens line).length :=
  Guarded.isSome_iff_forall (fun _ => True) (fun line => 3 ≤ (tokens line).length)
    (fun now line _ => mountLine_isSome now line) (fun _ _ _ _ _ => trivial) trivial m

end

section

def KnownDevice (text : Bytes) : Prop :=
  ∃ name status rest, tokens text = name :: status :: rest ∧ vdevState status ≠ .unknown

def InsideDevice (line : Bytes) : Prop := startsWith line (tab ++ blanks 4) = true ∧ KnownDevice (line.drop 3)

def ListsDevices (s : Topology) (line : Bytes) : Prop :=
  s.state = 5 ∨ (s.state = 2 ∨ s.state = 4) ∧ startsWith line (tab ++ s.pool.name) = true

def DeviceFine (s : Topology) (line : Bytes) : Prop := ¬(ListsDevices s line ∧ s.pool.vdevs = [] ∧ InsideDevice line)

theorem deviceWords_eq (words : List Bytes) : deviceWords words = some (words.head?.map fun name =>
    (name, (words[1]?).elim .unknown vdevState)) := by
  rcases words with _ | ⟨name, _ | ⟨status, rest⟩⟩ <;> rfl

theorem vdevLevelAt_eq (vdevs : List Vdev) (text : Bytes) : vdevLevelAt vdevs text = some (vdevLevel vdevs text) := by
  rw [vdevLevelAt, vdevLevel]
  split
  · rfl
  · cases vdevs using reverseRecOn with
    | nil => rfl
    | append_singleton vdevs _ =>
      rw [if_pos (by simp), getLast?_concat, map_some, any_some]
      simp only [decide_eq_true_eq]

theorem appendAt_isSome (vdevs : List Vdev) (level : Nat) (vdev : Vdev) :
    (appendAt vdevs level vdev).isSome ↔ level = 0 ∨ vdevs ≠ [] := by
  rw [appendAt, appendToLastAt]
  by_cases top : level = 0
  · rw [if_neg (not_not_intro top)]
    exact iff_of_true rfl (Or.inl top)
  · rw [if_pos top, isSome_map, getLast?_isSome]
    exact (or_iff_right top).symm

def Adds (add : Topology → Bytes → Nat → State → Option Topology) : Prop :=
  ∀ s name level status, (add s name level status).isSome ↔ level = 0 ∨ s.pool.vdevs ≠ []

theorem addVdevAt_adds : Adds addVdevAt := by
  intro s name level status
  rw [addVdevAt, isSome_map, appendAt_isSome]

theorem addImportedAt_adds : Adds addImportedAt := by
  intro s name level status
  rw [addImportedAt, isSome_map, appendAt_isSome]

theorem addDestroyedAt_adds : Adds addDestroyedAt := by
  intro s name level status
  rw [addDestroyedAt, isSome_map, appendAt_isSome]

theorem vdevLevel_eq_zero_iff (text : Bytes) : vdevLevel [] text = 0 ↔ startsWith text (blanks 2) = false := by
  rw [vdevLevel, ← Bool.not_eq_true]
  split
  · exact iff_of_false Nat.one_ne_zero (not_not_intro ‹_›)
  · exact iff_of_true rfl ‹_›

variable {add : Topology → Bytes → Nat → State → Option Topology}

variable {str : Bytes} {s : Topology} {line : Bytes} {next : Topology} {level : Nat}

theorem deviceLineAt_skip (other : startsWith str (tab ++ blanks 2) = false ∨ s.state ≠ 5) :
    deviceLineAt add s str line = some s := by
  rw [deviceLineAt, if_neg (unkeyed other)]

theorem inside_iff (line : Bytes) :
    startsWith line (tab ++ blanks 4) = true ↔
      startsWith line (tab ++ blanks 2) = true ∧ startsWith (line.drop 3) (blanks 2) = true := by
  constructor
  · intro inside
    obtain ⟨rest, rfl⟩ := startsWith_iff.mp inside
    exact ⟨startsWith_append (tab ++ blanks 2) (blanks 2 ++ rest), startsWith_append (blanks 2) rest⟩
  · rintro ⟨device, inside⟩
    obtain ⟨rest, rfl⟩ := startsWith_iff.mp device
    exact (startsWith_append_append (tab ++ blanks 2) rest (blanks 2)).trans inside

theorem deviceWords_isSome (adds : Adds add) (s : Topology) (text : Bytes) :
    ((deviceWords (tokens text)).bind fun device => device.elim (some s) fun device =>
      if device.2 = .unknown then some s else add s device.1 (vdevLevel s.pool.vdevs text) device.2).isSome ↔
      ¬(s.pool.vdevs = [] ∧ startsWith text (blanks 2) = true ∧ KnownDevice text) := by
  rw [deviceWords_eq, bind_some, KnownDevice]
  rcases tokens text with _ | ⟨name, _ | ⟨status, rest⟩⟩
  · exact iff_of_true rfl (by rintro ⟨_, _, _, _, _, ⟨⟩, _⟩)
  · exact iff_of_true rfl (by rintro ⟨_, _, _, _, _, ⟨⟩, _⟩)
  · change (if vdevState status = .unknown then some s
      else add s name (vdevLevel s.pool.vdevs text) (vdevState status)).isSome ↔ _
    by_cases unknown : vdevState status = .unknown
    · rw [if_pos unknown]
      refine iff_of_true rfl ?_
      rintro ⟨_, _, _, _, _, ⟨⟩, known⟩
      exact known unknown
    · rw [if_neg unknown, adds]
      constructor
      · rintro (top | some) ⟨none, inside, _⟩
        · rw [none, vdevLevel_eq_zero_iff, inside] at top
          cases top
        · exact some none
      · intro fine
        by_cases none : s.pool.vdevs = []
        · refine Or.inl ?_
          rw [none, vdevLevel_eq_zero_iff, ← Bool.not_eq_true]
          exact fun inside => fine ⟨none, inside, name, status, rest, rfl, unknown⟩
        · exact Or.inr none

theorem deviceLineAt_isSome (adds : Adds add) (s : Topology) (line : Bytes) :
    (deviceLineAt add s line line).isSome ↔ ¬(s.state = 5 ∧ s.pool.vdevs = [] ∧ InsideDevice line) := by
  rw [InsideDevice, inside_iff]
  by_cases device : startsWith line (tab ++ blanks 2) = true ∧ s.state = 5
  · rw [deviceLineAt, if_pos device]
    dsimp only
    rw [vdevLevelAt_eq, bind_some, deviceWords_isSome adds]
    simp only [device, true_and]
  · rw [deviceLineAt, if_neg device]
    exact iff_of_true rfl fun all => device ⟨all.2.2.1.1, all.1⟩

theorem beginVdevs_pool (s : Topology) (str : Bytes) : (beginVdevs s str).pool = s.pool := by
  rw [beginVdevs]
  split <;> rfl

theorem beginVdevs_lists (s : Topology) (line : Bytes) : (beginVdevs s line).state = 5 ↔ ListsDevices s line := by
  rw [beginVdevs, ListsDevices]
  split
  · next test => exact iff_of_true rfl (Or.inr ⟨test.2, test.1⟩)
  · next test => exact ⟨Or.inl, fun lists => lists.resolve_right fun both => test ⟨both.2, both.1⟩⟩

/-- Where the tests before only let the list of devices begin, on a line that is indented as a device is. -/
theorem listed_isSome (adds : Adds add) {e t : Topology}
    (same : startsWith line (tab ++ blanks 2) = true → t = beginVdevs e line ∧ e.state = s.state ∧ e.pool = s.pool) :
    (deviceLineAt add t line line).isSome ↔ DeviceFine s line := by
  by_cases device : startsWith line (tab ++ blanks 2) = true
  · obtain ⟨rfl, state, pool⟩ := same device
    rw [deviceLineAt_isSome adds, beginVdevs_lists, beginVdevs_pool, DeviceFine, ListsDevices, ListsDevices, state, pool]
  · rw [deviceLineAt_skip (Or.inl (Bool.not_eq_true _ ▸ device))]
    exact iff_of_true rfl fun all => device ((inside_iff line).mp all.2.2.1).1

theorem readState_indented (device : startsWith str (tab ++ blanks 2) = true) (s : Topology) (line : Bytes) :
    readState s str line = s := by
  rw [readState, startsWith_apart device (by decide) (by decide)]
  exact if_neg fun both => Bool.false_ne_true both.1

theorem readStatus_indented (device : startsWith str (tab ++ blanks 2) = true) (s : Topology) (line : Bytes) :
    (readStatus s str line).state = s.state ∧ (readStatus s str line).pool = s.pool := by
  obtain ⟨rest, rfl⟩ := startsWith_iff.mp device
  have message : startsWith (tab ++ blanks 2 ++ rest) tab = true := startsWith_append tab (blanks 2 ++ rest)
  rw [readStatus, startsWith_apart device (by decide) (by decide), if_neg fun both => Bool.false_ne_true both.1]
  by_cases third : s.state = 3
  · rw [if_pos third, if_pos message]
    exact ⟨rfl, rfl⟩
  · rw [if_neg third]
    exact ⟨rfl, rfl⟩

theorem deviceFine_pool {key : Bytes} (starts : startsWith line key = true)
    (apart : startsWith key (tab ++ blanks 4) = false) (apart' : startsWith (tab ++ blanks 4) key = false)
    (s : Topology) : DeviceFine s line := by
  intro all
  rw [InsideDevice, startsWith_apart starts apart apart'] at all
  cases all.2.2.1

def sections (s : Topology) (str : Bytes) : Topology :=
  readSection cache (readSection spares (readSection logs s str) str) str

def destroyedSections (s : Topology) (str : Bytes) : Topology :=
  destroyedSection cache (destroyedSection spares (destroyedSection logs s str) str) str

theorem sections_skip (other : startsWith str (tab ++ blanks 2) = true ∨ s.state ≠ 5) : sections s str = s :=
    by
  have titled {title : Bytes} (apart : startsWith (tab ++ blanks 2) (tab ++ title) = false)
      (apart' : startsWith (tab ++ title) (tab ++ blanks 2) = false) : readSection title s str = s :=
    readSection_skip (other.imp_left fun device => startsWith_apart device apart apart')
  rw [sections, titled (by decide) (by decide), titled (by decide) (by decide), titled (by decide) (by decide)]

theorem destroyedSections_skip (other : startsWith str (tab ++ blanks 2) = true ∨ s.state ≠ 5) :
    destroyedSections s str = s := by
  have titled {title : Bytes} (apart : startsWith (tab ++ blanks 2) (tab ++ title) = false)
      (apart' : startsWith (tab ++ title) (tab ++ blanks 2) = false) : destroyedSection title s str = s := by
    rw [destroyedSection, if_neg]
    rintro ⟨starts, reading⟩
    rcases other with device | no
    · rw [startsWith_apart device apart apart'] at starts
      cases starts
    · exact no reading
  rw [destroyedSections, titled (by decide) (by decide), titled (by decide) (by decide), titled (by decide) (by decide)]

theorem poolLineAt_eq (s : Topology) (line : Bytes) :
    poolLineAt s line =
      (deviceLineAt addVdevAt (sections (beginVdevs (readStatus (readState (beginPool s line).1 (beginPool s line).2 line)
        (beginPool s line).2 line) (beginPool s line).2) (beginPool s line).2) (beginPool s line).2 line).map fun t =>
          readErrors t (beginPool s line).2 := rfl

theorem poolLineAt_isSome (s : Topology) (line : Bytes) : (poolLineAt s line).isSome ↔ DeviceFine s line := by
  rw [poolLineAt_eq, isSome_map]
  by_cases pool : startsWith line poolKey = true
  · refine iff_of_true ?_ (deviceFine_pool pool (by decide) (by decide) s)
    have fresh : (beginPool s line).1.state = 1 := by rw [beginPool, if_pos pool]
    by_cases device : startsWith (beginPool s line).2 (tab ++ blanks 2) = true
    · rw [readState_indented device, readStatus_skip (by omega) (by omega), beginVdevs_skip (by omega),
        sections_skip (Or.inl device), deviceLineAt_skip (Or.inr (by omega))]
      rfl
    · rw [deviceLineAt_skip (Or.inl (Bool.not_eq_true _ ▸ device))]
      rfl
  · rw [beginPool, if_neg pool]
    apply listed_isSome addVdevAt_adds
    intro device
    rw [sections_skip (Or.inl device), readState_indented device]
    exact ⟨rfl, readStatus_indented device s line⟩

theorem readId_indented (device : startsWith str (tab ++ blanks 2) = true) (s : Topology) (line : Bytes) :
    readId s str line = s := by
  rw [readId, startsWith_apart device (by decide) (by decide)]
  exact if_neg fun both => Bool.false_ne_true both.1

theorem readImportState_indented (device : startsWith str (tab ++ blanks 2) = true) (s : Topology) (line : Bytes) :
    readImportState s str line = s := by
  rw [readImportState, startsWith_apart device (by decide) (by decide)]
  exact if_neg fun both => Bool.false_ne_true both.1

/-- The tests before that for a device in the loops over the pools that are not active: which pools are kept, the flag
and the sections are their own. -/
def inactiveTests (keep : PoolTree.PoolEntry → Bool) (mark : Gathered → Gathered) (titles : Topology → Bytes → Topology)
    (s : Gathered) (line : Bytes) : Topology × Bytes :=
  let (s, str) := s.startPool keep line
  (titles (beginVdevs (readImportState (readId (s.flagged mark str).topology str line) str line) str) str, str)

theorem inactive_isSome (adds : Adds add) (keep : PoolTree.PoolEntry → Bool) (mark : Gathered → Gathered)
    (marks : ∀ s, (mark s).topology = s.topology) (titles : Topology → Bytes → Topology)
    (skips : ∀ {s str}, startsWith str (tab ++ blanks 2) = true ∨ s.state ≠ 5 → titles s str = s) (s : Gathered)
    (line : Bytes) :
    (deviceLineAt add (inactiveTests keep mark titles s line).1 (inactiveTests keep mark titles s line).2 line).isSome ↔
      DeviceFine s.topology line := by
  have flags (t : Gathered) (str : Bytes) : (t.flagged mark str).topology = t.topology := by
    rw [Gathered.flagged]
    split
    · exact marks t
    · rfl
  rw [inactiveTests]
  dsimp only
  rw [flags]
  by_cases pool : startsWith line importKey = true
  · refine iff_of_true ?_ (deviceFine_pool pool (by decide) (by decide) s.topology)
    have begins (t : Topology) : (beginImport t line).1.state = 1 := by rw [beginImport, if_pos pool]
    have fresh : (s.startPool keep line).1.topology.state = 1 := by
      rw [Gathered.startPool, if_pos pool]
      exact begins _
    by_cases device : startsWith (s.startPool keep line).2 (tab ++ blanks 2) = true
    · rw [readId_indented device, readImportState_indented device, beginVdevs_skip (by omega), skips (Or.inl device),
        deviceLineAt_skip (Or.inr (by omega))]
      rfl
    · rw [deviceLineAt_skip (Or.inl (Bool.not_eq_true _ ▸ device))]
      rfl
  · rw [Gathered.startPool, if_neg pool]
    apply listed_isSome adds
    intro device
    rw [skips (Or.inl device), readId_indented device, readImportState_indented device]
    exact ⟨rfl, rfl, rfl⟩

theorem importLineAt_isSome (s : Gathered) (line : Bytes) :
    (importLineAt s line).isSome ↔ DeviceFine s.topology line := by
  rw [importLineAt, isSome_map]
  exact inactive_isSome addImportedAt_adds (fun _ => true) Gathered.markExported
    (fun _ => rfl) sections sections_skip s line

theorem destroyedLineAt_isSome (s : Gathered) (line : Bytes) :
    (destroyedLineAt s line).isSome ↔ DeviceFine s.topology line := by
  rw [destroyedLineAt, isSome_map]
  exact inactive_isSome addDestroyedAt_adds recoverable Gathered.markDestroyed
    (fun _ => rfl) destroyedSections destroyedSections_skip s line

theorem vdevLevel_of_at {vdevs : List Vdev} {text : Bytes} (reads : vdevLevelAt vdevs text = some level) :
    level = vdevLevel vdevs text := by
  rw [vdevLevelAt] at reads
  rw [vdevLevel]
  split at reads
  next deep =>
    rw [if_pos deep]
    exact (some.inj reads).symm
  next shallow =>
    rw [if_neg shallow]
    cases end_ : vdevs.getLast? with
    | none =>
      rw [getLast?_eq_none_iff.mp end_] at reads
      exact (some.inj reads).symm
    | some _ =>
      rw [if_pos (length_pos_iff.mpr fun none => by rw [none] at end_; cases end_), end_] at reads
      simpa using (some.inj reads).symm

theorem addVdev_of_at {name : Bytes} {status : State} (adds : addVdevAt s name level status = some next) :
    next = addVdev s name level status := by
  rw [addVdevAt] at adds
  obtain ⟨vdevs, appended, rfl⟩ := map_eq_some_iff.mp adds
  have same : vdevs = if level ≠ 0 then appendToLast s.pool.vdevs { name, level, status, partType := groupType name, inPool := s.pool.name }
      else s.pool.vdevs ++ [{ name, level, status, partType := groupType name, inPool := s.pool.name }] := by
    rw [appendAt] at appended
    split at appended
    next deep =>
      obtain ⟨_, end_, rfl⟩ := map_eq_some_iff.mp appended
      rw [if_pos deep, appendToLast, end_]
    next top =>
      rw [if_neg top]
      exact (some.inj appended).symm
  rw [same]
  rfl

theorem readVdev_of_at (reads : deviceLineAt addVdevAt s str line = some next) :
    next = readVdev s str line := by
  rw [deviceLineAt] at reads
  rw [readVdev]
  split at reads
  next device =>
    rw [if_pos device]
    obtain ⟨_, leveled, reads⟩ := bind_eq_some_iff.mp reads
    obtain ⟨_, words, reads⟩ := bind_eq_some_iff.mp reads
    obtain rfl := vdevLevel_of_at leveled
    dsimp only
    generalize tokens (line.drop 3) = text at words ⊢
    rcases text with _ | ⟨name, _ | ⟨state, rest⟩⟩
    · cases words
      exact (some.inj reads).symm
    · cases words
      exact (some.inj reads).symm
    · cases words
      dsimp only [elim_some] at reads ⊢
      split at reads
      next unknown =>
        rw [if_pos unknown]
        exact (some.inj reads).symm
      next known =>
        rw [if_neg known]
        exact addVdev_of_at reads
  next other =>
    rw [if_neg other]
    exact (some.inj reads).symm

theorem poolLine_of_at (reads : poolLineAt s line = some next) : next = poolLine s line := by
  rw [poolLineAt] at reads
  obtain ⟨_, found, rfl⟩ := map_eq_some_iff.mp reads
  rw [readVdev_of_at found]
  rfl

/-- Where no access is outside of a list, the pools are those of readPools. -/
theorem readPools_of_at {disks : List Vdev} {a : List Bytes}
    (reads : readPoolsAt disks a = some s) : s = readPools disks a := by
  rw [readPoolsAt] at reads
  obtain ⟨_, ran, rfl⟩ := map_eq_some_iff.mp reads
  rw [Guarded.foldl_of_foldlM (fun _ _ _ => poolLine_of_at) ran]
  rfl

theorem readPoolsAt_isSome (disks : List Vdev) (a : List Bytes) :
    (readPoolsAt disks a).isSome ↔ Guarded.Along poolLineAt DeviceFine ⟨disks, [], [], {}, {}, 0⟩ a := by
  rw [readPoolsAt, isSome_map]
  exact Guarded.isSome_iff_along poolLineAt_isSome _ a

theorem readImportsAt_isSome (s : Gathered) (i : List Bytes) :
    (readImportsAt s i).isSome ↔
      Guarded.Along importLineAt (fun s => DeviceFine s.topology) { s with topology := { s.topology with state := 0 } } i := by
  rw [readImportsAt, isSome_map]
  exact Guarded.isSome_iff_along importLineAt_isSome _ i

theorem readDestroyedAt_isSome (s : Gathered) (d : List Bytes) :
    (readDestroyedAt s d).isSome ↔
      Guarded.Along destroyedLineAt (fun s => DeviceFine s.topology) { s with topology := { s.topology with state := 0 } } d := by
  rw [readDestroyedAt, isSome_map]
  exact Guarded.isSome_iff_along destroyedLineAt_isSome _ d

end

theorem propLine_isSome (pools : List ListedPool) (line : Bytes) : (propLine pools line).isSome := by
  rw [propLine]
  rcases matchingPool line pools with ⟨_ | _, length⟩
  · rfl
  · dsimp only
    rw [elim_some]
    split
    · rw [getElem?_eq_getElem (by omega : 0 < (tokens (line.drop length)).length)]
      rfl
    · rfl

theorem fileSystemLine_isSome (fileSystems : List Zfs) (line : Bytes) : (fileSystemLine fileSystems line).isSome := by
  rw [fileSystemLine]
  split
  · rw [getElem?_eq_getElem (by omega : 0 < (columns line).length)]
    rfl
  · rfl

theorem fileSystemProp_isSome (fileSystems : List Zfs) (line : Bytes) : (fileSystemProp fileSystems line).isSome := by
  rw [fileSystemProp]
  split
  · rw [getElem?_eq_getElem (by omega : 0 < (columns line).length), bind_some]
    split
    · rw [getElem?_eq_getElem (by omega : 1 < (columns line).length), getElem?_eq_getElem (by omega : 2 < (columns line).length),
        getElem?_eq_getElem (by omega : 3 < (columns line).length)]
      rfl
    · rfl
  · rfl

section

variable {o : Outputs}

/-- Disks before the labels, and behind the active pools and the exported ones, where no access before is outside. -/
def disksOf (o : Outputs) : Option (List Vdev) := (readGeomsAt o.g o.h).bind fun disks => o.h2.foldlM showLine disks
def activeOf (o : Outputs) : Option Gathered := (disksOf o).bind fun disks => (readPoolsAt disks o.a).map activePools
def exportedOf (o : Outputs) : Option Gathered := (activeOf o).bind fun s => readImportsAt s o.i

structure InRange (o : Outputs) : Prop where
  diskList : Guarded.Along diskLineAt DiskFine ⟨[], {}, {}, 0⟩ o.g
  partList : Guarded.Along partLineAt PartFine { readDiskList o.g with state := 0 } o.h
  partShow : Guarded.Along showLine ShowFine (readGeoms o.g o.h) o.h2
  labels : readGeoms o.g o.h = [] ∨ ∀ line ∈ o.lbl, (tokens line).length ≠ 2
  mounts : ∀ line ∈ o.m, 3 ≤ (tokens line).length
  pools : ∀ disks ∈ disksOf o, Guarded.Along poolLineAt DeviceFine ⟨disks, [], [], {}, {}, 0⟩ o.a
  imports : ∀ s ∈ activeOf o, Guarded.Along importLineAt (fun s => DeviceFine s.topology)
    { s with topology := { s.topology with state := 0 } } o.i
  destroyed : ∀ s ∈ exportedOf o, Guarded.Along destroyedLineAt (fun s => DeviceFine s.topology)
    { s with topology := { s.topology with state := 0 } } o.d

theorem activeOf_eq {disks : List Vdev} {active : Topology} (known : disksOf o = some disks)
    (pooled : readPoolsAt disks o.a = some active) :
    activeOf o = some (activePools active) := by
  rw [activeOf, known, bind_some, pooled, map_some]

/-- Exactly for the outputs with a fine line everywhere, no access to a list goes outside. -/
theorem list_accesses_inside (o : Outputs) : (getCurrentTopology o).isSome ↔ InRange o := by
  constructor
  · intro through
    obtain ⟨found, run⟩ := isSome_iff_exists.mp through
    obtain ⟨geoms, listed, run⟩ := bind_eq_some_iff.mp run
    obtain ⟨disks, shown, run⟩ := bind_eq_some_iff.mp run
    obtain ⟨labels, labelled, run⟩ := bind_eq_some_iff.mp run
    obtain ⟨mounts, mounted, run⟩ := bind_eq_some_iff.mp run
    obtain ⟨active, pooled, run⟩ := bind_eq_some_iff.mp run
    obtain ⟨exported, imported, run⟩ := bind_eq_some_iff.mp run
    obtain ⟨gathered, recovered, _⟩ := bind_eq_some_iff.mp run
    have lists := (readGeomsAt_isSome o.g o.h).mp (isSome_of_eq_some listed)
    have first : disksOf o = some disks := by
      rw [disksOf, listed]
      exact shown
    have second := activeOf_eq first pooled
    have third : exportedOf o = some exported := by rw [exportedOf, second, bind_some, imported]
    have same := readGeoms_of_at listed
    refine ⟨lists.1, lists.2, ?_, ?_, (mounts_isSome labels o.m).mp (isSome_of_eq_some mounted), ?_, ?_, ?_⟩
    · rw [← same]
      exact (Guarded.isSome_iff_along showLine_isSome geoms o.h2).mp (isSome_of_eq_some shown)
    · rw [← same]
      exact (labels_isSome disks geoms (show_length shown) o.lbl).mp (isSome_of_eq_some labelled)
    · rintro _ known
      cases first.symm.trans known
      exact (readPoolsAt_isSome disks o.a).mp (isSome_of_eq_some pooled)
    · rintro _ known
      cases second.symm.trans known
      exact (readImportsAt_isSome _ o.i).mp (isSome_of_eq_some imported)
    · rintro _ known
      cases third.symm.trans known
      exact (readDestroyedAt_isSome _ o.d).mp (isSome_of_eq_some recovered)
  · intro inRange
    obtain ⟨geoms, listed⟩ := isSome_iff_exists.mp ((readGeomsAt_isSome o.g o.h).mpr ⟨inRange.diskList, inRange.partList⟩)
    have same := readGeoms_of_at listed
    obtain ⟨disks, shown⟩ := isSome_iff_exists.mp ((Guarded.isSome_iff_along showLine_isSome _ _).mpr (same ▸ inRange.partShow))
    obtain ⟨labels, labelled⟩ := isSome_iff_exists.mp
      ((labels_isSome disks geoms (show_length shown) o.lbl).mpr (same ▸ inRange.labels))
    obtain ⟨mounts, mounted⟩ := isSome_iff_exists.mp ((mounts_isSome labels o.m).mpr inRange.mounts)
    have first : disksOf o = some disks := by
      rw [disksOf, listed]
      exact shown
    obtain ⟨active, pooled⟩ := isSome_iff_exists.mp ((readPoolsAt_isSome disks o.a).mpr (inRange.pools disks first))
    have second := activeOf_eq first pooled
    obtain ⟨exported, imported⟩ := isSome_iff_exists.mp ((readImportsAt_isSome _ o.i).mpr (inRange.imports _ second))
    have third : exportedOf o = some exported := by rw [exportedOf, second, bind_some, imported]
    obtain ⟨gathered, recovered⟩ := isSome_iff_exists.mp ((readDestroyedAt_isSome _ o.d).mpr (inRange.destroyed _ third))
    rw [getCurrentTopology, listed, bind_some, shown, bind_some, labelled, bind_some, mounted, bind_some,
      pooled, bind_some, imported, bind_some, recovered, bind_some]
    obtain ⟨pools, listedPools⟩ := isSome_iff_exists.mp
      (Guarded.isSome_of_step propLine_isSome (gathered.pools.map fun pool => { pool with }) o.prop)
    obtain ⟨fileSystems, found⟩ := isSome_iff_exists.mp (Guarded.isSome_of_step fileSystemLine_isSome [] o.zfsl)
    rw [listedPools, bind_some, found, bind_some, isSome_map]
    exact Guarded.isSome_of_step fileSystemProp_isSome fileSystems o.zfspr

/-- An empty line of `mount` is enough. -/
theorem emptyLine_outside : ¬∀ o : Outputs, (getCurrentTopology o).isSome := by
  intro inside
  have through := inside { m := [[]] }
  revert through
  decide

end

end Pcbsd.Zmanager.CurrentTopology
