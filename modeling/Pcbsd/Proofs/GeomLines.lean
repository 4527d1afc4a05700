import Pcbsd.Zmanager.Geom

/-! The listings of `geom disk list` and `gpart list` as they are printed from a description of the
disks and partitions, and what pc-zmanager's loops do with them. -/

namespace Pcbsd.Zmanager
open Lib Text Numeral List

def DiskPlain (line : Bytes) : Prop :=
  startsWith line geomKey = false ∧ startsWith line mediasizeKey = false ∧ startsWith line sectorsizeKey = false ∧
    startsWith line descrKey = false

/-- A disk as it is listed, with the lines that are printed around its sizes and its description. -/
structure ListedGeom where
  name : Bytes
  word : Word name
  size : Nat
  sizeFits : size < 2 ^ 64
  human : Bytes
  sectorSize : Nat
  sectorFits : sectorSize < 2 ^ 31
  before : List Bytes
  descr : Option Bytes
  behind : List Bytes
  plain : ∀ line ∈ before ++ behind, DiskPlain line

def numbered (number : Nat) (name : Bytes) : Bytes := printNat 10 number ++ nameKey ++ name

def mediasizeLine (size : Nat) (human : Bytes) : Bytes :=
  mediasizeKey ++ (printNat 10 size ++ 0x20 :: 0x28 :: human ++ [0x29])

def ListedGeom.lines (geom : ListedGeom) : List Bytes :=
  [geomKey ++ geom.name, providersKey, numbered 1 geom.name, mediasizeLine geom.size geom.human,
    sectorsizeKey ++ printNat 10 geom.sectorSize] ++ geom.before ++ geom.descr.elim [] ([descrKey ++ ·]) ++
    geom.behind ++ [[]]

/-- A line that no key of the list of partitions begins, and that names nothing. -/
structure PartPlain (line : Bytes) : Prop where
  geom : startsWith line geomKey = false
  scheme : startsWith line schemeKey = false
  providers : startsWith line providersKey = false
  name : contains line nameKey = false
  mediasize : startsWith line mediasizeKey = false
  sectorsize : startsWith line sectorsizeKey = false
  type : startsWith line typeKey = false
  index : startsWith line indexKey = false
  last : startsWith line endKey = false
  start : startsWith line startKey = false
  consumers : startsWith line consumersKey = false

structure ListedPart where
  name : Bytes
  word : Word name
  size : Nat
  sizeFits : size < 2 ^ 64
  human : Bytes
  humanWord : Word human
  sectorSize : Nat
  sectorFits : sectorSize < 2 ^ 31
  others : List Bytes
  plain : ∀ line ∈ others, PartPlain line
  type : Bytes
  typeWord : Word type
  index : Nat
  indexFits : index < 2 ^ 31
  start : Nat
  last : Nat
  ordered : start ≤ last
  lastFits : last + 1 < 2 ^ 64

def ListedPart.lines (number : Nat) (part : ListedPart) : List Bytes :=
  [numbered number part.name, mediasizeLine part.size part.human, sectorsizeKey ++ printNat 10 part.sectorSize] ++
    part.others ++
    [typeKey ++ part.type, indexKey ++ printNat 10 part.index, endKey ++ printNat 10 part.last,
      startKey ++ printNat 10 part.start]

/-- The partitions of a disk or a slice as they are listed. The consumer is the disk or slice itself, with its sizes. -/
structure ListedTable where
  name : Bytes
  word : Word name
  config : List Bytes
  scheme : Bytes
  schemeLegal : (0x3a : UInt8) ∉ scheme
  parts : List ListedPart
  size : Nat
  human : Bytes
  sectorSize : Nat
  consumer : List Bytes
  plain : ∀ line ∈ config ++ consumer, PartPlain line

def partLines : Nat → List ListedPart → List Bytes
  | _, [] => []
  | number, part :: parts => part.lines number ++ partLines (number + 1) parts

def ListedTable.lines (table : ListedTable) : List Bytes :=
  [geomKey ++ table.name] ++ table.config ++ [schemeKey ++ table.scheme] ++
    (if table.parts = [] then [] else providersKey :: partLines 1 table.parts) ++
    [consumersKey, numbered 1 table.name, mediasizeLine table.size table.human, sectorsizeKey ++ printNat 10 table.sectorSize] ++
    table.consumer ++ [[]]

section

variable {s : GeomReader} {str : Bytes} {size : Nat} {key : Bytes}

theorem diskGeom_skip (other : startsWith str geomKey = false) (s : GeomReader) : diskGeom s str = (s, str) := by
  rw [diskGeom, if_neg (by rw [other]; exact Bool.false_ne_true)]

theorem diskMediasize_skip (other : startsWith str mediasizeKey = false ∨ s.state ≠ 1) :
    diskMediasize s str = (s, str) := by
  rw [diskMediasize, if_neg (unkeyed other)]

theorem diskSectorsize_skip (other : startsWith str sectorsizeKey = false ∨ s.state ≠ 2) :
    diskSectorsize s str = (s, str) := by
  rw [diskSectorsize, if_neg (unkeyed other)]

theorem diskDescr_skip (other : startsWith str descrKey = false ∨ s.state ≠ 3) : diskDescr s str = s := by
  rw [diskDescr, if_neg (unkeyed other)]

theorem diskLine_plain {line : Bytes} (plain : DiskPlain line) (s : GeomReader) : diskLineOf s line = s := by
  rw [diskLineOf, diskGeom_skip plain.1]
  dsimp only
  rw [diskMediasize_skip (Or.inl plain.2.1), diskSectorsize_skip (Or.inl plain.2.2.1)]
  exact diskDescr_skip (Or.inl plain.2.2.2)

theorem foldl_diskPlain {lines : List Bytes} (plain : ∀ line ∈ lines, DiskPlain line) (s : GeomReader) :
    lines.foldl diskLineOf s = s := by
  induction lines with
  | nil => rfl
  | cons line lines ih =>
    rw [foldl_cons, diskLine_plain (plain line mem_cons_self)]
    exact ih fun other member => plain other (mem_cons_of_mem line member)

def GeomReader.stored (s : GeomReader) : List Vdev := if s.state ≠ 0 then s.disks ++ [s.dsk] else s.disks

theorem word_keyless {word : Bytes} (isWord : Word word) (rest : Bytes) (front : key.head? = some 0x20) :
    startsWith (word ++ rest) key = false := by
  rw [Bool.eq_false_iff, Ne, startsWith_iff]
  rintro ⟨_, same⟩
  cases key with
  | nil => cases front
  | cons _ key =>
    cases front
    cases shape : word with
    | nil => exact isWord.1 shape
    | cons _ _ =>
      rw [shape] at same
      apply isWord.blank
      rw [shape, ← (List.cons.inj same).1]
      exact mem_cons_self

theorem diskLine_name {name : Bytes} (word : Word name) (s : GeomReader) :
    diskLineOf s (geomKey ++ name) = ⟨s.stored, { name }, s.part, 1⟩ := by
  rw [diskLineOf, diskGeom, if_pos (startsWith_append geomKey name)]
  dsimp only
  have keyless {key : Bytes} (front : key.head? = some 0x20) : startsWith name key = false := by
    rw [← append_nil name]
    exact word_keyless word [] front
  rw [show (geomKey ++ name).drop 11 = name from rfl, diskMediasize_skip (Or.inl (keyless rfl))]
  rw [diskSectorsize_skip (Or.inl (keyless rfl))]
  exact diskDescr_skip (Or.inl (keyless rfl))

theorem numbered_keyless (number : Nat) (name : Bytes) {c : UInt8} (front : key.head? = some c)
    (other : isDigitIn 10 c = false) : startsWith (numbered number name) key = false := by
  have digits := @printNat_digits 10 (by decide) (by decide) number
  rw [Bool.eq_false_iff, Ne, startsWith_iff, numbered]
  rintro ⟨_, same⟩
  cases key with
  | nil => cases front
  | cons _ key =>
    cases front
    cases shape : printNat 10 number with
    | nil => exact printNat_ne_nil 10 number shape
    | cons d _ =>
      rw [shape] at same digits
      have equal : c = d := (List.cons.inj same).1
      have digit := digits d mem_cons_self
      rw [← equal, other] at digit
      cases digit

theorem mediasizeLine_drop (size : Nat) (human : Bytes) :
    (mediasizeLine size human).drop 14 = printNat 10 size ++ (0x20 :: 0x28 :: human ++ [0x29]) := by
  rw [mediasizeLine, show (14 : Nat) = mediasizeKey.length from rfl, drop_left, append_assoc]

theorem mediasize_line (fits : size < 2 ^ 64) (human : Bytes) (before : Nat) :
    mediasize ((mediasizeLine size human).drop 14) before = size := by
  have words : tokens (printNat 10 size ++ (0x20 :: 0x28 :: human ++ [0x29])) = printNat 10 size ::
    tokens (0x28 :: human ++ [0x29]) :=
    tokens_word (printNat_word size) _
  rw [mediasize, mediasizeLine_drop, words]
  exact toULongLong_printNat fits

theorem diskLine_mediasize (named : s.state = 1) (fits : size < 2 ^ 64) (human : Bytes) :
    diskLineOf s (mediasizeLine size human) = { s with dsk := { s.dsk with size }, state := 2 } := by
  have key : startsWith (mediasizeLine size human) mediasizeKey = true := startsWith_append _ _
  have keyless {key : Bytes} (front : key.head? = some 0x20) :
    startsWith ((mediasizeLine size human).drop 14) key = false := by
    rw [mediasizeLine_drop]
    exact word_keyless (printNat_word size) _ front
  rw [diskLineOf, diskGeom_skip rfl]
  dsimp only
  rw [diskMediasize, if_pos (And.intro key named)]
  dsimp only
  rw [diskSectorsize_skip (Or.inl (keyless rfl)), mediasize_line fits]
  exact diskDescr_skip (Or.inl (keyless rfl))

theorem diskLine_sectorsize (sized : s.state = 2) (fits : size < 2 ^ 31) :
    diskLineOf s (sectorsizeKey ++ printNat 10 size) = { s with dsk := { s.dsk with sectorSize := size }, state := 3 } := by
  have keyless : startsWith (printNat 10 size) descrKey = false := by
    rw [← append_nil (printNat 10 size)]
    exact word_keyless (printNat_word size) [] rfl
  rw [diskLineOf, diskGeom_skip rfl]
  dsimp only
  rw [diskMediasize_skip (Or.inl rfl)]
  rw [diskSectorsize, if_pos (And.intro (startsWith_append sectorsizeKey (printNat 10 size)) sized)]
  dsimp only
  rw [show (sectorsizeKey ++ printNat 10 size).drop 15 = printNat 10 size from rfl, toInt_printNat fits]
  exact diskDescr_skip (Or.inl keyless)

theorem diskLine_descr (sized : s.state = 3) (descr : Bytes) :
    diskLineOf s (descrKey ++ descr) = { s with dsk := { s.dsk with description := descr }, state := 4 } := by
  rw [diskLineOf, diskGeom_skip rfl]
  dsimp only
  rw [diskMediasize_skip (Or.inl rfl), diskSectorsize_skip (Or.inl rfl)]
  rw [diskDescr, if_pos (And.intro (startsWith_append descrKey descr) sized)]
  rfl

def ListedGeom.vdev (geom : ListedGeom) : Vdev :=
  { name := geom.name, size := geom.size, sectorSize := geom.sectorSize, description := geom.descr.getD [] }

theorem numbered_diskPlain (number : Nat) (name : Bytes) : DiskPlain (numbered number name) :=
  ⟨numbered_keyless number name rfl (by decide), numbered_keyless number name rfl (by decide),
    numbered_keyless number name rfl (by decide), numbered_keyless number name rfl (by decide)⟩

theorem foldl_geom (geom : ListedGeom) (s : GeomReader) :
    geom.lines.foldl diskLineOf s = ⟨s.stored, geom.vdev, s.part, if geom.descr = none then 3 else 4⟩ := by
  have before : ∀ line ∈ geom.before, DiskPlain line := fun line member => geom.plain line (mem_append_left _ member)
  have behind : ∀ line ∈ geom.behind, DiskPlain line := fun line member => geom.plain line (mem_append_right _ member)
  simp only [ListedGeom.lines, foldl_append, foldl_cons, foldl_nil]
  rw [diskLine_name geom.word, diskLine_plain ⟨rfl, rfl, rfl, rfl⟩, diskLine_plain (numbered_diskPlain 1 geom.name),
    diskLine_mediasize rfl geom.sizeFits, diskLine_sectorsize rfl geom.sectorFits, foldl_diskPlain before]
  cases descr : geom.descr with
  | none =>
    rw [Option.elim_none, foldl_nil, foldl_diskPlain behind, diskLine_plain ⟨rfl, rfl, rfl, rfl⟩, if_pos rfl,
      ListedGeom.vdev, descr]
    rfl
  | some _ =>
    rw [Option.elim_some, foldl_cons, foldl_nil, diskLine_descr rfl, foldl_diskPlain behind,
      diskLine_plain ⟨rfl, rfl, rfl, rfl⟩, if_neg (by simp), ListedGeom.vdev, descr]
    rfl

theorem foldl_geoms (geoms : List ListedGeom) (s : GeomReader) :
    ((geoms.flatMap ListedGeom.lines).foldl diskLineOf s).stored = s.stored ++ geoms.map ListedGeom.vdev := by
  induction geoms generalizing s with
  | nil => simp
  | cons geom geoms ih =>
    rw [flatMap_cons, foldl_append, ih, foldl_geom, map_cons, append_cons]
    have present : (if geom.descr = none then (3 : Int) else 4) ≠ 0 := by split <;> omega
    rw [GeomReader.stored, if_pos present]

theorem readDiskList_disks (geoms : List ListedGeom) :
    (readDiskList (geoms.flatMap ListedGeom.lines)).disks =
      (if ∀ geom ∈ geoms.getLast?, geom.descr ≠ none then geoms else geoms.dropLast).map ListedGeom.vdev := by
  rcases eq_nil_or_concat' geoms with rfl | ⟨front, last, rfl⟩
  · rfl
  · have found := foldl_geoms front ⟨[], {}, {}, 0⟩
    rw [readDiskList, flatMap_append, foldl_append, flatMap_singleton, foldl_geom, found, getLast?_concat,
      dropLast_concat]
    dsimp only
    cases descr : last.descr with
    | none =>
      rw [if_pos rfl, if_neg (by decide), if_neg (by simp [descr])]
      rfl
    | some text =>
      have kept : ∀ geom ∈ some last, geom.descr ≠ none := by
        intro geom member
        cases member
        rw [descr]
        exact Option.some_ne_none text
      rw [if_pos kept, if_pos (by simp), map_append]
      rfl

end

section

def noPair (a : UInt8) : Bytes → Bool
  | [] => true
  | c :: str => !(c == a && str.head? == some 0x20) && noPair a str

variable {rest word : Bytes} {a : UInt8}

theorem noPair_front {front : Bytes} (free : a ∉ front) (behind : noPair a rest = true) :
    noPair a (front ++ rest) = true := by
  induction front with
  | nil => exact behind
  | cons c front ih =>
    have other : (c == a) = false := by
      rw [beq_eq_false_iff_ne]
      rintro rfl
      exact free mem_cons_self
    rw [cons_append, noPair, other, ih fun member => free (mem_cons_of_mem c member)]
    rfl

theorem noPair_word (isWord : Word word) (behind : noPair a rest = true) (ends : rest.head? ≠ some 0x20) : noPair a
    (word ++ rest) = true := by
  have blankless := isWord.blank
  clear isWord
  induction word with
  | nil => exact behind
  | cons c word ih =>
    have next : ((word ++ rest).head? == some (0x20 : UInt8)) = false := by
      rw [beq_eq_false_iff_ne]
      cases word with
      | nil => exact ends
      | cons _ word =>
        intro same
        cases same
        exact blankless (mem_cons_of_mem c mem_cons_self)
    rw [cons_append, noPair, next, ih fun member => blankless (mem_cons_of_mem c member), Bool.and_false]
    rfl

theorem noPair_infix {str : Bytes} (none : noPair a str = true) : ¬[a, 0x20] <:+: str := by
  rintro ⟨before, behind, rfl⟩
  induction before with
  | nil =>
    have pair : noPair a (a :: 0x20 :: behind) = false := by
      rw [noPair, beq_self_eq_true]
      rfl
    rw [nil_append] at none
    exact absurd none (by rw [show [a, 0x20] ++ behind = a :: 0x20 :: behind from rfl, pair]; exact Bool.false_ne_true)
  | cons _ before ih =>
    rw [cons_append, cons_append, noPair, Bool.and_eq_true] at none
    exact ih none.2

theorem noStop_contains {line : Bytes} (stopless : noPair 0x2e line = true) : contains line nameKey = false := by
  rw [Bool.eq_false_iff, Ne, contains_iff]
  intro named
  have stop : [0x2e, 0x20] <+: nameKey := ⟨nameKey.drop 2, rfl⟩
  exact noPair_infix stopless (stop.isInfix.trans named)

theorem printNat_stopless (n : Nat) : (0x2e : UInt8) ∉ printNat 10 n := by
  intro member
  have digit := @printNat_digits 10 (by decide) (by decide) n 0x2e member
  revert digit
  decide

theorem keyed_nameless {key : Bytes} (stopless : (0x2e : UInt8) ∉ key) (isWord : Word word) :
    contains (key ++ word) nameKey = false := by
  have behind : noPair 0x2e (word ++ []) = true := noPair_word isWord rfl (by decide)
  rw [append_nil] at behind
  exact noStop_contains (noPair_front stopless behind)

theorem mediasizeLine_nameless (size : Nat) {human : Bytes} (word : Word human) :
    contains (mediasizeLine size human) nameKey = false := by
  apply noStop_contains
  have shape : mediasizeLine size human = mediasizeKey ++
    (printNat 10 size ++ ([0x20, 0x28] ++ (human ++ [0x29]))) := by
    rw [mediasizeLine, append_assoc]
    rfl
  rw [shape]
  exact noPair_front (by decide)
    (noPair_front (printNat_stopless size) (noPair_front (by decide) (noPair_word word (by decide) (by decide))))

theorem numbered_named (number : Nat) (name : Bytes) : contains (numbered number name) nameKey = true :=
  contains_iff.mpr ⟨printNat 10 number, name, rfl⟩

end

section

variable {s : GeomReader} {str key line name : Bytes} {state : Int} {size : Nat}

theorem partGeom_skip (other : startsWith str geomKey = false) (s : GeomReader) : partGeom s str = (s, str) := by
  rw [partGeom, if_neg (by rw [other]; exact Bool.false_ne_true)]

theorem partScheme_skip (other : startsWith str schemeKey = false ∨ s.state ≠ 1) :
    partScheme s str = (s, str) := by
  rw [partScheme, if_neg (unkeyed other)]

theorem partProviders_skip (other : startsWith str providersKey = false ∨ s.state ≠ 2) :
    partProviders s str = s := by
  rw [partProviders, if_neg (unkeyed other)]

theorem partName_skip (other : contains str nameKey = false ∨ ¬3 ≤ s.state) :
    partName s str = (s, str) := by
  rw [partName, if_neg (unkeyed other)]

theorem partMediasize_skip (other : startsWith str mediasizeKey = false ∨ s.state ≠ 4) :
    partMediasize s str = (s, str) := by
  rw [partMediasize, if_neg (unkeyed other)]

theorem partField_skip (set : Bytes → Vdev → Vdev)
    (other : startsWith str key = false ∨ s.state ≠ state) : partField key state set s str = (s, str) := by
  rw [partField, if_neg (unkeyed other)]

theorem partConsumers_skip (other : startsWith str consumersKey = false ∨ s.state ≠ 10) :
    partConsumers s str = s := by
  rw [partConsumers, if_neg (unkeyed other)]

def partFields (s : GeomReader) (str : Bytes) : GeomReader :=
  let (s, str) := partSectorsize s str
  let (s, str) := partType s str
  let (s, str) := partIndex s str
  let (s, str) := partEnd s str
  let (s, str) := partStart s str
  partConsumers s str

theorem partLine_stages (s : GeomReader) (line : Bytes) :
    partLine s line =
      let (s, str) := partGeom s line
      let (s, str) := partScheme s str
      let s := partProviders s str
      let (s, str) := partName s str
      let (s, str) := partMediasize s str
      partFields s str := rfl

theorem partLine_within (geom : startsWith line geomKey = false)
    (scheme : startsWith line schemeKey = false ∨ s.state ≠ 1)
    (providers : startsWith line providersKey = false ∨ s.state ≠ 2)
    (name : contains line nameKey = false ∨ ¬3 ≤ s.state) :
    partLine s line = partFields (partMediasize s line).1 (partMediasize s line).2 := by
  rw [partLine_stages, partGeom_skip geom]
  dsimp only
  rw [partScheme_skip scheme, partProviders_skip providers, partName_skip name]

theorem partFields_skip (sectorsize : startsWith str sectorsizeKey = false ∨ s.state ≠ 5)
    (type : startsWith str typeKey = false ∨ s.state ≠ 6) (index : startsWith str indexKey = false ∨ s.state ≠ 7)
    (last : startsWith str endKey = false ∨ s.state ≠ 8) (start : startsWith str startKey = false ∨ s.state ≠ 9)
    (consumers : startsWith str consumersKey = false ∨ s.state ≠ 10) : partFields s str = s := by
  rw [partFields, partSectorsize, partField_skip _ sectorsize]
  dsimp only
  rw [partType, partField_skip _ type, partIndex, partField_skip _ index, partEnd, partField_skip _ last]
  rw [partStart, partField_skip _ start]
  exact partConsumers_skip consumers

theorem partFields_early (early : s.state < 5) (str : Bytes) : partFields s str = s :=
  partFields_skip (Or.inr (by omega)) (Or.inr (by omega)) (Or.inr (by omega)) (Or.inr (by omega)) (Or.inr (by omega))
    (Or.inr (by omega))

theorem partLine_plain (plain : PartPlain line) (s : GeomReader) : partLine s line = s := by
  rw [partLine_within plain.geom (Or.inl plain.scheme) (Or.inl plain.providers) (Or.inl plain.name),
    partMediasize_skip (Or.inl plain.mediasize)]
  exact partFields_skip (Or.inl plain.sectorsize) (Or.inl plain.type) (Or.inl plain.index) (Or.inl plain.last)
    (Or.inl plain.start) (Or.inl plain.consumers)

theorem foldl_partPlain {lines : List Bytes} (plain : ∀ line ∈ lines, PartPlain line) (s : GeomReader) :
    lines.foldl partLine s = s := by
  induction lines with
  | nil => rfl
  | cons line lines ih =>
    rw [foldl_cons, partLine_plain (plain line mem_cons_self)]
    exact ih fun other member => plain other (mem_cons_of_mem line member)

def GeomReader.attached (s : GeomReader) : List Vdev := if s.state ≠ 0 then attach s.dsk s.disks else s.disks

theorem word_unkeyed {word : Bytes} (isWord : Word word)
    (blank : (0x20 : UInt8) ∈ key) : startsWith word key = false := by
  rw [Bool.eq_false_iff, Ne, startsWith_iff]
  rintro ⟨rest, rfl⟩
  exact isWord.blank (mem_append_left rest blank)

theorem partLine_geom (word : Word name) (s : GeomReader) :
    partLine s (geomKey ++ name) = ⟨s.attached, { name, level := geomLevel name s.attached, inPool := s.dsk.inPool },
      s.part, 1⟩ := by
  rw [partLine_stages, partGeom, if_pos (startsWith_append geomKey name)]
  dsimp only
  rw [show (geomKey ++ name).drop 11 = name from rfl, partScheme_skip (Or.inl (word_unkeyed word (by decide)))]
  rw [partProviders_skip (Or.inr (by simp)), partName_skip (Or.inr (by simp)), partMediasize_skip (Or.inr (by simp))]
  exact partFields_early (by simp) _

theorem partLine_scheme (named : s.state = 1) {scheme : Bytes} (legal : (0x3a : UInt8) ∉ scheme) :
    partLine s (schemeKey ++ scheme) = { s with dsk := { s.dsk with partType := scheme }, state := 2 } := by
  have provided : startsWith scheme providersKey = false := by
    rw [Bool.eq_false_iff, Ne, startsWith_iff]
    rintro ⟨rest, rfl⟩
    exact legal (mem_append_left rest (by decide))
  rw [partLine_stages, partGeom_skip rfl]
  dsimp only
  rw [partScheme, if_pos (And.intro (startsWith_append schemeKey scheme) named)]
  rw [show (schemeKey ++ scheme).drop 8 = scheme from rfl, partProviders_skip (Or.inl provided),
    partName_skip (Or.inr (by simp))]
  rw [partMediasize_skip (Or.inr (by simp))]
  exact partFields_early (by simp) _

theorem partLine_providers (schemed : s.state = 2) : partLine s providersKey = { s with state := 3 } := by
  have key : startsWith providersKey providersKey = true := rfl
  rw [partLine_stages, partGeom_skip rfl]
  dsimp only
  rw [partScheme_skip (Or.inl rfl)]
  dsimp only
  rw [partProviders, if_pos (And.intro key schemed), partName_skip (Or.inl (by decide +kernel))]
  rw [partMediasize_skip (Or.inr (by simp))]
  exact partFields_early (by simp) _

def readName (number : Nat) (name : Bytes) : Bytes := (numbered number name).drop 9

theorem readName_keyless (number : Nat) (word : Word name) (front : [0x20, 0x20] <+: key) :
    startsWith (readName number name) key = false := by
  have behind : noPair 0x20 (name ++ []) = true := noPair_word word rfl (by decide)
  have first : name.head? ≠ some 0x20 := by
    intro blank
    exact word.blank (mem_of_mem_head? blank)
  have key_name : noPair 0x20 (nameKey ++ name) = true := by
    rw [append_nil] at behind
    change (true && (true && (true && (true && (true && (true && (true && (!((0x20 : UInt8) == 0x20 && name.head? == some 0x20) &&
      noPair 0x20 name)))))))) = true
    rw [behind, beq_eq_false_iff_ne.mpr first]
    rfl
  have blankless := (printNat_word number).blank
  have line := noPair_front blankless key_name
  rw [Bool.eq_false_iff, Ne, startsWith_iff]
  intro started
  rw [readName, numbered, append_assoc] at started
  exact noPair_infix line ((front.trans started).isInfix.trans (drop_suffix 9 _).isInfix)

def GeomReader.flushed (s : GeomReader) : Vdev :=
  if 3 < s.state then { s.dsk with partitions := insertPart s.part s.dsk.partitions } else s.dsk

theorem partLine_name (providers : 3 ≤ s.state) (number : Nat) (word : Word name) :
    partLine s (numbered number name) =
      ⟨s.disks, s.flushed, { name := readName number name, level := s.dsk.level + 1 }, 4⟩ := by
  have level : s.flushed.level = s.dsk.level := by
    rw [GeomReader.flushed]
    split <;> rfl
  rw [partLine_stages, partGeom_skip (numbered_keyless number name rfl (by decide))]
  dsimp only
  rw [partScheme_skip (Or.inr (by omega))]
  dsimp only
  rw [partProviders_skip (Or.inr (by omega)), partName, if_pos (And.intro (numbered_named number name) providers)]
  rw [show (numbered number name).drop 9 = readName number name from rfl,
    partMediasize_skip (Or.inl (readName_keyless number word ⟨_, rfl⟩))]
  have read : (⟨s.disks, s.flushed, { name := readName number name, level := s.flushed.level + 1 }, 4⟩ : GeomReader) =
      ⟨s.disks, s.flushed, { name := readName number name, level := s.dsk.level + 1 }, 4⟩ := by rw [level]
  refine (partFields_early ?_ _).trans read
  change (4 : Int) < 5
  decide

theorem partLine_mediasize (named : s.state = 4) (fits : size < 2 ^ 64) {human : Bytes} (word : Word human) :
    partLine s (mediasizeLine size human) = { s with part := { s.part with size }, state := 5 } := by
  have keyless : startsWith ((mediasizeLine size human).drop 14) sectorsizeKey = false := by
    rw [mediasizeLine_drop]
    exact word_keyless (printNat_word size) _ rfl
  have key : startsWith (mediasizeLine size human) mediasizeKey = true := startsWith_append _ _
  rw [partLine_within rfl (Or.inl rfl) (Or.inl rfl) (Or.inl (mediasizeLine_nameless size word)), partMediasize,
    if_pos (And.intro key named)]
  dsimp only
  rw [mediasize_line fits]
  exact partFields_skip (Or.inl keyless) (Or.inr (by simp)) (Or.inr (by simp)) (Or.inr (by simp)) (Or.inr (by simp))
    (Or.inr (by simp))

theorem partField_take (set : Bytes → Vdev → Vdev) (reached : s.state = state) (text : Bytes) :
    partField key state set s (key ++ text) = ({ s with part := set text s.part, state := state + 1 }, text) := by
  rw [partField, if_pos (And.intro (startsWith_append key text) reached), drop_left]

theorem partLine_field (geom : startsWith line geomKey = false) (scheme : startsWith line schemeKey = false)
    (providers : startsWith line providersKey = false) (name : contains line nameKey = false)
    (mediasize : startsWith line mediasizeKey = false) : partLine s line = partFields s line := by
  rw [partLine_within geom (Or.inl scheme) (Or.inl providers) (Or.inl name), partMediasize_skip (Or.inl mediasize)]

theorem partLine_sectorsize (sized : s.state = 5) (fits : size < 2 ^ 31) :
    partLine s (sectorsizeKey ++ printNat 10 size) = { s with part := { s.part with sectorSize := size }, state := 6 } := by
  have word := printNat_word size
  rw [partLine_field rfl rfl rfl (keyed_nameless (by decide) word) rfl, partFields, partSectorsize, partField_take _ sized]
  dsimp only
  rw [partType, partField_skip _ (Or.inl (word_unkeyed word (by decide)))]
  rw [partIndex, partField_skip _ (Or.inr (by simp)), partEnd, partField_skip _ (Or.inr (by simp))]
  rw [partStart, partField_skip _ (Or.inr (by simp)), partConsumers_skip (Or.inr (by simp)), toInt_printNat fits]
  rfl

theorem partLine_type (sectored : s.state = 6) {type : Bytes} (word : Word type) :
    partLine s (typeKey ++ type) = { s with part := { s.part with partType := type }, state := 7 } := by
  rw [partLine_field rfl rfl rfl (keyed_nameless (by decide) word) rfl, partFields, partSectorsize,
    partField_skip _ (Or.inl rfl)]
  dsimp only
  rw [partType, partField_take _ sectored, partIndex, partField_skip _ (Or.inl (word_unkeyed word (by decide)))]
  rw [partEnd, partField_skip _ (Or.inr (by simp)), partStart, partField_skip _ (Or.inr (by simp))]
  exact partConsumers_skip (Or.inr (by simp))

theorem partLine_index (typed : s.state = 7) {index : Nat} (fits : index < 2 ^ 31) :
    partLine s (indexKey ++ printNat 10 index) = { s with part := { s.part with index := index }, state := 8 } := by
  have word := printNat_word index
  rw [partLine_field rfl rfl rfl (keyed_nameless (by decide) word) rfl, partFields, partSectorsize,
    partField_skip _ (Or.inl rfl)]
  dsimp only
  rw [partType, partField_skip _ (Or.inl rfl), partIndex, partField_take _ typed]
  rw [partEnd, partField_skip _ (Or.inl (word_unkeyed word (by decide)))]
  rw [partStart, partField_skip _ (Or.inr (by simp)), partConsumers_skip (Or.inr (by simp)), toInt_printNat fits]
  rfl

theorem partLine_end (indexed : s.state = 8) {last : Nat} (fits : last < 2 ^ 64) :
    partLine s (endKey ++ printNat 10 last) = { s with part := { s.part with sectorsCount := last }, state := 9 } := by
  have word := printNat_word last
  rw [partLine_field rfl rfl rfl (keyed_nameless (by decide) word) rfl, partFields, partSectorsize,
    partField_skip _ (Or.inl rfl)]
  dsimp only
  rw [partType, partField_skip _ (Or.inl rfl), partIndex, partField_skip _ (Or.inl rfl)]
  rw [partEnd, partField_take _ indexed, partStart, partField_skip _ (Or.inl (word_unkeyed word (by decide)))]
  rw [partConsumers_skip (Or.inr (by simp)), toULongLong_printNat fits]
  rfl

theorem partLine_start (ended : s.state = 9) {start : Nat} (ordered : start ≤ s.part.sectorsCount)
    (fits : s.part.sectorsCount + 1 < 2 ^ 64) :
    partLine s (startKey ++ printNat 10 start) =
      { s with part := { s.part with sectorStart := start, sectorsCount := s.part.sectorsCount - start + 1 }, state := 10 } := by
  have word := printNat_word start
  have number : toULongLong (printNat 10 start) = start := toULongLong_printNat (by omega)
  have count : (s.part.sectorsCount + 2 ^ 64 - (start + (2 ^ 64 - 1)) % 2 ^ 64) % 2 ^ 64 = s.part.sectorsCount - start + 1 := by omega
  have digits : startsWith (printNat 10 start) consumersKey = false := by
    rw [Bool.eq_false_iff, Ne, startsWith_iff]
    rintro ⟨_, same⟩
    have digit := @printNat_digits 10 (by decide) (by decide) start 0x43 (by rw [← same]; exact mem_cons_self)
    revert digit
    decide
  rw [partLine_field rfl rfl rfl (keyed_nameless (by decide) word) rfl, partFields, partSectorsize, partField_skip _ (Or.inl rfl)]
  dsimp only
  rw [partType, partField_skip _ (Or.inl rfl), partIndex, partField_skip _ (Or.inl rfl)]
  rw [partEnd, partField_skip _ (Or.inl rfl), partStart, partField_take _ ended]
  rw [partConsumers_skip (Or.inl digits), number, count]
  rfl

theorem partLine_consumers (started : s.state = 10) :
    partLine s consumersKey = { s with dsk := { s.dsk with partitions := insertPart s.part s.dsk.partitions }, state := -1 } := by
  have key : startsWith consumersKey consumersKey = true := rfl
  rw [partLine_field rfl rfl rfl (by decide +kernel) rfl, partFields, partSectorsize, partField_skip _ (Or.inl rfl)]
  dsimp only
  rw [partType, partField_skip _ (Or.inl rfl), partIndex, partField_skip _ (Or.inl rfl)]
  rw [partEnd, partField_skip _ (Or.inl rfl), partStart, partField_skip _ (Or.inl rfl)]
  rw [partConsumers, if_pos (And.intro key started)]

def ListedPart.vdev (level number : Nat) (part : ListedPart) : Vdev :=
  { name := readName number part.name
    level := level + 1
    index := part.index
    partType := part.type
    sectorSize := part.sectorSize
    sectorStart := part.start
    sectorsCount := part.last - part.start + 1
    size := part.size }

theorem foldl_part (providers : 3 ≤ s.state) (number : Nat) (part : ListedPart) :
    (part.lines number).foldl partLine s = ⟨s.disks, s.flushed, part.vdev s.dsk.level number, 10⟩ := by
  have lastFits := part.lastFits
  simp only [ListedPart.lines, foldl_append, foldl_cons, foldl_nil]
  rw [partLine_name providers number part.word, partLine_mediasize rfl part.sizeFits part.humanWord, partLine_sectorsize rfl part.sectorFits,
    foldl_partPlain part.plain, partLine_type rfl part.typeWord, partLine_index rfl part.indexFits, partLine_end rfl (by omega),
    partLine_start rfl part.ordered part.lastFits]
  rfl

end

def partVdevs (level : Nat) : Nat → List ListedPart → List Vdev
  | _, [] => []
  | number, part :: parts => part.vdev level number :: partVdevs level (number + 1) parts

def insertParts (parts : List Vdev) (vdevs : List Vdev) : List Vdev :=
  vdevs.foldl (fun parts v => insertPart v parts) parts

theorem flushed_level (s : GeomReader) : s.flushed.level = s.dsk.level := by
  rw [GeomReader.flushed]
  split <;> rfl

theorem foldl_parts {s : GeomReader} (providers : 3 ≤ s.state) (number : Nat) (parts : List ListedPart) :
    ((partLines number parts).foldl partLine s).disks = s.disks ∧
      ((partLines number parts).foldl partLine s).flushed =
        { s.flushed with partitions := insertParts s.flushed.partitions (partVdevs s.dsk.level number parts) } ∧
      ((partLines number parts).foldl partLine s).state = if parts = [] then s.state else 10 := by
  induction parts generalizing s number with
  | nil =>
    refine ⟨rfl, ?_, rfl⟩
    change s.flushed = { s.flushed with partitions := s.flushed.partitions }
    cases s.flushed
    rfl
  | cons part parts ih =>
    rw [partLines, foldl_append, foldl_part providers]
    obtain ⟨disks, flushed, state⟩ := ih (s := ⟨s.disks, s.flushed, part.vdev s.dsk.level number, 10⟩) (by simp) (number + 1)
    refine ⟨disks, ?_, ?_⟩
    · rw [flushed]
      have last : GeomReader.flushed ⟨s.disks, s.flushed, part.vdev s.dsk.level number, 10⟩ =
          { s.flushed with partitions := insertPart (part.vdev s.dsk.level number) s.flushed.partitions } := rfl
      rw [flushed_level]
      rfl
    · rw [state, if_neg (cons_ne_nil part parts)]
      split <;> rfl

def ListedTable.geom (table : ListedTable) (level : Nat) : Vdev :=
  { name := table.name, level, partType := table.scheme, partitions := insertParts [] (partVdevs level 1 table.parts) }

theorem attach_congr {dsk dsk' : Vdev} (name : dsk.name = dsk'.name) (partType : dsk.partType = dsk'.partType)
    (partitions : dsk.partitions = dsk'.partitions) (disks : List Vdev) : attach dsk disks = attach dsk' disks := by
  have give (v : Vdev) : giveParts dsk v = giveParts dsk' v := by rw [giveParts, giveParts, partType, partitions]
  have slice (parts : List Vdev) : attachSlice dsk parts = attachSlice dsk' parts := by
    induction parts with
    | nil => rfl
    | cons _ parts ih => rw [attachSlice, attachSlice, name, give, ih]
  induction disks with
  | nil => rfl
  | cons _ disks ih => rw [attach, attach, name, give, slice, ih]

theorem foldl_consumer {s : GeomReader} (passed : s.state = -1 ∨ s.state = 2) (table : ListedTable) :
    ([numbered 1 table.name, mediasizeLine table.size table.human, sectorsizeKey ++ printNat 10 table.sectorSize] ++
      table.consumer ++ [[]]).foldl partLine s = s := by
  have plain : ∀ line ∈ table.consumer, PartPlain line :=
    fun line member => table.plain line (mem_append_right _ member)
  have states : s.state ≠ 1 ∧ ¬3 ≤ s.state ∧ s.state ≠ 4 ∧ s.state < 5 := by omega
  have name : partLine s (numbered 1 table.name) = s := by
    rw [partLine_within (numbered_keyless 1 table.name rfl (by decide)) (Or.inr states.1)
      (Or.inl (numbered_keyless 1 table.name rfl (by decide))) (Or.inr states.2.1),
      partMediasize_skip (Or.inr states.2.2.1)]
    exact partFields_early states.2.2.2 _
  have size : partLine s (mediasizeLine table.size table.human) = s := by
    rw [partLine_within rfl (Or.inl rfl) (Or.inl rfl) (Or.inr states.2.1), partMediasize_skip (Or.inr states.2.2.1)]
    exact partFields_early states.2.2.2 _
  have sector : partLine s (sectorsizeKey ++ printNat 10 table.sectorSize) = s := by
    rw [partLine_within rfl (Or.inl rfl) (Or.inl rfl) (Or.inr states.2.1), partMediasize_skip (Or.inr states.2.2.1)]
    exact partFields_early states.2.2.2 _
  have blank : partLine s [] = s := by
    rw [partLine_within rfl (Or.inl rfl) (Or.inl rfl) (Or.inr states.2.1), partMediasize_skip (Or.inl rfl)]
    exact partFields_early states.2.2.2 _
  simp only [foldl_append, foldl_cons, foldl_nil]
  rw [name, size, sector, foldl_partPlain plain, blank]

theorem foldl_table (table : ListedTable) (s : GeomReader) :
    ∃ dsk, (table.lines.foldl partLine s).disks = s.attached ∧ (table.lines.foldl partLine s).dsk = dsk ∧
      (table.lines.foldl partLine s).state = (if table.parts = [] then 2 else -1) ∧
      (∀ disks, attach dsk disks = attach (table.geom (geomLevel table.name s.attached)) disks) := by
  have config : ∀ line ∈ table.config, PartPlain line := fun line member => table.plain line (mem_append_left _ member)
  have lines : table.lines = [geomKey ++ table.name] ++ table.config ++ [schemeKey ++ table.scheme] ++
      ((if table.parts = [] then [] else providersKey :: partLines 1 table.parts) ++ ([consumersKey] ++
      ([numbered 1 table.name, mediasizeLine table.size table.human, sectorsizeKey ++ printNat 10 table.sectorSize] ++ table.consumer ++
        [[]]))) := by
    simp only [ListedTable.lines, append_assoc, cons_append, nil_append]
  have begun : ([geomKey ++ table.name] ++ table.config ++ [schemeKey ++ table.scheme]).foldl partLine s =
      ⟨s.attached, { name := table.name, level := geomLevel table.name s.attached, partType := table.scheme, inPool := s.dsk.inPool },
        s.part, 2⟩ := by
    simp only [foldl_append, foldl_cons, foldl_nil]
    rw [partLine_geom table.word, foldl_partPlain config, partLine_scheme rfl table.schemeLegal]
  rw [lines, foldl_append, begun, foldl_append, foldl_append]
  by_cases empty : table.parts = []
  · have consumers (t : GeomReader) (two : t.state = 2) : partLine t consumersKey = t := by
      rw [partLine_within rfl (Or.inl rfl) (Or.inl rfl) (Or.inl (by decide +kernel)), partMediasize_skip (Or.inl rfl)]
      exact partFields_early (show t.state < 5 by omega) _
    rw [if_pos empty, if_pos empty, foldl_nil, foldl_cons, foldl_nil, consumers _ rfl, foldl_consumer (Or.inr rfl)]
    refine ⟨_, rfl, rfl, rfl, fun disks => ?_⟩
    apply attach_congr
    · rfl
    · rfl
    · rw [ListedTable.geom, empty]
      rfl
  · obtain ⟨disks, flushed, state⟩ := foldl_parts (s := ⟨s.attached,
      { name := table.name, level := geomLevel table.name s.attached, partType := table.scheme, inPool := s.dsk.inPool }, s.part, 3⟩)
      (by simp) 1 table.parts
    rw [if_neg empty] at state
    simp only [if_neg empty, foldl_cons, foldl_nil]
    rw [partLine_providers rfl, partLine_consumers state, foldl_consumer (Or.inl rfl)]
    rw [GeomReader.flushed, if_pos (by rw [state]; decide)] at flushed
    refine ⟨_, disks, flushed, rfl, fun disks => ?_⟩
    apply attach_congr
    · rfl
    · rfl
    · rfl

def attachTable (disks : List Vdev) (table : ListedTable) : List Vdev :=
  attach (table.geom (geomLevel table.name disks)) disks

theorem foldl_tables (tables : List ListedTable) (s : GeomReader) :
    ((tables.flatMap ListedTable.lines).foldl partLine s).attached = tables.foldl attachTable s.attached := by
  induction tables generalizing s with
  | nil => rfl
  | cons table tables ih =>
    obtain ⟨_, disks, geom, state, attaching⟩ := foldl_table table s
    have present : (if table.parts = [] then (2 : Int) else -1) ≠ 0 := by split <;> omega
    rw [flatMap_cons, foldl_append, ih, foldl_cons]
    rw [GeomReader.attached, state, if_pos present, disks, geom, attaching]
    rfl

def keptTables (tables : List ListedTable) : List ListedTable :=
  if ∀ last ∈ tables.getLast?, last.parts ≠ [] then tables else tables.dropLast

theorem readPartList_disks (s : GeomReader) (tables : List ListedTable) :
    readPartList s (tables.flatMap ListedTable.lines) = (keptTables tables).foldl attachTable s.disks := by
  rcases eq_nil_or_concat' tables with rfl | ⟨front, last, rfl⟩
  · rfl
  · have before := foldl_tables front { s with state := 0 }
    obtain ⟨_, disks, geom, state, attaching⟩ :=
      foldl_table last ((front.flatMap ListedTable.lines).foldl partLine { s with state := 0 })
    rw [before] at disks attaching
    rw [readPartList, flatMap_append, foldl_append, flatMap_singleton, keptTables, getLast?_concat,
      dropLast_concat]
    by_cases empty : last.parts = []
    · have dropped : ¬∀ table ∈ some last, table.parts ≠ [] := fun all => all last rfl empty
      rw [if_pos empty] at state
      rw [if_neg dropped, if_neg (by rw [state]; decide), disks]
      rfl
    · have kept : ∀ table ∈ some last, table.parts ≠ [] := by
        rintro table ⟨⟩
        exact empty
      rw [if_neg empty] at state
      rw [if_pos kept, if_pos (by rw [state]; decide), disks, geom, attaching, foldl_append]
      rfl

end Pcbsd.Zmanager
