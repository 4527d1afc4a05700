import Pcbsd.Devicename

/-! Device names of the loader formatted and parsed again. -/

namespace Pcbsd.Devicename
open Lib Numeral List Option

def letter (partition : Int) : UInt8 := UInt8.ofNat (partition + letterA.toNat).toNat

theorem letter_spec {partition : Int} (inside : 0 ≤ partition ∧ partition ≤ 30) :
    signedChar (letter partition) - letterA.toNat = partition ∧ letter partition ≠ charColon ∧
      isDigitIn 10 (letter partition) = false ∧ (letter partition = letterP ↔ partition = 15) ∧
      (letter partition = letterS ↔ partition = 18) := by
  have each : ∀ n : Nat, n < 31 → signedChar (letter n) - letterA.toNat = (n : Int) ∧ letter n ≠ charColon ∧
    isDigitIn 10 (letter n) = false ∧
      (letter n = letterP ↔ n = 15) ∧ (letter n = letterS ↔ n = 18) := by decide
  obtain ⟨n, rfl⟩ := Int.eq_ofNat_of_zero_le inside.1
  have known := each n (by omega)
  refine ⟨known.1, known.2.1, known.2.2.1, known.2.2.2.1.trans ?_, known.2.2.2.2.trans ?_⟩
  · omega
  · omega

theorem letter_signedChar (c : UInt8) : 0 ≤ signedChar c - letterA.toNat →
    signedChar c - letterA.toNat ≤ 30 ∧ letter (signedChar c - letterA.toNat) = c := by
  revert c
  exact uint8_cases (by decide +kernel)

theorem atEnd_printInt (n : Int) (rest : Bytes) : atEnd (printInt n ++ rest) = false := by
  have plain (c : UInt8) : isDigitIn 10 c = true → c ≠ charColon := by
    revert c
    exact uint8_cases (by decide +kernel)
  have head : ∃ c more, printInt n ++ rest = c :: more ∧ c ≠ charColon := by
    rw [printInt]
    split
    · exact ⟨_, _, rfl, by decide⟩
    · cases digits : printNat 10 n.natAbs with
      | nil => exact absurd digits (printNat_ne_nil 10 _)
      | cons c more =>
        have digit := @printNat_digits 10 (by decide) (by decide) n.natAbs c (by rw [digits]; exact mem_cons_self)
        exact ⟨c, _, rfl, plain c digit⟩
  obtain ⟨c, more, shape, other⟩ := head
  rw [shape, atEnd, head?_cons, isEmpty_cons, Bool.false_or, beq_eq_false_iff_ne]
  exact fun same => other (some.inj same)

def sliceText (np : Bytes) : Option Bytes :=
  match strtol? 10 np with
  | some (_, c :: rest) => if c = letterS then some rest else none
  | _ => none

/-- A slice that the formatter prints, or one that means the same as none and is not followed by a
letter with a meaning of its own. -/
def SliceKept (np : Bytes) : Prop :=
  ∀ text slice cp, sliceText np = some text → strtol? 10 text = some (slice, cp) →
    0 < slice ∨ (slice = -1 ∧ cp.head? ≠ some letterP ∧ cp.head? ≠ some letterS)

def mbrTail (slice partition : Int) : Bytes :=
  (if slice > 0 then letterS :: printInt slice else []) ++ (if partition ≥ 0 then [letter partition] else []) ++
    [charColon]

def Lettered (maxPartitions partition : Int) : Prop :=
  partition = -1 ∨ (0 ≤ partition ∧ partition ≤ 30 ∧ partition < maxPartitions)

section
variable {maxPartitions : Int}

variable {slice unit partition : Int}

theorem parsePartition_ok {cp rest : Bytes} {s p : Int}
    (parsed : parsePartition maxPartitions slice cp = .ok ((s, p), rest)) :
    s = slice ∧ Lettered maxPartitions p ∧ (0 ≤ p → cp.head? = some (letter p)) ∧ (p < 0 → atEnd cp = true) := by
  rw [parsePartition.eq_def] at parsed
  split at parsed
  · cases parsed
    exact ⟨rfl, Or.inl rfl, fun wrong => absurd wrong (by decide), fun _ => rfl⟩
  next c _ =>
    split at parsed
    next colon =>
      cases parsed
      exact ⟨rfl, Or.inl rfl, fun wrong => absurd wrong (by decide), fun _ => by rw [colon]; rfl⟩
    dsimp only at parsed
    split at parsed
    · cases parsed
    next _ =>
      cases parsed
      obtain ⟨small, own⟩ := letter_signedChar c (by omega)
      exact ⟨rfl, Or.inr ⟨by omega, small, by omega⟩, fun _ => by rw [own]; rfl, fun wrong => absurd wrong (by omega)⟩

inductive Named (maxPartitions : Int) (np : Bytes) (slice partition : Int) : Prop where
  | gpt (isGpt : partition = 0xff) (noSlice : sliceText np = none)
  | bare (isBare : slice = -1) (lettered : Lettered maxPartitions partition) (plain : partition ≠ 15 ∧ partition ≠ 18)
      (noSlice : sliceText np = none)
  | sliced (text cp : Bytes) (lettered : Lettered maxPartitions partition) (behind : sliceText np = some text)
      (number : strtol? 10 text = some (slice, cp)) (head : 0 ≤ partition → cp.head? = some (letter partition))
      (ends : partition < 0 → atEnd cp = true)

abbrev Fits (n : Int) : Prop := longMin ≤ n ∧ n ≤ longMax

theorem parseDisk_ok {np cp : Bytes} (parsed : parseDisk maxPartitions np = .ok ((unit, slice, partition), cp)) :
    Fits unit ∧ Fits slice ∧ Named maxPartitions np slice partition := by
  rw [parseDisk.eq_def] at parsed
  split at parsed
  next ends =>
    cases parsed
    have none : sliceText np = none := by
      cases np with
      | nil => rfl
      | cons c rest =>
        have colon : c = charColon := by simpa [atEnd] using ends
        subst colon
        rfl
    exact ⟨by decide, by decide, .bare rfl (Or.inl rfl) (by decide) none⟩
  split at parsed
  · cases parsed
  next _ _ read =>
    split at parsed
    · cases parsed
    next _ _ _ sliced =>
      split at parsed
      case isFalse => cases parsed
      cases parsed
      refine ⟨strtol?_fits read, ?_⟩
      rw [parseSlice.eq_def] at sliced
      split at sliced
      · obtain ⟨rfl, lettered, -, -⟩ := parsePartition_ok sliced
        have bare : partition = -1 := by cases sliced; rfl
        exact ⟨by decide, .bare rfl lettered (by rw [bare]; decide) (by rw [sliceText, read])⟩
      next c rest =>
        split at sliced
        next letterIsP =>
          split at sliced
          · cases sliced
          next number =>
            split at sliced
            · cases sliced
              have other : ¬c = letterS := by rw [letterIsP]; decide
              exact ⟨strtol?_fits number, .gpt rfl (by rw [sliceText, read]; exact if_neg other)⟩
            · cases sliced
        split at sliced
        next letterIsS =>
          split at sliced
          · cases sliced
          next number =>
            obtain ⟨rfl, lettered, head, ends⟩ := parsePartition_ok sliced
            exact ⟨strtol?_fits number, .sliced rest _ lettered (by rw [sliceText, read]; exact if_pos letterIsS) number head ends⟩
        next notP notS =>
          obtain ⟨rfl, lettered, head, -⟩ := parsePartition_ok sliced
          refine ⟨by decide, .bare rfl lettered ?_ (by rw [sliceText, read]; exact if_neg notS)⟩
          constructor
          · rintro rfl
            exact notP (some.inj (head (by decide)))
          · rintro rfl
            exact notS (some.inj (head (by decide)))

theorem strtol?_colon : strtol? 10 [charColon] = none := by decide

theorem parsePartition_letter (inside : 0 ≤ partition ∧ partition ≤ 30 ∧ partition < maxPartitions) :
    parsePartition maxPartitions slice [letter partition, charColon] = .ok ((slice, partition), [charColon]) := by
  obtain ⟨value, other, -⟩ := letter_spec ⟨inside.1, inside.2.1⟩
  rw [parsePartition, if_neg other, value, if_neg (by omega)]

theorem parsePartition_printed (lettered : Lettered maxPartitions partition) :
    parsePartition maxPartitions slice ((if partition ≥ 0 then [letter partition] else []) ++ [charColon]) =
      .ok ((slice, partition), [charColon]) := by
  rcases lettered with rfl | inside
  · rfl
  · rw [if_pos inside.1]
    exact parsePartition_letter inside

theorem parseSlice_mbrTail (fits : Fits slice) (lettered : Lettered maxPartitions partition) :
    parseSlice maxPartitions (mbrTail slice partition) =
      if slice > 0 then .ok ((slice, partition), [charColon])
      else if partition = 15 ∨ partition = 18 then .error .eslice
      else .ok ((-1, partition), [charColon]) := by
  rw [mbrTail]
  split
  · have ends : ∀ c ∈ ((if partition ≥ 0 then [letter partition] else []) ++ [charColon]).head?, isDigitIn 10 c = false := by
      intro c member
      rcases lettered with rfl | inside
      · cases member
        decide
      · rw [if_pos inside.1] at member
        cases member
        exact (letter_spec ⟨inside.1, inside.2.1⟩).2.2.1
    rw [cons_append, cons_append, append_assoc, parseSlice, if_neg (by decide), if_pos rfl,
      strtol?_printInt fits.1 fits.2 ends]
    exact parsePartition_printed lettered
  · rw [nil_append]
    rcases lettered with rfl | inside
    · rfl
    · obtain ⟨-, -, -, isP, isS⟩ := letter_spec ⟨inside.1, inside.2.1⟩
      rw [if_pos inside.1, singleton_append, parseSlice]
      by_cases p : partition = 15
      · rw [if_pos (isP.mpr p), strtol?_colon, if_pos (Or.inl p)]
      rw [if_neg fun same => p (isP.mp same)]
      by_cases s : partition = 18
      · rw [if_pos (isS.mpr s), strtol?_colon, if_pos (Or.inr s)]
      rw [if_neg fun same => s (isS.mp same), if_neg (by omega)]
      exact parsePartition_letter inside

theorem parseDisk_printed (fits : Fits unit) {tail : Bytes} (ends : ∀ c ∈ tail.head?, isDigitIn 10 c = false) :
    parseDisk maxPartitions (printInt unit ++ tail) =
      match parseSlice maxPartitions tail with
      | .error err => .error err
      | .ok ((slice, partition), cp) => if atEnd cp then .ok ((unit, slice, partition), cp) else .error .einval := by
  rewrite [parseDisk.eq_def, atEnd_printInt, if_neg Bool.false_ne_true, strtol?_printInt fits.1 fits.2 ends]
  rfl

theorem mbrTail_ends (lettered : Lettered maxPartitions partition) :
    ∀ c ∈ (mbrTail slice partition).head?, isDigitIn 10 c = false := by
  intro c member
  rw [mbrTail] at member
  by_cases sliced : slice > 0
  · rw [if_pos sliced] at member
    cases member
    decide
  · rw [if_neg sliced] at member
    rcases lettered with rfl | inside
    · cases member
      decide
    · rw [if_pos inside.1] at member
      cases member
      exact (letter_spec ⟨inside.1, inside.2.1⟩).2.2.1

/-- The MBR form gives the same slice and partition again exactly when it prints the slice, or means none. -/
theorem parseDisk_mbr_iff (unitFits : Fits unit) (fits : Fits slice) (lettered : Lettered maxPartitions partition) :
    (∃ cp, parseDisk maxPartitions (printInt unit ++ mbrTail slice partition) = .ok ((unit, slice, partition), cp)) ↔
      0 < slice ∨ (slice = -1 ∧ partition ≠ 15 ∧ partition ≠ 18) := by
  rw [parseDisk_printed unitFits (mbrTail_ends lettered), parseSlice_mbrTail fits lettered]
  by_cases positive : slice > 0
  · rw [if_pos positive]
    exact iff_of_true ⟨_, rfl⟩ (Or.inl positive)
  rw [if_neg positive]
  by_cases letters : partition = 15 ∨ partition = 18
  · rw [if_pos letters]
    refine iff_of_false ?_ (by omega)
    rintro ⟨cp, wrong⟩
    cases wrong
  rw [if_neg letters]
  constructor
  · rintro ⟨cp, same⟩
    cases same
    exact Or.inr ⟨rfl, by omega⟩
  · rintro (_ | ⟨rfl, -⟩)
    · omega
    · exact ⟨_, rfl⟩

theorem parseDisk_gpt (unitFits : Fits unit) (fits : Fits slice) :
    parseDisk maxPartitions (printInt unit ++ (letterP :: printInt slice ++ [charColon])) =
      .ok ((unit, slice, 0xff), [charColon]) := by
  have ends : ∀ c ∈ (letterP :: printInt slice ++ [charColon]).head?, isDigitIn 10 c = false := by
    intro c member
    cases member
    decide
  have colon : ∀ c ∈ [charColon].head?, isDigitIn 10 c = false := by
    intro c member
    cases member
    decide
  rw [parseDisk_printed unitFits ends, cons_append, parseSlice, if_pos rfl, strtol?_printInt fits.1 fits.2 colon]
  rfl

theorem parseUnit_ok {np cp : Bytes} (parsed : parseUnit np = .ok (unit, cp)) : Fits unit := by
  rw [parseUnit.eq_def] at parsed
  split at parsed
  · cases parsed
    decide
  split at parsed
  · cases parsed
  next read =>
    split at parsed
    · cases parsed
      exact strtol?_fits read
    · cases parsed

theorem parseUnit_printed (fits : Fits unit) : parseUnit (printInt unit ++ [charColon]) = .ok (unit, [charColon]) := by
  have ends : ∀ c ∈ [charColon].head?, digitOf c = none := by
    intro c member
    cases member
    decide
  rw [parseUnit.eq_def, atEnd_printInt, if_neg Bool.false_ne_true, strtol?_printInt_zero fits.1 fits.2 ends]
  rfl

end

theorem devsw_names (support : Support) : ∀ dv ∈ devsw support,
    2 ≤ dv.dvName.length ∧ ∀ other ∈ devsw support, other.dvName.isPrefixOf dv.dvName = true → other = dv := by
  obtain ⟨network, firewire, zfs⟩ := support
  cases network <;> cases firewire <;> cases zfs <;> decide

theorem findDev_prefix {support : Support} {dv : Devsw} {devspec : Bytes} (found : findDev support devspec = some dv) :
    dv ∈ devsw support ∧ dv.dvName <+: devspec := by
  have front := find?_some found
  exact ⟨mem_of_find?_eq_some found, isPrefixOf_iff_prefix.mp front⟩

theorem findDev_name {support : Support} {dv : Devsw} (member : dv ∈ devsw support) (rest : Bytes) :
    findDev support (dv.dvName ++ rest) = some dv := by
  cases found : findDev support (dv.dvName ++ rest) with
  | none =>
    have own := find?_eq_none.mp found dv member
    exact absurd ( isPrefixOf_iff_prefix.mpr (prefix_append _ _)) own
  | some other =>
    obtain ⟨otherMember, front⟩ := findDev_prefix found
    have same : other = dv := by
      rcases prefix_or_prefix_of_prefix front (prefix_append dv.dvName rest) with shorter | longer
      · exact (devsw_names support dv member).2 other otherMember ( isPrefixOf_iff_prefix.mpr shorter)
      · exact ((devsw_names support other otherMember).2 dv member ( isPrefixOf_iff_prefix.mpr longer)).symm
    rw [same]

def NameKept (support : Support) (devspec : Bytes) : Prop :=
  ∀ dv, findDev support devspec = some dv → dv.dvType = .disk → SliceKept (devspec.drop dv.dvName.length)

section
variable {maxPartitions : Int} {ζ : Type} {zfs : ZfsNames ζ} {support : Support}

theorem parsedev_name {dv : Devsw} (member : dv ∈ devsw support) (rest : Bytes) :
    i386Parsedev maxPartitions zfs support (dv.dvName ++ rest) =
      match dv.dvType with
      | .disk => (parseDisk maxPartitions rest).map fun r => (⟨dv, r.1.1, .biosdisk r.1.2.1 r.1.2.2⟩, r.2.tail)
      | .cd => (parseUnit rest).map fun r => (⟨dv, r.1, .plain⟩, r.2.tail)
      | .net => (parseUnit rest).map fun r => (⟨dv, r.1, .plain⟩, r.2.tail)
      | .zfs => (zfs.parsedev rest).map fun r => (⟨dv, 0, .zfs r.1⟩, r.2) := by
  have long := (devsw_names support dv member).1
  rw [i386Parsedev, if_neg (by rw [length_append]; omega), findDev_name member]
  dsimp only
  rewrite [drop_left]
  cases dv.dvType <;> rfl

theorem fmtdev_biosdisk (dv : Devsw) (unit slice partition : Int) :
    i386Fmtdev zfs ⟨dv, unit, .biosdisk slice partition⟩ =
      dv.dvName ++ (printInt unit ++ ((if partition = 0xff then letterP :: printInt slice
        else (if slice > 0 then letterS :: printInt slice else []) ++ if partition ≥ 0 then [letter partition]
          else []) ++ [charColon])) := by
  rw [i386Fmtdev]
  dsimp only
  rw [append_assoc, append_assoc]
  rfl

theorem fmtdev_plain (dv : Devsw) (unit : Int) :
    i386Fmtdev zfs ⟨dv, unit, .plain⟩ = dv.dvName ++ (printInt unit ++ [charColon]) := by
  exact append_assoc ..

theorem map_ok {ε α β : Type} {x : Except ε α} {f : α → β} {b : β} (same : x.map f = .ok b) :
    ∃ a, x = .ok a ∧ f a = b := by
  cases x with
  | error => cases same
  | ok a => exact ⟨a, rfl, Except.ok.inj same⟩

theorem parsedev_ok {devspec path : Bytes} {dev : Devdesc ζ}
    (parsed : i386Parsedev maxPartitions zfs support devspec = .ok (dev, path)) :
    findDev support devspec = some dev.dev ∧
      (dev.dev.dvType = .disk → ∃ slice partition cp, dev.kind = .biosdisk slice partition ∧
        parseDisk maxPartitions (devspec.drop dev.dev.dvName.length) = .ok ((dev.unit, slice, partition), cp)) ∧
      (dev.dev.dvType = .cd ∨ dev.dev.dvType = .net → dev.kind = .plain ∧ Fits dev.unit) := by
  rw [i386Parsedev] at parsed
  split at parsed
  · cases parsed
  split at parsed
  · cases parsed
  next _ found =>
    split at parsed
    next isDisk =>
      obtain ⟨⟨⟨unit, slice, partition⟩, cp⟩, read, same⟩ := map_ok parsed
      cases same
      exact ⟨found, fun _ => ⟨slice, partition, cp, rfl, read⟩, by rw [isDisk]; rintro (wrong | wrong) <;> cases wrong⟩
    next isCd =>
      obtain ⟨⟨unit, cp⟩, read, same⟩ := map_ok parsed
      cases same
      exact ⟨found, fun wrong => (by rw [isCd] at wrong; cases wrong), fun _ => ⟨rfl, parseUnit_ok read⟩⟩
    next isNet =>
      obtain ⟨⟨unit, cp⟩, read, same⟩ := map_ok parsed
      cases same
      exact ⟨found, fun wrong => (by rw [isNet] at wrong; cases wrong), fun _ => ⟨rfl, parseUnit_ok read⟩⟩
    next isZfs =>
      obtain ⟨⟨_, cp⟩, read, same⟩ := map_ok parsed
      cases same
      exact ⟨found, fun wrong => (by rw [isZfs] at wrong; cases wrong), by rw [isZfs]; rintro (wrong | wrong) <;> cases wrong⟩

/-- A disk as it is named in the specification keeps its slice exactly when the formatted name gives it back. -/
theorem named_iff {np : Bytes} {unit slice partition : Int} (unitFits : Fits unit) (fits : Fits slice)
    (named : Named maxPartitions np slice partition) :
    (∃ cp, parseDisk maxPartitions (printInt unit ++ ((if partition = 0xff then letterP :: printInt slice
        else (if slice > 0 then letterS :: printInt slice else []) ++ if partition ≥ 0 then [letter partition]
          else []) ++ [charColon])) = .ok ((unit, slice, partition), cp)) ↔ SliceKept np := by
  have mbr (lettered : Lettered maxPartitions partition) :
      (if partition = 0xff then letterP :: printInt slice
        else (if slice > 0 then letterS :: printInt slice else []) ++ if partition ≥ 0 then [letter partition]
        else []) ++ [charColon] = mbrTail slice partition := by
    rw [if_neg (by rcases lettered with bare | inside <;> omega)]
    rfl
  have vacuous (none : sliceText np = none) : SliceKept np := by
    intro text slice cp behind
    rw [none] at behind
    cases behind
  cases named with
  | gpt isGpt noSlice =>
    subst isGpt
    exact iff_of_true ⟨_, parseDisk_gpt unitFits fits⟩ (vacuous noSlice)
  | bare isBare lettered plain noSlice =>
    rw [mbr lettered, parseDisk_mbr_iff unitFits fits lettered]
    exact iff_of_true (Or.inr ⟨isBare, plain⟩) (vacuous noSlice)
  | sliced text cp lettered behind number head ends =>
    rw [mbr lettered, parseDisk_mbr_iff unitFits fits lettered]
    have kept : SliceKept np ↔ 0 < slice ∨ (slice = -1 ∧ cp.head? ≠ some letterP ∧ cp.head? ≠ some letterS) := by
      constructor
      · intro kept
        exact kept text slice cp behind number
      · intro kept text' slice' cp' behind' number'
        cases behind.symm.trans behind'
        cases number.symm.trans number'
        exact kept
    rw [kept]
    apply or_congr Iff.rfl
    apply and_congr Iff.rfl
    rcases lettered with rfl | inside
    · have ended := ends (by decide)
      have plain (c : UInt8) (other : c ≠ charColon) : cp.head? ≠ some c := by
        cases cp with
        | nil => exact nofun
        | cons d _ =>
          have colon : d = charColon := by simpa [atEnd] using ended
          rintro same
          exact other ((some.inj same).symm.trans colon)
      exact iff_of_true (by decide) ⟨plain _ (by decide), plain _ (by decide)⟩
    · obtain ⟨-, -, -, isP, isS⟩ := letter_spec ⟨inside.1, inside.2.1⟩
      rw [head inside.1]
      exact and_congr (not_congr (isP.symm.trans some_inj.symm)) (not_congr (isS.symm.trans some_inj.symm))

/-- A device that a specification names comes back from its formatted name exactly when the slice of the specification
does. -/
theorem parsedev_fmtdev_iff (maxPartitions : Int) (zfs : ZfsNames ζ) (support : Support) (devspec path : Bytes)
    (dev : Devdesc ζ) (parsed : i386Parsedev maxPartitions zfs support devspec = .ok (dev, path))
    (plain : dev.dev.dvType ≠ .zfs) :
    (∃ rest, i386Parsedev maxPartitions zfs support (i386Fmtdev zfs dev) = .ok (dev, rest)) ↔
    NameKept support devspec := by
  obtain ⟨found, disk, unit⟩ := parsedev_ok parsed
  obtain ⟨member, -⟩ := findDev_prefix found
  obtain ⟨dv, _, _⟩ := dev
  have kept : NameKept support devspec ↔ (dv.dvType = .disk → SliceKept (devspec.drop dv.dvName.length)) := by
    constructor
    · intro kept
      exact kept dv found
    · intro kept other found'
      cases found.symm.trans found'
      exact kept
  rw [kept]
  cases type : dv.dvType with
  | disk =>
    obtain ⟨_, _, _, rfl, read⟩ := disk type
    obtain ⟨unitFits, fits, named⟩ := parseDisk_ok read
    rw [fmtdev_biosdisk, parsedev_name member, type, eq_self_iff_true, true_implies, ← named_iff unitFits fits named]
    constructor
    · rintro ⟨rest, same⟩
      obtain ⟨⟨⟨_, _, _⟩, cp'⟩, again, same⟩ := map_ok same
      cases same
      exact ⟨_, again⟩
    · rintro ⟨cp', again⟩
      rw [again]
      exact ⟨cp'.tail, rfl⟩
  | cd =>
    obtain ⟨rfl, fits⟩ := unit (Or.inl type)
    rw [fmtdev_plain, parsedev_name member, type, parseUnit_printed fits]
    exact iff_of_true ⟨_, rfl⟩ nofun
  | net =>
    obtain ⟨rfl, fits⟩ := unit (Or.inr type)
    rw [fmtdev_plain, parsedev_name member, type, parseUnit_printed fits]
    exact iff_of_true ⟨_, rfl⟩ nofun
  | zfs => exact absurd type plain

end

def noZfs : ZfsNames Unit := ⟨fun _ => .error .einval, fun _ => []⟩

def fullSupport : Support := ⟨true, true, true⟩

/-- "disk0s0:" -/
def wholeSlice : Bytes := [0x64, 0x69, 0x73, 0x6b, 0x30, 0x73, 0x30, 0x3a]

def slicedName : Bytes := [0x64, 0x69, 0x73, 0x6b, 0x31, 0x73, 0x32, 0x61, 0x3a, 0x2f, 0x62, 0x6f, 0x6f, 0x74]

/-- Slice 0 is formatted like no slice at all. -/
theorem slice_zero_is_lost :
    ¬∀ dev path, i386Parsedev 8 noZfs fullSupport wholeSlice = .ok (dev, path) →
      ∃ rest, i386Parsedev 8 noZfs fullSupport (i386Fmtdev noZfs dev) = .ok (dev, rest) := by
  intro back
  obtain ⟨rest, same⟩ := back ⟨biosdisk, 0, .biosdisk 0 (-1)⟩ [] (by decide)
  have other : i386Parsedev 8 noZfs fullSupport (i386Fmtdev noZfs ⟨biosdisk, 0, .biosdisk 0 (-1)⟩) =
      .ok (⟨biosdisk, 0, .biosdisk (-1) (-1)⟩, []) := by decide
  cases same.symm.trans other

theorem parsedev_fmtdev_sliced :
    ∃ rest, i386Parsedev 8 noZfs fullSupport (i386Fmtdev noZfs ⟨biosdisk, 1, .biosdisk 2 0⟩) =
      .ok (⟨biosdisk, 1, .biosdisk 2 0⟩, rest) := by
  apply (parsedev_fmtdev_iff 8 noZfs fullSupport slicedName [0x2f, 0x62, 0x6f, 0x6f, 0x74] ⟨biosdisk, 1, .biosdisk 2 0⟩
    (by decide) (by decide)).mpr
  intro dv found _
  have disk : findDev fullSupport slicedName = some biosdisk := by decide
  cases disk.symm.trans found
  intro text slice cp behind number
  have text' : sliceText (slicedName.drop biosdisk.dvName.length) =
    some [0x32, 0x61, 0x3a, 0x2f, 0x62, 0x6f, 0x6f, 0x74] := by
    decide
  cases text'.symm.trans behind
  have two : strtol? 10 [0x32, 0x61, 0x3a, 0x2f, 0x62, 0x6f, 0x6f, 0x74] =
    some (2, [0x61, 0x3a, 0x2f, 0x62, 0x6f, 0x6f, 0x74]) := by
    decide
  cases two.symm.trans number
  exact Or.inl (by decide)

end Pcbsd.Devicename
