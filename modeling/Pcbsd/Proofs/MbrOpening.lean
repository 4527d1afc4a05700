import Pcbsd.MbrOpen
import Pcbsd.Proofs.SliceSlots

/-! Which opens of a disk with an MBR go to slots and entries that there are. -/

namespace Pcbsd.MbrOpen
open Lib Gpt DiskGpt DiskMbr List Option
open Boot2 (dMagic dNpartitions pOffset diskmagic labelsector rawPart)

variable {slicetab : List DosPartition} {dp : DosPartition} {label : Int → Option Sector} {maxpartitions : Nat}
    {slot : Option Nat}
  {slice partition sector offset : Int}

theorem bestLoop_cases (slicetab : List DosPartition) (i level best : Nat) :
    (∀ dp ∈ slicetab, level ≤ pref dp) ∧ bestLoop slicetab i level best = best ∨
    (∃ dp ∈ slicetab, pref dp < level) ∧ i < bestLoop slicetab i level best ∧
    bestLoop slicetab i level best ≤ i + slicetab.length := by
  induction slicetab generalizing i level best with
  | nil => exact Or.inl ⟨fun dp member => absurd member not_mem_nil, rfl⟩
  | cons dp slicetab ih =>
    rw [bestLoop, length_cons]
    split
    next better =>
      refine Or.inr ⟨⟨dp, mem_cons_self, better⟩, ?_⟩
      rcases ih (i + 1) (pref dp) (i + 1) with ⟨_, same⟩ | ⟨_, low, high⟩
      · rw [same]; omega
      · omega
    next worse =>
      rcases ih (i + 1) level best with ⟨all, same⟩ | ⟨⟨other, member, better⟩, low, high⟩
      · refine Or.inl ⟨fun other member => ?_, same⟩
        rcases mem_cons.mp member with rfl | later
        · exact Nat.not_lt.mp worse
        · exact all other later
      · exact Or.inr ⟨⟨other, mem_cons_of_mem dp member, better⟩, by omega, by omega⟩

def Known (dp : DosPartition) : Prop := pref dp < 7

theorem bestslice_le (slicetab : List DosPartition) : bestslice slicetab ≤ slicetab.length := by
  rcases bestLoop_cases slicetab 0 7 0 with ⟨_, same⟩ | ⟨_, _, _⟩
  · rw [bestslice, same]; exact Nat.zero_le _
  · rw [bestslice]; omega

theorem bestslice_pos_iff : 0 < bestslice slicetab ↔ ∃ dp ∈ slicetab, Known dp := by
  rw [bestslice]
  rcases bestLoop_cases slicetab 0 7 0 with ⟨all, _⟩ | ⟨known, low, _⟩
  · refine iff_of_false (by omega) ?_
    rintro ⟨dp, member, known⟩
    exact absurd known (Nat.not_lt.mpr (all dp member))
  · exact iff_of_true low known

/-- The offset is that of the slot, and of the entry of the label where one is asked for. -/
structure Source (slicetab : List DosPartition) (label : Int → Option Sector) (maxpartitions : Nat)
    (partition offset : Int) (slot entry : Option Nat) : Prop where
  inTable : ∀ i, slot = some i → i < slicetab.length
  inLabel : ∀ p, entry = some p → p < maxpartitions
  requested : 0 ≤ partition → entry = some partition.toNat
  value : let sector := (slot.bind fun i => slicetab[i]?).elim 0 sectorOf
    (entry = none → offset = sector) ∧ ∀ p, entry = some p → ∃ buf, label (toInt (sector + labelsector)) = some buf ∧
      toInt offset = toInt (pOffset buf.bytes p - pOffset buf.bytes rawPart + sector)

def Opened.Inside (slicetab : List DosPartition) (label : Int → Option Sector) (maxpartitions : Nat) (partition : Int)
    (o : Opened) : Prop :=
  (∃ rc, o = .failed rc) ∨ o = .epart ∨
    ∃ offset slot entry, o = .opened offset slot entry ∧ Source slicetab label maxpartitions partition offset slot entry

theorem not_inside : ¬ Opened.outside.Inside slicetab label maxpartitions partition := by
  rintro (⟨rc, absurd⟩ | absurd | ⟨offset, slot, entry, absurd, _⟩) <;> cases absurd

theorem failed_inside (rc : Errno) : (Opened.failed rc).Inside slicetab label maxpartitions partition :=
  Or.inl ⟨rc, rfl⟩

theorem epart_inside : Opened.epart.Inside slicetab label maxpartitions partition := Or.inr (Or.inl rfl)

def LabelFits (label : Int → Option Sector) (maxpartitions : Nat) (partition sector : Int) : Prop :=
  0 ≤ partition → ∀ buf, label (toInt (sector + labelsector)) = some buf → dMagic buf.bytes = diskmagic →
    partition < dNpartitions buf.bytes → partition < maxpartitions

theorem toInt_toInt (n : Int) : toInt (toInt n) = toInt n := Int.bmod_bmod ..

theorem toInt_mod (n : Int) : toInt (n % 2 ^ 32) = toInt n := Int.emod_bmod ..

structure At (slicetab : List DosPartition) (slot : Option Nat) (sector : Int) : Prop where
  inTable : ∀ i, slot = some i → i < slicetab.length
  start : (slot.bind fun i => slicetab[i]?).elim 0 sectorOf = sector

theorem at_unsliced (slicetab : List DosPartition) : At slicetab none 0 := ⟨fun i absurd => (by cases absurd), rfl⟩

variable {buf : Sector} {o : Opened} {i : Nat}

theorem slotAt_some (found : slotAt slicetab slice = some (i, dp)) : (i : Int) = slice ∧ slicetab[i]? = some dp := by
  rw [slotAt] at found
  split at found
  next low =>
    obtain ⟨_, there, same⟩ := map_eq_some_iff.mp found
    obtain ⟨rfl, rfl⟩ := Prod.mk.inj same
    exact ⟨Int.toNat_of_nonneg low, there⟩
  next => cases found

theorem at_slot (there : slicetab[i]? = some dp) : At slicetab (some i) (sectorOf dp) := by
  refine ⟨fun j same => ?_, ?_⟩
  · obtain rfl := some.inj same
    exact (List.getElem?_eq_some_iff.mp there).1
  · rw [bind_some, there, elim_some]

theorem raw_inside (place : At slicetab slot sector) (raw : partition < 0) :
    (Opened.opened sector slot none).Inside slicetab label maxpartitions partition := by
  refine Or.inr (Or.inr ⟨sector, slot, none, rfl, place.inTable, fun p absurd => (by cases absurd),
    fun asked => ?_, ?_⟩)
  · exact absurd raw (Int.not_lt.mpr asked)
  · exact ⟨fun _ => place.start.symm, fun p absurd => by cases absurd⟩

theorem openLabel_cases (maxpartitions : Nat) (buf : Sector) (sector : Int) (slot : Option Nat) (partition : Int) :
    openLabel maxpartitions buf sector slot partition = .failed .enoent ∧ dMagic buf.bytes ≠ diskmagic ∨
    openLabel maxpartitions buf sector slot partition = .epart ∧ dNpartitions buf.bytes ≤ partition ∨
    dMagic buf.bytes = diskmagic ∧ partition < dNpartitions buf.bytes ∧
      (openLabel maxpartitions buf sector slot partition = .outside ∧ maxpartitions ≤ partition ∨
        openLabel maxpartitions buf sector slot partition =
            .opened ((pOffset buf.bytes partition.toNat - pOffset buf.bytes rawPart + sector) % 2 ^ 32) slot (some partition.toNat) ∧
          partition < maxpartitions) := by
  rw [openLabel]
  split
  next bad => exact Or.inl ⟨rfl, bad⟩
  next good =>
    split
    next beyond => exact Or.inr (Or.inl ⟨rfl, beyond⟩)
    next within =>
      refine Or.inr (Or.inr ⟨not_not.mp good, Int.not_le.mp within, ?_⟩)
      split
      next large => exact Or.inl ⟨rfl, large⟩
      next small => exact Or.inr ⟨rfl, Int.not_le.mp small⟩

theorem entry_source (place : At slicetab slot sector) (asked : 0 ≤ partition) (small : partition < maxpartitions)
    (here : label (toInt (sector + labelsector)) = some buf)
    (same : toInt offset = toInt (pOffset buf.bytes partition.toNat - pOffset buf.bytes rawPart + sector)) :
    Source slicetab label maxpartitions partition offset slot (some partition.toNat) where
  inTable := place.inTable
  inLabel p same := by
    obtain rfl := some.inj same
    omega
  requested _ := rfl
  value := by
    rw [place.start]
    refine ⟨fun absurd => (by cases absurd), fun p other => ?_⟩
    obtain rfl := some.inj other
    exact ⟨buf, here, same⟩

def Opened.Settles (slicetab : List DosPartition) (label : Int → Option Sector) (maxpartitions : Nat) (partition : Int)
    (fits : Prop) (o : Opened) : Prop :=
  fits ∧ o.Inside slicetab label maxpartitions partition ∨ ¬ fits ∧ o = .outside

theorem Opened.Settles.iff {fits : Prop} (settles : o.Settles slicetab label maxpartitions partition fits) :
    o.Inside slicetab label maxpartitions partition ↔ fits := by
  rcases settles with ⟨fits, inside⟩ | ⟨bad, rfl⟩
  · exact iff_of_true inside fits
  · exact iff_of_false not_inside bad

theorem Opened.Settles.congr {fits fits' : Prop} (settles : o.Settles slicetab label maxpartitions partition fits)
    (same : fits ↔ fits') : o.Settles slicetab label maxpartitions partition fits' := by rwa [← propext same]

theorem Opened.Settles.default {fits : Prop} {partition' : Int} (raw : partition < 0)
    (settles : o.Settles slicetab label maxpartitions partition' fits) :
    o.Settles slicetab label maxpartitions partition fits := by
  refine settles.imp_left fun ⟨fits, inside⟩ => ⟨fits, ?_⟩
  refine inside.imp_right fun inside => inside.imp_right ?_
  rintro ⟨offset, slot, entry, same, source⟩
  exact ⟨offset, slot, entry, same, source.inTable, source.inLabel, fun asked => absurd raw (Int.not_lt.mpr asked),
    source.value⟩

theorem settles_failed {fits : Prop} (rc : Errno) (fine : fits) :
    (Opened.failed rc).Settles slicetab label maxpartitions partition fits :=
  Or.inl ⟨fine, failed_inside rc⟩

theorem settles_epart {fits : Prop} (fine : fits) : Opened.epart.Settles slicetab label maxpartitions partition fits :=
  Or.inl ⟨fine, epart_inside⟩

theorem settles_outside {fits : Prop} (bad : ¬ fits) :
    Opened.outside.Settles slicetab label maxpartitions partition fits :=
  Or.inr ⟨bad, rfl⟩

theorem label_settles (place : At slicetab slot sector) (asked : 0 ≤ partition)
    (here : label (toInt (sector + labelsector)) = some buf) {f : Opened → Opened}
    (failed : ∀ rc, f (.failed rc) = .failed rc) (epart : f .epart = .epart) (outside : f .outside = .outside)
    (opened : ∀ offset slot entry, ∃ offset', f (.opened offset slot entry) = .opened offset' slot entry ∧
      toInt offset' = toInt offset) :
    (f (openLabel maxpartitions buf sector slot partition)).Settles slicetab label maxpartitions partition
      (LabelFits label maxpartitions partition sector) := by
  have only : (dMagic buf.bytes = diskmagic → partition < dNpartitions buf.bytes → partition < maxpartitions) ↔
      LabelFits label maxpartitions partition sector := by
    refine ⟨fun fits _ other there => ?_, fun fits => fits asked buf here⟩
    obtain rfl := some.inj (here.symm.trans there)
    exact fits
  refine Opened.Settles.congr ?_ only
  rcases openLabel_cases maxpartitions buf sector slot partition with ⟨result, bad⟩ | ⟨result, beyond⟩ | ⟨good, within,
    ⟨result, large⟩ | ⟨result, small⟩⟩
  · rw [result, failed]
    exact settles_failed _ fun good => absurd good bad
  · rw [result, epart]
    exact settles_epart fun _ within => absurd within (Int.not_lt.mpr beyond)
  · rw [result, outside]
    exact settles_outside fun fits => absurd (fits good within) (Int.not_lt.mpr large)
  · rw [result]
    obtain ⟨offset', same, value⟩ :=
      opened ((pOffset buf.bytes partition.toNat - pOffset buf.bytes rawPart + sector) % 2 ^ 32) slot
      (some partition.toNat)
    rw [same]
    refine Or.inl ⟨fun _ _ => small, Or.inr (Or.inr ⟨_, _, _, rfl, entry_source place asked small here ?_⟩)⟩
    rw [value, toInt_mod]

def labelOf (strategy : Int → Except Errno Sector) (lba : Int) : Option Sector := (strategy lba).toOption

theorem diskUnsliced_settles (strategy : Int → Except Errno Sector) (place : At slicetab slot sector) :
    (diskUnsliced strategy maxpartitions partition sector slot).Settles slicetab
      (labelOf strategy) maxpartitions partition (LabelFits (labelOf strategy) maxpartitions partition sector) := by
  rw [diskUnsliced]
  by_cases raw : partition < 0
  · rw [if_pos raw]
    exact Or.inl ⟨fun asked => absurd raw (Int.not_lt.mpr asked), raw_inside place raw⟩
  · rw [if_neg raw]
    cases answer : strategy (toInt (sector + labelsector)) with
    | error rc =>
      refine settles_failed rc fun _ buf there => ?_
      rw [labelOf, answer] at there
      cases there
    | ok buf =>
      have here : labelOf strategy (toInt (sector + labelsector)) = some buf := by rw [labelOf, answer]; rfl
      exact label_settles place (Int.not_lt.mp raw) here (f := Opened.intOffset) (fun _ => rfl) rfl rfl
        fun offset _ _ => ⟨_, rfl, toInt_toInt offset⟩

theorem bdUnsliced_settles (bdRead : Int → Option Sector) (place : At slicetab slot sector) :
    (bdUnsliced bdRead maxpartitions partition sector slot).Settles slicetab bdRead maxpartitions partition
      (LabelFits bdRead maxpartitions partition sector) := by
  rw [bdUnsliced]
  by_cases raw : partition < 0
  · rw [if_pos raw]
    exact Or.inl ⟨fun asked => absurd raw (Int.not_lt.mpr asked), raw_inside place raw⟩
  · rw [if_neg raw]
    cases here : bdRead (toInt (sector + labelsector)) with
    | none =>
      refine settles_failed _ fun _ buf there => ?_
      rw [here] at there
      cases there
    | some buf =>
      exact label_settles place (Int.not_lt.mp raw) here (f := id) (fun _ => rfl) rfl rfl fun _ _ _ => ⟨_, rfl, rfl⟩

def chosen (slicetab : List DosPartition) (slice : Int) : Int := if slice = 0 then bestslice slicetab else slice

/-- The slice is in the table, or is found there, and its label fits; or there is an error in front of that. -/
def TableFits (slicetab : List DosPartition) (slice : Int) (unsliced : Prop) (sliced : DosPartition → Prop) : Prop :=
  slice ≤ slicetab.length → (dedicated slicetab = true → unsliced) ∧
    (dedicated slicetab = false → 0 ≤ slice ∧ (slice = 0 → ∃ dp ∈ slicetab, Known dp) ∧
      ∀ dp, slicetab[(chosen slicetab slice - 1).toNat]? = some dp → sliced dp)

theorem slot_settles (slice : Int) (fails : Opened) (failing : (∃ rc, fails = .failed rc) ∨ fails = .epart)
    (slot : Nat → DosPartition → Opened) (sliced : DosPartition → Prop) {unsliced : Prop} {raw : Opened}
    (rawSettles : raw.Settles slicetab label maxpartitions partition unsliced)
    (slotSettles : ∀ i dp, slicetab[i]? = some dp →
      (slot i dp).Settles slicetab label maxpartitions partition (sliced dp)) :
    (if 0 < slice ∧ slicetab.length ≤ slice - 1 then fails
      else if dedicated slicetab then raw
      else withSlot slicetab (chosen slicetab slice) slot).Settles slicetab label maxpartitions partition
        (TableFits slicetab slice unsliced sliced) := by
  by_cases beyond : 0 < slice ∧ slicetab.length ≤ slice - 1
  · rw [if_pos beyond]
    refine Or.inl ⟨fun low => by omega, ?_⟩
    rcases failing with ⟨rc, rfl⟩ | rfl
    · exact failed_inside rc
    · exact epart_inside
  · rw [if_neg beyond]
    have low : slice ≤ slicetab.length := by omega
    cases bogus : dedicated slicetab with
    | true =>
      refine rawSettles.congr ⟨fun fits _ => ⟨fun _ => fits, fun absurd => ?_⟩, fun fits => (fits low).1 bogus⟩
      rw [bogus] at absurd
      cases absurd
    | false =>
      rw [if_neg Bool.false_ne_true, withSlot]
      cases found : slotAt slicetab (chosen slicetab slice - 1) with
      | none =>
        refine settles_outside fun fits => ?_
        obtain ⟨_, known, _⟩ := (fits low).2 bogus
        have inside : 0 < chosen slicetab slice ∧ chosen slicetab slice ≤ slicetab.length := by
          have most := bestslice_le slicetab
          rw [chosen]
          split
          next auto =>
            have := bestslice_pos_iff.mpr (known auto)
            omega
          next => omega
        rw [slotAt, if_pos (by omega), map_eq_none_iff, List.getElem?_eq_none_iff] at found
        omega
      | some place =>
        obtain ⟨i, dp⟩ := place
        obtain ⟨same, there⟩ := slotAt_some found
        have number : (chosen slicetab slice - 1).toNat = i := by omega
        refine (slotSettles i dp there).congr
          ⟨fun fits _ => ⟨fun absurd => ?_, fun _ => ⟨?_, fun auto => ?_, fun other here => ?_⟩⟩, fun fits => ?_⟩
        · rw [bogus] at absurd
          cases absurd
        · rw [chosen] at same
          split at same <;> omega
        · rw [chosen, if_pos auto] at same
          exact bestslice_pos_iff.mp (by omega)
        · rw [number, there] at here
          obtain rfl := some.inj here
          exact fits
        · exact ((fits low).2 bogus).2.2 dp (by rw [number]; exact there)

def slotsOf (table : Except Errno (Option (List DosPartition))) : List DosPartition := table.toOption.join.getD []

def diskSlots (strategy : Int → Except Errno Sector) (nextdospart : Nat) : List DosPartition :=
  slotsOf (diskReadslicetab (fun lba => strategy lba.toNat) nextdospart)

def bdSlots (bdRead : Int → Option Sector) (nextdospart : Nat) (slice : Int) : List DosPartition :=
  slotsOf (bdOpenMbr (fun lba => bdRead lba.toNat) nextdospart slice)

def DiskFits (strategy : Int → Except Errno Sector) (nextdospart maxpartitions : Nat) (nslices slice partition : Int) : Prop :=
  ∀ buf, strategy 0 = .ok buf →
    (magic buf = false → 0 < slice ∧ nslices ≤ slice - 1) ∧
    (magic buf = true → TableFits (diskSlots strategy nextdospart) slice (LabelFits (labelOf strategy) maxpartitions partition 0)
      fun dp => LabelFits (labelOf strategy) maxpartitions partition (sectorOf dp))

def BdFits (bdRead : Int → Option Sector) (nextdospart maxpartitions : Nat) (slice partition : Int) : Prop :=
  ∀ buf, bdRead 0 = some buf →
    (magic buf = false → slice ≤ 0 → LabelFits bdRead maxpartitions partition 0) ∧
    (magic buf = true → (slice = -1 → LabelFits bdRead maxpartitions partition 0) ∧
      (slice ≠ -1 → TableFits (bdSlots bdRead nextdospart slice) slice (LabelFits bdRead maxpartitions partition 0)
        fun dp => LabelFits bdRead maxpartitions (if dp.typ = dosptyp386bsd ∧ partition < 0 then 0 else partition) (sectorOf dp)))

theorem diskOpenmbr_settles (strategy : Int → Except Errno Sector) (nextdospart maxpartitions : Nat)
    (nslices slice partition : Int) :
    (diskOpenmbr strategy nextdospart maxpartitions nslices slice partition).Settles (diskSlots strategy nextdospart)
      (labelOf strategy)
      maxpartitions partition (DiskFits strategy nextdospart maxpartitions nslices slice partition) := by
  rw [DiskFits, diskOpenmbr, diskSlots]
  have origin : ((0 : UInt32).toNat : Int) = 0 := rfl
  cases answer : strategy 0 with
  | error rc =>
    rw [diskReadslicetab, origin, answer]
    exact settles_failed rc fun buf absurd => by cases absurd
  | ok buf =>
    cases valid : magic buf with
    | false =>
      rw [diskReadslicetab, origin, answer]
      dsimp only
      rw [if_pos valid]
      refine Opened.Settles.congr ?_ ⟨fun fits other same => ⟨fun _ => fits, fun absurd => ?_⟩,
        fun fits => (fits buf rfl).1 valid⟩
      · by_cases lucky : 0 < slice ∧ nslices ≤ slice - 1
        · rw [if_pos lucky]
          exact settles_epart lucky
        · rw [if_neg lucky]
          exact settles_outside lucky
      · rw [← Except.ok.inj same, valid] at absurd
        cases absurd
    | true =>
      have table : diskReadslicetab (fun lba => strategy lba.toNat) nextdospart =
          .ok (some (scanMbr (fun lba => (strategy lba.toNat).toOption) nextdospart buf)) := by
        rw [diskReadslicetab, origin, answer]
        dsimp only
        rw [if_neg (by rw [valid]; exact Bool.noConfusion)]
      rw [table]
      generalize scanMbr (fun lba => (strategy lba.toNat).toOption) nextdospart buf = slicetab
      have slots : slotsOf (.ok (some slicetab)) = slicetab := rfl
      rw [slots]
      have settles := slot_settles slice .epart (Or.inr rfl)
        (fun i dp => diskUnsliced strategy maxpartitions partition (sectorOf dp) (some i)) _
        (diskUnsliced_settles strategy (at_unsliced slicetab))
        fun i dp there => diskUnsliced_settles strategy (at_slot there)
      refine settles.congr ⟨fun fits other same => ⟨fun absurd => ?_, fun _ => fits⟩,
        fun fits => (fits buf rfl).2 valid⟩
      rw [← Except.ok.inj same, valid] at absurd
      cases absurd

theorem bdOpen_inside_iff (bdRead : Int → Option Sector) (nextdospart maxpartitions : Nat) (slice partition : Int) :
    (bdOpen bdRead nextdospart maxpartitions slice partition).Inside
      (bdSlots bdRead nextdospart slice) bdRead maxpartitions partition ↔
      BdFits bdRead nextdospart maxpartitions slice partition := by
  rw [BdFits, bdOpen, bdSlots]
  have origin : ((0 : UInt32).toNat : Int) = 0 := rfl
  cases answer : bdRead 0 with
  | none =>
    rw [bdOpenMbr, origin, answer]
    exact iff_of_true (failed_inside .eio) fun buf absurd => by cases absurd
  | some buf =>
    cases valid : magic buf with
    | false =>
      have plain : ∀ {fits : Prop}, (slice ≤ 0 → fits) ↔ ∀ other, some buf = some other →
          (magic other = false → slice ≤ 0 → fits) ∧ (magic other = true → (slice = -1 → fits) ∧ (slice ≠ -1 →
            TableFits (bdSlots bdRead nextdospart slice) slice fits fun dp => LabelFits bdRead maxpartitions
              (if dp.typ = dosptyp386bsd ∧ partition < 0 then 0 else partition) (sectorOf dp))) := by
        refine fun {fits} => ⟨fun fine other same => ⟨fun _ => fine, fun absurd => ?_⟩,
          fun all => (all buf rfl).1 valid⟩
        rw [← some.inj same, valid] at absurd
        cases absurd
      refine Iff.trans ?_ plain
      rw [bdOpenMbr, origin, answer]
      dsimp only
      rw [if_pos valid]
      by_cases sliced : 0 < slice
      · rw [if_pos sliced]
        exact iff_of_true (failed_inside .enoent) fun low => absurd sliced (Int.not_lt.mpr low)
      · rw [if_neg sliced]
        refine (bdUnsliced_settles bdRead (at_unsliced _)).iff.trans
          ⟨fun fits _ => fits, fun fits => fits (Int.not_lt.mp sliced)⟩
    | true =>
      have table : bdOpenMbr (fun lba => bdRead lba.toNat) nextdospart slice =
          .ok (some (scanMbr (fun lba => bdRead lba.toNat) nextdospart buf)) := by
        rw [bdOpenMbr, origin, answer]
        dsimp only
        rw [if_neg (by rw [valid]; exact Bool.noConfusion)]
      rw [table]
      generalize scanMbr (fun lba => bdRead lba.toNat) nextdospart buf = slicetab
      have slots : slotsOf (.ok (some slicetab)) = slicetab := rfl
      rw [slots]
      dsimp only
      have same : ∀ {fits : Prop}, fits ↔ ∀ other, some buf = some other →
          (magic other = false → slice ≤ 0 → LabelFits bdRead maxpartitions partition 0) ∧
            (magic other = true → fits) := by
        refine fun {fits} => ⟨fun fine other same => ⟨fun absurd => ?_, fun _ => fine⟩,
          fun all => (all buf rfl).2 valid⟩
        rw [← some.inj same, valid] at absurd
        cases absurd
      refine Iff.trans ?_ same
      by_cases whole : slice = -1
      · rw [if_pos whole]
        exact (bdUnsliced_settles bdRead (at_unsliced _)).iff.trans
          ⟨fun fits => ⟨fun _ => fits, fun other => absurd whole other⟩, fun fits => fits.1 whole⟩
      · rw [if_neg whole]
        have settles := slot_settles slice (.failed .enoent) (Or.inl ⟨_, rfl⟩)
          (fun i dp => bdUnsliced bdRead maxpartitions (if dp.typ = dosptyp386bsd ∧ partition < 0 then 0 else partition)
            (sectorOf dp) (some i))
          (fun dp => LabelFits bdRead maxpartitions (if dp.typ = dosptyp386bsd ∧ partition < 0 then 0 else partition)
            (sectorOf dp))
          (bdUnsliced_settles bdRead (at_unsliced slicetab))
          fun i dp there => by
            split
            next auto => exact (bdUnsliced_settles bdRead (at_slot there)).default auto.2
            next => exact bdUnsliced_settles bdRead (at_slot there)
        exact settles.iff.trans ⟨fun fits => ⟨fun absurd' => absurd absurd' whole, fun _ => fits⟩,
          fun fits => fits.2 whole⟩

/-- Both opens end in an error or in an offset from what there is, exactly where the number of the slice is one of the
table or can be found, and the label has no more partitions than d_partitions. -/
theorem open_mbr_inside_iff (nextdospart maxpartitions : Nat) (slice partition : Int) :
    (∀ strategy nslices, (diskOpenmbr strategy nextdospart maxpartitions nslices slice partition).Inside
        (diskSlots strategy nextdospart)
        (labelOf strategy) maxpartitions partition ↔
        DiskFits strategy nextdospart maxpartitions nslices slice partition) ∧
    ∀ bdRead, (bdOpen bdRead nextdospart maxpartitions slice partition).Inside
        (bdSlots bdRead nextdospart slice) bdRead maxpartitions
        partition ↔ BdFits bdRead nextdospart maxpartitions slice partition :=
  ⟨fun strategy nslices => (diskOpenmbr_settles strategy nextdospart maxpartitions nslices slice partition).iff,
    fun bdRead => bdOpen_inside_iff bdRead nextdospart maxpartitions slice partition⟩

def emptyMbr : Sector := Sector.ofBytes (List.replicate 510 0 ++ [0x55, 0xaa])

/-- No slice of a known type is found in a table of unused slots. -/
theorem empty_table_outside :
    ¬ (diskOpenmbr (fun _ => .ok emptyMbr) 32 8 0 0 (-1)).Inside (diskSlots (fun _ => .ok emptyMbr) 32)
      (labelOf fun _ => .ok emptyMbr) 8 (-1) ∧
    ¬ (bdOpen (fun _ => some emptyMbr) 32 8 0 (-1)).Inside (bdSlots (fun _ => some emptyMbr) 32 0)
      (fun _ => some emptyMbr) 8 (-1) := by
  have disk : diskOpenmbr (fun _ => .ok emptyMbr) 32 8 0 0 (-1) = .outside := by decide +kernel
  have bd : bdOpen (fun _ => some emptyMbr) 32 8 0 (-1) = .outside := by decide +kernel
  rw [disk, bd]
  exact ⟨not_inside, not_inside⟩

end Pcbsd.MbrOpen
