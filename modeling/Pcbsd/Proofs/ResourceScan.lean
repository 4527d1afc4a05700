import Pcbsd.Isapnp
import Pcbsd.Lib.Distinct
import Pcbsd.Lib.FirstMatch

/-! The scan of the resource data of a card: which of the identifiers and texts of a well-formed stream it finds. -/

namespace Pcbsd.Proofs.ResourceScan
open Lib Isapnp List Option

inductive Resource where
  | small (num : Nat) (data : Bytes)
  | large (num : Nat) (data : Bytes)

/-- A resource before the end tag; a compatible device has an identifier of four bytes. -/
def Resource.WellFormed : Resource → Prop
  | small num data => num < endTag ∧ data.length < 8 ∧ (num = compDeviceId → data.length = 4)
  | large num data => num < 128 ∧ data.length < 2 ^ 16

def Resource.bytes : Resource → Bytes
  | small num data => UInt8.ofNat (num * 8 + data.length) :: data
  | large num data => UInt8.ofNat (128 + num) :: (toLe 2 data.length ++ data)

def Resource.id? : Resource → Option Bytes
  | small num data => if num = compDeviceId then some (pnpEisaformat data) else none
  | large _ _ => none

def Resource.text? : Resource → Option Bytes
  | small _ _ => none
  | large num data => if num = idStringAnsi then some data else none

def streamBytes (resources : List Resource) (checksum : Nat) : Bytes :=
  (resources.map Resource.bytes).flatten ++ [UInt8.ofNat (endTag * 8 + checksum)]

structure Timed (bytes : Bytes) (card : Card) : Prop where
  bytes : card.map Prod.snd = bytes
  inTime : ∀ next ∈ card, next.1 < 100

def completed (resources : List Resource) (pi : Pnpinfo) : Pnpinfo :=
  ⟨pi.desc.or (resources.findSome? Resource.text?), (resources.filterMap Resource.id?).foldl addident pi.ident⟩

/-- Behind the first compatible device there is no other identifier to add, and no text that is missing. -/
def NothingBehind (resources : List Resource) (pi : Pnpinfo) : Prop :=
  ∀ front device back id, resources = front ++ device :: back → (∀ other ∈ front, other.id? = none) → device.id? = some id →
    (∀ other ∈ back, ∀ later, other.id? = some later → later ∈ pi.ident ∨ later = id) ∧
      (pi.desc = none → (∀ other ∈ front, other.text? = none) → ∀ other ∈ back, other.text? = none)

variable {resources : List Resource} {resource : Resource} {pi : Pnpinfo} {card more : Card} {bytes front back : Bytes} {resinfo : Bytes}
  {limit : Nat}

theorem Timed.split (timed : Timed (front ++ back) card) : ∃ first rest, card = first ++ rest ∧ Timed front first ∧ Timed back rest := by
  obtain ⟨first, rest, rfl, same, other⟩ := map_eq_append_iff.mp timed.bytes
  exact ⟨first, rest, rfl, ⟨same, fun next member => timed.inTime next (mem_append_left _ member)⟩,
    ⟨other, fun next member => timed.inTime next (mem_append_right _ member)⟩⟩

theorem waitReady_inTime {polls wait : Nat} (inTime : wait < polls) (byte : UInt8) (rest : Card) :
    waitReady polls ((wait, byte) :: rest) = some ((0, byte) :: rest) := by
  induction wait generalizing polls with
  | zero =>
    obtain ⟨n, rfl⟩ := Nat.exists_eq_succ_of_ne_zero inTime.ne'
    rfl
  | succ wait ih =>
    obtain ⟨n, rfl⟩ := Nat.exists_eq_succ_of_ne_zero (Nat.ne_of_gt (Nat.zero_lt_of_lt inTime))
    exact ih (Nat.lt_of_succ_lt_succ inTime)

theorem readByte_timed {byte : UInt8} (timed : Timed (byte :: bytes) card) :
    ∃ rest, Timed bytes rest ∧ ∀ more, readByte (card ++ more) = some (byte, rest ++ more) := by
  have parted : Timed ([byte] ++ bytes) card := timed
  obtain ⟨_, rest, rfl, here, behind⟩ := parted.split
  obtain ⟨next, same, rfl⟩ := map_eq_singleton_iff.mp here.bytes
  subst same
  refine ⟨rest, behind, fun more => ?_⟩
  have ready := waitReady_inTime (here.inTime next (mem_singleton_self _)) next.2 (rest ++ more)
  rw [append_assoc, singleton_append, readByte, ready]
  rfl

theorem getResourceInfo_timed (timed : Timed bytes card) (more : Card) :
    getResourceInfo bytes.length (card ++ more) = some (bytes, more) := by
  induction bytes generalizing card with
  | nil =>
    rw [map_eq_nil_iff.mp timed.bytes]
    rfl
  | cons _ bytes ih =>
    obtain ⟨_, behind, read⟩ := readByte_timed timed
    rw [length_cons, getResourceInfo, read more, bind_some, ih behind]
    rfl

theorem getResourceInfo_append (timed : Timed (front ++ back) card) :
    ∃ rest, Timed back rest ∧ ∀ more, getResourceInfo front.length (card ++ more) = some (front, rest ++ more) := by
  obtain ⟨_, rest, rfl, here, behind⟩ := timed.split
  refine ⟨rest, behind, fun more => ?_⟩
  rw [append_assoc]
  exact getResourceInfo_timed here (rest ++ more)

theorem addident_foldl (idents ids : List Bytes) : ids.foldl addident idents = idents ++ unseen idents ids := by
  induction ids generalizing idents with
  | nil => exact (append_nil idents).symm
  | cons _ ids ih =>
    rw [foldl_cons, ih, addident, unseen]
    split
    · rfl
    · rw [append_assoc, singleton_append]

variable {checksum num : Nat} {id : Bytes}

theorem smallTag {len : Nat} (number : num < 16) (short : len < 8) :
    pnpResType (UInt8.ofNat (num * 8 + len)) = 0 ∧ pnpSresNum (UInt8.ofNat (num * 8 + len)) = num ∧
      pnpSresLen (UInt8.ofNat (num * 8 + len)) = len := by
  rw [pnpResType, pnpSresNum, pnpSresLen, UInt8.toNat_ofNat', Nat.mod_eq_of_lt (by omega)]
  omega

theorem largeTag (number : num < 128) :
    pnpResType (UInt8.ofNat (128 + num)) ≠ 0 ∧ pnpLresNum (UInt8.ofNat (128 + num)) = num := by
  rw [pnpResType, pnpLresNum, UInt8.toNat_ofNat', Nat.mod_eq_of_lt (by omega)]
  omega

def noteText (resource : Resource) (pi : Pnpinfo) : Pnpinfo := { pi with desc := pi.desc.or resource.text? }

theorem noteText_large (num : Nat) (data : Bytes) (pi : Pnpinfo) :
    (if num = idStringAnsi ∧ pi.desc = none then { pi with desc := some data } else pi) = noteText (.large num data) pi := by
  rw [noteText, Resource.text?]
  obtain ⟨desc, _⟩ := pi
  by_cases text : num = idStringAnsi
  · rw [if_pos text]
    cases desc with
    | none => rw [if_pos ⟨text, rfl⟩, none_or]
    | some old => rw [if_neg (fun both => some_ne_none old both.2), some_or]
  · rw [if_neg text, if_neg (fun both => text both.1), or_none]

theorem scanLoop_resource (resinfo : Bytes) (limit : Nat) (wellFormed : resource.WellFormed) (plain : resource.id? = none)
    (timed : Timed (resource.bytes ++ back) card) : ∃ rest resinfo', Timed back rest ∧
      ∀ more pi, scanLoop (limit + 1) resinfo (card ++ more) pi = scanLoop limit resinfo' (rest ++ more) (noteText resource pi) := by
  cases resource with
  | small num data =>
    obtain ⟨number, short, -⟩ := wellFormed
    have other : num ≠ compDeviceId := fun same => some_ne_none _ ((if_pos same).symm.trans plain)
    have tag := smallTag (Nat.lt_succ_of_lt number) short
    obtain ⟨afterTag, tagged, readTag⟩ := readByte_timed timed
    obtain ⟨rest, behind, skip⟩ := getResourceInfo_append tagged
    refine ⟨rest, resinfo, behind, fun more pi => ?_⟩
    have same : noteText (.small num data) pi = pi := by
      rw [noteText, Resource.text?, or_none]
    rw [scanLoop, readTag more]
    simp only [tag.1, tag.2.1, tag.2.2, if_true, other, if_false, number.ne, skip more, same]
  | large num data =>
    have tag := largeTag wellFormed.1
    rw [Resource.bytes, cons_append, append_assoc] at timed
    obtain ⟨afterTag, tagged, readTag⟩ := readByte_timed timed
    obtain ⟨_, measured, readLength⟩ := getResourceInfo_append tagged
    obtain ⟨rest, behind, readData⟩ := getResourceInfo_append measured
    refine ⟨rest, toLe 2 data.length ++ resinfo.drop 2, behind, fun more pi => ?_⟩
    have lengths := readLength more
    rw [length_toLe] at lengths
    rw [scanLoop, readTag more]
    simp only [tag.1, if_false, lengths, leNat_toLe 2 data.length wellFormed.2, readData more, tag.2, noteText_large]

theorem pnpEisaformat_append {data : Bytes} (four : data.length = 4) (old : Bytes) : pnpEisaformat (data ++ old) = pnpEisaformat data := by
  have same : ∀ i < 4, (data ++ old).getD i 0 = data.getD i 0 := by
    intro i inside
    rw [getD_eq_getElem?_getD, getElem?_append_left (by omega), ← getD_eq_getElem?_getD]
  rw [pnpEisaformat, pnpEisaformat, same 0 (by decide), same 1 (by decide), same 2 (by decide), same 3 (by decide)]

theorem scanLoop_device (resinfo : Bytes) (limit : Nat) (wellFormed : resource.WellFormed)
    (device : resource.id? = some id) (timed : Timed (resource.bytes ++ back) card) (more : Card) (pi : Pnpinfo) :
    scanLoop (limit + 1) resinfo (card ++ more) pi = (0, pnpAddident pi id) := by
  cases resource with
  | small num data =>
    obtain ⟨compatible, same⟩ := ite_none_right_eq_some.mp device
    obtain ⟨number, short, four⟩ := wellFormed
    have tag := smallTag (Nat.lt_succ_of_lt number) short
    obtain ⟨_, tagged, readTag⟩ := readByte_timed timed
    obtain ⟨_, _, read⟩ := getResourceInfo_append tagged
    cases same
    rw [scanLoop, readTag more]
    simp only [tag.1, tag.2.1, tag.2.2, if_true, if_pos compatible, read more, pnpEisaformat_append (four compatible)]
  | large num data => exact absurd device (some_ne_none id).symm

theorem scanLoop_end (resinfo : Bytes) (limit : Nat) (short : checksum < 8)
    (timed : Timed [UInt8.ofNat (endTag * 8 + checksum)] card) (more : Card) (pi : Pnpinfo) :
    scanLoop (limit + 1) resinfo (card ++ more) pi = (0, pi) := by
  have tag := smallTag (show endTag < 16 by decide) short
  obtain ⟨_, -, readTag⟩ := readByte_timed timed
  have other : endTag ≠ compDeviceId := by decide
  rw [scanLoop, readTag more]
  simp only [tag.1, tag.2.1, if_true, other, if_false]

def found : List Resource → Pnpinfo → Pnpinfo
  | [], pi => pi
  | resource :: rest, pi =>
    match resource.id? with
    | some id => pnpAddident pi id
    | none => found rest (noteText resource pi)

theorem scanLoop_stream (wellFormed : ∀ resource ∈ resources, resource.WellFormed) (short : checksum < 8)
    (resinfo : Bytes) (rounds : resources.length < limit) (timed : Timed (streamBytes resources checksum) card)
    (more : Card) (pi : Pnpinfo) :
    scanLoop limit resinfo (card ++ more) pi = (0, found resources pi) := by
  induction resources generalizing limit resinfo card pi with
  | nil =>
    obtain ⟨limit, rfl⟩ := Nat.exists_eq_succ_of_ne_zero (Nat.ne_of_gt rounds)
    exact scanLoop_end resinfo limit short timed more pi
  | cons resource rest ih =>
    obtain ⟨limit, rfl⟩ := Nat.exists_eq_succ_of_ne_zero (Nat.ne_of_gt (Nat.zero_lt_of_lt rounds))
    have begun : Timed (resource.bytes ++ streamBytes rest checksum) card := by
      rw [streamBytes, map_cons, flatten_cons, append_assoc] at timed
      exact timed
    have here := wellFormed resource mem_cons_self
    rw [found]
    cases device : resource.id? with
    | some id => exact scanLoop_device resinfo limit here device begun more pi
    | none =>
      obtain ⟨_, buffer, timely, round⟩ := scanLoop_resource resinfo limit here device begun
      rw [Nat.succ_eq_add_one, round more pi]
      exact ih (fun other member => wellFormed other (mem_cons_of_mem _ member)) buffer (Nat.lt_of_succ_lt_succ rounds) timely _

theorem found_plain (plain : ∀ resource ∈ resources, resource.id? = none) (pi : Pnpinfo) : found resources pi = completed resources pi := by
  induction resources generalizing pi with
  | nil =>
    rw [found, completed, findSome?_nil, or_none]
    rfl
  | cons resource _ ih =>
    have here := plain resource mem_cons_self
    rw [found, here, completed, filterMap_cons_none here]
    rw [ih (fun other member => plain other (mem_cons_of_mem _ member)), completed, noteText]
    congr 1
    rw [findSome?_cons, Option.or_assoc]
    cases resource.text? <;> rfl

theorem found_split (resources : List Resource) : (∀ resource ∈ resources, resource.id? = none) ∨
    ∃ front device back id, resources = front ++ device :: back ∧ (∀ other ∈ front, other.id? = none) ∧ device.id? = some id := by
  induction resources with
  | nil => exact Or.inl fun _ member => absurd member not_mem_nil
  | cons resource rest ih =>
    cases here : resource.id? with
    | some id => exact Or.inr ⟨[], resource, rest, id, rfl, fun _ member => absurd member not_mem_nil, here⟩
    | none =>
      rcases ih with plain | ⟨front, device, back, id, rfl, plain, first⟩
      · refine Or.inl fun other member => ?_
        rcases mem_cons.mp member with rfl | later
        · exact here
        · exact plain other later
      · refine Or.inr ⟨resource :: front, device, back, id, rfl, fun other member => ?_, first⟩
        rcases mem_cons.mp member with rfl | later
        · exact here
        · exact plain other later

theorem found_device {front back : List Resource} {device : Resource} (plain : ∀ other ∈ front, other.id? = none)
    (first : device.id? = some id) (pi : Pnpinfo) :
    found (front ++ device :: back) pi = pnpAddident { pi with desc := pi.desc.or (front.findSome? Resource.text?) } id := by
  induction front generalizing pi with
  | nil =>
    rw [nil_append, found, first, findSome?_nil, or_none]
  | cons resource front ih =>
    have here := plain resource mem_cons_self
    rw [cons_append, found, here]
    rw [ih (fun other member => plain other (mem_cons_of_mem _ member)), noteText, findSome?_cons]
    congr 2
    rw [Option.or_assoc]
    cases resource.text? <;> rfl

theorem or_eq_or_iff {text first later : Option Bytes} : text.or first = text.or (first.or later) ↔
    (text = none → first = none → later = none) := by
  cases text with
  | some text => simp
  | none =>
    cases first with
    | some first => simp
    | none =>
      simp only [none_or, true_implies]
      exact eq_comm

theorem found_eq_completed_iff : found resources pi = completed resources pi ↔ NothingBehind resources pi := by
  rcases found_split resources with plain | ⟨front, device, back, id, rfl, plain, first⟩
  · refine ⟨fun _ front device back id same _ first => ?_, fun _ => found_plain plain pi⟩
    have none := plain device (same ▸ mem_append_right _ mem_cons_self)
    exact absurd first (by rw [none]; exact (some_ne_none id).symm)
  · have noText : device.text? = none := by
      cases device with
      | small num data => rfl
      | large num data => exact absurd first (some_ne_none id).symm
    have ids : (front ++ device :: back).filterMap Resource.id? = id :: back.filterMap Resource.id? := by
      rw [filterMap_append, filterMap_eq_nil_iff.mpr plain, nil_append, filterMap_cons_some first]
    have texts : (front ++ device :: back).findSome? Resource.text? =
        (front.findSome? Resource.text?).or (back.findSome? Resource.text?) := by
      rw [findSome?_append, findSome?_cons, noText]
    have split_ : found (front ++ device :: back) pi = completed (front ++ device :: back) pi ↔
        (pi.desc = none → front.findSome? Resource.text? = none → back.findSome? Resource.text? = none) ∧
          ∀ later ∈ back.filterMap Resource.id?, later ∈ addident pi.ident id := by
      rw [found_device plain first, completed, ids, texts, pnpAddident, Pnpinfo.mk.injEq, or_eq_or_iff, foldl_cons,
        addident_foldl]
      apply and_congr_right
      intro _
      rw [self_eq_append_right, eq_nil_iff_forall_not_mem]
      constructor
      · intro none later member
        by_contra new
        exact none later (mem_unseen.mpr ⟨member, new⟩)
      · exact fun known later member => (mem_unseen.mp member).2 (known later (mem_unseen.mp member).1)
    have known : ∀ later, later ∈ addident pi.ident id ↔ later ∈ pi.ident ∨ later = id := by
      intro later
      rw [addident]
      split <;> rename_i old
      · exact ⟨Or.inl, fun either => either.elim (fun there => there) fun same => same ▸ old⟩
      · rw [mem_append, mem_singleton]
    rw [split_]
    simp only [findSome?_eq_none_iff, mem_filterMap, known]
    constructor
    · rintro ⟨text, rest⟩ _ _ _ id_ same plain_ first_
      have some_ : ∀ resource : Resource, ¬ resource.id? ≠ none ↔ resource.id? = none := fun _ => not_not
      obtain ⟨rfl, rfl, rfl⟩ := @firstSplit_unique _ (fun resource : Resource => resource.id? ≠ none) _ _ _ _ _ _ same
        (fun other member => (some_ other).mpr (plain other member)) (by rw [first]; exact some_ne_none id)
        (fun other member => (some_ other).mpr (plain_ other member)) (by rw [first_]; exact some_ne_none id_)
      cases first.symm.trans first_
      exact ⟨fun other member later compatible => rest later ⟨other, member, compatible⟩, text⟩
    · intro nothing
      obtain ⟨rest, text⟩ := nothing front device back id rfl plain first
      exact ⟨text, fun later ⟨other, member, compatible⟩ => rest other member later compatible⟩

/-- The scan of a stream of fewer than 1000 tags. -/
theorem scanResdata_complete_iff (resources : List Resource) (checksum : Nat) (resinfo : Bytes) (card more : Card)
    (pi : Pnpinfo) (wellFormed : ∀ resource ∈ resources, resource.WellFormed) (few : resources.length + 1 < 1000)
    (short : checksum < 8) (timed : Timed (streamBytes resources checksum) card) :
    scanResdata resinfo (card ++ more) pi = (0, completed resources pi) ↔ NothingBehind resources pi := by
  rw [scanResdata, scanLoop_stream wellFormed short resinfo (by omega) timed more pi, ← found_eq_completed_iff]
  exact ⟨fun same => (Prod.mk.inj same).2, fun same => by rw [same]⟩

theorem timed_ready (bytes : Bytes) : Timed bytes (bytes.map (0, ·)) := by
  refine ⟨by rw [List.map_map]; exact List.map_id _, fun next member => ?_⟩
  obtain ⟨_, -, rfl⟩ := List.mem_map.mp member
  exact Nat.zero_lt_succ _

def textFirst : List Resource := [.large idStringAnsi [0x41, 0x42], .small compDeviceId [0x41, 0xD0, 0x05, 0x01]]

theorem textFirst_complete :
    scanResdata [] ((streamBytes textFirst 1).map (0, ·)) {} = (0, completed textFirst {}) := by
  have complete := scanResdata_complete_iff textFirst 1 [] ((streamBytes textFirst 1).map (0, ·)) [] {} ?_ (by decide)
    (by decide) ?_
  · apply complete.mpr
    intro front device back id same plain first
    obtain ⟨rfl, rfl, rfl⟩ := @firstSplit_unique _ (fun resource : Resource => resource.id? ≠ none) _ _ _ _ _ _
      (show [Resource.large idStringAnsi [0x41, 0x42]] ++ .small compDeviceId [0x41, 0xD0, 0x05, 0x01] ::
        [] = _ from same)
      (by decide) (by decide) (fun other member => not_not.mpr (plain other member))
        (by rw [first]; exact some_ne_none id)
    exact ⟨fun other member => absurd member not_mem_nil, fun _ _ other member => absurd member not_mem_nil⟩
  · intro resource member
    rcases mem_cons.mp member with rfl | second
    · exact ⟨by decide, by decide⟩
    · rw [mem_singleton.mp second]
      exact ⟨by decide, by decide, fun _ => rfl⟩
  · exact timed_ready _

def deviceFirst : List Resource :=
  [.small compDeviceId [0x41, 0xD0, 0x05, 0x01], .small compDeviceId [0x41, 0xD0, 0x05, 0x02],
    .large idStringAnsi [0x41]]

theorem later_device_lost : ¬ ∀ (resources : List Resource) (checksum : Nat) (resinfo : Bytes) (card more : Card) (pi : Pnpinfo),
    (∀ resource ∈ resources, resource.WellFormed) → resources.length + 1 < 1000 → checksum < 8 →
      Timed (streamBytes resources checksum) card → scanResdata resinfo (card ++ more) pi = (0, completed resources pi) := by
  intro claim
  have all := claim deviceFirst 1 [] ((streamBytes deviceFirst 1).map (0, ·)) [] {} ?_ (by decide) (by decide) (timed_ready _)
  · exact absurd all (by decide)
  · intro resource member
    rcases mem_cons.mp member with rfl | later
    · exact ⟨by decide, by decide, fun _ => rfl⟩
    · rcases mem_cons.mp later with rfl | last
      · exact ⟨by decide, by decide, fun _ => rfl⟩
      · rw [mem_singleton.mp last]
        exact ⟨by decide, by decide⟩

end Pcbsd.Proofs.ResourceScan
