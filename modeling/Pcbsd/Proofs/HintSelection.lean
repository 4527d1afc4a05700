import Mathlib.Data.List.TakeWhile
import Pcbsd.Proofs.HintRecords

/-! For which linker.hints files mod_search_hints ends and stays inside the buffer. -/

namespace Pcbsd.Preload
open Lib Option

section

variable {w n : Nat} {σ : Type} (hints : Hints w) (order : ByteOrder) (modname : Bytes) (verinfo : Option ModDepend)

/-- The records of a buffer, each where the length of the one before leads, lie inside with the fields
that are looked at, until one ends behind the buffer or is the one that was asked for; and so does the
file name of the best one or of that one. -/
def Sound : Prop :=
  ∃ offsets last, Leads hints order 0 offsets last ∧ (∀ o ∈ offsets, Passed hints order modname verinfo o) ∧
    ((hints.size ≤ last ∧
        ∀ item, IsBest (within verinfo) 0 (entries hints order modname offsets) item → (hints.range item.2.1 item.2.2).isSome) ∨
      (last < hints.size ∧ ∃ item, hints.entry order modname last = some (some item) ∧ Wanted verinfo item.1 ∧
        (hints.range item.2.1 item.2.2).isSome))

variable (env : Libstand w σ) (machine : Machine w n σ) {hints}

theorem searchEnd_returned_iff (mdp : Moduledir w) (s : HintSearch) (outside : σ) :
    (∃ result, (searchEnd machine mdp hints modname s outside).1 = .returned result) ↔ (hints.kld s).isSome := by
  rw [searchEnd]
  cases hints.kld s with
  | none =>
    constructor
    · rintro ⟨result, returned⟩
      cases returned
    · intro known
      cases known
  | some kld =>
    refine ⟨fun _ => rfl, fun _ => ?_⟩
    cases kld <;>
    · dsimp only
      split
      · exact ⟨_, rfl⟩
      · exact ⟨_, rfl⟩

theorem modSearchHints_searched {mdp : Moduledir w} {outside : σ}
    (accepted : (moduledirReadhints env mdp outside).1.hints = some hints) (fuel : Nat) :
    (∃ result, (mdp.modSearchHints env machine fuel modname verinfo outside).1 = .returned result) ↔
      ∃ s, hints.searchLoop env.order modname verinfo fuel .start = .returned s ∧ (hints.kld s).isSome := by
  rw [Moduledir.modSearchHints]
  generalize moduledirReadhints env mdp outside = read at accepted
  dsimp only at accepted ⊢
  rw [accepted]
  dsimp only
  cases hints.searchLoop env.order modname verinfo fuel .start with
  | returned s =>
    rw [searchEnd_returned_iff]
    constructor
    · exact fun known => ⟨s, rfl, known⟩
    · rintro ⟨_, same, known⟩
      cases same
      exact known
  | fault | running =>
    constructor
    · rintro ⟨result, returned⟩
      cases returned
    · rintro ⟨s, same, -⟩
      cases same

theorem kld_isSome_iff {s : HintSearch} {items : List (Int × Int × Nat)}
    (holding : Holding s (bestOf (within verinfo) 0 items)) :
    (hints.kld s).isSome ↔ ∀ item, IsBest (within verinfo) 0 items item → (hints.range item.2.1 item.2.2).isSome := by
  rw [kld_holding holding]
  cases best : bestOf (within verinfo) 0 items with
  | none => exact ⟨fun _ item is => absurd (bestOf_eq_some_iff.mpr is) (by rw [best]; simp), fun _ => rfl⟩
  | some item =>
    rw [elim_some, isSome_map]
    refine ⟨fun known other is => ?_, fun all => all item (bestOf_eq_some_iff.mp best)⟩
    rwa [← some.inj (best.symm.trans (bestOf_eq_some_iff.mpr is))]

/-- The search ends without an access outside the hints exactly if the records that the lengths lead to are sound. -/
theorem modSearchHints_safe_iff {mdp : Moduledir w} {outside : σ}
    (accepted : (moduledirReadhints env mdp outside).1.hints = some hints) :
    (∃ fuel result, (mdp.modSearchHints env machine fuel modname verinfo outside).1 = .returned result) ↔
      Sound hints env.order modname verinfo := by
  simp only [modSearchHints_searched modname verinfo env machine accepted]
  constructor
  · rintro ⟨fuel, s, returned, known⟩
    obtain ⟨offsets, last, leads, passed, ended⟩ := searchLoop_returned Holding.start returned
    refine ⟨offsets, last, leads, passed, ?_⟩
    rcases ended with ⟨outside, holding⟩ | ⟨inside, item, entry, wanted, found, cp, clen⟩
    · exact .inl ⟨outside, (kld_isSome_iff verinfo holding).mp known⟩
    · rw [kld_found found cp clen, isSome_map] at known
      exact .inr ⟨inside, item, entry, wanted, known⟩
  · rintro ⟨offsets, last, leads, passed, ended⟩
    obtain ⟨s, holding, there, loop⟩ := searchLoop_passed (s := .start) leads passed Holding.start
    rcases ended with ⟨outside, known⟩ | ⟨inside, item, entry, wanted, known⟩
    · exact ⟨offsets.length + 1, s, (loop 1).trans (searchLoop_ended (there ▸ outside) 0),
        (kld_isSome_iff verinfo holding).mpr known⟩
    · obtain ⟨s', found, cp, clen, ends⟩ := searchLoop_hit holding (there ▸ inside) (there ▸ entry) wanted
      refine ⟨offsets.length + 2, s', (loop 2).trans (ends 0), ?_⟩
      rw [kld_found found cp clen, isSome_map]
      exact known

end

/-- A machine where every file has this content; its state is what has not been read. -/
def oneFile (file : Bytes) : Libstand 64 Bytes where
  order := .little
  sizeofModuledir := 40
  getenv _ _ := none
  malloc rest size := (if less : size < 2 ^ 64 then some ⟨0, by omega⟩ else none, rest)
  stat rest _ := (some file.length, rest)
  openFile _ _ := (some 0, file)
  read rest _ n := (some (rest.take n), rest.drop n)
  close rest _ := rest

def emptyDisk : Machine 64 0 Bytes where
  fileFormats := []
  fileAlloc _ := none
  archLoadaddr := none
  archReadin rest memory _ _ _ := (0, memory, rest)
  onDevice _ _ := false
  stat rest _ := (.missing, rest)
  openFile rest _ := (none, rest)
  close rest _ := rest
  moduledirs rest := ([], rest)
  readhints rest _ := (none, rest)
  unsetenv rest _ := rest

def kernelDir : Moduledir 64 := ⟨ascii ("/boot/kernel".toList), none, false, false⟩

def plainHints : Hints 64 := ⟨[4, 0, 0, 0, 1, 0, 0, 0], 0, by decide, by decide, by decide⟩

theorem plainHints_read :
    (moduledirReadhints (oneFile ([1, 0, 0, 0] ++ plainHints.bytes)) kernelDir []).1.hints = some plainHints := rfl

theorem plainHints_safe :
    (∃ fuel result, (kernelDir.modSearchHints (oneFile ([1, 0, 0, 0] ++ plainHints.bytes)) emptyDisk fuel
    (ascii ['a']) none []).1 = .returned result) ↔ Sound plainHints .little (ascii ['a']) none :=
  modSearchHints_safe_iff (ascii ['a']) none (oneFile ([1, 0, 0, 0] ++ plainHints.bytes)) emptyDisk plainHints_read

def stuckHints : Hints 64 := ⟨[0xfc, 0xff, 0xff, 0xff, 1, 0, 0, 0], 0, by decide, by decide, by decide⟩

theorem stuckHints_read :
    (moduledirReadhints (oneFile ([1, 0, 0, 0] ++ stuckHints.bytes)) kernelDir []).1.hints = some stuckHints := rfl

theorem stuckHints_running :
    ¬∃ fuel result, (kernelDir.modSearchHints (oneFile ([1, 0, 0, 0] ++ stuckHints.bytes)) emptyDisk fuel
    (ascii ['a']) none []).1 = .returned result := by
  rintro ⟨fuel, returned⟩
  rw [modSearchHints_searched (ascii ['a']) none _ emptyDisk stuckHints_read] at returned
  obtain ⟨_, returned, -⟩ := returned
  obtain ⟨_, last, leads, -, ended⟩ := searchLoop_returned Holding.start returned
  have here : last = 0 := by
    generalize start : HintSearch.start.recptr = o at leads
    have zero : o = 0 := start.symm
    clear returned ended start
    induction leads with
    | done o => exact zero
    | step follows _ ih =>
      subst zero
      exact ih (some.inj (follows.symm.trans (by decide)))
  subst here
  rcases ended with ⟨outside, -⟩ | ⟨-, _, entry, -⟩
  · exact absurd outside (by decide)
  · have said : stuckHints.entry .little (ascii ['a']) 0 = some none := by decide
    exact absurd (entry.symm.trans said) (by simp)

end Pcbsd.Preload

/-! Which file mod_search_hints looks up when linker.hints is well formed. -/

namespace Pcbsd.Preload
open Lib List Option

/-- What is to be taken from the versions that are offered: the first one that is wanted, else the greatest
one in the range (the first of them), else nothing. -/
inductive Chosen (verinfo : Option ModDepend) (offers : List (Int × Bytes)) : Option (Int × Bytes) → Prop
  | wanted {front back : List (Int × Bytes)} {offer : Int × Bytes} (place : offers = front ++ offer :: back)
    (wanted : Wanted verinfo offer.1) (first : ∀ other ∈ front, ¬Wanted verinfo other.1) :
      Chosen verinfo offers (some offer)
  | greatest {offer : Int × Bytes} (unwanted : ∀ other ∈ offers, ¬Wanted verinfo other.1)
      (best : IsBest (within verinfo) 0 offers offer) :
    Chosen verinfo offers (some offer)
  | none (unwanted : ∀ other ∈ offers, ¬Wanted verinfo other.1)
      (outside : ∀ other ∈ offers, within verinfo other.1 = false) :
    Chosen verinfo offers none

variable {verinfo : Option ModDepend} {modname : Bytes}

theorem bestModule_isSome {modules : List KernelModule} {best : Option KernelModule} {bestver : Int}
    (some : best.isSome ∨ ∃ mp ∈ modules, mp.name = modname ∧
      (Wanted verinfo mp.version ∨ within verinfo mp.version = true ∧ bestver < mp.version)) :
    (bestModule modname verinfo best bestver modules).isSome := by
  induction modules generalizing best bestver with
  | nil =>
    rcases some with known | ⟨mp, member, -⟩
    · exact known
    · exact absurd member not_mem_nil
  | cons first modules ih =>
    have skipped (named : first.name ≠ modname) : best.isSome ∨ ∃ mp ∈ modules, mp.name = modname ∧
        (Wanted verinfo mp.version ∨ within verinfo mp.version = true ∧ bestver < mp.version) := by
      rcases some with known | ⟨mp, member, same, good⟩
      · exact .inl known
      · rcases mem_cons.mp member with rfl | later
        · exact absurd same named
        · exact .inr ⟨mp, later, same, good⟩
    cases verinfo with
    | none =>
      rw [bestModule]
      by_cases named : first.name = modname
      · rw [if_neg (not_not.mpr named)]
        rfl
      · rw [if_pos named]
        exact ih (skipped named)
    | some depend =>
      rw [bestModule]
      by_cases named : first.name = modname
      · rw [if_neg (not_not.mpr named)]
        by_cases preferred : first.version = depend.preferred
        · rw [if_pos preferred]
          rfl
        rw [if_neg preferred]
        by_cases improves : depend.minimum ≤ first.version ∧ first.version ≤ depend.maximum ∧ bestver < first.version
        · rw [if_pos improves]
          exact ih (.inl rfl)
        · rw [if_neg improves]
          apply ih
          rcases some with known | ⟨mp, member, same, good⟩
          · exact .inl known
          · rcases mem_cons.mp member with rfl | later
            · rcases good with wanted | ⟨inside, above⟩
              · exact absurd ((wanted_some _ _).mp wanted) preferred
              · exact absurd ⟨((within_some _ _).mp inside).1, ((within_some _ _).mp inside).2, above⟩ improves
            · exact .inr ⟨mp, later, same, good⟩
      · rw [if_pos named]
        exact ih (skipped named)

theorem Chosen.accepted {offers : List (Int × Bytes)} {offer : Int × Bytes}
    (chosen : Chosen verinfo offers (some offer)) {w n : Nat} {files : List (Fin n × PreloadedFile w n)}
    {entry : Fin n × PreloadedFile w n} (listed : entry ∈ files) (defines : ⟨modname, offer.1⟩ ∈ entry.2.modules) :
    (fileFindmodule files modname verinfo).isSome := by
  have good : Wanted verinfo offer.1 ∨ within verinfo offer.1 = true ∧ 0 < offer.1 := by
    cases chosen with
    | wanted _ wanted _ => exact .inl wanted
    | greatest _ best => exact .inr ⟨best.allowed, best.above⟩
  rw [fileFindmodule, findSome?_isSome_iff]
  exact ⟨entry, listed, bestModule_isSome (.inr ⟨_, defines, rfl, good⟩)⟩

theorem first_wanted (modname : Bytes) (verinfo : Option ModDepend) (records : List HintRecord) :
    (∀ offer ∈ offers modname records, ¬Wanted verinfo offer.1) ∨ ∃ front record back offer, records = front ++ record :: back ∧
      record.offer modname = some offer ∧ Wanted verinfo offer.1 ∧ ∀ other ∈ offers modname front, ¬Wanted verinfo other.1 := by
  induction records with
  | nil => exact .inl fun offer member => absurd member not_mem_nil
  | cons record records ih =>
    by_cases here : ∃ offer, record.offer modname = some offer ∧ Wanted verinfo offer.1
    · obtain ⟨offer, offered, wanted⟩ := here
      exact .inr ⟨[], record, records, offer, rfl, offered, wanted, fun other member => absurd member not_mem_nil⟩
    · have unwanted (front : List HintRecord) (rest : ∀ other ∈ offers modname front, ¬Wanted verinfo other.1) :
          ∀ other ∈ offers modname (record :: front), ¬Wanted verinfo other.1 := by
        intro other member wanted
        obtain ⟨source, listed, offered⟩ := mem_filterMap.mp member
        rcases mem_cons.mp listed with rfl | later
        · exact here ⟨other, offered, wanted⟩
        · exact rest other (mem_filterMap.mpr ⟨source, later, offered⟩) wanted
      rcases ih with all | ⟨front, found, back, offer, place, offered, wanted, before⟩
      · exact .inl (unwanted records all)
      · exact .inr ⟨record :: front, found, back, offer, by rw [place]; rfl, offered, wanted, unwanted front before⟩

section

variable {w n : Nat} {σ : Type} (env : Libstand w σ) (machine : Machine w n σ) {hints : Hints w}

variable {records : List HintRecord} {modname : Bytes} {mdp : Moduledir w} {s : HintSearch}

theorem searchEnd_named {kld : Bytes} (named : hints.kld s = some (some kld)) (known : s.found = true ∨ s.bestver ≠ 0)
    (outside : σ) :
    searchEnd machine mdp hints modname s outside =
      (.returned (fileLookup machine mdp.path kld emptyextlist outside).1,
        (fileLookup machine mdp.path kld emptyextlist outside).2) := by
  rw [searchEnd, named]
  dsimp only
  rw [if_neg]
  rintro ⟨found, bestver, -⟩
  rcases known with yes | some
  · rw [found] at yes
    cases yes
  · exact some bestver

theorem searchEnd_unnamed (holding : Holding s none) (outside : σ) :
    searchEnd machine mdp hints modname s outside = (.returned (fileLookup machine mdp.path modname kldExtList outside).1,
      (fileLookup machine mdp.path modname kldExtList outside).2) := by
  rw [searchEnd, kld_holding holding]
  dsimp only [elim_none]
  rw [if_pos ⟨holding.found, holding.bestver, rfl⟩]

def lookupChoice (machine : Machine w n σ) (dir modname : Bytes) (choice : Option (Int × Bytes)) (outside : σ) :
    Option Bytes × σ :=
  match choice with
  | some offer => fileLookup machine dir offer.2 emptyextlist outside
  | none => fileLookup machine dir modname kldExtList outside

theorem offer_positive {offer : Int × Bytes} (member : offer ∈ offers modname records) :
    0 < offer.1 := by
  obtain ⟨record, -, offered⟩ := mem_filterMap.mp member
  cases record with
  | other other => cases offered
  | version version =>
    rw [HintRecord.offer] at offered
    by_cases ours : version.modname = modname
    · rw [if_pos ours] at offered
      rw [← some.inj offered]
      exact version.positive
    · rw [if_neg ours] at offered
      cases offered

theorem search_chosen (formed : hints.bytes = encodeAll env.order records) (mdp : Moduledir w) (modname : Bytes)
    (verinfo : Option ModDepend) (outside : σ) :
    ∃ choice, Chosen verinfo (offers modname records) choice ∧ ∀ fuel, records.length < fuel →
      ∃ s, hints.searchLoop env.order modname verinfo fuel .start = .returned s ∧
        searchEnd machine mdp hints modname s outside =
        (.returned (lookupChoice machine mdp.path modname choice outside).1,
          (lookupChoice machine mdp.path modname choice outside).2) := by
  have whole : At hints.bytes 0 (encodeAll env.order records) := ⟨[], by rw [append_nil, formed, drop_zero]⟩
  have total : (encodeAll env.order records).length = hints.bytes.length := by rw [formed]
  rcases first_wanted modname verinfo records with unwanted | ⟨front, record, back, offer, rfl, offered, wanted, before⟩
  · obtain ⟨leads, said, passed⟩ := records_laid whole (by omega) rfl modname verinfo
    obtain ⟨s, holding, there, loop⟩ := searchLoop_passed (s := .start) leads (passed unwanted) Holding.start
    rw [← bestOf] at holding
    have ends (fuel : Nat) (enough : records.length < fuel) :
        hints.searchLoop env.order modname verinfo fuel .start = .returned s := by
      have count : (starts env.order 0 records).length = records.length := length_starts ..
      obtain ⟨more, rfl⟩ := Nat.exists_eq_add_of_lt enough
      rw [Nat.add_assoc, ← count, loop]
      apply searchLoop_ended
      rw [there, Hints.size]
      omega
    -- the best entry is the best offer
    have best : (bestOf (within verinfo) 0 (entries hints env.order modname (starts env.order 0 records))).map
        (fun item => (item.1, hints.range item.2.1 item.2.2)) =
          (bestOf (within verinfo) 0 (offers modname records)).map fun offer => (offer.1, some offer.2) := by
      rw [← bestOf_map, ← bestOf_map, said]
    cases chosen : bestOf (within verinfo) 0 (offers modname records) with
    | none =>
      have outside' : ∀ other ∈ offers modname records, within verinfo other.1 = false := by
        intro other member
        by_contra inside
        have small := bestOf_eq_none_iff.mp chosen other member (Bool.eq_true_of_not_eq_false inside)
        exact (offer_positive member).not_ge small
      refine ⟨none, .none unwanted outside', fun fuel enough => ⟨s, ends fuel enough, ?_⟩⟩
      rw [chosen, map_none, map_eq_none_iff] at best
      rw [best] at holding
      exact searchEnd_unnamed machine holding outside
    | some offer =>
      refine ⟨some offer, .greatest unwanted (bestOf_eq_some_iff.mp chosen),
        fun fuel enough => ⟨s, ends fuel enough, ?_⟩⟩
      rw [chosen, map_some, map_eq_some_iff] at best
      obtain ⟨item, found, same⟩ := best
      obtain ⟨version, kld⟩ := Prod.mk.inj same
      rw [found] at holding
      have named : hints.kld s = some (some offer.2) := by rw [kld_holding holding, elim_some, kld, map_some]
      apply searchEnd_named machine named (.inr _)
      rw [holding.bestver, elim_some]
      exact (holding.positive item rfl).ne'
  · rw [encodeAll_append, encodeAll_cons] at whole total
    obtain ⟨placed, later⟩ := at_append.mp whole
    have here := (at_append.mp later).1
    rw [length_append, length_append] at total
    have aligned : (0 + (encodeAll env.order front).length) % 4 = 0 := by
      rw [Nat.zero_add]
      exact length_encodeAll front
    have positive := (@length_encode_aligned env.order record).2
    obtain ⟨leads, -, passed⟩ := records_laid placed (by omega) rfl modname verinfo
    obtain ⟨item, entry, same⟩ := entry_record here (by omega) aligned modname
    rw [offered, map_some, map_eq_some_iff] at same
    obtain ⟨item, rfl, same⟩ := same
    obtain ⟨version, kld⟩ := Prod.mk.inj same
    obtain ⟨s, holding, there, loop⟩ := searchLoop_passed (s := .start) leads (passed before) Holding.start
    obtain ⟨s', found, cp, clen, ends⟩ :=
      searchLoop_hit holding (by rw [there, Hints.size]; omega) (there ▸ entry) (version ▸ wanted)
    refine ⟨some offer, @Chosen.wanted verinfo _ (offers modname front) (offers modname back) offer ?_ wanted before,
      fun fuel enough => ⟨s', ?_, ?_⟩⟩
    · rw [offers_append, offers, offers, filterMap_cons_some offered]
      rfl
    · have count : (starts env.order 0 front).length = front.length := length_starts ..
      rw [length_append, length_cons] at enough
      obtain ⟨more, rfl⟩ : ∃ more, fuel = (starts env.order 0 front).length + (more + 2) :=
        ⟨fuel - front.length - 2, by omega⟩
      rw [loop]
      exact ends more
    · have named : hints.kld s' = some (some offer.2) := by rw [kld_found found cp clen, kld, map_some]
      exact searchEnd_named machine named (.inl found) outside

theorem modSearchHints_lookup {outside : σ} (accepted : (moduledirReadhints env mdp outside).1.hints = some hints)
    (formed : hints.bytes = encodeAll env.order records) (modname : Bytes) (verinfo : Option ModDepend) :
    ∃ choice, Chosen verinfo (offers modname records) choice ∧
      ∀ fuel, records.length < fuel → mdp.modSearchHints env machine fuel modname verinfo outside =
        (.returned (lookupChoice machine mdp.path modname choice (moduledirReadhints env mdp outside).2).1,
          (moduledirReadhints env mdp outside).1,
            (lookupChoice machine mdp.path modname choice (moduledirReadhints env mdp outside).2).2) := by
  obtain ⟨choice, chosen, search⟩ :=
    search_chosen env machine formed (moduledirReadhints env mdp outside).1 modname verinfo
    (moduledirReadhints env mdp outside).2
  refine ⟨choice, chosen, fun fuel enough => ?_⟩
  obtain ⟨_, returned, ended⟩ := search fuel enough
  have path := moduledirReadhints_path env mdp outside
  rw [Moduledir.modSearchHints]
  generalize moduledirReadhints env mdp outside = read at accepted ended path ⊢
  dsimp only at accepted ended path ⊢
  rw [accepted]
  dsimp only
  rw [returned]
  dsimp only
  rw [ended, path]

/-- mod_search_hints on a well-formed linker.hints; what it selects passes file_findmodule. -/
theorem modSearchHints_chosen {mdp : Moduledir w} {outside : σ} {records : List HintRecord}
    (accepted : (moduledirReadhints env mdp outside).1.hints = some hints)
    (formed : hints.bytes = encodeAll env.order records) (modname : Bytes) (verinfo : Option ModDepend) :
    ∃ choice, Chosen verinfo (offers modname records) choice ∧
      (∀ fuel, records.length < fuel → mdp.modSearchHints env machine fuel modname verinfo outside =
        (.returned (lookupChoice machine mdp.path modname choice (moduledirReadhints env mdp outside).2).1,
          (moduledirReadhints env mdp outside).1,
            (lookupChoice machine mdp.path modname choice (moduledirReadhints env mdp outside).2).2)) ∧
      ∀ offer, choice = some offer → ∀ (files : List (Fin n × PreloadedFile w n)) (entry : Fin n × PreloadedFile w n),
        entry ∈ files → ⟨modname, offer.1⟩ ∈ entry.2.modules → (fileFindmodule files modname verinfo).isSome := by
  obtain ⟨choice, chosen, search⟩ := modSearchHints_lookup env machine accepted formed modname verinfo
  refine ⟨choice, chosen, search, ?_⟩
  rintro offer rfl files entry listed defines
  exact chosen.accepted listed defines

end

/-- What moduledir_readhints makes of a record. -/
def HintRecord.hint : HintRecord → Hint
  | .version record => .version record.modname record.version record.kld
  | .other _ => .other

section

variable {modname : Bytes} {verinfo : Option ModDepend}

/-- The loop over records finds the first version that is wanted, and without one the best of them, by induction on
the records. -/
theorem scanHints_offers (records : List HintRecord) (best : Option (Int × Bytes)) :
    (scanHints modname verinfo (best.map Prod.snd) (best.elim 0 Prod.fst) (records.map HintRecord.hint)).1 =
        ((offers modname records).find? fun offer => Wanted verinfo offer.1).map Prod.snd ∧
      ((∀ offer ∈ offers modname records, ¬Wanted verinfo offer.1) →
        (scanHints modname verinfo (best.map Prod.snd) (best.elim 0 Prod.fst) (records.map HintRecord.hint)).2 =
          ((offers modname records).foldl (better (within verinfo) 0) best).map Prod.snd) := by
  induction records generalizing best with
  | nil => exact ⟨rfl, fun _ => rfl⟩
  | cons record records ih =>
    cases record with
    | other other => exact ih best
    | version version =>
      rw [map_cons, HintRecord.hint, scanHints.eq_def, offers, filterMap_cons, HintRecord.offer, ← offers]
      dsimp only
      by_cases named : version.modname = modname
      swap
      · rw [if_pos named, if_neg named]
        exact ih best
      rw [if_neg (not_not.mpr named), if_pos named]
      dsimp only
      rw [foldl_cons, better]
      have found (wanted : Wanted verinfo version.version) :
          ((version.version, version.kld) :: offers modname records).find? (fun offer => Wanted verinfo offer.1) =
            some (version.version, version.kld) := find?_cons_of_pos (decide_eq_true wanted)
      cases verinfo with
      | none =>
        have wanted : Wanted none version.version := fun depend none => by cases none
        exact ⟨by rw [found wanted]; rfl, fun unwanted => absurd wanted (unwanted _ mem_cons_self)⟩
      | some depend =>
        dsimp only
        by_cases preferred : version.version = depend.preferred
        · have wanted : Wanted (some depend) version.version := fun depend' here => by cases here; exact preferred
          rw [if_pos preferred]
          exact ⟨by rw [found wanted]; rfl, fun unwanted => absurd wanted (unwanted _ mem_cons_self)⟩
        rw [if_neg preferred, find?_cons_of_neg (by simpa [Wanted] using preferred)]
        by_cases taken : depend.minimum ≤ version.version ∧ version.version ≤ depend.maximum ∧
          best.elim 0 Prod.fst < version.version
        · rw [if_pos taken, if_pos ⟨by simpa [within] using ⟨taken.1, taken.2.1⟩, taken.2.2⟩]
          obtain ⟨first, second⟩ := ih (some (version.version, version.kld))
          exact ⟨first, fun unwanted => second fun offer later => unwanted offer (mem_cons_of_mem _ later)⟩
        · rw [if_neg taken, if_neg fun both => taken (by simpa [within, and_assoc] using both)]
          exact ⟨(ih best).1, fun unwanted => (ih best).2 fun offer later => unwanted offer (mem_cons_of_mem _ later)⟩

variable {w n : Nat} {σ : Type} (env : Libstand w σ) (machine : Machine w n σ) {hints : Hints w}

variable {records : List HintRecord} {outside : σ}

theorem lookupChoice_scan {choice : Option (Int × Bytes)} (chosen : Chosen verinfo (offers modname records) choice)
    {dir : Bytes} {outside' : σ}
    (read : machine.readhints outside dir = (some (records.map HintRecord.hint), outside')) :
    modSearchHints machine modname verinfo dir outside = lookupChoice machine dir modname choice outside' := by
  obtain ⟨first, second⟩ := @scanHints_offers modname verinfo records none
  rw [modSearchHints, read]
  dsimp only [getD_some, map_none, elim_none] at first second ⊢
  have none_wanted (unwanted : ∀ other ∈ offers modname records, ¬Wanted verinfo other.1) :
      scanHints modname verinfo none 0 (records.map HintRecord.hint) =
        (none, (bestOf (within verinfo) 0 (offers modname records)).map Prod.snd) := by
    refine Prod.ext ?_ (second unwanted)
    rw [first, find?_eq_none.mpr fun offer member => by simpa using unwanted offer member]
    rfl
  cases chosen with
  | @wanted _ _ offer place wanted before =>
    have found : (offers modname records).find? (fun offer => Wanted verinfo offer.1) = some offer := by
      rw [place, find?_append, find?_eq_none.mpr fun other member => by simpa using before other member, none_or]
      exact find?_cons_of_pos (decide_eq_true wanted)
    rw [found] at first
    generalize scanHints modname verinfo none 0 (records.map HintRecord.hint) = result at first
    obtain ⟨_, _⟩ := result
    cases first
    rfl
  | greatest unwanted best =>
    rw [none_wanted unwanted, bestOf_eq_some_iff.mpr best]
    rfl
  | none unwanted outside =>
    rw [none_wanted unwanted, bestOf_eq_none_iff.mpr fun other member inside => absurd inside (by simp [outside other member])]
    rfl

/-- On a well-formed linker.hints, mod_search_hints over its bytes is mod_search_hints over the records. -/
theorem modSearchHints_records {mdp : Moduledir w}
    (accepted : (moduledirReadhints env mdp outside).1.hints = some hints)
    (formed : hints.bytes = encodeAll env.order records)
    (read : machine.readhints outside mdp.path =
      (some (records.map HintRecord.hint), (moduledirReadhints env mdp outside).2)) {fuel : Nat}
    (enough : records.length < fuel) :
    mdp.modSearchHints env machine fuel modname verinfo outside =
      (.returned (modSearchHints machine modname verinfo mdp.path outside).1, (moduledirReadhints env mdp outside).1,
        (modSearchHints machine modname verinfo mdp.path outside).2) := by
  obtain ⟨_, chosen, search⟩ := modSearchHints_lookup env machine accepted formed modname verinfo
  rw [search fuel enough, lookupChoice_scan machine chosen read]

end

def oneRecord : VersionRecord where
  modname := ascii ['a']
  gap := [0, 0]
  version := 2
  kld := ascii ['b']
  tail := [0, 0]
  shortName := by decide
  shortKld := by decide
  gapAligned := by decide
  gapShort := by decide
  tailAligned := by decide
  positive := by decide
  fits := by decide

def oneHints : Hints 64 := ⟨encodeAll .little [.version oneRecord], 0, by decide, by decide, by decide⟩

theorem oneHints_chosen : ∃ choice, Chosen none (offers (ascii ['a']) [.version oneRecord]) choice ∧
    (∀ fuel, 1 < fuel → kernelDir.modSearchHints (oneFile ([1, 0, 0, 0] ++ oneHints.bytes)) emptyDisk fuel
      (ascii ['a']) none [] =
      (.returned (lookupChoice emptyDisk kernelDir.path (ascii ['a']) choice []).1,
        { kernelDir with hints := some oneHints }, (lookupChoice emptyDisk kernelDir.path (ascii ['a']) choice []).2)) ∧
    ∀ offer, choice = some offer → ∀ (files : List (Fin 0 × PreloadedFile 64 0)) (entry : Fin 0 × PreloadedFile 64 0),
      entry ∈ files → ⟨ascii ['a'], offer.1⟩ ∈ entry.2.modules → (fileFindmodule files (ascii ['a']) none).isSome :=
  @modSearchHints_chosen 64 0 Bytes (oneFile ([1, 0, 0, 0] ++ oneHints.bytes)) emptyDisk oneHints kernelDir []
    [.version oneRecord] rfl rfl (ascii ['a']) none

end Pcbsd.Preload
