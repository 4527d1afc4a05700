import Pcbsd.Linkerhints
import Pcbsd.Lib.Best

/-! The loop of mod_search_hints over a buffer of any content. -/

namespace Pcbsd.Preload
open Lib List Option

def Wanted (verinfo : Option ModDepend) (version : Int) : Prop := ∀ depend ∈ verinfo, version = depend.preferred

instance (verinfo : Option ModDepend) (version : Int) : Decidable (Wanted verinfo version) :=
  inferInstanceAs (Decidable (∀ depend ∈ verinfo, version = depend.preferred))

def within (verinfo : Option ModDepend) (version : Int) : Bool :=
  verinfo.any fun depend => depend.minimum ≤ version ∧ version ≤ depend.maximum

namespace Hints

variable {w : Nat} (hints : Hints w) (order : ByteOrder) (modname : Bytes) (verinfo : Option ModDepend)

/-- What the record at `o` says about the module: the version, and where the file name stands with its
length. It is none if one of the fields that are looked at is not in the buffer. -/
def entry (o : Int) : Option (Option (Int × Int × Nat)) := do
  let _ ← hints.int order o
  let type ← hints.int order (o + 4)
  if type ≠ mdtVersion then some none
  else
    let clen ← hints.char (o + 8)
    if clen ≠ modname.length then some none
    else
      let name ← hints.range (o + 9) clen
      if name ≠ modname then some none
      else
        let version ← hints.int order (intAlign (o + 9 + clen))
        let len ← hints.char (intAlign (o + 9 + clen) + 4)
        some (some (version, intAlign (o + 9 + clen) + 5, len))

def follow (o : Int) : Option Int := (hints.int order o).map (hints.advance o)

end Hints

structure Holding (s : HintSearch) (best : Option (Int × Int × Nat)) : Prop where
  found : s.found = false
  bestver : s.bestver = best.elim 0 Prod.fst
  place : s.best = best.map fun item => item.2.1
  blen : ∀ item ∈ best, s.blen = item.2.2
  positive : ∀ item ∈ best, 0 < item.1

@[simp] theorem wanted_none (version : Int) : Wanted none version := fun _ none => absurd none (by simp)

@[simp] theorem wanted_some (depend : ModDepend) (version : Int) :
    Wanted (some depend) version ↔ version = depend.preferred :=
  ⟨fun wanted => wanted depend rfl, fun same _ member => some.inj member ▸ same⟩

@[simp] theorem within_some (depend : ModDepend) (version : Int) :
    within (some depend) version = true ↔ depend.minimum ≤ version ∧ version ≤ depend.maximum := decide_eq_true_iff

theorem Holding.start : Holding .start none :=
  ⟨rfl, rfl, rfl, fun _ none => absurd none (by simp), fun _ none => absurd none (by simp)⟩

section

variable {w : Nat} (hints : Hints w) (order : ByteOrder) (modname : Bytes) (verinfo : Option ModDepend)

inductive Searched (s : HintSearch) (best : Option (Int × Int × Nat)) : Option (Option (Int × Int × Nat)) →
    Option HintSearch → Prop
  | outside : Searched s best none none
  | skipped {s' : HintSearch} (next : hints.follow order s.recptr = some s'.recptr) (holding : Holding s' best) :
    Searched s best (some none) (some s')
  | hit {s' : HintSearch} {item : Int × Int × Nat} (wanted : Wanted verinfo item.1) (found : s'.found = true)
    (cp : s'.cp = item.2.1) (clen : s'.clen = item.2.2) : Searched s best (some (some item)) (some s')
  | passed {s' : HintSearch} {item : Int × Int × Nat} (unwanted : ¬Wanted verinfo item.1)
    (next : hints.follow order s.recptr = some s'.recptr) (holding : Holding s' (better (within verinfo) 0 best item)) :
    Searched s best (some (some item)) (some s')

variable {s : HintSearch} {best : Option (Int × Int × Nat)} {item : Int × Int × Nat}

theorem searchRecord_searched (holding : Holding s best) :
    Searched hints order verinfo s best (hints.entry order modname s.recptr) (hints.searchRecord order modname verinfo s) := by
  obtain ⟨found, bestver, place, blen, positive⟩ := holding
  rw [Hints.searchRecord, Hints.entry]
  cases length : hints.int order s.recptr with
  | none => exact .outside
  | some reclen =>
    have next : hints.follow order s.recptr = some (hints.advance s.recptr reclen) := by rw [Hints.follow, length, map_some]
    cases kind : hints.int order (s.recptr + 4) with
    | none => exact .outside
    | some type =>
      simp only [bind_eq_bind, bind_some]
      by_cases version : type = mdtVersion
      · rw [if_pos version, if_neg (not_not.mpr version), Hints.versionRecord]
        have here : s.recptr + 8 + 1 = s.recptr + 9 := by omega
        rw [here]
        cases hints.char (s.recptr + 8) with
        | none => exact .outside
        | some clen =>
          simp only [bind_eq_bind, bind_some]
          by_cases same : clen = modname.length
          · rw [if_neg (not_not.mpr same), if_neg (not_not.mpr same)]
            cases hints.range (s.recptr + 9) clen with
            | none => exact .outside
            | some name =>
              simp only [bind_some]
              by_cases ours : name = modname
              · rw [if_neg (not_not.mpr ours), if_neg (not_not.mpr ours)]
                cases hints.int order (intAlign (s.recptr + 9 + clen)) with
                | none => exact .outside
                | some ival =>
                  cases hints.char (intAlign (s.recptr + 9 + clen) + 4) with
                  | none => exact .outside
                  | some len =>
                    simp only [bind_some]
                    have behind : intAlign (s.recptr + 9 + clen) + 4 + 1 = intAlign (s.recptr + 9 + clen) + 5 := by omega
                    rw [behind]
                    cases verinfo with
                    | none => exact .hit (wanted_none _) rfl rfl rfl
                    | some depend =>
                      dsimp only
                      by_cases preferred : ival = depend.preferred
                      · rw [if_pos preferred]
                        exact .hit ((wanted_some _ _).mpr preferred) rfl rfl rfl
                      have unwanted : ¬Wanted (some depend) ival := fun wanted => preferred ((wanted_some _ _).mp wanted)
                      rw [if_neg preferred, bestver]
                      by_cases improves : depend.minimum ≤ ival ∧ ival ≤ depend.maximum ∧ best.elim 0 Prod.fst < ival
                      · have kept : better (within (some depend)) 0 best (ival, intAlign (s.recptr + 9 + clen) + 5, len) =
                            some (ival, intAlign (s.recptr + 9 + clen) + 5, len) :=
                          if_pos ⟨(within_some _ _).mpr ⟨improves.1, improves.2.1⟩, improves.2.2⟩
                        have above : 0 < ival := by
                          cases best with
                          | none => exact improves.2.2
                          | some item => exact (positive item rfl).trans improves.2.2
                        rw [if_pos improves]
                        refine .passed unwanted next ?_
                        rw [kept]
                        exact ⟨found, rfl, rfl, fun _ same => some.inj same ▸ rfl, fun _ same => some.inj same ▸ above⟩
                      · have kept : better (within (some depend)) 0 best (ival, intAlign (s.recptr + 9 + clen) + 5, len) = best :=
                          if_neg fun both => improves ⟨((within_some _ _).mp both.1).1, ((within_some _ _).mp both.1).2, both.2⟩
                        rw [if_neg improves]
                        refine .passed unwanted next ?_
                        rw [kept]
                        exact ⟨found, rfl, place, blen, positive⟩
              · rw [if_pos ours, if_pos ours]
                exact .skipped next ⟨found, bestver, place, blen, positive⟩
          · rw [if_pos same, if_pos same]
            exact .skipped next ⟨found, bestver, place, blen, positive⟩
      · rw [if_neg version, if_pos version]
        exact .skipped next ⟨found, bestver, place, blen, positive⟩

/-- The records from one offset to another, each where the length of the one before leads. -/
inductive Leads : Int → List Int → Int → Prop
  | done (o : Int) : Leads o [] o
  | step {o next last : Int} {offsets : List Int} (follows : hints.follow order o = some next) (rest : Leads next offsets last) :
    Leads o (o :: offsets) last

/-- A record whose fields are in the buffer, and that is not the one that was asked for. -/
def Passed (o : Int) : Prop :=
  o < hints.size ∧ ∃ said, hints.entry order modname o = some said ∧ ∀ item ∈ said, ¬Wanted verinfo item.1

def entries (offsets : List Int) : List (Int × Int × Nat) :=
  offsets.filterMap fun o => (hints.entry order modname o).join

variable {hints order modname verinfo}

theorem entries_skipped {o : Int} (said : hints.entry order modname o = some none) (offsets : List Int) :
    entries hints order modname (o :: offsets) = entries hints order modname offsets := by
  rw [entries, filterMap_cons_none (by rw [said]; rfl), entries]

theorem entries_said {o : Int} (said : hints.entry order modname o = some (some item)) (offsets : List Int) :
    entries hints order modname (o :: offsets) = item :: entries hints order modname offsets := by
  rw [entries, filterMap_cons_some (by rw [said]; rfl), entries]

theorem searchLoop_passed {offsets : List Int} {last : Int} (leads : Leads hints order s.recptr offsets last)
    (passed : ∀ o ∈ offsets, Passed hints order modname verinfo o) (holding : Holding s best) :
    ∃ s', Holding s' ((entries hints order modname offsets).foldl (better (within verinfo) 0) best) ∧ s'.recptr = last ∧
      ∀ fuel, hints.searchLoop order modname verinfo (offsets.length + fuel) s =
        hints.searchLoop order modname verinfo fuel s' := by
  generalize start : s.recptr = o at leads
  induction leads generalizing s best with
  | done o => exact ⟨s, holding, start, fun fuel => by rw [length_nil, Nat.zero_add]⟩
  | @step o next last offsets follows _ ih =>
    subst start
    obtain ⟨inside, _, entry, unwanted⟩ := passed _ mem_cons_self
    have one (s' : HintSearch) (searched : hints.searchRecord order modname verinfo s = some s') (fuel : Nat) :
        hints.searchLoop order modname verinfo ((s.recptr :: offsets).length + fuel) s =
          hints.searchLoop order modname verinfo (offsets.length + fuel) s' := by
      rw [length_cons, Nat.add_right_comm, Hints.searchLoop, if_pos ⟨inside, holding.found⟩, searched]
    have searched := searchRecord_searched hints order modname verinfo holding
    rw [entry] at searched
    generalize reply : hints.searchRecord order modname verinfo s = after at searched
    cases searched with
    | skipped there kept =>
      obtain ⟨s', held, ended, loop⟩ := ih (fun o member => passed o (mem_cons_of_mem _ member)) kept
        (some.inj (there.symm.trans follows))
      exact ⟨s', by rwa [entries_skipped entry], ended, fun fuel => (one _ reply fuel).trans (loop fuel)⟩
    | hit wanted => exact absurd wanted (unwanted _ rfl)
    | passed _ there kept =>
      obtain ⟨s', held, ended, loop⟩ := ih (fun o member => passed o (mem_cons_of_mem _ member)) kept
        (some.inj (there.symm.trans follows))
      exact ⟨s', by rwa [entries_said entry], ended, fun fuel => (one _ reply fuel).trans (loop fuel)⟩

theorem searchLoop_ended (outside : hints.size ≤ s.recptr) (fuel : Nat) :
    hints.searchLoop order modname verinfo (fuel + 1) s = .returned s := by
  rw [Hints.searchLoop, if_neg fun both => both.1.not_ge outside]

theorem searchLoop_found (found : s.found = true) (fuel : Nat) :
    hints.searchLoop order modname verinfo (fuel + 1) s = .returned s := by
  rw [Hints.searchLoop, if_neg fun both => by rw [found] at both; exact Bool.noConfusion both.2]

theorem searchLoop_hit (holding : Holding s best) (inside : s.recptr < hints.size)
    (entry : hints.entry order modname s.recptr = some (some item)) (wanted : Wanted verinfo item.1) :
    ∃ s', s'.found = true ∧ s'.cp = item.2.1 ∧ s'.clen = item.2.2 ∧
      ∀ fuel, hints.searchLoop order modname verinfo (fuel + 2) s = .returned s' := by
  have searched := searchRecord_searched hints order modname verinfo holding
  rw [entry] at searched
  generalize reply : hints.searchRecord order modname verinfo s = after at searched
  cases searched with
  | @hit s' _ _ found cp clen =>
    refine ⟨s', found, cp, clen, fun fuel => ?_⟩
    rw [Hints.searchLoop, if_pos ⟨inside, holding.found⟩, reply]
    exact searchLoop_found found fuel
  | passed unwanted => exact absurd wanted unwanted

/-- A loop that ends has passed some records, and ended behind the buffer or at the one that was asked for. -/
theorem searchLoop_returned {fuel : Nat} {s' : HintSearch} (holding : Holding s best)
    (returned : hints.searchLoop order modname verinfo fuel s = .returned s') :
    ∃ offsets last, Leads hints order s.recptr offsets last ∧ (∀ o ∈ offsets, Passed hints order modname verinfo o) ∧
      ((hints.size ≤ last ∧ Holding s' ((entries hints order modname offsets).foldl (better (within verinfo) 0) best)) ∨
        (last < hints.size ∧ ∃ item, hints.entry order modname last = some (some item) ∧ Wanted verinfo item.1 ∧
          s'.found = true ∧ s'.cp = item.2.1 ∧ s'.clen = item.2.2)) := by
  induction fuel generalizing s best with
  | zero => cases returned
  | succ fuel ih =>
    rw [Hints.searchLoop] at returned
    by_cases inside : s.recptr < hints.size
    · rw [if_pos ⟨inside, holding.found⟩] at returned
      have searched := searchRecord_searched hints order modname verinfo holding
      generalize reply : hints.searchRecord order modname verinfo s = after at searched returned
      generalize said : hints.entry order modname s.recptr = what at searched
      cases searched with
      | outside => cases returned
      | skipped next kept =>
        obtain ⟨offsets, last, leads, passed, ended⟩ := ih kept returned
        refine ⟨s.recptr :: offsets, last, .step next leads, fun o member => ?_, ?_⟩
        · rcases mem_cons.mp member with rfl | later
          · exact ⟨inside, none, said, fun item none => absurd none (by simp)⟩
          · exact passed o later
        · rwa [entries_skipped said]
      | @hit after item wanted found cp clen =>
        refine ⟨[], s.recptr, .done _, fun o member => absurd member not_mem_nil, .inr ⟨inside, item, said, wanted, ?_⟩⟩
        cases fuel with
        | zero => cases returned
        | succ fuel =>
          dsimp only at returned
          rw [searchLoop_found found] at returned
          cases returned
          exact ⟨found, cp, clen⟩
      | @passed after item unwanted next kept =>
        obtain ⟨offsets, last, leads, passed, ended⟩ := ih kept returned
        refine ⟨s.recptr :: offsets, last, .step next leads, fun o member => ?_, ?_⟩
        · rcases mem_cons.mp member with rfl | later
          · exact ⟨inside, some item, said, fun other same => some.inj same ▸ unwanted⟩
          · exact passed o later
        · rwa [entries_said said]
    · rw [if_neg fun both => inside both.1] at returned
      cases returned
      exact ⟨[], s'.recptr, .done _, fun o member => absurd member not_mem_nil, .inl ⟨not_lt.mp inside, holding⟩⟩

theorem kld_found (found : s.found = true) (cp : s.cp = item.2.1) (clen : s.clen = item.2.2) :
    hints.kld s = (hints.range item.2.1 item.2.2).map some := by
  rw [Hints.kld, if_pos found, cp, clen]

theorem kld_holding (holding : Holding s best) :
    hints.kld s = best.elim (some none) fun item => (hints.range item.2.1 item.2.2).map some := by
  rw [Hints.kld, if_neg (by rw [holding.found]; exact Bool.false_ne_true), holding.place]
  cases best with
  | none => rfl
  | some item => rw [map_some, elim_some, holding.blen item rfl]

end

end Pcbsd.Preload
