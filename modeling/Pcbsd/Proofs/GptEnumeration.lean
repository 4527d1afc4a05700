import Pcbsd.Proofs.GptMemory

/-! The order in which gptfind hands out partitions to a boot block that fails on each of
them. Attribute changes never make an entry a candidate again, so the enumeration is a walk
over the table that was loaded. -/

namespace Pcbsd.Proofs.GptEnumeration
open Lib Gpt Proofs.GptImage Proofs.GptMemory List

def hits (q : Nat → Bool) (n start : Nat) : List Nat := (range' start (n - start)).filter q

theorem scan_hits (p : Ent → Bool) (table : Nat → Ent) {n start : Nat} (inside : start ≤ n) :
    let j := scan p table (n - start) start
    start ≤ j ∧ (j < n ∧ hits (fun i => p (table i)) n start = j :: hits (fun i => p (table i)) n (j + 1) ∨
      j = n ∧ hits (fun i => p (table i)) n start = []) := by
  generalize fuel : n - start = k
  induction k generalizing start with
  | zero =>
    have last : start = n := by omega
    subst last
    simp [scan, hits]
  | succ k ih =>
    have unfolded : hits (fun i => p (table i)) n start =
        if p (table start) then start :: hits (fun i => p (table i)) n (start + 1)
          else hits (fun i => p (table i)) n (start + 1) := by
      simp only [hits, fuel, range'_succ, filter_cons, show n - (start + 1) = k by omega]
    simp only [scan]
    split
    next found => exact ⟨le_refl _, .inl ⟨by omega, by rw [unfolded, if_pos found]⟩⟩
    next missed =>
      obtain ⟨_, result⟩ := @ih (start + 1) (by omega) (by omega)
      exact ⟨by omega, by rw [unfolded, if_neg missed]; exact result⟩

def partOf (i : Nat) : Int := i + 1

/-- One round of the boot block: the next partition, or none, and then the failed boot. -/
def attempt (bios : Bios) (uuid : Bytes) (s : State) (dsk : Dsk) : Option Int × State × Dsk :=
  match gptfind bios s uuid dsk (-1) with
  | (0, s, dsk) => (some dsk.part, gptbootfailed bios s dsk, dsk)
  | (_, s, dsk) => (none, s, dsk)

def result (bios : Bios) (uuid : Bytes) : Nat → State → Dsk → Option Int
  | 0, s, dsk => (attempt bios uuid s dsk).1
  | k + 1, s, dsk => result bios uuid k (attempt bios uuid s dsk).2.1 (attempt bios uuid s dsk).2.2

/-- What is left of the table `table` that was loaded, as far as gptfind can still see it. -/
structure Tracks (uuid : Bytes) (table : Nat → Ent) (n : Nat) (s : State) : Prop where
  loaded : Loaded s
  entries : s.gpthdr.entries = n
  low : -1 ≤ s.curent
  plain : ∀ i, isBootme uuid (s.gpttable i) = isBootme uuid (table i)
  kind : ∀ i, isType uuid (s.gpttable i) = isType uuid (table i)
  once : s.bootonce = true → ∀ i < n, s.curent < i → isBootonce uuid (s.gpttable i) = isBootonce uuid (table i)

/-- An entry that was handed out and failed: it keeps its type and is no candidate any more
if it was marked BOOTONCE. -/
def handedOut (e : Ent) : Ent := if e.has gptEntAttrBootonce then (e.clear gptEntAttrBootme).fail else e

theorem isType_handedOut (uuid : Bytes) (e : Ent) : isType uuid (handedOut e) = isType uuid e := by
  rw [handedOut]
  split
  · rw [isType, type_fail, Ent.clear, type_setAttr, isType]
  · rfl

theorem isBootme_handedOut (uuid : Bytes) (e : Ent) : isBootme uuid (handedOut e) = isBootme uuid e := by
  rw [handedOut]
  split
  next marked => simp only [isBootme, bootme_fail, has_clear, marked, Bool.and_false, Bool.false_and, Bool.not_true]
  next => rfl

theorem found_bootfailed (bios : Bios) {s : State} (loaded : Loaded s) (dsk : Dsk) {curent : Nat}
    (position : s.curent = curent) (inside : curent < s.gpthdr.entries) :
    let r := found bios s dsk
    let t := gptbootfailed bios r.2.1 r.2.2
    r.1 = 0 ∧ r.2.2.part = curent + 1 ∧ Kept s t ∧
    ∀ i, t.gpttable i = if i = curent then handedOut (s.gpttable i) else s.gpttable i := by
  have most := loaded.most
  have small : s.curent.toNat < maxtblents := by omega
  have here : s.curent.toNat = curent := by omega
  rw [found]
  by_cases marked : (s.gpttable s.curent.toNat).has gptEntAttrBootonce = true
  · simp only [marked, if_true]
    set dsk' := { dsk with part := s.curent + 1, start := (s.gpttable s.curent.toNat).lbaStart }
    have kept := updateBoth_kept bios dsk' (·.clear gptEntAttrBootme) s
    have ents := updateBoth_ent bios dsk' (·.clear gptEntAttrBootme) s.active s small loaded.used
    generalize updateBoth bios dsk' (·.clear gptEntAttrBootme) s = t at kept ents ⊢
    have still : (t.gpttable t.curent.toNat).has gptEntAttrBootonce = true := by
      rw [State.gpttable, kept.active, kept.curent, ents, if_pos rfl, has_clear_of_apart _ (by decide)]
      exact marked
    have kept' := updateBoth_kept bios dsk' Ent.fail t
    have ents' := updateBoth_ent bios dsk' Ent.fail t.active t (by rw [kept.curent]; exact small)
      (by rw [kept.active, kept.lba]; exact loaded.used)
    rw [gptbootfailed]
    simp only [still, Bool.not_true, Bool.false_eq_true, if_false]
    refine ⟨trivial, by simp only [position], kept.trans kept', fun i => ?_⟩
    rw [State.gpttable, kept'.active, ents', kept.curent, kept.active, ents, here]
    split
    next same => rw [handedOut, State.gpttable, same, ← State.gpttable, ← here, marked, if_pos rfl, State.gpttable]
    next => rfl
  · have unmarked : (s.gpttable s.curent.toNat).has gptEntAttrBootonce = false := by simpa using marked
    simp only [unmarked, Bool.false_eq_true, if_false]
    rw [gptbootfailed, unmarked, Bool.not_false, if_pos rfl]
    refine ⟨trivial, by simp only [position], .refl s, fun i => ?_⟩
    split
    next same => rw [handedOut, same, ← here, unmarked, if_neg (by decide)]
    next => rfl

section

variable {uuid : Bytes} {table : Nat → Ent} {n : Nat} {s : State}

theorem attempt_spec (bios : Bios) (tracks : Tracks uuid table n s) (dsk : Dsk) {hit bootonce : Bool} {curent : Nat}
    (next : findNext uuid s = (hit, moved s curent bootonce)) (inside : hit = true → curent < n)
    (same : bootonce = true → s.bootonce = true ∧ (s.curent ≤ curent ∨ n ≤ curent)) :
    let r := attempt bios uuid s dsk
    r.1 = (if hit then some (partOf curent) else none) ∧ Tracks uuid table n r.2.1 ∧
    r.2.1.curent = curent ∧ r.2.1.bootonce = bootonce := by
  have once : bootonce = true → ∀ i < n, (curent : Int) < i →
    isBootonce uuid (s.gpttable i) = isBootonce uuid (table i) := by
    intro still i less after
    obtain ⟨before, _⟩ := same still
    exact tracks.once before i less (by omega)
  cases hit with
  | false =>
    have failed : gptfind bios s uuid dsk (-1) = (-1, moved s curent bootonce, dsk) := by
      rw [gptfind, if_neg (by decide), next]
    rw [attempt, failed]
    refine ⟨rfl, ⟨tracks.loaded.moved _ _, tracks.entries, ?_, tracks.plain, tracks.kind, once⟩, rfl, rfl⟩
    change -1 ≤ (curent : Int)
    omega
  | true =>
    have success : gptfind bios s uuid dsk (-1) = found bios (moved s curent bootonce) dsk := by
      rw [gptfind, if_neg (by decide), next]
    obtain ⟨done, part, kept, ents⟩ := found_bootfailed bios (tracks.loaded.moved curent bootonce) dsk rfl
      (by change curent < s.gpthdr.entries; rw [tracks.entries]; exact inside rfl)
    rw [attempt, success]
    generalize found bios (moved s curent bootonce) dsk = r at done part kept ents ⊢
    obtain ⟨rc, _, _⟩ := r
    obtain rfl : rc = 0 := done
    simp only at part kept ents ⊢
    have still : (moved s curent bootonce).gpttable = s.gpttable := rfl
    refine ⟨by rw [part]; rfl, ⟨(tracks.loaded.moved _ _).kept kept, ?_, ?_,
      fun i => ?_, fun i => ?_, fun flag i less after => ?_⟩, kept.curent, kept.bootonce⟩
    · rw [kept.gpthdr]
      exact tracks.entries
    · rw [kept.curent]
      change -1 ≤ (curent : Int)
      omega
    · rw [ents, ← tracks.plain]
      split
      · exact isBootme_handedOut uuid _
      · rfl
    · rw [ents, ← tracks.kind]
      split
      · exact isType_handedOut uuid _
      · rfl
    · rw [kept.bootonce] at flag
      rw [kept.curent] at after
      have later : (curent : Int) < i := after
      rw [ents, if_neg (by omega)]
      exact once flag i less later

def plainHits (uuid : Bytes) (table : Nat → Ent) (n start : Nat) : List Nat :=
  hits (fun i => isBootme uuid (table i)) n start

def onceHits (uuid : Bytes) (table : Nat → Ent) (n start : Nat) : List Nat :=
  hits (fun i => isBootonce uuid (table i)) n start

def typeHits (uuid : Bytes) (table : Nat → Ent) (n start : Nat) : List Nat :=
  hits (fun i => isType uuid (table i)) n start

variable {start : Nat} {q : Nat → Bool} {rest : List Nat}

theorem hits_congr {q' : Nat → Bool} (same : ∀ i < n, start ≤ i → q i = q' i) : hits q n start = hits q' n start := by
  refine filter_congr fun i member => ?_
  rw [mem_range'_1] at member
  exact same i (by omega) member.1

private theorem stop_plain (tracks : Tracks uuid table n s) (inside : start ≤ n) :
    let j := stop (isBootme uuid) s start
    start ≤ j ∧ (j < n ∧ plainHits uuid table n start = j :: plainHits uuid table n (j + 1) ∨
      j = n ∧ plainHits uuid table n start = []) := by
  have spec := scan_hits (isBootme uuid) s.gpttable inside
  simp only [tracks.plain] at spec
  rw [stop, tracks.entries]
  exact spec

private theorem stop_type (tracks : Tracks uuid table n s) (inside : start ≤ n) :
    let j := stop (isType uuid) s start
    start ≤ j ∧ (j < n ∧ typeHits uuid table n start = j :: typeHits uuid table n (j + 1) ∨
      j = n ∧ typeHits uuid table n start = []) := by
  have spec := scan_hits (isType uuid) s.gpttable inside
  simp only [tracks.kind] at spec
  rw [stop, tracks.entries]
  exact spec

private theorem stop_once (tracks : Tracks uuid table n s) (flag : s.bootonce = true)
    (inside : (s.curent + 1).toNat ≤ n) :
    let j := stop (isBootonce uuid) s (s.curent + 1).toNat
    (s.curent + 1).toNat ≤ j ∧
    (j < n ∧ onceHits uuid table n (s.curent + 1).toNat = j :: onceHits uuid table n (j + 1) ∨
      j = n ∧ onceHits uuid table n (s.curent + 1).toNat = []) := by
  obtain ⟨first, spec⟩ := scan_hits (isBootonce uuid) s.gpttable inside
  have same : ∀ start, (s.curent + 1).toNat ≤ start →
      hits (fun i => isBootonce uuid (s.gpttable i)) n start = onceHits uuid table n start := by
    intro start after
    refine hits_congr fun i less inside => tracks.once flag i less (by omega)
  rw [same _ (le_refl _), same _ (by omega)] at spec
  rw [stop, tracks.entries]
  exact ⟨first, spec⟩

/-- What gptfind will still hand out: first the rest of the BOOTONCE candidates; then, unless
the last slot is one of them, the other BOOTME candidates, or at the first try the first
partition of the type. -/
def remaining (uuid : Bytes) (table : Nat → Ent) (n : Nat) (s : State) : List Nat :=
  if s.bootonce then
    if n ≤ (s.curent + 1).toNat then []
    else onceHits uuid table n (s.curent + 1).toNat ++
      if isBootonce uuid (table (n - 1)) then []
      else if s.curent = -1 ∧ onceHits uuid table n 0 ++ plainHits uuid table n 0 = [] then (typeHits uuid table n 0).take 1
      else plainHits uuid table n 0
  else plainHits uuid table n (s.curent + 1).toNat

theorem hits_end (past : n ≤ start) : hits q n start = [] := by
  rw [hits, Nat.sub_eq_zero_of_le past]
  rfl

theorem mem_hits {i : Nat} : i ∈ hits q n start ↔ start ≤ i ∧ i < n ∧ q i = true := by
  rw [hits, mem_filter, mem_range'_1]
  constructor
  · rintro ⟨⟨low, high⟩, yes⟩
    exact ⟨low, by omega, yes⟩
  · rintro ⟨low, high, yes⟩
    exact ⟨⟨low, by omega⟩, yes⟩

theorem hits_nil_mono {later : Nat} (none : hits q n start = []) (after : start ≤ later) :
    hits q n later = [] := by
  rw [eq_nil_iff_forall_not_mem] at none ⊢
  intro i member
  obtain ⟨_, less, yes⟩ := mem_hits.mp member
  exact none i (mem_hits.mpr ⟨by omega, less, yes⟩)

structure Going (uuid : Bytes) (table : Nat → Ent) (n : Nat) (s : State) (rest : List Nat) : Prop where
  tracks : Tracks uuid table n s
  started : s.bootonce = false → 0 ≤ s.curent
  rest : rest = remaining uuid table n s

private theorem findLast_step (tracks : Tracks uuid table n s) (inside : start ≤ n) (firsttry : Bool) :
    ∃ hit, ∃ curent : Nat, findLast uuid s firsttry start = (hit, moved s curent false) ∧ (hit = true → curent < n) ∧
      let rest := if firsttry = true ∧ plainHits uuid table n start = [] then (typeHits uuid table n 0).take 1
        else plainHits uuid table n start
      rest.head? = (if hit then some curent else none) ∧
      (start = 0 ∨ firsttry = false → plainHits uuid table n (curent + 1) = rest.tail) := by
  rw [findLast, tracks.entries]
  obtain ⟨_, ⟨less, cons⟩ | ⟨_, nil⟩⟩ := stop_plain tracks inside
  · refine ⟨true, _, by rw [if_pos less], fun _ => less, ?_⟩
    simp [cons]
  · have beyond : ¬ stop (isBootme uuid) s start < n := by omega
    cases firsttry with
    | false =>
      refine ⟨false, stop (isBootme uuid) s start, by rw [if_neg beyond]; rfl, by simp, ?_⟩
      simp only [nil, Bool.false_eq_true, false_and, if_false, head?_nil, tail_nil, true_and]
      exact fun _ => hits_end (by omega)
    | true =>
      rw [if_neg beyond, if_pos rfl]
      refine ⟨_, _, rfl, fun hit => by simpa using hit, ?_⟩
      obtain ⟨-, ⟨less, cons⟩ | ⟨last', nil'⟩⟩ := stop_type tracks (Nat.zero_le n)
      · simp only [nil, cons, less, decide_true, and_self, if_true, take_succ_cons, take_zero, head?_cons,
          tail_cons, true_and]
        rintro (rfl | absurd)
        · exact hits_nil_mono nil (Nat.zero_le _)
        · simp at absurd
      · simp only [nil, nil', last', lt_irrefl, decide_false, and_self, if_true, take_nil, head?_nil, tail_nil,
          Bool.false_eq_true, if_false, true_and]
        exact fun _ => hits_end (by omega)

theorem going_step (bios : Bios) (going : Going uuid table n s rest) (dsk : Dsk) :
    (attempt bios uuid s dsk).1 = rest.head?.map partOf ∧
    Going uuid table n (attempt bios uuid s dsk).2.1 rest.tail := by
  obtain ⟨tracks, started, rfl⟩ := going
  have low := tracks.low
  have entries := tracks.entries
  have next := findNext_eq uuid s
  rw [entries] at next
  cases flag : s.bootonce with
  | true =>
    by_cases past : (n : Int) ≤ s.curent + 1
    · rw [if_pos past, flag] at next
      obtain ⟨answer, tracks', curent, once⟩ := attempt_spec bios tracks dsk next (by simp) (fun _ => ⟨flag, .inr (le_refl _)⟩)
      have nothing : remaining uuid table n s = [] := by
        rw [remaining, if_pos flag, if_pos (by omega)]
      rw [nothing]
      refine ⟨answer, tracks', fun off => by simp [once] at off, ?_⟩
      rw [remaining, once, curent, if_pos rfl, if_pos (by omega)]
      rfl
    · rw [if_neg past, if_pos flag] at next
      have shape : remaining uuid table n s = onceHits uuid table n (s.curent + 1).toNat ++
          if isBootonce uuid (table (n - 1)) then []
          else if s.curent = -1 ∧ onceHits uuid table n 0 ++ plainHits uuid table n 0 = [] then (typeHits uuid table n 0).take 1
          else plainHits uuid table n 0 := by
        rw [remaining, if_pos flag, if_neg (by omega)]
      obtain ⟨after, ⟨less, cons⟩ | ⟨_, nil⟩⟩ := stop_once tracks flag (by omega)
      · rw [if_pos less] at next
        obtain ⟨answer, tracks', curent, once⟩ := attempt_spec bios tracks dsk next (fun _ => less)
          (fun _ => ⟨flag, .inl (by omega)⟩)
        rw [shape, cons, cons_append]
        refine ⟨answer, tracks', fun off => by simp [once] at off, ?_⟩
        generalize stop (isBootonce uuid) s (s.curent + 1).toNat = j at after less cons curent
        have hit : isBootonce uuid (table j) = true := by
          have : j ∈ onceHits uuid table n (s.curent + 1).toNat := by rw [cons]; simp
          exact (mem_hits.mp this).2.2
        rw [tail_cons, remaining, once, if_pos rfl, curent, show ((j : Int) + 1).toNat = j + 1 by omega]
        have some : ¬ (s.curent = -1 ∧ onceHits uuid table n 0 ++ plainHits uuid table n 0 = []) := by
          rintro ⟨begin, none⟩
          rw [begin] at cons
          simp only [append_eq_nil_iff] at none
          change onceHits uuid table n 0 = _ at cons
          rw [none.1] at cons
          exact absurd cons (by simp)
        have some' : ¬ ((j : Int) = -1 ∧ onceHits uuid table n 0 ++ plainHits uuid table n 0 = []) := by omega
        rw [if_neg some, if_neg some']
        by_cases final : n ≤ j + 1
        · obtain rfl : j = n - 1 := by omega
          rw [if_pos final, hit, if_pos rfl, onceHits, hits_end final]
          rfl
        · rw [if_neg final]
      · rw [if_neg (by omega)] at next
        obtain ⟨hit, curent', shape', bound, head, tail⟩ := findLast_step tracks (Nat.zero_le n) (s.curent == -1)
        rw [shape'] at next
        obtain ⟨answer, tracks', curent, once⟩ := attempt_spec bios tracks dsk next bound (by simp)
        have notLast : isBootonce uuid (table (n - 1)) = false := by
          by_contra yes
          have : n - 1 ∈ onceHits uuid table n (s.curent + 1).toNat :=
            mem_hits.mpr ⟨by omega, by omega, by simpa using yes⟩
          rw [nil] at this
          exact absurd this (by simp)
        have tries : (s.curent = -1 ∧ onceHits uuid table n 0 ++ plainHits uuid table n 0 = []) ↔
            (s.curent == -1) = true ∧ plainHits uuid table n 0 = [] := by
          rw [beq_iff_eq]
          refine and_congr_right fun begin => ?_
          rw [begin] at nil
          change onceHits uuid table n 0 = [] at nil
          rw [nil, nil_append]
        simp only [shape, nil, nil_append, notLast, Bool.false_eq_true, if_false, tries]
        refine ⟨?_, tracks', fun _ => by rw [curent]; omega, ?_⟩
        · rw [head, answer]
          cases hit <;> rfl
        · rw [← tail (.inl rfl), remaining, once, if_neg (by simp), curent]
          rfl
  | false =>
    have position := started flag
    have shape : remaining uuid table n s = plainHits uuid table n (s.curent + 1).toNat := by
      rw [remaining, if_neg (by simp [flag])]
    by_cases past : (n : Int) ≤ s.curent + 1
    · rw [if_pos past, flag] at next
      obtain ⟨answer, tracks', curent, once⟩ := attempt_spec bios tracks dsk next (by simp) (by simp)
      have nothing : plainHits uuid table n (s.curent + 1).toNat = [] := hits_end (by omega)
      rw [shape, nothing]
      refine ⟨answer, tracks', fun _ => by rw [curent]; omega, ?_⟩
      rw [remaining, once, curent, if_neg (by simp)]
      exact (hits_end (by omega)).symm
    · rw [if_neg past, if_neg (by simp [flag])] at next
      have later : (s.curent == -1) = false := by rw [beq_eq_false_iff_ne]; omega
      rw [later] at next
      obtain ⟨hit, curent', shape', bound, head, tail⟩ := findLast_step tracks (show (s.curent + 1).toNat ≤ n by omega) false
      rw [shape'] at next
      obtain ⟨answer, tracks', curent, once⟩ := attempt_spec bios tracks dsk next bound (by simp)
      simp only [Bool.false_eq_true, false_and, if_false] at head tail
      rw [shape]
      refine ⟨?_, tracks', fun _ => by rw [curent]; omega, ?_⟩
      · rw [head, answer]
        cases hit <;> rfl
      · rw [← tail (.inr trivial), remaining, once, if_neg (by simp), curent]
        rfl

theorem result_going (bios : Bios) (k : Nat) (going : Going uuid table n s rest) (dsk : Dsk) :
    result bios uuid k s dsk = rest[k]?.map partOf := by
  induction k generalizing s rest dsk with
  | zero =>
    rw [result, (going_step bios going dsk).1, head?_eq_getElem?]
  | succ k ih =>
    rw [result, ih (going_step bios going dsk).2, getElem?_tail]

end

/-- The documented order: the partitions of the type with BOOTME and BOOTONCE, then those
with BOOTME only; without any, the first partition of the type. -/
def candidates (uuid : Bytes) (s : State) : List Nat :=
  let once := (range s.gpthdr.entries).filter fun i => isBootonce uuid (s.gpttable i)
  let plain := (range s.gpthdr.entries).filter fun i => isBootme uuid (s.gpttable i)
  if once ++ plain = [] then ((range s.gpthdr.entries).filter fun i => isType uuid (s.gpttable i)).take 1
  else once ++ plain

/-- The last slot of the table is a partition of the type with BOOTME and BOOTONCE. -/
def LastIsBootonce (uuid : Bytes) (s : State) : Prop :=
  0 < s.gpthdr.entries ∧ isBootonce uuid (s.gpttable (s.gpthdr.entries - 1)) = true

theorem range_filter_eq_hits (q : Nat → Bool) (n : Nat) : (range n).filter q = hits q n 0 := by
  rw [range_eq_range', hits, Nat.sub_zero]

theorem gptread_going (bios : Bios) (s : State) (dsk : Dsk) (uuid : Bytes) (done : (gptread bios s dsk).1 = 0) :
    let t := (gptread bios s dsk).2.1
    let loaded := readCopies bios s dsk
    Going uuid loaded.gpttable loaded.gpthdr.entries t (remaining uuid loaded.gpttable loaded.gpthdr.entries t) ∧
    t.curent = -1 ∧ t.bootonce = true := by
  obtain ⟨loaded, curent, once⟩ := gptread_loaded bios s dsk done
  obtain ⟨kept, kinds⟩ := gptread_kept bios s dsk
  have kind : ∀ i, SameKind ((readCopies bios s dsk).gpttable i) ((gptread bios s dsk).2.1.gpttable i) := by
    intro i
    rw [State.gpttable, State.gpttable, kept.active]
    exact kinds _ i
  refine ⟨⟨⟨loaded, kept.gpthdr, by rw [curent], fun i => isBootme_sameKind (kind i), fun i => ?_,
    fun _ i _ _ => isBootonce_sameKind (kind i)⟩, fun off => by simp [once] at off, rfl⟩, curent, once⟩
  rw [isType, isType, (kind i).type]

private theorem same_results_iff (l l' : List Nat) :
    (∀ k : Nat, l[k]?.map partOf = l'[k]?.map partOf) ↔ l = l' := by
  constructor
  · intro same
    refine ext_getElem? fun k => Option.map_injective (fun i j equal => ?_) (same k)
    simp only [partOf] at equal
    omega
  · rintro rfl _
    rfl

private theorem remaining_eq_iff (uuid : Bytes) (s t : State) (curent : t.curent = -1) (once : t.bootonce = true) :
    remaining uuid s.gpttable s.gpthdr.entries t = candidates uuid s ↔
      ¬ (LastIsBootonce uuid s ∧ ∃ i < s.gpthdr.entries, isBootme uuid (s.gpttable i) = true) := by
  have plain : (∃ i < s.gpthdr.entries, isBootme uuid (s.gpttable i) = true) ↔
      plainHits uuid s.gpttable s.gpthdr.entries 0 ≠ [] := by
    rw [Ne, eq_nil_iff_forall_not_mem, not_forall]
    simp only [not_not, plainHits, mem_hits, Nat.zero_le, true_and]
  have start : (t.curent + 1).toNat = 0 := by rw [curent]; rfl
  rw [remaining, if_pos once, start, candidates]
  simp only [range_filter_eq_hits, curent, true_and, LastIsBootonce, plain]
  change _ = (if onceHits uuid s.gpttable s.gpthdr.entries 0 ++ plainHits uuid s.gpttable s.gpthdr.entries 0 = [] then
    (typeHits uuid s.gpttable s.gpthdr.entries 0).take 1
    else onceHits uuid s.gpttable s.gpthdr.entries 0 ++ plainHits uuid s.gpttable s.gpthdr.entries 0) ↔ _
  generalize s.gpthdr.entries = n
  by_cases empty : n ≤ 0
  · rw [if_pos empty, onceHits, plainHits, typeHits, hits_end empty, hits_end empty, hits_end empty]
    simp
  · have positive : 0 < n := by omega
    rw [if_neg empty]
    cases last : isBootonce uuid (s.gpttable (n - 1)) with
    | true =>
      have member : n - 1 ∈ onceHits uuid s.gpttable n 0 := mem_hits.mpr ⟨Nat.zero_le _, by omega, last⟩
      have some : ¬ onceHits uuid s.gpttable n 0 ++ plainHits uuid s.gpttable n 0 = [] := by
        intro none
        rw [(append_eq_nil_iff.mp none).1] at member
        exact absurd member (by simp)
      rw [if_pos rfl, if_neg some, append_cancel_left_eq]
      simp only [positive, true_and, Ne, not_not]
      exact eq_comm
    | false =>
      rw [if_neg (by decide)]
      simp only [Bool.false_eq_true, and_false, false_and, not_false_eq_true, iff_true]
      split
      next none => rw [(append_eq_nil_iff.mp none).1, nil_append]
      next => rfl

/-- Exactly when the partitions come in the documented order: unless the last slot is a
BOOTONCE candidate and there is a candidate without BOOTONCE, which is then never tried. -/
theorem gptfind_enumerates_iff (bios : Bios) (s : State) (dsk : Dsk) (uuid : Bytes)
    (done : (gptread bios s dsk).1 = 0) :
    let loaded := readCopies bios s dsk
    (∀ k, result bios uuid k (gptread bios s dsk).2.1 (gptread bios s dsk).2.2 =
      (candidates uuid loaded)[k]?.map partOf) ↔
    ¬ (LastIsBootonce uuid loaded ∧ ∃ i < loaded.gpthdr.entries, isBootme uuid (loaded.gpttable i) = true) := by
  intro loaded
  obtain ⟨going, curent, once⟩ := gptread_going bios s dsk uuid done
  have rounds := fun k => result_going bios k going (gptread bios s dsk).2.2
  simp only [rounds]
  rw [same_results_iff]
  exact remaining_eq_iff uuid loaded _ curent once

/-- Partition 1 is marked BOOTME and partition 2, in the last slot, BOOTME and BOOTONCE:
after partition 2 has failed, partition 1 is not tried. -/
theorem bootonce_in_last_slot_ends_enumeration :
    let s := sampleState 92 [sampleEnt gptEntAttrBootme, sampleEnt (gptEntAttrBootme ||| gptEntAttrBootonce)]
    (gptread sampleBios s sampleDsk).1 = 0 ∧
    ¬ ∀ k, result sampleBios sampleUuid k (gptread sampleBios s sampleDsk).2.1 (gptread sampleBios s sampleDsk).2.2 =
      (candidates sampleUuid (readCopies sampleBios s sampleDsk))[k]?.map partOf := by
  refine ⟨by decide +kernel, fun all => ?_⟩
  have second := all 1
  revert second
  decide +kernel

theorem bootonce_in_first_slot_enumerates :
    let s := sampleState 92 [sampleEnt (gptEntAttrBootme ||| gptEntAttrBootonce), sampleEnt gptEntAttrBootme]
    ∀ k, result sampleBios sampleUuid k (gptread sampleBios s sampleDsk).2.1 (gptread sampleBios s sampleDsk).2.2 =
      (candidates sampleUuid (readCopies sampleBios s sampleDsk))[k]?.map partOf := by
  refine (gptfind_enumerates_iff sampleBios _ sampleDsk sampleUuid (by decide +kernel)).mpr fun bad => ?_
  have last := bad.1.2
  revert last
  decide +kernel

end Pcbsd.Proofs.GptEnumeration
