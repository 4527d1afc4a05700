import Pcbsd.DiskMbr

/-! The scan of extended partitions ends on every disk. A slot of the table is written once, and looked at once: the
slices of a table that is read are all behind those looked at before. -/

namespace Pcbsd.DiskMbr
open Lib Gpt DiskGpt List Option Function

variable {strategy : Nat → UInt32 → Except Errno Sector} {nextdospart depth : Nat} {s s' s'' : Scan}

/-- The slots of `s` are left alone, and those behind them are written in their order. -/
structure Scan.Extends (s s' : Scan) : Prop where
  slots : ∀ i < s.nslices, s'.slots i = s.slots i
  more : s.nslices ≤ s'.nslices
  stores : s'.stores = s.stores ++ range' s.nslices (s'.nslices - s.nslices)

namespace Scan

theorem Extends.refl (s : Scan) : s.Extends s :=
  ⟨fun _ _ => rfl, Nat.le_refl _, by rw [Nat.sub_self, range'_zero, append_nil]⟩

theorem Extends.trans (first : s.Extends s') (second : s'.Extends s'') : s.Extends s'' where
  slots i less := (second.slots i (Nat.lt_of_lt_of_le less first.more)).trans (first.slots i less)
  more := Nat.le_trans first.more second.more
  stores := by
    have below := first.more
    have above := second.more
    have here : s'.nslices = s.nslices + (s'.nslices - s.nslices) := by omega
    have whole : s''.nslices - s.nslices = (s'.nslices - s.nslices) + (s''.nslices - s'.nslices) := by omega
    rw [second.stores, first.stores, append_assoc, whole, ← range'_append_1, ← here]

theorem extends_store (s : Scan) (dp : DosPartition) : s.Extends (s.store dp) where
  slots i less := update_of_ne (Nat.ne_of_lt less) _ _
  more := Nat.le_succ _
  stores := by rw [Scan.store, Nat.add_sub_cancel_left, range'_one]

theorem extends_stores (entries : List DosPartition) (s : Scan) :
    s.Extends (entries.foldl store s) ∧ (entries.foldl store s).nslices = s.nslices + entries.length ∧
    (entries.foldl store s).calls = s.calls := by
  induction entries generalizing s with
  | nil => exact ⟨.refl s, rfl, rfl⟩
  | cons dp entries ih =>
    obtain ⟨extended, count, calls⟩ := ih (s.store dp)
    refine ⟨(extends_store s dp).trans extended, count.trans ?_, calls⟩
    have one : (s.store dp).nslices = s.nslices + 1 := rfl
    rw [length_cons]
    omega

end Scan

theorem storeSlices_extends (base : UInt32) (entries : List DosPartition) (s : Scan) (room : s.nslices ≤ nextdospart) :
    s.Extends (storeSlices nextdospart base entries s).1 ∧ (storeSlices nextdospart base entries s).1.nslices ≤
      nextdospart ∧
    (storeSlices nextdospart base entries s).1.calls = s.calls := by
  induction entries generalizing s with
  | nil => exact ⟨.refl s, room, rfl⟩
  | cons dp entries ih =>
    rw [storeSlices]
    split
    · exact ih s room
    · split
      · exact ⟨.refl s, room, rfl⟩
      next _ =>
        obtain ⟨extended, kept, calls⟩ :=
          ih (s.store { dp with start := dp.start + base }) (by rw [Scan.store]; dsimp only; omega)
        exact ⟨(Scan.extends_store s _).trans extended, kept, calls⟩

/-- From `s` to `s'` the slices with `P` are looked at, each once, and with them such as were added since. -/
structure Visits (nextdospart : Nat) (P : Nat → Prop) (s s' : Scan) : Prop where
  extended : s.Extends s'
  room : s'.nslices ≤ nextdospart
  calls : ∃ slices, s'.calls = s.calls ++ slices ∧ slices.Nodup ∧ ∀ i ∈ slices, P i ∨ s.nslices ≤ i ∧ i < s'.nslices

theorem Visits.trans {P Q : Nat → Prop} (first : Visits nextdospart P s s') (second : Visits nextdospart Q s' s'')
    (apart : ∀ i, P i → ¬ Q i) (low : ∀ i, P i ∨ Q i → i < s.nslices) :
    Visits nextdospart (fun i => P i ∨ Q i) s s'' where
  extended := first.extended.trans second.extended
  room := second.room
  calls := by
    obtain ⟨slices, calls, once, inside⟩ := first.calls
    obtain ⟨slices', calls', once', inside'⟩ := second.calls
    have below := first.extended.more
    have above := second.extended.more
    refine ⟨slices ++ slices', by rw [calls', calls, append_assoc], ?_, fun i member => ?_⟩
    · apply nodup_append.mpr
      refine ⟨once, once', fun i left j right same => ?_⟩
      subst same
      rcases inside i left with old | ⟨_, new⟩ <;> rcases inside' i right with old' | ⟨_, _⟩
      · exact apart i old old'
      · have := low i (Or.inl old); omega
      · have := low i (Or.inr old'); omega
      · omega
    · rcases mem_append.mp member with left | right
      · rcases inside i left with old | new
        · exact Or.inl (Or.inl old)
        · exact Or.inr ⟨new.1, by omega⟩
      · rcases inside' i right with old | new
        · exact Or.inl (Or.inr old)
        · exact Or.inr ⟨by omega, new.2⟩

theorem Visits.weaken {P Q : Nat → Prop} (visits : Visits nextdospart P s s') (weaker : ∀ i, P i → Q i) :
    Visits nextdospart Q s s' := by
  obtain ⟨slices, calls, once, inside⟩ := visits.calls
  exact ⟨visits.extended, visits.room, slices, calls, once, fun i member => (inside i member).imp_left (weaker i)⟩

theorem foldlM_visits (nextdospart : Nat) {check : Nat → Scan → Option Scan} (slices : List Nat) (once : slices.Nodup)
    (s : Scan)
    (each : ∀ i ∈ slices, ∀ s : Scan, i < s.nslices → s.nslices ≤ nextdospart → ∃ s', check i s = some s' ∧
      Visits nextdospart (· = i) s s') (low : ∀ i ∈ slices, i < s.nslices) (room : s.nslices ≤ nextdospart) :
    ∃ s', slices.foldlM (fun s i => check i s) s = some s' ∧ Visits nextdospart (· ∈ slices) s s' := by
  induction slices generalizing s with
  | nil =>
    refine ⟨s, rfl, .refl s, room, [], (append_nil _).symm, nodup_nil, fun i member => absurd member not_mem_nil⟩
  | cons i slices ih =>
    obtain ⟨absent, once⟩ := nodup_cons.mp once
    obtain ⟨t, ran, here⟩ := each i mem_cons_self s (low i mem_cons_self) room
    obtain ⟨s', rest, there⟩ := ih once t (fun j member => each j (mem_cons_of_mem i member))
      (fun j member => Nat.lt_of_lt_of_le (low j (mem_cons_of_mem i member)) here.extended.more) here.room
    refine ⟨s', ?_, (here.trans there (fun j same member => absent (same ▸ member)) fun j either => ?_).weaken
      fun j either => ?_⟩
    · rw [foldlM_cons, ran]
      exact rest
    · exact low j (mem_cons.mpr either)
    · exact mem_cons.mpr either

theorem checkSlice_visits (strategy : Nat → UInt32 → Except Errno Sector) (depth slicenum : Nat) (s : Scan)
    (there : slicenum < s.nslices) (room : s.nslices ≤ nextdospart)
    (enough : nextdospart ≤ slicenum + depth) :
    ∃ s', checkSlice strategy nextdospart depth slicenum s = some s' ∧ Visits nextdospart (· = slicenum) s s' := by
  induction depth generalizing slicenum s with
  | zero => omega
  | succ depth ih =>
    have alone : ∀ t : Scan, t.Extends t → t.slots = s.slots → t.nslices = s.nslices → t.stores = s.stores →
        t.calls = s.calls ++ [slicenum] → Visits nextdospart (· = slicenum) s t := by
      intro t _ slots count stores calls
      refine ⟨⟨fun i _ => by rw [slots], by omega, ?_⟩, by omega, [slicenum], calls, nodup_singleton _, fun i member => ?_⟩
      · rw [stores, count, Nat.sub_self, range'_zero, append_nil]
      · exact Or.inl (mem_singleton.mp member)
    rw [checkSlice]
    split
    · exact ⟨_, rfl, alone _ (.refl _) rfl rfl rfl rfl⟩
    · split
      · exact ⟨_, rfl, alone _ (.refl _) rfl rfl rfl rfl⟩
      · cases strategy s.reads (s.slots slicenum).start with
        | error _ => exact ⟨_, rfl, alone _ (.refl _) rfl rfl rfl rfl⟩
        | ok buf =>
          dsimp only
          split
          · exact ⟨_, rfl, alone _ (.refl _) rfl rfl rfl rfl⟩
          · have looked := alone { s with reads := s.reads + 1, calls := s.calls ++ [slicenum] } (.refl _) rfl rfl rfl rfl
            obtain ⟨stored, kept, calls⟩ := storeSlices_extends (s.slots slicenum).start (dosParts buf)
              { s with reads := s.reads + 1, calls := s.calls ++ [slicenum] } room
            rcases ran : storeSlices nextdospart (s.slots slicenum).start (dosParts buf)
              { s with reads := s.reads + 1, calls := s.calls ++ [slicenum] } with ⟨t, full⟩
            rw [ran] at stored kept calls
            have here : Visits nextdospart (· = slicenum) s t := by
              refine ⟨looked.extended.trans stored, kept, [slicenum], calls, nodup_singleton _, fun i member => ?_⟩
              exact Or.inl (mem_singleton.mp member)
            cases full with
            | true => exact ⟨t, rfl, here⟩
            | false =>
              have more := stored.more
              dsimp only at more
              have behind : ∀ i ∈ range' s.nslices (t.nslices - s.nslices), s.nslices ≤ i ∧ i < t.nslices := by
                intro i member
                have := mem_range'_1.mp member
                omega
              obtain ⟨s', ran, there'⟩ := foldlM_visits nextdospart (range' s.nslices (t.nslices - s.nslices))
                nodup_range' t
                (fun i member u below room' => ih i u below room' (by have := behind i member; omega))
                (fun i member => (behind i member).2) kept
              refine ⟨s', ran, here.extended.trans there'.extended, there'.room, ?_⟩
              obtain ⟨slices, calls', once, inside⟩ := there'.calls
              have new : ∀ i ∈ slices, s.nslices ≤ i ∧ i < s'.nslices := by
                intro i member
                have := there'.extended.more
                rcases inside i member with old | new
                · have := behind i old; omega
                · omega
              refine ⟨slicenum :: slices, ?_, ?_, ?_⟩
              · rw [calls', calls, append_assoc, singleton_append]
              · refine nodup_cons.mpr ⟨fun member => ?_, once⟩
                have := new slicenum member
                omega
              · intro i member
                rcases mem_cons.mp member with same | later
                · exact Or.inl same
                · exact Or.inr (new i later)

/-- The slots of the table are written from the first on, each once, and none behind NEXTDOSPART; no slice is looked at
twice, and none that is not there. -/
structure Scan.Bounded (nextdospart : Nat) (s : Scan) : Prop where
  stores : s.stores = range s.nslices
  room : s.nslices ≤ nextdospart
  once : s.calls.Nodup
  there : ∀ i ∈ s.calls, i < s.nslices

/-- On every disk the scan ends within its table; nslices is set, and in its range, exactly where there is a table. -/
theorem slice_scan_bounded (nextdospart : Nat) (large : ndospart ≤ nextdospart) (strategy : Nat → UInt32 → Except Errno Sector)
    (malloc : Nat → DosPartition) (depth : Nat) (enough : nextdospart ≤ depth) :
    ∃ out, readSlicetab strategy nextdospart depth malloc = some out ∧ out.scan.Bounded nextdospart ∧
      (out.rc = none ↔ ∃ buf, strategy 0 0 = .ok buf) ∧
      ((∃ n, out.nslices = some n ∧ n = out.scan.nslices ∧ ndospart ≤ n ∧ n ≤ nextdospart) ↔
        ∃ buf, strategy 0 0 = .ok buf ∧ magic buf = true) := by
  have untouched : Scan.Bounded nextdospart ⟨malloc, 0, 1, [], []⟩ :=
    ⟨rfl, Nat.zero_le _, nodup_nil, fun i member => absurd member not_mem_nil⟩
  rw [readSlicetab]
  cases strategy 0 0 with
  | error rc =>
    refine ⟨_, rfl, untouched, ⟨(fun absurd => by cases absurd), ?_⟩, ⟨?_, ?_⟩⟩
    · rintro ⟨buf, absurd⟩; cases absurd
    · rintro ⟨n, absurd, _⟩; cases absurd
    · rintro ⟨buf, absurd, _⟩; cases absurd
  | ok buf =>
    dsimp only
    by_cases valid : magic buf = false
    · rw [if_pos valid]
      refine ⟨_, rfl, untouched, ⟨fun _ => ⟨buf, rfl⟩, fun _ => rfl⟩, ⟨?_, ?_⟩⟩
      · rintro ⟨n, absurd, _⟩; cases absurd
      · rintro ⟨_, same, there⟩
        obtain rfl := Except.ok.inj same
        rw [valid] at there; cases there
    · rw [if_neg valid]
      obtain ⟨copied, count, calls⟩ := Scan.extends_stores (dosParts buf) ⟨malloc, 0, 1, [], []⟩
      generalize (dosParts buf).foldl Scan.store ⟨malloc, 0, 1, [], []⟩ = s at copied count calls
      rw [length_dosParts] at count
      dsimp only at count calls
      have four : s.nslices = ndospart := by omega
      obtain ⟨s', ran, visits⟩ := foldlM_visits nextdospart (range ndospart) nodup_range s
        (fun i _ t below room => checkSlice_visits strategy depth i t below room (by omega))
        (fun i member => by rw [four]; exact mem_range.mp member) (by omega)
      refine ⟨⟨none, some s'.nslices, s'⟩, by rw [ran]; rfl, ?_, ⟨fun _ => ⟨buf, rfl⟩, fun _ => rfl⟩, ⟨fun _ => ?_, fun _ => ?_⟩⟩
      · obtain ⟨_, calls', once, inside⟩ := visits.calls
        rw [calls, nil_append] at calls'
        have more := visits.extended.more
        refine ⟨?_, visits.room, by rw [calls']; exact once, fun i member => ?_⟩
        · rw [(copied.trans visits.extended).stores, nil_append, Nat.sub_zero, range_eq_range']
        · rw [calls'] at member
          rcases inside i member with old | new
          · have := mem_range.mp old
            dsimp only
            omega
          · exact new.2
      · exact ⟨buf, rfl, by simpa using valid⟩
      · have more := visits.extended.more
        exact ⟨s'.nslices, rfl, rfl, by omega, visits.room⟩

/-- A table whose first slice is extended and starts at the table itself. -/
def endlessEbr : Sector :=
  Sector.ofBytes (replicate 446 0 ++ [0, 0, 0, 0, dosptypExt, 0, 0, 0, 0, 0, 0, 0, 1, 0, 0, 0] ++ replicate 48 0 ++
    [0x55, 0xaa])

theorem endless_ebr_scanned :
    ∃ out, readSlicetab (fun _ _ => .ok endlessEbr) 32 32 (fun _ => DosPartition.ofBytes []) = some out ∧
    out.scan.Bounded 32 ∧ ∃ n, out.nslices = some n ∧ ndospart ≤ n ∧ n ≤ 32 := by
  obtain ⟨out, ran, bounded, _, set⟩ :=
    slice_scan_bounded 32 (by decide) (fun _ _ => .ok endlessEbr) (fun _ => .ofBytes []) 32 (Nat.le_refl _)
  obtain ⟨n, count, _, range⟩ := set.mpr ⟨endlessEbr, rfl, by decide +kernel⟩
  exact ⟨out, ran, bounded, n, count, range⟩

/-- Without the magic the result is 0, and nslices is left as it was. -/
theorem blank_disk_unset :
    ∃ out, readSlicetab (fun _ _ => .ok (Sector.ofBytes [])) 32 32 (fun _ => DosPartition.ofBytes []) = some out ∧
    out.rc = none ∧ ¬ ∃ n, out.nslices = some n ∧ ndospart ≤ n ∧ n ≤ 32 := by
  have bad : magic (Sector.ofBytes []) = false := by decide +kernel
  refine ⟨⟨none, none, ⟨fun _ => .ofBytes [], 0, 1, [], []⟩⟩, ?_, rfl, ?_⟩
  · rw [readSlicetab]
    dsimp only
    rw [if_pos bad]
  · rintro ⟨n, absurd, _⟩
    cases absurd

/-- The slots that are filled. -/
def Scan.table (s : Scan) : List DosPartition := (range s.nslices).map s.slots

theorem Scan.table_store (s : Scan) (dp : DosPartition) : (s.store dp).table = s.table ++ [dp] := by
  have old : (range s.nslices).map (s.store dp).slots = s.table :=
    map_congr_left fun i member => update_of_ne (Nat.ne_of_lt (mem_range.mp member)) _ _
  have last : (s.store dp).slots s.nslices = dp := update_self ..
  have more : (s.store dp).nslices = s.nslices + 1 := rfl
  rw [table, more, range_succ, map_append, old, map_singleton, last]

theorem Scan.table_stores (entries : List DosPartition) (s : Scan) :
    (entries.foldl store s).table = s.table ++ entries := by
  induction entries generalizing s with
  | nil => exact (append_nil _).symm
  | cons _ entries ih => rw [foldl_cons, ih, table_store, append_assoc, singleton_append]

theorem addSlices_table (base : UInt32) (entries : List DosPartition) (s : Scan) :
    addSlices nextdospart base entries s.table =
    ((storeSlices nextdospart base entries s).1.table, (storeSlices nextdospart base entries s).2) := by
  induction entries generalizing s with
  | nil => rfl
  | cons _ entries ih =>
    rw [addSlices, storeSlices, show s.table.length = s.nslices by rw [Scan.table, length_map, length_range]]
    split
    · exact ih s
    · split
      · rfl
      · rw [← Scan.table_store]
        exact ih _

section

variable (strategy : UInt32 → Except Errno Sector)

theorem foldlM_table (slices : List Nat) (enough : ∀ i ∈ slices, nextdospart ≤ i + depth)
    (each : ∀ i ∈ slices, ∀ s s', i < s.nslices → s.nslices ≤ nextdospart →
      checkSlice (fun _ => strategy) nextdospart depth i s = some s' →
      checkExtended (fun lba => (strategy lba).toOption) nextdospart depth s.table i = s'.table) (s : Scan)
    (low : ∀ i ∈ slices, i < s.nslices) (room : s.nslices ≤ nextdospart)
    (ran : slices.foldlM (fun s i => checkSlice (fun _ => strategy) nextdospart depth i s) s = some s') :
    slices.foldl (checkExtended (fun lba => (strategy lba).toOption) nextdospart depth) s.table = s'.table := by
  induction slices generalizing s with
  | nil => rw [← some.inj ran]; rfl
  | cons i slices ih =>
    have below := low i mem_cons_self
    obtain ⟨t, checked, visits⟩ := checkSlice_visits (fun _ => strategy) depth i s below room (enough i mem_cons_self)
    rw [foldlM_cons, checked] at ran
    rw [foldl_cons, each i mem_cons_self s t below room checked]
    exact ih (fun j later => enough j (mem_cons_of_mem _ later)) (fun j later => each j (mem_cons_of_mem _ later)) t
      (fun j later => (low j (mem_cons_of_mem _ later)).trans_le visits.extended.more) visits.room ran

/-- With answers that do not change, the scan of a slice leaves the table that checkExtended gives: by induction on
the depth. -/
theorem checkSlice_table (slicenum : Nat) (s s' : Scan) (there : slicenum < s.nslices) (room : s.nslices ≤ nextdospart)
    (enough : nextdospart ≤ slicenum + depth) (ran : checkSlice (fun _ => strategy) nextdospart depth slicenum s = some s') :
    checkExtended (fun lba => (strategy lba).toOption) nextdospart depth s.table slicenum = s'.table := by
  induction depth generalizing slicenum s s' with
  | zero => cases ran
  | succ depth ih =>
    have found : s.table[slicenum]? = some (s.slots slicenum) := by rw [Scan.table, getElem?_map, getElem?_range there, map_some]
    rw [checkSlice] at ran
    rw [checkExtended, found]
    dsimp only at ran ⊢
    by_cases empty : (s.slots slicenum).size = 0
    · rw [if_pos empty] at ran ⊢
      cases ran
      rfl
    rw [if_neg empty] at ran ⊢
    by_cases plain : (s.slots slicenum).typ ≠ dosptypExt
    · rw [if_pos plain] at ran ⊢
      cases ran
      rfl
    rw [if_neg plain] at ran ⊢
    cases answer : strategy (s.slots slicenum).start with
    | error _ =>
      rw [answer] at ran
      cases ran
      rfl
    | ok buf =>
      rw [answer] at ran
      dsimp only [Except.toOption] at ran ⊢
      by_cases bad : magic buf = false
      · rw [if_pos bad] at ran ⊢
        cases ran
        rfl
      rw [if_neg bad] at ran ⊢
      have lists := @addSlices_table nextdospart (s.slots slicenum).start (dosParts buf)
        { s with calls := s.calls ++ [slicenum], reads := s.reads + 1 }
      obtain ⟨stored, kept, -⟩ := storeSlices_extends (s.slots slicenum).start (dosParts buf)
        { s with calls := s.calls ++ [slicenum], reads := s.reads + 1 } room
      change addSlices nextdospart (s.slots slicenum).start (dosParts buf) s.table = _ at lists
      rw [lists]
      rcases added : storeSlices nextdospart (s.slots slicenum).start (dosParts buf)
        { s with calls := s.calls ++ [slicenum], reads := s.reads + 1 } with ⟨t, full⟩
      rw [added] at ran stored kept
      cases full with
      | true =>
        cases ran
        rfl
      | false =>
        have length (u : Scan) : u.table.length = u.nslices := by rw [Scan.table, length_map, length_range]
        have more := stored.more
        dsimp only at more ran ⊢
        rw [length, length]
        have behind : ∀ i ∈ range' s.nslices (t.nslices - s.nslices), s.nslices ≤ i ∧ i < t.nslices := by
          intro i member
          have := mem_range'_1.mp member
          omega
        refine foldlM_table strategy _ (fun i member => by have := behind i member; omega)
          (fun i member u u' below room' => ih i u u' below room' (by have := behind i member; omega)) t
          (fun i member => (behind i member).2) kept ran

/-- disk_readslicetab gives the list that the scan of its slots leaves, from a disk whose answers do not change. -/
theorem diskReadslicetab_eq (large : ndospart ≤ nextdospart) (malloc : Nat → DosPartition) {out : Slicetab}
    (ran : readSlicetab (fun _ => strategy) nextdospart (nextdospart + 1) malloc = some out) :
    diskReadslicetab strategy nextdospart =
      out.rc.elim (.ok (out.nslices.map fun _ => out.scan.table)) .error := by
  rw [readSlicetab] at ran
  rw [diskReadslicetab]
  cases answer : strategy 0 with
  | error rc =>
    rw [answer] at ran
    cases ran
    rfl
  | ok buf =>
    rw [answer] at ran
    dsimp only at ran ⊢
    by_cases bad : magic buf = false
    · rw [if_pos bad] at ran ⊢
      cases ran
      rfl
    rw [if_neg bad] at ran ⊢
    obtain ⟨-, count, -⟩ := Scan.extends_stores (dosParts buf) ⟨malloc, 0, 1, [], []⟩
    have table : ((dosParts buf).foldl Scan.store ⟨malloc, 0, 1, [], []⟩).table = dosParts buf := Scan.table_stores _ _
    generalize (dosParts buf).foldl Scan.store ⟨malloc, 0, 1, [], []⟩ = s at ran count table
    rw [length_dosParts, Nat.zero_add] at count
    obtain ⟨_, scanned, rfl⟩ := map_eq_some_iff.mp ran
    rw [scanMbr, ← table]
    have whole := foldlM_table strategy (range ndospart) (fun i _ => (by omega : nextdospart ≤ i + (nextdospart + 1)))
      (fun i _ u u' below room => checkSlice_table strategy i u u' below room (by omega)) s
      (fun i member => count ▸ mem_range.mp member) (by omega) scanned
    rw [whole]
    rfl

end
end Pcbsd.DiskMbr
