import Mathlib.Data.List.TakeWhile
import Pcbsd.RootMount

/-! When getrootmount takes the line of /etc/fstab for the root: the remains of earlier lines in the buffer must not be
read as fields. -/

namespace Pcbsd.RootMount
open Lib Numeral List Option

variable {dev fstyp options l tail p : Bytes} {line : Line} {lbuf : Bytes} {c : UInt8}

def fields (l : Bytes) : List Bytes := (l.splitOnP isSpace).filter (· ≠ [])

def mountOf : List Bytes → Option Mount
  | dev :: point :: fstyp :: options :: _ => if point = [charSlash] then some ⟨dev, fstyp, options⟩ else none
  | _ => none

def wantedMount (l : Bytes) : Option Mount := if l.head? = some charHash then none else mountOf (fields l)

/-- The fields that the loop sees: the first one is in front of the first blank, and may be empty. -/
def seenFields (l : Bytes) : List Bytes := l.takeWhile isText :: fields (l.dropWhile isText)

def Ends (l : Bytes) : Prop := ∃ c, l.getLast? = some c ∧ isSpace c = false

/-- The last of exactly three fields ends the line, and they are those of a root file system. -/
def Bare (l : Bytes) : Prop := l.head? ≠ some charHash ∧ Ends l ∧ ∃ dev fstyp, seenFields l = [dev, [charSlash], fstyp]

def Cleared (tail : Bytes) : Prop := (tail.dropWhile isSpace).head? = some 0

theorem fields_nil : fields [] = [] := rfl

theorem fields_blank (blank : isSpace c = true) (l : Bytes) : fields (c :: l) = fields l := by
  rw [fields, splitOnP_cons_eq_if_modifyHead, if_pos blank, filter_cons_of_neg (by simp), fields]

theorem fields_blanks {bs : Bytes} (blanks : ∀ c ∈ bs, isSpace c = true) (l : Bytes) : fields (bs ++ l) = fields l := by
  induction bs with
  | nil => rfl
  | cons c bs ih =>
    rw [cons_append, fields_blank (blanks c mem_cons_self), ih fun c inside => blanks c (mem_cons_of_mem _ inside)]

theorem fields_text {text : Bytes} (some_ : text ≠ []) (plain : ∀ c ∈ text, isSpace c = false)
    (blank : isSpace c = true) (l : Bytes) :
    fields (text ++ c :: l) = text :: fields l := by
  rw [fields, splitOnP_append_cons_of_forall_mem plain c blank, filter_cons_of_pos (by simpa using some_), fields]

theorem fields_last {text : Bytes} (some_ : text ≠ []) (plain : ∀ c ∈ text, isSpace c = false) :
    fields text = [text] := by
  rw [fields, splitOnP_eq_singleton plain, filter_cons_of_pos (by simpa using some_), filter_nil]

theorem blank_of_fields_nil (empty : fields l = []) : ∀ c ∈ l, isSpace c = true := by
  induction l with
  | nil => exact fun _ inside => absurd inside not_mem_nil
  | cons c l ih =>
    by_cases blank : isSpace c = true
    · rw [fields_blank blank] at empty
      intro d inside
      rcases mem_cons.mp inside with rfl | later
      · exact blank
      · exact ih empty d later
    · obtain ⟨_, _, split⟩ := exists_cons_of_ne_nil (splitOnP_ne_nil isSpace l)
      rw [fields, splitOnP_cons_eq_if_modifyHead, if_neg blank, split, modifyHead_cons,
        filter_cons_of_pos (by simp)] at empty
      cases empty

theorem exists_span (goes : UInt8 → Bool) (l : Bytes) :
    ∃ passed rest, l = passed ++ rest ∧ (∀ c ∈ passed, goes c = true) ∧
    (rest = [] ∨ ∃ c more, rest = c :: more ∧ goes c = false) := by
  refine ⟨l.takeWhile goes, l.dropWhile goes, takeWhile_append_dropWhile.symm,
    fun c inside => mem_takeWhile_imp inside, ?_⟩
  rcases rest : l.dropWhile goes with _ | ⟨c, more⟩
  · exact .inl rfl
  · refine .inr ⟨c, more, rfl, ?_⟩
    have stopped := head?_dropWhile_not goes l
    rw [rest] at stopped
    simpa using stopped

section

variable {seen : List Bytes} {looked : Looked} {front rest more : Bytes}

theorem skip_eq {goes : UInt8 → Bool} {passed : Bytes} (plain : ∀ c ∈ passed, c ≠ 0 ∧ goes c = true)
    (stop : c = 0 ∨ goes c = false) :
    Pointer.skip goes ⟨p, passed ++ c :: rest⟩ = some (passed, ⟨p ++ passed, c :: rest⟩) := by
  have all : ∀ c ∈ passed, (c != 0 && goes c) = true := fun c inside => by
    rw [(plain c inside).2, Bool.and_true]
    exact bne_iff_ne.mpr (plain c inside).1
  have stops : ¬(c != 0 && goes c) = true := by
    rcases stop with rfl | out
    · exact Bool.false_ne_true
    · rw [out, Bool.and_false]
      exact Bool.false_ne_true
  rw [Pointer.skip]
  rw [dropWhile_append_of_pos all, dropWhile_cons, if_neg stops, takeWhile_append_of_pos all, takeWhile_cons,
    if_neg stops, append_nil]

theorem isText_iff : isText c = true ↔ isSpace c = false := by
  rw [isText, Bool.not_eq_true']

theorem skip_blanks (plain : 0 ∉ l) (p tail : Bytes) :
    ∃ bs, (∀ c ∈ bs, isSpace c = true) ∧
      (l = bs ∧ Pointer.skip isSpace ⟨p, l ++ 0 :: tail⟩ = some (bs, ⟨p ++ bs, 0 :: tail⟩) ∨
        ∃ c more, l = bs ++ c :: more ∧ isSpace c = false ∧
          Pointer.skip isSpace ⟨p, l ++ 0 :: tail⟩ = some (bs, ⟨p ++ bs, c :: more ++ 0 :: tail⟩)) := by
  obtain ⟨bs, _, rfl, blanks, stop⟩ := exists_span isSpace l
  have passed : ∀ c ∈ bs, c ≠ 0 ∧ isSpace c = true := by
    intro c inside
    refine ⟨?_, blanks c inside⟩
    rintro rfl
    exact plain (mem_append_left _ inside)
  refine ⟨bs, blanks, ?_⟩
  rcases stop with rfl | ⟨c, more, rfl, text⟩
  · rw [append_nil]
    exact .inl ⟨rfl, skip_eq passed (.inl rfl)⟩
  · rw [append_assoc, cons_append]
    exact .inr ⟨c, more, rfl, text, skip_eq passed (.inr text)⟩

theorem skip_text (plain : 0 ∉ l) (p tail : Bytes) :
    ∃ text, (∀ c ∈ text, isSpace c = false) ∧ text = l.takeWhile isText ∧
      (l = text ∧ Pointer.skip isText ⟨p, l ++ 0 :: tail⟩ = some (text, ⟨p ++ text, 0 :: tail⟩) ∨
        ∃ c more, l = text ++ c :: more ∧ isSpace c = true ∧
          Pointer.skip isText ⟨p, l ++ 0 :: tail⟩ = some (text, ⟨p ++ text, c :: (more ++ 0 :: tail)⟩)) := by
  obtain ⟨text, _, rfl, plain_text, stop⟩ := exists_span isText l
  have passed : ∀ c ∈ text, c ≠ 0 ∧ isText c = true := by
    intro c inside
    refine ⟨?_, plain_text c inside⟩
    rintro rfl
    exact plain (mem_append_left _ inside)
  refine ⟨text, fun c inside => isText_iff.mp (plain_text c inside), ?_, ?_⟩
  · rw [takeWhile_append_of_pos plain_text]
    rcases stop with rfl | ⟨c, more, rfl, blank⟩
    · rw [takeWhile_nil, append_nil]
    · rw [takeWhile_cons, if_neg (by rw [blank]; exact Bool.false_ne_true), append_nil]
  · rcases stop with rfl | ⟨c, more, rfl, blank⟩
    · rw [append_nil]
      exact .inl ⟨rfl, skip_eq passed (.inl rfl)⟩
    · rw [append_assoc, cons_append]
      refine .inr ⟨c, more, rfl, ?_, skip_eq passed (.inr blank)⟩
      rwa [isText, Bool.not_eq_false'] at blank

theorem skip_field (plain : 0 ∉ c :: more) (first : isSpace c = false) (p tail : Bytes) :
    ∃ text, text ≠ [] ∧
      (c :: more = text ∧ fields (c :: more) = [text] ∧ Ends (c :: more) ∧
          Pointer.skip isText ⟨p, c :: more ++ 0 :: tail⟩ = some (text, ⟨p ++ text, 0 :: tail⟩) ∨
        ∃ d rest, c :: more = text ++ d :: rest ∧ isSpace d = true ∧ fields (c :: more) = text :: fields rest ∧
          Pointer.skip isText ⟨p, c :: more ++ 0 :: tail⟩ = some (text, ⟨p ++ text, d :: (rest ++ 0 :: tail)⟩)) := by
  obtain ⟨text, plain_text, taken, found⟩ := skip_text plain p tail
  have some_ : text ≠ [] := by
    rw [taken, takeWhile_cons, if_pos (isText_iff.mpr first)]
    exact cons_ne_nil _ _
  refine ⟨text, some_, ?_⟩
  rcases found with ⟨whole, skipped⟩ | ⟨d, rest, whole, blank, skipped⟩
  · refine .inl ⟨whole, ?_, ?_, skipped⟩
    · rw [whole, fields_last some_ plain_text]
    · rw [whole]
      exact ⟨text.getLast some_, getLast?_eq_some_getLast some_, plain_text _ (getLast_mem some_)⟩
  · refine .inr ⟨d, rest, whole, blank, ?_, skipped⟩
    rw [whole, fields_text some_ plain_text blank]

theorem not_nul (plain : 0 ∉ c :: more) (tail : Bytes) : ¬(c :: more ++ tail).head? = some 0 := by
  intro nul
  rw [cons_append, head?_cons, Option.some.injEq] at nul
  exact plain (nul ▸ mem_cons_self)

theorem mountOptions_reads (plain : 0 ∉ l) (p tail : Bytes) :
    ∃ buf, mountOptions dev fstyp ⟨p, l ++ 0 :: tail⟩ = some ((fields l).head?.map (Mount.mk dev fstyp), buf) := by
  obtain ⟨bs, blanks, ⟨rfl, skipped⟩ | ⟨c, more, rfl, text, skipped⟩⟩ := skip_blanks plain p tail
  · have empty : fields l = [] := by rw [← append_nil l, fields_blanks blanks, fields_nil]
    rw [mountOptions, skipped, bind_some, empty]
    exact ⟨_, if_pos rfl⟩
  · have plain_more : 0 ∉ c :: more := fun inside => plain (mem_append_right _ inside)
    rw [mountOptions, skipped, bind_some, fields_blanks blanks]
    dsimp only
    rw [if_neg (not_nul plain_more _)]
    obtain ⟨_, -, ⟨-, field, -, found⟩ | ⟨_, _, -, -, field, found⟩⟩ := skip_field plain_more text (p ++ bs) tail
    · rw [found, bind_some, field]
      exact ⟨_, rfl⟩
    · rw [found, bind_some, field]
      exact ⟨_, rfl⟩

/-- What has been read is the mount that the fields say; or the third of exactly three fields ends the line, and the
options are looked for behind the line. -/
def Reads (looked : Looked) (dev : Bytes) (seen : List Bytes) (l tail : Bytes) : Prop :=
  (Ends l ∧ ∃ fstyp p, seen = [dev, [charSlash], fstyp] ∧ looked = mountOptions dev fstyp ⟨p, tail⟩) ∨
    ¬(Ends l ∧ ∃ fstyp, seen = [dev, [charSlash], fstyp]) ∧ ∃ buf, looked = some (mountOf seen, buf)

theorem Reads.plain (other : ∀ fstyp, seen ≠ [dev, [charSlash], fstyp])
    (read : ∃ buf, looked = some (mountOf seen, buf)) : Reads looked dev seen l tail :=
  .inr ⟨fun both => both.2.elim other, read⟩

theorem ends_append (some_ : l ≠ []) : Ends (front ++ l) ↔ Ends l := by
  obtain ⟨_, _, rfl⟩ := eq_nil_or_concat l |>.resolve_left some_
  rw [concat_eq_append, ← append_assoc, Ends, Ends, getLast?_concat, getLast?_concat]

theorem not_ends (blank : isSpace c = true) (empty : fields rest = []) : ¬Ends (front ++ c :: rest) := by
  rintro ⟨last, found, text⟩
  have inside : last ∈ c :: rest := by
    rw [getLast?_append] at found
    have whole : (c :: rest).getLast? = some last := by
      rw [getLast?_cons, some_or] at found
      rw [getLast?_cons, found]
    exact mem_of_getLast? whole
  have all : isSpace last = true := by
    rcases mem_cons.mp inside with rfl | later
    · exact blank
    · exact blank_of_fields_nil empty last later
  rw [all] at text
  cases text

theorem Reads.append (reads : Reads looked dev seen l tail) (some_ : l ≠ [] ∨ seen.length ≠ 3)
    (front : Bytes) : Reads looked dev seen (front ++ l) tail := by
  rcases some_ with some_ | short
  · rw [Reads, ends_append some_]
    exact reads
  · rcases reads with ⟨-, fstyp, _, rfl, -⟩ | ⟨-, read⟩
    · exact absurd rfl short
    · refine .plain ?_ read
      rintro fstyp rfl
      exact short rfl

theorem mountType_reads (plain : 0 ∉ l) (p tail : Bytes) :
    Reads (mountType dev ⟨p, l ++ 0 :: tail⟩) dev (dev :: [charSlash] :: fields l) l tail := by
  obtain ⟨bs, blanks, ⟨rfl, skipped⟩ | ⟨c, more, rfl, text, skipped⟩⟩ := skip_blanks plain p tail
  · have empty : fields l = [] := by rw [← append_nil l, fields_blanks blanks, fields_nil]
    rw [mountType, skipped, bind_some, empty]
    exact .plain (by simp) ⟨_, if_pos rfl⟩
  · have plain_more : 0 ∉ c :: more := fun inside => plain (mem_append_right _ inside)
    rw [mountType, skipped, bind_some, fields_blanks blanks]
    dsimp only
    rw [if_neg (not_nul plain_more _)]
    refine Reads.append ?_ (.inl (cons_ne_nil c more)) bs
    obtain ⟨fstyp, -, ⟨-, field, ends, found⟩ | ⟨_, rest, whole, blank, field, found⟩⟩ :=
      skip_field plain_more text (p ++ bs) tail
    · rw [found, bind_some, field]
      exact .inl ⟨ends, fstyp, _, rfl, rfl⟩
    · rw [found, bind_some, field]
      have plain_rest : 0 ∉ rest := fun inside => plain_more (whole ▸ mem_append_right _ (mem_cons_of_mem _ inside))
      obtain ⟨buf, read⟩ := @mountOptions_reads dev fstyp rest plain_rest (p ++ bs ++ fstyp ++ [0]) tail
      have same : (fields rest).head?.map (Mount.mk dev fstyp) =
        mountOf (dev :: [charSlash] :: fstyp :: fields rest) := by
        cases fields rest <;> rfl
      rw [same] at read
      refine .inr ⟨?_, buf, read⟩
      rintro ⟨ends, _, three⟩
      rw [whole] at ends
      refine not_ends blank ?_ ends
      simp only [List.cons.injEq, true_and] at three
      exact three.2

theorem mountOf_other {point : Bytes} (other : point ≠ [charSlash]) : mountOf (dev :: point :: seen) = none := by
  match seen with
  | [] => rfl
  | [_] => rfl
  | _ :: _ :: _ => exact if_neg other

theorem Reads.other {looked : Looked} {more : Bytes} (plain : 0 ∉ c :: more) (text : isSpace c = false)
    (other : c ≠ charSlash ∨ ∃ d rest, more = d :: rest ∧ isSpace d = false) (read : ∃ buf, looked = some (none, buf)) :
    Reads looked dev (dev :: fields (c :: more)) l tail := by
  obtain ⟨point, seen, field, differs⟩ : ∃ point seen, fields (c :: more) = point :: seen ∧ point ≠ [charSlash] := by
    obtain ⟨point, -, ⟨whole, field, -⟩ | ⟨_, behind, whole, blank, field, -⟩⟩ := skip_field plain text [] []
    · refine ⟨point, [], field, ?_⟩
      rintro rfl
      rw [List.cons.injEq] at whole
      rcases other with first | ⟨d, rest, rfl, -⟩
      · exact first whole.1
      · cases whole.2
    · refine ⟨point, fields behind, field, ?_⟩
      rintro rfl
      rw [singleton_append, List.cons.injEq] at whole
      rcases other with first | ⟨d, rest, rfl, second⟩
      · exact first whole.1
      · rw [List.cons.injEq] at whole
        rw [whole.2.1, blank] at second
        cases second
  rw [field]
  refine .plain ?_ ?_
  · intro fstyp same
    simp only [List.cons.injEq, true_and] at same
    exact differs same.1
  · rw [mountOf_other differs]
    exact read

theorem mountPoint_reads (plain : 0 ∉ l) (p tail : Bytes) :
    Reads (mountPoint dev ⟨p, l ++ 0 :: tail⟩) dev (dev :: fields l) l tail := by
  obtain ⟨bs, blanks, ⟨rfl, skipped⟩ | ⟨c, more, rfl, text, skipped⟩⟩ := skip_blanks plain p tail
  · have empty : fields l = [] := by rw [← append_nil l, fields_blanks blanks, fields_nil]
    rw [mountPoint, skipped, bind_some, empty]
    exact .plain (by simp) ⟨_, if_neg (by rw [head?_cons, Option.some.injEq]; decide)⟩
  · have plain_more : 0 ∉ c :: more := fun inside => plain (mem_append_right _ inside)
    rw [mountPoint, skipped, bind_some, fields_blanks blanks]
    dsimp only
    rw [cons_append, head?_cons, getElem?_cons_succ]
    by_cases slash : c = charSlash
    · rw [if_pos (congrArg some slash)]
      rcases more with _ | ⟨d, rest⟩
      · have last : fields [c] = [[c]] := fields_last (cons_ne_nil c []) (by simpa using text)
        rw [last]
        exact .plain (by simp) ⟨_, rfl⟩
      · rw [cons_append, getElem?_cons_zero, bind_some]
        by_cases blank : isSpace d = true
        · have field : fields (c :: d :: rest) = [charSlash] :: fields rest := by
            rw [← slash]
            exact fields_text (cons_ne_nil c []) (by simpa using text) blank rest
          have plain_rest : 0 ∉ rest := fun inside => plain_more (mem_cons_of_mem _ (mem_cons_of_mem _ inside))
          have front : bs ++ c :: d :: rest = (bs ++ [c, d]) ++ rest := by rw [append_assoc]; rfl
          rw [if_pos blank, field, front]
          refine Reads.append (mountType_reads plain_rest _ tail) ?_ _
          rcases rest with _ | ⟨e, rest⟩
          · exact .inr (by simp [fields_nil])
          · exact .inl (cons_ne_nil e rest)
        · rw [if_neg blank]
          exact .other plain_more text (.inr ⟨d, rest, rfl, Bool.eq_false_iff.mpr blank⟩) ⟨_, rfl⟩
    · rw [if_neg fun same => slash (some.inj same)]
      exact .other plain_more text (.inl slash) ⟨_, rfl⟩

theorem mountLine_reads (plain : 0 ∉ l) (some_ : l ≠ []) (uncommented : l.head? ≠ some charHash) (tail : Bytes) :
    Reads (mountLine (l ++ 0 :: tail)) (l.takeWhile isText) (seenFields l) l tail := by
  obtain ⟨c, more, rfl⟩ := exists_cons_of_ne_nil some_
  have read : ¬((c :: more ++ 0 :: tail).head? = some 0 ∨ (c :: more ++ 0 :: tail).head? = some charHash) :=
    not_or.mpr ⟨not_nul plain _, uncommented⟩
  rw [mountLine, if_neg read, seenFields]
  obtain ⟨dev, plain_text, taken, ⟨whole, skipped⟩ | ⟨d, rest, whole, blank, skipped⟩⟩ := skip_text plain [] tail
  · have nothing : (c :: more).dropWhile isText = [] := by
      rw [whole, dropWhile_eq_nil_iff]
      exact fun c inside => isText_iff.mpr (plain_text c inside)
    rw [skipped, bind_some, nothing, fields_nil]
    exact .plain (by simp) ⟨_, if_pos rfl⟩
  · have behind : fields ((c :: more).dropWhile isText) = fields rest := by
      have stop : ¬isText d = true := fun text => by
        rw [isText_iff, blank] at text
        cases text
      rw [whole, dropWhile_append_of_pos fun c inside => isText_iff.mpr (plain_text c inside),
        dropWhile_cons, if_neg stop, fields_blank blank]
    have there : ¬(d :: (rest ++ 0 :: tail)).head? = some 0 := by
      rw [head?_cons, Option.some.injEq]
      rintro rfl
      cases blank
    have plain_rest : 0 ∉ rest := fun inside => plain (whole ▸ mem_append_right _ (mem_cons_of_mem _ inside))
    rw [skipped, bind_some, behind, ← taken]
    dsimp only
    rw [if_neg there]
    have front : c :: more = (dev ++ [d]) ++ rest := by rw [whole, append_assoc]; rfl
    rw [front]
    refine Reads.append (mountPoint_reads plain_rest _ tail) ?_ _
    rcases rest with _ | ⟨e, rest⟩
    · exact .inr (by simp [fields_nil])
    · exact .inl (cons_ne_nil e rest)

end

/-- What holds of a line and of the bytes behind it in the buffer when the line is read as it should be: a blank in
front does not make its fields other ones, and no remains are read as options. -/
structure Steady (l tail : Bytes) : Prop where
  indented : (∃ c more, l = c :: more ∧ isSpace c = true) → mountOf (fields l) = none ∧ mountOf ([] :: fields l) = none
  bare : Bare l → Cleared tail

theorem mountOptions_none (p tail : Bytes) :
    (∃ buf, mountOptions dev fstyp ⟨p, tail⟩ = some (none, buf)) ↔ Cleared tail := by
  have same : (tail.dropWhile fun c => c != 0 && isSpace c) = tail.dropWhile isSpace := by
    congr 1
    funext c
    by_cases nul : c = 0
    · rw [nul]
      rfl
    · rw [bne_iff_ne.mpr nul, Bool.true_and]
  rw [mountOptions, Pointer.skip, Cleared, same]
  rcases tail.dropWhile isSpace with _ | ⟨c, rest⟩
  · exact iff_of_false (fun ⟨_, read⟩ => (some_ne_none _ read.symm)) (by simp)
  · rw [bind_some]
    dsimp only
    by_cases nul : (c :: rest).head? = some 0
    · rw [if_pos nul]
      exact iff_of_true ⟨_, rfl⟩ nul
    · rw [if_neg nul]
      refine iff_of_false ?_ nul
      rintro ⟨buf, read⟩
      obtain ⟨⟨_, _⟩, -, ended⟩ := bind_eq_some_iff.mp read
      cases ended

theorem seenFields_plain {more : Bytes} (text : isSpace c = false) : seenFields (c :: more) = fields (c :: more) := by
  have whole : (c :: more).takeWhile isText ++ (c :: more).dropWhile isText = c :: more := takeWhile_append_dropWhile
  have some_ : (c :: more).takeWhile isText ≠ [] := by
    rw [takeWhile_cons, if_pos (isText_iff.mpr text)]
    exact cons_ne_nil _ _
  have plain : ∀ d ∈ (c :: more).takeWhile isText, isSpace d = false :=
    fun d inside => isText_iff.mp (mem_takeWhile_imp inside)
  have stop := head?_dropWhile_not isText (c :: more)
  rw [seenFields]
  generalize (c :: more).takeWhile isText = first at whole some_ plain
  generalize (c :: more).dropWhile isText = rest at whole stop
  rw [← whole]
  rcases rest with _ | ⟨d, rest⟩
  · rw [append_nil, fields_last some_ plain, fields_nil]
  · have blank : isSpace d = true := by simpa [isText] using stop
    rw [fields_text some_ plain blank, fields_blank blank]

theorem seenFields_blank {more : Bytes} (blank : isSpace c = true) :
    seenFields (c :: more) = [] :: fields (c :: more) := by
  have stop : ¬isText c = true := fun text => by
    rw [isText_iff, blank] at text
    cases text
  rw [seenFields, takeWhile_cons, if_neg stop, dropWhile_cons, if_neg stop]

theorem mountOf_blank (seen : List Bytes) (same : mountOf ([] :: seen) = mountOf seen) : mountOf seen = none := by
  match seen with
  | [] => rfl
  | [_] => rfl
  | [_, _] => rfl
  | [_, _, _] => rfl
  | dev :: point :: fstyp :: options :: rest =>
    rw [mountOf, mountOf] at same
    split at same
    next slash =>
      split at same
      next =>
        rw [slash, Option.some.injEq, Mount.mk.injEq] at same
        cases same.1
      next => cases same
    next => exact same.symm

theorem wantedMount_uncommented (uncommented : l.head? ≠ some charHash) : wantedMount l = mountOf (fields l) :=
  if_neg uncommented

theorem mountLine_iff (plain : 0 ∉ l) (tail : Bytes) :
    (∃ buf, mountLine (l ++ 0 :: tail) = some (wantedMount l, buf)) ↔ Steady l tail := by
  rcases l with _ | ⟨c, more⟩
  · refine iff_of_true ⟨_, if_pos (.inl rfl)⟩ ⟨?_, ?_⟩
    · rintro ⟨_, _, whole, -⟩
      cases whole
    · rintro ⟨-, ⟨_, last, -⟩, -⟩
      cases last
  by_cases comment : c = charHash
  · subst comment
    refine iff_of_true ⟨_, if_pos (.inr rfl)⟩ ⟨?_, fun bare => absurd rfl bare.1⟩
    rintro ⟨_, _, whole, blank⟩
    cases whole
    cases blank
  have uncommented : (c :: more).head? ≠ some charHash := fun same => comment (some.inj same)
  have reads := mountLine_reads plain (cons_ne_nil c more) uncommented tail
  rw [wantedMount_uncommented uncommented]
  generalize mountLine (c :: more ++ 0 :: tail) = looked at reads
  rcases reads with ⟨ends, fstyp, _, seen, rfl⟩ | ⟨whole, buf, rfl⟩
  · have bare : Bare (c :: more) := ⟨uncommented, ends, _, fstyp, seen⟩
    have unnamed : mountOf (fields (c :: more)) = none ∧ (isSpace c = true → mountOf ([] :: fields (c :: more)) = none) := by
      by_cases blank : isSpace c = true
      · rw [seenFields_blank blank, List.cons.injEq] at seen
        rw [seen.2]
        exact ⟨rfl, fun _ => rfl⟩
      · rw [seenFields_plain (Bool.eq_false_iff.mpr blank)] at seen
        rw [seen]
        exact ⟨rfl, fun other => absurd other blank⟩
    rw [unnamed.1, mountOptions_none]
    refine ⟨fun cleared => ⟨?_, fun _ => cleared⟩, fun steady => steady.bare bare⟩
    rintro ⟨_, _, same, blank⟩
    cases same
    exact ⟨unnamed.1, unnamed.2 blank⟩
  · have sound : ¬Bare (c :: more) := by
      rintro ⟨-, ends, _, fstyp, seen⟩
      refine whole ⟨ends, fstyp, ?_⟩
      rw [seen]
      rw [seenFields, List.cons.injEq] at seen
      rw [seen.1]
    have found : (∃ other, some (mountOf (seenFields (c :: more)), buf) = some (mountOf (fields (c :: more)), other)) ↔
        mountOf (seenFields (c :: more)) = mountOf (fields (c :: more)) := by
      constructor
      · rintro ⟨_, same⟩
        exact congrArg Prod.fst (some.inj same)
      · exact fun same => ⟨buf, by rw [same]⟩
    rw [found]
    by_cases blank : isSpace c = true
    · rw [seenFields_blank blank]
      constructor
      · intro same
        have unnamed := mountOf_blank _ same
        exact ⟨fun _ => ⟨unnamed, same.trans unnamed⟩, fun bare => absurd bare sound⟩
      · intro steady
        obtain ⟨first, second⟩ := steady.indented ⟨c, more, rfl, blank⟩
        rw [first, second]
    · rw [seenFields_plain (Bool.eq_false_iff.mpr blank)]
      refine iff_of_true rfl ⟨?_, fun bare => absurd bare sound⟩
      rintro ⟨_, _, same, other⟩
      cases same
      exact absurd other blank

section

def wantedRoot : Nat → List Line → Option (Nat × Mount)
  | _, [] => none
  | n, line :: rest =>
    match wantedMount line.text with
    | some mount => some (n, mount)
    | none => wantedRoot (n + 1) rest

def Sound : List Line → Bytes → Prop
  | [], _ => True
  | line :: rest, lbuf =>
    Steady line.text (lbuf.drop (line.text.length + 1)) ∧
      ∀ left, mountLine (fgetstr line.text lbuf) = some (none, left) → Sound rest left

theorem fgetstr_eq (text lbuf : Bytes) : fgetstr text lbuf = text ++ 0 :: lbuf.drop (text.length + 1) := by
  rw [fgetstr, put, take_zero, nil_append, Nat.zero_add, length_append, length_singleton, append_assoc]
  rfl

theorem mountLine_line (line : Line) (lbuf : Bytes) :
    (∃ left, mountLine (fgetstr line.text lbuf) = some (wantedMount line.text, left)) ↔
      Steady line.text (lbuf.drop (line.text.length + 1)) := by
  rw [fgetstr_eq]
  exact mountLine_iff line.plain _

variable {lines : List Line} {mount : Mount} {rest : List Line} {n k : Nat}

theorem le_mountLoop (found : mountLoop n lines lbuf = some (some (k, mount))) : n ≤ k := by
  induction lines generalizing n lbuf with
  | nil => cases found
  | cons _ _ ih =>
    obtain ⟨⟨taken, _⟩, -, ended⟩ := bind_eq_some_iff.mp found
    cases taken with
    | some _ =>
      cases ended
      exact Nat.le_refl _
    | none => exact Nat.le_of_succ_le (ih ended)

theorem le_wantedRoot (found : wantedRoot n lines = some (k, mount)) : n ≤ k := by
  induction lines generalizing n with
  | nil => cases found
  | cons _ _ ih =>
    rw [wantedRoot] at found
    split at found
    next =>
      cases found
      exact Nat.le_refl _
    next => exact Nat.le_of_succ_le (ih found)

theorem wantedRoot_some {line : Line} (wanted : wantedMount line.text = some mount) :
    wantedRoot n (line :: rest) = some (n, mount) := by
  rw [wantedRoot, wanted]

theorem wantedRoot_none {line : Line} (wanted : wantedMount line.text = none) :
    wantedRoot n (line :: rest) = wantedRoot (n + 1) rest := by
  rw [wantedRoot, wanted]

theorem mountLoop_iff (n : Nat) (lbuf : Bytes) :
    mountLoop n lines lbuf = some (wantedRoot n lines) ↔ Sound lines lbuf := by
  induction lines generalizing n lbuf with
  | nil => exact iff_of_true rfl trivial
  | cons line rest ih =>
    rw [mountLoop, Sound, ← mountLine_line]
    rcases mountLine (fgetstr line.text lbuf) with _ | ⟨found, left⟩
    · exact iff_of_false (fun same => some_ne_none _ same.symm) fun both => some_ne_none _ both.1.choose_spec.symm
    have read : (∃ other, some (found, left) = some (wantedMount line.text, other)) ↔ found = wantedMount line.text := by
      constructor
      · rintro ⟨_, same⟩
        exact congrArg Prod.fst (some.inj same)
      · rintro rfl
        exact ⟨left, rfl⟩
    rw [read, bind_some]
    rcases found with _ | mount
    · rcases wanted : wantedMount line.text with _ | other
      · have later : (∀ after, some ((none : Option Mount), left) = some (none, after) → Sound rest after) ↔ Sound rest left :=
          ⟨fun all => all left rfl, fun sound after same => by cases same; exact sound⟩
        rw [wantedRoot_none wanted, and_iff_right rfl, later]
        exact ih (n + 1) left
      · rw [wantedRoot_some wanted]
        refine iff_of_false (fun same => ?_) fun both => some_ne_none _ both.1.symm
        have late := le_mountLoop same
        omega
    · have ended : (∀ after, some (some mount, left) = some (none, after) → Sound rest after) ↔ True :=
        iff_true_intro fun after same => by cases same
      rw [ended, and_true]
      rcases wanted : wantedMount line.text with _ | other
      · rw [wantedRoot_none wanted]
        refine iff_of_false (fun same => ?_) (some_ne_none _)
        have late := le_wantedRoot (some.inj same).symm
        omega
      · rw [wantedRoot_some wanted]
        simp

def wantedResult (lines : List Line) (env : Environment) : Nat × Environment :=
  match wantedRoot 0 lines with
  | none => notfound env
  | some (_, mount) => (0, env.setMount mount)

/-- getrootmount takes the first line for the root, and that alone, exactly if no line is read with blanks in front of
such fields or with remains of the buffer behind its third field. -/
theorem getrootmount_iff (lines : List Line) (lbuf : Bytes) {env : Environment} (unset : env.mountfrom = none) :
    (mountLoop 0 lines lbuf = some (wantedRoot 0 lines) ∧
      getrootmount (some lines) lbuf env = some (wantedResult lines env)) ↔ Sound lines lbuf := by
  rw [← mountLoop_iff 0 lbuf]
  refine ⟨And.left, fun same => ⟨same, ?_⟩⟩
  rw [getrootmount, unset, if_neg (by decide)]
  refine (congrArg _ same).trans ?_
  rw [wantedResult]
  rfl

end

def oneLine : Line := ⟨ascii ("/dev/ada0p2 / ufs rw".toList), by decide, by decide⟩

theorem getrootmount_one :
    (mountLoop 0 [oneLine] (replicate 128 0) = some (wantedRoot 0 [oneLine]) ∧
        getrootmount (some [oneLine]) (replicate 128 0) ⟨none, none, none⟩ = some (wantedResult [oneLine] ⟨none, none, none⟩)) ↔
      Sound [oneLine] (replicate 128 0) :=
  getrootmount_iff [oneLine] (replicate 128 0) rfl

def commentLine : Line := ⟨ascii ("# /etc/fstab noauto".toList), by decide, by decide⟩

def threeFields : Line := ⟨ascii ("md / ufs".toList), by decide, by decide⟩

/-- The remains of a comment are the fourth field of a line that has three. -/
theorem getrootmount_remains :
    wantedResult [commentLine, threeFields] ⟨none, none, none⟩ = (1, ⟨none, none, none⟩) ∧
      getrootmount (some [commentLine, threeFields]) (replicate 128 0) ⟨none, none, none⟩ =
        some (0, ⟨some (ascii ("ufs:md".toList)), some (ascii ("tab".toList)), none⟩) := by
  decide

end Pcbsd.RootMount
