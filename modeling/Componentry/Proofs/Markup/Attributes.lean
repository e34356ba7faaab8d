import Componentry.Proofs.Markup.Block
import Componentry.Proofs.Text.Run
import Mathlib.Data.List.Induction
import Mathlib.Data.List.Nodup

/-!
# Attributes of a tag that is written out

A tag is written attribute by attribute: blanks, a name, and a value in one of its spellings unless
the attribute is bare. Each attribute is read as it was written, whatever stands in its value,
because the next one starts with a blank and goes on with a name. Of several attributes of one name
the last one counts.
-/

namespace Componentry.Markup

/-! ## Attributes as they are written -/

/-- An equals sign and a value as they are written behind a name, with blanks around the sign. -/
structure Assignment where
  before : Text
  behind : Text
  value : Text
  spelling : Text
  blank_before : Text.allBlank before
  blank_behind : Text.allBlank behind
  spelled : Spelled value spelling

def Assignment.written (a : Assignment) : Text := a.before ++ .char '=' :: (a.behind ++ a.spelling)

/-- An attribute as it is written in a tag: blanks, a name and, unless it is bare, a value. -/
structure Attribute where
  gap : Text
  name : Text
  assignment : Option Assignment
  gap_ne_nil : gap ≠ []
  blank_gap : Text.allBlank gap
  name_ne_nil : name ≠ []
  nameChars : ∀ c ∈ name, isNameChar c

namespace Attribute

/-- What is written behind the name. -/
def tail (a : Attribute) : Text := (a.assignment.map Assignment.written).getD []

def written (a : Attribute) : Text := a.gap ++ (a.name ++ a.tail)

/-- The name, and the value unless the attribute is bare. -/
def entry (a : Attribute) : Text × Option Text := (a.name, a.assignment.map Assignment.value)

end Attribute

/-! ## One attribute -/

theorem isNameChar_of_isBlank {c : CodePoint} (h : isBlank c) : isNameChar c = false := by
  simp [isNameChar, h]

theorem isValueChar_of_isBlank {c : CodePoint} (h : isBlank c) : isValueChar c = false := by
  simp [isValueChar, h]

theorem quotedValue?_append {q : CodePoint} {value : Text} (absent : q ∉ value) (rest : Text) :
    quotedValue? q (value ++ q :: rest) = some (value, value.length + 1) := by
  rw [quotedValue?, Text.cut?_singleton_eq_some_iff.mpr ⟨rfl, absent⟩]
  rfl

theorem value?_spelled {value spelling rest : Text} (h : Spelled value spelling)
    (ends : ∀ c ∈ rest.head?, isBlank c) :
    value? (spelling ++ rest) = some (value, spelling.length) := by
  cases h with
  | double absent => simp [value?, quotedValue?_append absent]
  | single absent => simp [value?, quotedValue?_append absent]
  | bare ne_nil chars =>
    have run : (value ++ rest).takeWhile isValueChar = value :=
      Text.takeWhile_append_of_ends chars fun c hc => isValueChar_of_isBlank (ends c hc)
    obtain ⟨c, tail, rfl⟩ := List.exists_cons_of_ne_nil ne_nil
    have first := chars c (List.mem_cons_self ..)
    -- A bare value does not start with a quote.
    rw [value?, run]
    · rintro s ⟨⟩
      exact absurd first (by decide)
    · rintro s ⟨⟩
      exact absurd first (by decide)

/-- A spelling starts with a quote or a character of the value. -/
theorem Spelled.head?_not_blank {value spelling : Text} (h : Spelled value spelling) (rest : Text) :
    ∀ c ∈ (spelling ++ rest).head?, isBlank c = false := by
  intro c hc
  cases h with
  | double absent =>
    cases hc
    decide
  | single absent =>
    cases hc
    decide
  | bare ne_nil chars =>
    obtain ⟨d, tail, rfl⟩ := List.exists_cons_of_ne_nil ne_nil
    cases hc
    exact Bool.eq_false_iff.mpr fun blank =>
      absurd (chars c (List.mem_cons_self ..)) (by simp [isValueChar_of_isBlank blank])

theorem assignment?_written (a : Assignment) {rest : Text} (ends : ∀ c ∈ rest.head?, isBlank c) :
    assignment? (a.written ++ rest) = some (a.value, a.written.length) := by
  have sign : (a.written ++ rest).dropWhile isBlank =
      .char '=' :: (a.behind ++ (a.spelling ++ rest)) := by
    rw [Assignment.written, List.append_assoc, List.cons_append, List.append_assoc]
    refine Text.dropWhile_append_of_ends (List.all_eq_true.mp a.blank_before) ?_
    rintro c ⟨⟩
    decide
  have body : (a.behind ++ (a.spelling ++ rest)).dropWhile isBlank = a.spelling ++ rest :=
    Text.dropWhile_append_of_ends (List.all_eq_true.mp a.blank_behind)
      (a.spelled.head?_not_blank rest)
  rw [assignment?, sign]
  simp only [body, value?_spelled a.spelled ends, Option.map_some, Assignment.written,
    List.length_append, List.length_cons, Option.some.injEq, Prod.mk.injEq, true_and]
  omega

theorem Assignment.head?_written (a : Assignment) (rest : Text) :
    ∀ c ∈ (a.written ++ rest).head?, isNameChar c = false := by
  intro c hc
  rw [written, List.append_assoc] at hc
  cases blanks : a.before with
  | nil =>
    rw [blanks] at hc
    cases hc
    decide
  | cons b more =>
    have blank := List.all_eq_true.mp a.blank_before b (blanks ▸ List.mem_cons_self ..)
    rw [blanks] at hc
    cases hc
    exact isNameChar_of_isBlank blank

/-- What may stand behind an attribute: blanks, and behind them no equals sign with a value. -/
structure Follows (rest : Text) : Prop where
  blank : ∀ c ∈ rest.head?, isBlank c
  bare : assignment? rest = none

theorem Attribute.attribute?_append (a : Attribute) {rest : Text} (h : Follows rest) :
    attribute? (a.name ++ a.tail ++ rest) = some (a.entry, (a.name ++ a.tail).length) := by
  have ends : ∀ c ∈ (a.tail ++ rest).head?, isNameChar c = false := by
    rw [tail]
    cases a.assignment with
    | none => exact fun c hc => isNameChar_of_isBlank (h.blank c hc)
    | some x => exact x.head?_written rest
  have name : (a.name ++ a.tail ++ rest).takeWhile isNameChar = a.name := by
    rw [List.append_assoc]
    exact Text.takeWhile_append_of_ends a.nameChars ends
  have behind : (a.name ++ a.tail ++ rest).dropWhile isNameChar = a.tail ++ rest := by
    rw [List.append_assoc]
    exact Text.dropWhile_append_of_ends a.nameChars ends
  rw [attribute?, name, behind]
  split
  · rename_i empty
    exact absurd empty a.name_ne_nil
  · rw [tail, entry]
    cases a.assignment with
    | none => simp [h.bare]
    | some x => simp [assignment?_written x h.blank]

/-! ## All attributes of a tag -/

/-- Attributes start with a blank, and behind the blanks comes a name. -/
theorem follows_flatMap_written (attributes : List Attribute) :
    Follows (attributes.flatMap Attribute.written) := by
  cases attributes with
  | nil => exact ⟨by simp, rfl⟩
  | cons a rest =>
    have blanks := List.all_eq_true.mp a.blank_gap
    obtain ⟨b, gap, hgap⟩ := List.exists_cons_of_ne_nil a.gap_ne_nil
    obtain ⟨c, name, hname⟩ := List.exists_cons_of_ne_nil a.name_ne_nil
    have first := a.nameChars c (hname ▸ List.mem_cons_self ..)
    constructor
    · intro d hd
      rw [List.flatMap_cons, Attribute.written, hgap] at hd
      cases hd
      exact blanks b (hgap ▸ List.mem_cons_self ..)
    · have trimmed : (a.written ++ rest.flatMap Attribute.written).dropWhile isBlank =
          a.name ++ a.tail ++ rest.flatMap Attribute.written := by
        rw [Attribute.written, List.append_assoc]
        refine Text.dropWhile_append_of_ends blanks ?_
        rw [hname]
        rintro d ⟨⟩
        exact Bool.eq_false_iff.mpr fun blank => by simp [isNameChar_of_isBlank blank] at first
      rw [List.flatMap_cons, assignment?, trimmed, hname]
      split
      · rename_i heq
        obtain ⟨rfl, -⟩ := List.cons.inj heq
        exact absurd first (by decide)
      · rfl

/-- No attribute starts at a blank. -/
theorem attribute?_of_blank {c : CodePoint} (h : isBlank c) (s : Text) :
    attribute? (c :: s) = none := by
  rw [attribute?, List.takeWhile_cons_of_neg (by simp [isNameChar_of_isBlank h])]

theorem clear_of_allBlank {gap : Text} (blanks : Text.allBlank gap) (rest : Text) :
    Text.Clear attribute? (gap ++ rest) gap.length := by
  induction gap with
  | nil => exact fun i hi => absurd hi (Nat.not_lt_zero i)
  | cons c gap ih =>
    rw [Text.allBlank, List.all_cons, Bool.and_eq_true] at blanks
    exact Text.clear_succ.mpr ⟨attribute?_of_blank blanks.1 _, ih blanks.2⟩

/-- **One attribute**: it is found behind its blanks, and the rest is looked at behind it. -/
theorem values_scan_written (a : Attribute) {rest : Text} (h : Follows rest) :
    (Text.scan attribute? (a.written ++ rest)).map Text.Found.value =
      a.entry :: (Text.scan attribute? rest).map Text.Found.value := by
  have pos : 0 < (a.name ++ a.tail).length := by
    rw [List.length_append]
    exact Nat.add_pos_left (List.length_pos_iff.mpr a.name_ne_nil) _
  rw [Attribute.written, List.append_assoc,
    Text.scan_append_of_clear (clear_of_allBlank a.blank_gap _),
    Text.scan_of_match pos (a.attribute?_append h)]
  simp [Function.comp_def]

/-- The attributes that are found are those that are written, in order. -/
theorem values_scan_flatMap_written (attributes : List Attribute) :
    (Text.scan attribute? (attributes.flatMap Attribute.written)).map Text.Found.value =
      attributes.map Attribute.entry := by
  induction attributes with
  | nil => rfl
  | cons a rest ih =>
    rw [List.flatMap_cons, values_scan_written a (follows_flatMap_written rest), ih, List.map_cons]

/-! ## The last one of a name -/

/-- The last of the entries with its name. -/
def IsLast (entries : List (Text × Option Text)) (e : Text × Option Text) : Prop :=
  ∃ front back, entries = front ++ e :: back ∧ e.1 ∉ back.map Prod.fst

theorem isLast_concat {entries : List (Text × Option Text)} {e x : Text × Option Text} :
    IsLast (entries ++ [x]) e ↔ e = x ∨ e.1 ≠ x.1 ∧ IsLast entries e := by
  constructor
  · rintro ⟨front, back, whole, absent⟩
    rcases List.eq_nil_or_concat back with rfl | ⟨back, y, rfl⟩
    · exact .inl (List.singleton_inj.mp (List.append_inj' whole rfl).2).symm
    · rw [List.concat_eq_append, ← List.cons_append, ← List.append_assoc] at whole
      obtain ⟨rfl, ⟨⟩⟩ := List.append_inj' whole rfl
      rw [List.concat_eq_append, List.map_append, List.mem_append, not_or] at absent
      exact .inr ⟨fun same => absent.2 (by simp [same]), front, back, rfl, absent.1⟩
  · rintro (rfl | ⟨other, front, back, rfl, absent⟩)
    · exact ⟨entries, [], rfl, by simp⟩
    · refine ⟨front, back ++ [x], by simp, ?_⟩
      simp [absent, other]

namespace Attributes

/-- The names of attributes, in order. -/
def names (attributes : Attributes) : List Text := attributes.map Prod.fst

theorem names_cons (e : Text × Option Text) (attributes : Attributes) :
    names (e :: attributes) = e.1 :: attributes.names := rfl

/-- Setting an attribute keeps the names, or adds a new one as the last. -/
theorem names_set (name : Text) (value : Option Text) (attributes : Attributes) :
    (attributes.set name value).names =
      if name ∈ attributes.names then attributes.names else attributes.names ++ [name] := by
  induction attributes with
  | nil => rfl
  | cons a rest ih =>
    obtain ⟨n, v⟩ := a
    by_cases h : n = name
    · simp [names_cons, Attributes.set, h]
    · simp only [Attributes.set, if_neg h, names_cons, ih, List.mem_cons, Ne.symm h, false_or]
      by_cases known : name ∈ names rest
      · rw [if_pos known, if_pos known]
      · rw [if_neg known, if_neg known, List.cons_append]

theorem mem_set {name : Text} {value : Option Text} {attributes : Attributes}
    (nodup : attributes.names.Nodup) {e : Text × Option Text} :
    e ∈ attributes.set name value ↔ e = (name, value) ∨ e.1 ≠ name ∧ e ∈ attributes := by
  induction attributes with
  | nil => simp [Attributes.set]
  | cons a rest ih =>
    obtain ⟨n, v⟩ := a
    rw [names_cons, List.nodup_cons] at nodup
    have later : e ∈ rest → e.1 ≠ n := by
      intro mem same
      have known : e.1 ∈ names rest := List.mem_map_of_mem mem
      exact nodup.1 (same ▸ known)
    by_cases h : n = name
    · subst h
      simp only [Attributes.set, if_true, List.mem_cons]
      grind
    · simp only [Attributes.set, if_neg h, List.mem_cons, ih nodup.2]
      grind

/-- Setting entries one after the other. -/
def ofEntries (entries : List (Text × Option Text)) : Attributes :=
  entries.foldl (fun attributes e => attributes.set e.1 e.2) []

theorem ofEntries_concat (entries : List (Text × Option Text)) (e : Text × Option Text) :
    ofEntries (entries ++ [e]) = (ofEntries entries).set e.1 e.2 := by
  rw [ofEntries, List.foldl_append]
  rfl

theorem names_ofEntries (entries : List (Text × Option Text)) :
    (ofEntries entries).names = (entries.map Prod.fst).eraseDups := by
  induction entries using List.reverseRecOn with
  | nil => rfl
  | append_singleton entries e ih =>
    rw [ofEntries_concat, names_set, ih, List.map_append, List.eraseDups_append, List.map_singleton]
    simp only [List.mem_eraseDups]
    by_cases known : e.1 ∈ entries.map Prod.fst
    · rw [if_pos known]
      simp [List.removeAll, known]
    · rw [if_neg known]
      simp [List.removeAll, known, List.eraseDups_cons]

theorem nodup_names_ofEntries (entries : List (Text × Option Text)) :
    (ofEntries entries).names.Nodup := by
  induction entries using List.reverseRecOn with
  | nil => exact List.nodup_nil
  | append_singleton entries e ih =>
    rw [ofEntries_concat, names_set]
    split
    · exact ih
    · rename_i fresh
      rw [← List.concat_eq_append]
      exact ih.concat fresh

/-- The entry of a name is the last one that was set. -/
theorem mem_ofEntries {entries : List (Text × Option Text)} {e : Text × Option Text} :
    e ∈ ofEntries entries ↔ IsLast entries e := by
  induction entries using List.reverseRecOn with
  | nil =>
    refine iff_of_false (by simp [ofEntries]) ?_
    rintro ⟨front, back, whole, -⟩
    simp at whole
  | append_singleton entries x ih =>
    rw [ofEntries_concat, mem_set (nodup_names_ofEntries entries), isLast_concat, ih]

theorem parse_eq_ofEntries (raw : Text) :
    parse raw = ofEntries ((Text.scan attribute? raw).map Text.Found.value) := by
  rw [parse, ofEntries, List.foldl_map]

/-- **The attributes of a tag are those that were written in it.** Their names are the names that
were written, each once and in the order in which they first occur, and the entry of a name is the
one that was written last, without a value if that one was bare. -/
theorem parse_written (attributes : List Attribute) :
    (parse (attributes.flatMap Attribute.written)).names =
        (attributes.map Attribute.name).eraseDups ∧
      ∀ e, e ∈ parse (attributes.flatMap Attribute.written) ↔
        IsLast (attributes.map Attribute.entry) e := by
  rw [parse_eq_ofEntries, values_scan_flatMap_written]
  refine ⟨?_, fun e => mem_ofEntries⟩
  rw [names_ofEntries, List.map_map]
  rfl

example : parse " a==b/c  global\t\ta = ''" = ([("a", some ""), ("global", none)] : Attributes) := by
  decide

end Attributes

end Componentry.Markup
