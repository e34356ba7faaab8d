import Componentry.Proofs.SourceMap.TwoSteps

/-!
# Looking up by going through the segments

A map may have its segments in any order within a line, several at one place, and some without a
source. Looking a place up sorts them once and searches by halving. The answer is that of going
through the segments as they are written: of those on the line of the place that are not behind it,
the first of those that are furthest on.
-/

namespace Componentry.SourceMap

/-! ## Going through the segments -/

/-- The segments on the line of a place that are not behind it. -/
def reached (segments : List Mapping) (p : Position) : List Mapping :=
  segments.filter fun m => m.generated.line = p.line ∧ m.generated.column ≤ p.column

/-- Of the segments on the line of a place that are not behind it, the first of those with the
greatest column. -/
def furthest? (segments : List Mapping) (p : Position) : Option Mapping :=
  (reached segments p).find? fun m =>
    (reached segments p).all fun x => x.generated.column ≤ m.generated.column

theorem mem_reached {segments : List Mapping} {p : Position} {m : Mapping} :
    m ∈ reached segments p ↔
      m ∈ segments ∧ m.generated.line = p.line ∧ atOrBefore m.generated p := by
  rw [reached, List.mem_filter, decide_eq_true_eq, atOrBefore_iff]
  refine and_congr_right fun _ => ?_
  omega

theorem furthest?_eq_none {segments : List Mapping} {p : Position}
    (h : ∀ m ∈ segments, m.generated.line = p.line → ¬ atOrBefore m.generated p) :
    furthest? segments p = none := by
  have empty : reached segments p = [] := by
    refine List.eq_nil_iff_forall_not_mem.mpr fun m hm => ?_
    obtain ⟨mem, line, before⟩ := mem_reached.mp hm
    exact h m mem line before
  rw [furthest?, empty]
  rfl

/-- The first segment at the greatest place on the line up to `p` is the one that is looked for. -/
theorem furthest?_eq_find? {segments : List Mapping} {p : Position} {m : Mapping}
    (hm : m ∈ segments) (line : m.generated.line = p.line) (before : atOrBefore m.generated p)
    (greatest : ∀ x ∈ segments, atOrBefore x.generated p → atOrBefore x.generated m.generated) :
    furthest? segments p = segments.find? fun x => x.generated = m.generated := by
  have own : m ∈ reached segments p := mem_reached.mpr ⟨hm, line, before⟩
  have upTo : ∀ x ∈ reached segments p, x.generated.column ≤ m.generated.column := by
    intro x hx
    obtain ⟨mem, line', before'⟩ := mem_reached.mp hx
    have := greatest x mem before'
    rw [atOrBefore_iff] at this
    omega
  have first : ∀ x ∈ segments, ((x.generated.line = p.line ∧ x.generated.column ≤ p.column) ∧
      ∀ y ∈ reached segments p, y.generated.column ≤ x.generated.column) ↔
        x.generated = m.generated := by
    intro x hx
    constructor
    · rintro ⟨⟨line', before'⟩, furthest⟩
      have le := furthest m own
      have ge := upTo x (List.mem_filter.mpr ⟨hx, by simp [line', before']⟩)
      obtain ⟨⟨l, c⟩, _, _⟩ := x
      obtain ⟨⟨l', c'⟩, _, _⟩ := m
      simp only [Position.mk.injEq] at *
      omega
    · intro same
      rw [atOrBefore_iff] at before
      rw [same]
      exact ⟨⟨line, by omega⟩, upTo⟩
  rw [furthest?, ← List.head?_filter, ← List.head?_filter]
  refine congrArg List.head? (List.filter_filter.trans (List.filter_congr fun x hx => ?_))
  rw [Bool.eq_iff_iff, Bool.and_eq_true, and_comm, decide_eq_true_eq, decide_eq_true_eq,
    List.all_eq_true]
  simpa using first x hx

/-! ## Sorting -/

/-- Sorting keeps the order of items that are not told apart. -/
theorem filter_mergeSort {α : Type} {le : α → α → Bool} {xs : List α} {p : α → Bool}
    (trans : ∀ a b c, le a b → le b c → le a c) (total : ∀ a b, le a b || le b a)
    (same : ∀ a b, p a → p b → le a b) : (xs.mergeSort le).filter p = xs.filter p := by
  have inOrder : (xs.filter p).Pairwise fun a b => le a b := by
    refine List.pairwise_of_forall_mem_list fun a ha b hb => ?_
    exact same a b (List.mem_filter.mp ha).2 (List.mem_filter.mp hb).2
  have kept : (xs.filter p).Sublist (xs.mergeSort le) :=
    List.sublist_mergeSort trans total inOrder List.filter_sublist
  have kept' : (xs.filter p).Sublist ((xs.mergeSort le).filter p) := by
    have := kept.filter p
    simpa only [List.filter_filter, Bool.and_self] using this
  have length := ((xs.mergeSort_perm le).filter p).length_eq
  exact (kept'.eq_of_length length.symm).symm

/-- What is read is sorted, and segments at one place stay in the order in which they are written. -/
theorem find?_readMappings {sources names : List Text} {text : Text} {ms : List Mapping}
    (read : readMappings sources names text = .ok ms) :
    ∃ segments, readLines sources names 1 {} (Text.splitOn ';' text) = .ok segments ∧
      (∀ m, m ∈ ms ↔ m ∈ segments) ∧
      ∀ g : Position, ms.find? (fun x => x.generated = g) = segments.find? fun x => x.generated = g := by
  rw [readMappings] at read
  cases lines : readLines sources names 1 {} (Text.splitOn ';' text) with
  | error e => simp [lines, bind, Except.bind] at read
  | ok segments =>
    simp only [lines, bind, Except.bind, pure, Except.pure, Except.ok.injEq] at read
    subst read
    refine ⟨segments, rfl, fun m => List.mem_mergeSort, fun g => ?_⟩
    rw [← List.head?_filter, ← List.head?_filter]
    refine congrArg List.head? (filter_mergeSort ?_ ?_ ?_)
    · intro a b c hab hbc
      exact atOrBefore_trans hab hbc
    · intro a b
      rw [Bool.or_eq_true, atOrBefore_iff, atOrBefore_iff]
      omega
    · intro a b ha hb
      rw [of_decide_eq_true ha, of_decide_eq_true hb, atOrBefore_iff]
      omega

/-! ## Looking up -/

/-- The `mappings` field of a map as it is read. -/
def mappingsField (fields : Json.Fields) : Text :=
  (((Json.Fields.get? "mappings" fields).getD .null).presentOr (.str "")).shown

/-- The map `raw`, which is read as `d`, has these segments in this order. -/
def Decoded.Lists (raw : Json) (d : Decoded) (segments : List Mapping) : Prop :=
  ∃ fields, load raw = .ok fields ∧
    readLines d.sources d.names 1 {} (Text.splitOn ';' (mappingsField fields)) = .ok segments

theorem Decoded.readMappings_of_ofFields {fields : Json.Fields} {d : Decoded}
    (read : ofFields fields = .ok d) :
    readMappings d.sources d.names (mappingsField fields) = .ok d.mappings.toList := by
  simp only [ofFields, bind, Except.bind] at read
  repeat' split at read
  all_goals try cases read
  assumption

/-- **A place is answered by the segment that going through all of them finds.** Of the segments on the
line of the place with no greater column, take those of the greatest column, and of these the first
as the map lists them. The answer is its origin and its name. There is none if there is no such
segment or if it has no origin. -/
theorem Decoded.locate_eq_furthest? {raw : Json} {d : Decoded} (read : ofJson raw = .ok d) :
    ∃ segments, d.Lists raw segments ∧ ∀ p : Position, p.valid →
      d.locate p =
        .ok ((furthest? segments p).bind fun m => m.origin.map fun o => (o, m.name)) := by
  obtain ⟨fields, loaded, readFields⟩ := exists_load_of_ofJson read
  have ordered := ordered_of_ofFields readFields
  obtain ⟨segments, lines, mem, first⟩ := find?_readMappings (readMappings_of_ofFields readFields)
  refine ⟨segments, ⟨fields, loaded, lines⟩, fun p valid => ?_⟩
  have answer : d.nearest? p = furthest? segments p := by
    rcases ordered.nearest?_cases p with
      ⟨after, none_⟩ | ⟨front, m, back, split, others, before, greatest, found⟩
    · rw [none_, furthest?_eq_none fun m hm _ => after m ((mem m).mpr hm)]
    · have hm : m ∈ d.mappings.toList := by simp [split]
      rw [found, Option.filter_some]
      by_cases line : m.generated.line = p.line
      · have own : d.mappings.toList.find? (fun x => x.generated = m.generated) = some m := by
          rw [split, List.find?_append, List.find?_eq_none.mpr (by simpa using others)]
          simp
        rw [if_pos (by simpa using line), furthest?_eq_find? ((mem m).mp hm) line before
          (fun x hx => greatest x ((mem x).mpr hx)), ← first, own]
      · -- The greatest place up to `p` is on an earlier line, and so are all others up to `p`.
        rw [if_neg (by simpa using line), furthest?_eq_none]
        intro x hx line' before'
        have := greatest x ((mem x).mpr hx) before'
        rw [atOrBefore_iff] at this before
        omega
  rw [locate, if_pos valid, answer]

/-- The second segment goes back, the third stands where the first does, and the fourth has no
source. -/
def outOfOrder : Json := lineMap "a" "IAAA,FAAC,EAAE,C"

/-- The first of two segments at one place answers for it, the one that goes back answers for the
place before them, and behind the last segment there is no answer. -/
theorem locate_outOfOrder : ∃ d, Decoded.ofJson outOfOrder = .ok d ∧
    d.locate ⟨1, 1⟩ = .ok none ∧ d.locate ⟨1, 3⟩ = .ok (some (⟨"a", ⟨1, 1⟩⟩, none)) ∧
    d.locate ⟨1, 4⟩ = .ok (some (⟨"a", ⟨1, 0⟩⟩, none)) ∧ d.locate ⟨1, 9⟩ = .ok none := by
  let segments : List Mapping := [⟨⟨1, 4⟩, some ⟨"a", ⟨1, 0⟩⟩, none⟩,
    ⟨⟨1, 2⟩, some ⟨"a", ⟨1, 1⟩⟩, none⟩, ⟨⟨1, 4⟩, some ⟨"a", ⟨1, 3⟩⟩, none⟩, ⟨⟨1, 5⟩, none, none⟩]
  have read : Decoded.ofJson outOfOrder = .ok ⟨.null, ["a"], [], [],
      (segments.mergeSort fun a b => atOrBefore a.generated b.generated).toArray⟩ := rfl
  obtain ⟨_, ⟨_, ⟨⟩, ⟨⟩⟩, answers⟩ := Decoded.locate_eq_furthest? read
  refine ⟨_, read, ?_, ?_, ?_, ?_⟩
  · exact answers ⟨1, 1⟩ rfl
  · exact answers ⟨1, 3⟩ rfl
  · exact answers ⟨1, 4⟩ rfl
  · exact answers ⟨1, 9⟩ rfl

end Componentry.SourceMap
