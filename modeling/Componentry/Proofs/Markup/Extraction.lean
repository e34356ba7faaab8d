import Componentry.Markup.Extraction
import Componentry.Proofs.Markup.Block
import Componentry.Proofs.Text.Removal

/-!
# Stripping twice

Stripping removes every extracted style in one walk from the front. What stood on the two sides of
a style is joined, and the two ends may form another extracted style, which the walk has passed. A
second walk removes it. So stripping again changes nothing exactly if no two sides join like this.
-/

namespace Componentry.Markup

/-! ## Extracted styles -/

/-- An extracted style: nothing but the placeholder is in it, and its tag has the word `global`
anywhere behind the first character after the tag's name. -/
def IsExtracted (e : Text) : Prop :=
  ∃ raw, .char '>' ∉ raw ∧
    (∃ (c : CodePoint) (before after : Text), raw = c :: (before ++ "global" ++ after)) ∧
    e = Kind.style.element raw placeholder

theorem mentionsGlobal_iff {raw : Text} :
    mentionsGlobal raw ↔
      ∃ (c : CodePoint) (before after : Text), raw = c :: (before ++ "global" ++ after) := by
  rw [mentionsGlobal, Text.contains_iff]
  cases raw with
  | nil =>
    have nonempty : Text.ofString "global" ≠ [] := by decide
    simp [nonempty]
  | cons c raw => simp

theorem element_style (raw : Text) :
    Kind.style.element raw placeholder =
      "<style" ++ (raw ++ .char '>' :: (placeholder ++ Kind.style.closing)) := by
  have opening : Text.ofString "<style" = "<" ++ "style" := by decide
  have ending : Text.ofString ">" = [.char '>'] := rfl
  rw [Kind.element, opening, ending]
  simp [Kind.tag]

theorem length_element_style (raw : Text) :
    (Kind.style.element raw placeholder).length =
      6 + raw.length + (Text.ofString ">" ++ placeholder ++ Kind.style.closing).length := by
  have opening : (Text.ofString "<style").length = 6 := rfl
  have ending : (Text.ofString ">").length = 1 := rfl
  simp only [element_style, List.length_append, List.length_cons, opening, ending]
  omega

/-- The text of a tag ends at the first `>`. -/
theorem span_isInTag {raw : Text} (h : .char '>' ∉ raw) (rest : Text) :
    (raw ++ .char '>' :: rest).takeWhile isInTag = raw ∧
      (raw ++ .char '>' :: rest).dropWhile isInTag = .char '>' :: rest := by
  have inTag : ∀ c ∈ raw, isInTag c = true := by
    intro c hc
    simp only [isInTag, bne_iff_ne]
    rintro rfl
    exact h hc
  constructor
  · rw [List.takeWhile_append_of_pos inTag, List.takeWhile_cons_of_neg (by decide), List.append_nil]
  · rw [List.dropWhile_append_of_pos inTag, List.dropWhile_cons_of_neg (by decide)]

theorem notMem_takeWhile_isInTag (s : Text) : .char '>' ∉ s.takeWhile isInTag := by
  intro h
  have : isInTag (.char '>') := List.all_eq_true.mp List.all_takeWhile _ h
  exact absurd this (by decide)

/-- **The matcher** finds an extracted style at the start of a text, whatever follows. -/
theorem extracted?_eq_some_iff {s : Text} {v : Unit} {n : Nat} :
    extracted? s = some (v, n) ↔ ∃ e rest, s = e ++ rest ∧ IsExtracted e ∧ n = e.length := by
  constructor
  · intro h
    simp only [extracted?, Option.bind_eq_bind, Option.bind_eq_some_iff] at h
    obtain ⟨opened, hopened, h⟩ := h
    rw [Text.after?_eq_some] at hopened
    subst hopened
    split at h
    · rename_i ending
      obtain ⟨rest, hrest⟩ := Text.startsWith_iff.mp ending
      split at h
      · rename_i mentioned
        obtain ⟨-, rfl⟩ := Prod.mk.inj (Option.some.inj h)
        refine ⟨Kind.style.element (opened.takeWhile isInTag) placeholder, rest, ?_,
          ⟨_, notMem_takeWhile_isInTag opened, mentionsGlobal_iff.mp mentioned, rfl⟩,
          (length_element_style _).symm⟩
        have parts : opened = opened.takeWhile isInTag ++
            (Text.ofString ">" ++ placeholder ++ Kind.style.closing ++ rest) := by
          rw [← hrest, List.takeWhile_append_dropWhile]
        rw [element_style, List.append_assoc, List.append_assoc]
        exact congrArg (_ ++ ·) parts
      · cases h
    · cases h
  · rintro ⟨_, rest, rfl, ⟨raw, noEnd, mentioned, rfl⟩, rfl⟩
    obtain ⟨hraw, hending⟩ := span_isInTag noEnd (placeholder ++ Kind.style.closing ++ rest)
    have ending : Text.startsWith (">" ++ placeholder ++ Kind.style.closing)
        (.char '>' :: (placeholder ++ Kind.style.closing ++ rest)) :=
      Text.startsWith_iff.mpr ⟨rest, rfl⟩
    rw [length_element_style, element_style, extracted?, List.append_assoc, Text.after?_append,
      List.append_assoc, List.cons_append]
    simp only [Option.bind_eq_bind, Option.bind_some]
    rw [hraw, hending, if_pos ending, if_pos (mentionsGlobal_iff.mpr mentioned)]

theorem local_extracted? : Text.Local extracted? where
  pos h := by
    obtain ⟨_, _, -, ⟨raw, -, -, rfl⟩, rfl⟩ := extracted?_eq_some_iff.mp h
    rw [length_element_style]
    omega
  le_length h := by
    obtain ⟨e, rest, rfl, -, rfl⟩ := extracted?_eq_some_iff.mp h
    rw [List.length_append]
    exact Nat.le_add_right ..
  take_append h t := by
    obtain ⟨e, rest, rfl, extracted, rfl⟩ := extracted?_eq_some_iff.mp h
    rw [List.take_left]
    exact extracted?_eq_some_iff.mpr ⟨e, t, rfl, extracted, rfl⟩

/-- Is there no extracted style anywhere? -/
theorem clear_extracted?_iff {s : Text} :
    Text.Clear extracted? s s.length ↔ ∀ before e after, s = before ++ e ++ after → ¬ IsExtracted e := by
  constructor
  · rintro clear before e after rfl extracted
    have here : extracted? ((before ++ e ++ after).drop before.length) = some ((), e.length) := by
      rw [List.append_assoc, List.drop_left]
      exact extracted?_eq_some_iff.mpr ⟨e, after, rfl, extracted, rfl⟩
    have := local_extracted?.pos here
    rw [clear before.length (by simp only [List.length_append]; omega)] at here
    cases here
  · intro absent i _
    cases here : extracted? (s.drop i) with
    | none => rfl
    | some found =>
      obtain ⟨e, after, hs, extracted, -⟩ := extracted?_eq_some_iff.mp here
      refine absurd extracted (absent (s.take i) e after ?_)
      rw [List.append_assoc, ← hs, List.take_append_drop]

/-! ## Seams -/

/-- Do the end of one text and the start of another form an extracted style? -/
def Joins (front back : Text) : Prop :=
  ∃ head start rest tail, front = head ++ start ∧ back = rest ++ tail ∧ start ≠ [] ∧ rest ≠ [] ∧
    IsExtracted (start ++ rest)

/-- Two sides join exactly if an extracted style stands across the end of the first. -/
theorem joins_iff {front back : Text} :
    Joins front back ↔ ∃ i n v, extracted? ((front ++ back).drop i) = some (v, n) ∧
      i < front.length ∧ front.length < i + n := by
  constructor
  · rintro ⟨head, start, rest, tail, rfl, rfl, hstart, hrest, extracted⟩
    refine ⟨head.length, (start ++ rest).length, (), ?_, ?_, ?_⟩
    · rw [List.append_assoc, List.drop_left]
      exact extracted?_eq_some_iff.mpr ⟨_, tail, by simp, extracted, rfl⟩
    · have := List.length_pos_iff.mpr hstart
      rw [List.length_append]
      omega
    · have := List.length_pos_iff.mpr hrest
      rw [List.length_append, List.length_append]
      omega
  · rintro ⟨i, n, v, here, inside, across⟩
    obtain ⟨e, tail, parts, extracted, rfl⟩ := extracted?_eq_some_iff.mp here
    rw [List.drop_append_of_le_length (Nat.le_of_lt inside)] at parts
    have longer : (front.drop i).length < e.length := by
      rw [List.length_drop]
      omega
    -- The style is longer than what is left of the first side, so it takes some of the second.
    rcases List.append_eq_append_iff.mp parts with ⟨rest, rfl, hback⟩ | ⟨more, hfront, -⟩
    · refine ⟨front.take i, front.drop i, rest, tail, (List.take_append_drop ..).symm, hback,
        ?_, ?_, extracted⟩
      · exact List.length_pos_iff.mp (by rw [List.length_drop]; omega)
      · rintro rfl
        exact absurd longer (by simp)
    · rw [hfront, List.length_append] at longer
      omega

/-- **Stripping, and stripping again.** Nothing is stripped exactly if no extracted style occurs. What
is stripped are extracted styles, and what is left is what is left of the two sides of each. A
second stripping changes nothing exactly if no two sides join to an extracted style. -/
theorem strip_strip_eq_iff (markup : Text) :
    (strip markup = markup ↔
      ∀ before e after, markup = before ++ e ++ after → ¬ IsExtracted e) ∧
    (∀ f ∈ Text.scan extracted? markup, IsExtracted (Text.slice markup f.start f.stop) ∧
      strip markup = strip (markup.take f.start) ++ strip (markup.drop f.stop)) ∧
    (strip (strip markup) = strip markup ↔
      ∀ f ∈ Text.scan extracted? markup,
        ¬ Joins (strip (markup.take f.start)) (strip (markup.drop f.stop))) := by
  have seam : ∀ f ∈ Text.scan extracted? markup,
      strip markup = strip (markup.take f.start) ++ strip (markup.drop f.stop) :=
    fun f hf => local_extracted?.remove_of_mem_scan hf
  refine ⟨?_, fun f hf => ⟨?_, seam f hf⟩, ?_⟩
  · rw [← clear_extracted?_iff]
    exact ⟨local_extracted?.clear_of_remove_eq, Text.remove_of_clear⟩
  · obtain ⟨e, rest, parts, extracted, hlength⟩ := extracted?_eq_some_iff.mp (Text.mem_scan hf).2
    rw [Text.slice, Text.Found.stop, Nat.add_sub_cancel_left, parts, hlength, List.take_left]
    exact extracted
  · rw [strip, strip, local_extracted?.remove_remove_eq_iff]
    refine forall₂_congr fun f hf => ?_
    rw [joins_iff, ← seam f hf]
    simp only [not_exists, not_and]
    rfl

/-- An extracted style within the opening tag of another. -/
def nestedStyle : Text :=
  "<sty" ++ Kind.style.element " global" placeholder ++ "le global>" ++ placeholder ++
    Kind.style.closing

/-- The inner style is stripped, and then the outer one. -/
theorem strip_nestedStyle :
    strip nestedStyle = Kind.style.element " global" placeholder ∧
      strip (strip nestedStyle) = [] ∧ strip (strip nestedStyle) ≠ strip nestedStyle := by
  refine ⟨by decide +kernel, by decide +kernel, fun same => ?_⟩
  have first : (Text.scan extracted? nestedStyle).head? = some ⟨4, 56, ()⟩ := by rfl
  refine (strip_strip_eq_iff nestedStyle).2.2.mp same _ (List.mem_of_mem_head? first)
    ⟨[], "<sty", "le global>" ++ placeholder ++ Kind.style.closing, [], ?_, ?_, ?_, ?_, ?_⟩
  · decide +kernel
  · decide +kernel
  · decide
  · decide
  · exact ⟨" global", by decide, ⟨.char ' ', [], [], by decide⟩, by decide⟩

end Componentry.Markup
