import Componentry.Proofs.Pipeline.Emission
import Componentry.Proofs.Pipeline.Splicing
import Componentry.Proofs.Pipeline.Stripping

/-!
# Global styles that leave their component

A global style that leaves its component is replaced by the placeholder, and its element is stripped
before the markup is compiled. The element may start within an extracted style that is found before
it. That one has the rest of the element for its own end, so it takes the whole element along.
-/

namespace Componentry

open Markup

namespace Markup

/-! ## Tags with the attribute -/

/-- The tag of a block with the attribute `global` has the word behind its first character. -/
theorem exists_global_of_has {raw : Text} (tag : IsTagRest raw)
    (has : (Attributes.parse raw).has "global") :
    ∃ (c : CodePoint) (before after : Text), raw = c :: (before ++ "global" ++ after) := by
  obtain ⟨found, mem, name⟩ := Attributes.mem_scan_of_has_parse has
  obtain ⟨-, here⟩ := Text.mem_scan mem
  obtain ⟨after, rest⟩ : Text.ofString "global" <+: raw.drop found.start := by
    rw [← name]
    exact prefix_of_attribute? here
  have parts : raw = raw.take found.start ++ ("global" ++ after) := by
    rw [rest, List.take_append_drop]
  cases front : raw.take found.start with
  | nil =>
    -- The word would come first, where a blank is.
    rw [front, List.nil_append] at parts
    have blank := tag.2 (.char 'g') (by rw [parts]; rfl)
    exact absurd blank (by decide)
  | cons c before =>
    refine ⟨c, before, after, ?_⟩
    rw [front] at parts
    rw [parts, List.cons_append, List.append_assoc]

/-! ## Extracted styles that overlap -/

/-- Behind the tag of an extracted style no tag is opened. -/
theorem not_opening_suffix {front back : Text}
    (parts : front ++ back = placeholder ++ Kind.style.closing) (rest : Text) :
    back = [] ∨ ¬ Text.ofString "<style" <+: back ++ rest := by
  have slash : ∀ n < (placeholder ++ Kind.style.closing).length,
      (placeholder ++ Kind.style.closing)[n]? = some (.char '<') →
        (placeholder ++ Kind.style.closing)[n + 1]? = some (.char '/') := by decide
  cases back with
  | nil => exact .inl rfl
  | cons c back =>
    right
    rintro ⟨more, opens⟩
    have word : Text.ofString "<style" = .char '<' :: .char 's' :: "tyle" := by decide
    rw [word, List.cons_append, List.cons_append, List.cons_append, List.cons.injEq] at opens
    obtain ⟨rfl, second⟩ := opens
    have next := slash front.length (by rw [← parts, List.length_append, List.length_cons]; omega)
      (by rw [← parts, List.getElem?_append_right (Nat.le_refl _), Nat.sub_self]; rfl)
    rw [← parts, List.getElem?_append_right (Nat.le_add_right ..), Nat.add_sub_cancel_left,
      List.getElem?_cons_succ] at next
    have here : (back ++ rest)[0]? = some (.char '/') := by
      rw [List.getElem?_append_left (List.getElem?_eq_some_iff.mp next).1, next]
    rw [← second, List.getElem?_cons_zero] at here
    exact absurd (Option.some.inj here) (by decide)

/-- **One end for two**: an extracted style that starts within another one ends with it. -/
theorem length_of_overlap {gap raw raw' back rest : Text} (noEnd : .char '>' ∉ raw)
    (noEnd' : .char '>' ∉ raw')
    (same : gap ++ (Kind.style.element raw placeholder ++ back) =
      Kind.style.element raw' placeholder ++ rest)
    (within : gap.length < (Kind.style.element raw' placeholder).length) :
    gap.length + (Kind.style.element raw placeholder).length =
      (Kind.style.element raw' placeholder).length := by
  have ends : ∀ raw rest : Text, Kind.style.element raw placeholder ++ rest =
      ("<style" ++ raw) ++ .char '>' :: (placeholder ++ Kind.style.closing ++ rest) := by
    intro raw rest
    rw [element_style]
    simp only [List.append_assoc, List.cons_append]
  have opening : .char '>' ∉ Text.ofString "<style" := by decide
  by_cases inGap : .char '>' ∈ gap
  · -- The tag of the second one would be opened behind the end of the first one's tag.
    exfalso
    obtain ⟨inner, whole, behind⟩ : ∃ inner, Kind.style.element raw' placeholder = gap ++ inner ∧
        Kind.style.element raw placeholder ++ back = inner ++ rest := by
      rcases List.append_eq_append_iff.mp same with ⟨inner, whole, behind⟩ | ⟨more, longer, -⟩
      · exact ⟨inner, whole, behind⟩
      · rw [longer, List.length_append] at within
        omega
    have parts := whole.symm.trans ((List.append_nil _).symm.trans (ends raw' []))
    rw [List.append_nil] at parts
    rcases List.append_eq_append_iff.mp parts with ⟨more, tag, -⟩ | ⟨more, longer, tail⟩
    · have : .char '>' ∈ Text.ofString "<style" ++ raw' := tag ▸ List.mem_append_left more inGap
      simp [opening, noEnd'] at this
    · cases more with
      | nil =>
        rw [longer, List.append_nil] at inGap
        simp [opening, noEnd'] at inGap
      | cons c more =>
        obtain ⟨-, tail⟩ := List.cons.inj tail
        rcases not_opening_suffix tail.symm rest with empty | closed
        · rw [whole, empty, List.append_nil] at within
          exact Nat.lt_irrefl _ within
        · refine closed ⟨raw ++ .char '>' :: (placeholder ++ Kind.style.closing ++ back), ?_⟩
          rw [← behind, ends, List.append_assoc (Text.ofString "<style")]
  · -- No tag ends in the gap, so the two tags end at the same place.
    have first : .char '>' ∉ gap ++ ("<style" ++ raw) := by simp [inGap, opening, noEnd]
    have first' : .char '>' ∉ Text.ofString "<style" ++ raw' := by simp [opening, noEnd']
    rw [ends, ends, ← List.append_assoc] at same
    have tags : gap ++ ("<style" ++ raw) = "<style" ++ raw' := by
      rw [← (span_isInTag first _).1, same, (span_isInTag first' _).1]
    have lengths := congrArg List.length tags
    simp only [List.length_append] at lengths
    rw [length_element_style, length_element_style]
    have six : (Text.ofString "<style").length = 6 := rfl
    omega

/-- **The whole element is stripped**: a span that is found has it for its end. -/
theorem exists_span_of_element {raw : Text} (noEnd : .char '>' ∉ raw)
    (mentioned : ∃ (c : CodePoint) (before after : Text), raw = c :: (before ++ "global" ++ after))
    (front back : Text) :
    ∃ f ∈ Text.scan extracted? (front ++ (Kind.style.element raw placeholder ++ back)),
      f.start ≤ front.length ∧ f.stop = front.length + (Kind.style.element raw placeholder).length := by
  have here : extracted? ((front ++ (Kind.style.element raw placeholder ++ back)).drop front.length) =
      some ((), (Kind.style.element raw placeholder).length) := by
    rw [List.drop_left]
    exact extracted?_eq_some_iff.mpr ⟨_, back, rfl, ⟨raw, noEnd, mentioned, rfl⟩, rfl⟩
  obtain ⟨f, hf, before, behind⟩ := local_extracted?.exists_mem_scan here
  obtain ⟨e, rest, parts, ⟨raw', noEnd', -, rfl⟩, length⟩ :=
    extracted?_eq_some_iff.mp (Text.mem_scan hf).2
  rw [List.drop_append_of_le_length before] at parts
  have within : (front.drop f.start).length < (Kind.style.element raw' placeholder).length := by
    rw [Text.Found.stop] at behind
    rw [List.length_drop]
    omega
  have ends := length_of_overlap noEnd noEnd' parts within
  refine ⟨f, hf, before, ?_⟩
  rw [List.length_drop] at ends
  rw [Text.Found.stop]
  omega

end Markup

namespace Step

variable {σ : Type} {p : Project σ} {site : Site} {inlineCss : Bool}

/-! ## Styles that leave -/

theorem emitted_of_emit {name : Text} {css : Json} {map : Option Json} {dependencies : List Json}
    {r : StyleOutcome} (h : (emit name css map dependencies : Step σ StyleOutcome).Yields r) :
    r.emitted = true := by
  obtain ⟨_, -, h⟩ := exists_of_bind h
  rw [← eq_of_pure h]

/-- A style that leaves has a stylesheet and the placeholder in its place, and one that stays has no
stylesheet. -/
theorem cases_of_style {name : Text} {b : Block} {r : StyleOutcome}
    (h : (style p.tools.style site inlineCss name b).Yields r) :
    (r.emitted = true ∧ r.code = .str placeholder ∧ r.stylesheets ≠ []) ∨
      (r.emitted = false ∧ r.stylesheets = []) := by
  have leaves {css : Json} {map : Option Json} {dependencies : List Json}
      (h : (emit name css map dependencies : Step σ StyleOutcome).Yields r) :
      r.emitted = true ∧ r.code = .str placeholder ∧ r.stylesheets ≠ [] := by
    refine ⟨emitted_of_emit h, ?_⟩
    rw [eq_of_emit h]
    exact ⟨rfl, List.cons_ne_nil _ _⟩
  rw [style] at h
  split at h
  · obtain ⟨tool, -, h⟩ := exists_of_bind h
    obtain ⟨outcome, -, h⟩ := exists_of_bind h
    cases outcome with
    | error f =>
      obtain ⟨_, -, h⟩ := exists_of_bind h
      obtain ⟨_, -, h⟩ := exists_of_bind h
      rw [← eq_of_pure h]
      exact .inr ⟨rfl, rfl⟩
    | ok result =>
      obtain ⟨_, -, h⟩ := exists_of_bind h
      split at h
      · exact .inl (leaves h)
      · rw [← eq_of_pure h]
        exact .inr ⟨rfl, rfl⟩
  · split at h
    · exact .inl (leaves h)
    · rw [← eq_of_pure h]
      exact .inr ⟨rfl, rfl⟩

/-- The result of a style block comes from the block's own step. -/
theorem exists_outcome {blocks : List Block} {taken : Nat} {results : List Processed}
    (h : List.Forall₂ Yields (blockSteps p site inlineCss taken blocks) results) {k : Nat} {b : Block}
    (hb : blocks[k]? = some b) (style_ : b.kind = .style) :
    ∃ name r, (style p.tools.style site inlineCss name b).Yields r ∧
      results[k]? = some r.toProcessed := by
  induction blocks generalizing taken results k with
  | nil => cases hb
  | cons first rest ih =>
    rw [blockSteps] at h
    cases k with
    | zero =>
      obtain rfl := Option.some.inj hb
      rw [style_] at h
      cases h with
      | cons own others =>
        obtain ⟨r, own, last⟩ := exists_of_bind own
        exact ⟨_, r, own, congrArg some (eq_of_pure last).symm⟩
    | succ k =>
      cases kind : first.kind with
      | script =>
        rw [kind] at h
        cases h with
        | cons _ others => exact ih others hb
      | style =>
        rw [kind] at h
        cases h with
        | cons _ others => exact ih others hb

/-! ## What reaches the markup tool -/

/-- **Global styles that leave vanish.** In every document whose blocks are processed, each style block
leaves exactly if it has a stylesheet. If it leaves and has the attribute `global`, its element stands
in the code behind what has become of the text before it, with the same tag and the placeholder. The
element is the end of one span that stripping finds. So the markup tool is asked to compile what is
left of the two sides of that span. -/
theorem global_style_vanishes {source filename : Text} {spliced : Spliced}
    (h : (preprocess source filename (blockSteps p site inlineCss 0)).Yields spliced) :
    ∃ results, List.Forall₂ Yields (blockSteps p site inlineCss 0 (blocks source)) results ∧
      spliceBlocks source filename (blocks source) results = .ok spliced ∧
      ∀ k b, (blocks source)[k]? = some b → b.kind = .style →
        ∃ name r, (style p.tools.style site inlineCss name b).Yields r ∧
          results[k]? = some r.toProcessed ∧ (r.emitted ↔ r.stylesheets ≠ []) ∧
          (r.emitted → b.attributes.has "global" →
            ∃ before raw after front back,
              source = before ++ (Kind.style.element raw b.content ++ after) ∧
              b.start = before.length + ("<" ++ Kind.style.tag ++ raw ++ ">").length ∧
              front = fill before ((results.take k).map Processed.text) ∧
              spliced.code = front ++ (Kind.style.element raw placeholder ++ back) ∧
              ∃ f ∈ Text.scan extracted? spliced.code, f.start ≤ front.length ∧
                f.stop = front.length + (Kind.style.element raw placeholder).length ∧
                ∀ options, ∃ map, compileMarkup p spliced.code options = do
                  let markup := strip (spliced.code.take f.start) ++ strip (spliced.code.drop f.stop)
                  let compiled ← askMarkup p markup options
                  return (markup, map, compiled)) := by
  obtain ⟨results, ran, done⟩ := exists_results h
  refine ⟨results, ran, done, fun k b hb style_ => ?_⟩
  obtain ⟨name, r, own, result⟩ := exists_outcome ran hb style_
  refine ⟨name, r, own, result, ?_, fun emitted global_ => ?_⟩
  · rcases cases_of_style own with ⟨leaves, -, sheets⟩ | ⟨stays, sheets⟩
    · simp [leaves, sheets]
    · simp [stays, sheets]
  · have code : r.code = .str placeholder := by
      rcases cases_of_style own with ⟨-, code, -⟩ | ⟨stays, -⟩
      · exact code
      · rw [stays] at emitted
        cases emitted
    have text : (results.map Processed.text)[k]? = some placeholder := by
      rw [List.getElem?_map, result, Option.map_some, Processed.text, code]
      rfl
    obtain ⟨before, raw, after, parts, attributes, tag, start, filled⟩ := exists_fill_eq hb text
    rw [style_] at parts start filled
    rw [attributes] at global_
    have placed := (code_of_spliceBlocks done).trans filled
    rw [← List.map_take] at placed
    refine ⟨before, raw, after, _, _, parts, start, rfl, placed, ?_⟩
    obtain ⟨f, hf, starts, stops⟩ := exists_span_of_element tag.1 (exists_global_of_has tag global_)
      (fill before ((results.take k).map Processed.text))
      (fill after ((results.map Processed.text).drop (k + 1)))
    rw [← placed] at hf
    refine ⟨f, hf, starts, stops, fun options => ?_⟩
    obtain ⟨s, stripped, -⟩ := exists_stripMapped spliced.code options.filename
    have sides : strip spliced.code =
        strip (spliced.code.take f.start) ++ strip (spliced.code.drop f.stop) :=
      local_extracted?.remove_of_mem_scan hf
    refine ⟨s.map?, ?_⟩
    rw [← sides]
    exact compileMarkup_eq (by rw [stripped]; rfl)

/-- A global style behind what looks like the start of another. -/
def overlappedStyle : Text := "<styles <style global>b</style>"

/-- The style leaves, and what looks like the start of another is stripped along with it. -/
theorem overlappedStyle_vanishes : ∃ spliced,
    (preprocess overlappedStyle "A.svelte"
      (blockSteps scssProject (scssProject.site ⟨[], []⟩ "A.svelte") true 0)).Yields spliced ∧
    spliced.code = "<styles <style global>" ++ placeholder ++ "</style>" ∧
    strip spliced.code = [] ∧
    ∃ f ∈ Text.scan extracted? spliced.code, f.start < 22 ∧ f.stop = spliced.code.length := by
  obtain ⟨spliced, run, code, sheets⟩ : ∃ spliced, ((preprocess overlappedStyle "A.svelte"
      (blockSteps scssProject (scssProject.site ⟨[], []⟩ "A.svelte") true 0)).from_
        { tools := () }).1 = .ok spliced ∧
      spliced.code = "<styles <style global>" ++ placeholder ++ "</style>" ∧
      spliced.stylesheets.length = 1 := ⟨_, rfl, by rfl, by rfl⟩
  refine ⟨spliced, ⟨_, run⟩, code, by rw [code]; decide +kernel, ?_⟩
  have found : blocks overlappedStyle = [⟨.style, "b", [("global", none)], 22, 23⟩] := by rfl
  obtain ⟨results, ran, done, each⟩ := global_style_vanishes ⟨_, run⟩
  obtain ⟨name, r, -, result, leaves, vanishes⟩ := each 0 _ (by rw [found]; rfl) rfl
  have emitted : r.emitted := by
    obtain ⟨last, rfl⟩ : ∃ last, results = [last] := by
      rw [found] at ran
      exact List.length_eq_one_iff.mp ran.length_eq.symm
    rw [stylesheets_of_spliceBlocks done, List.flatMap_singleton] at sheets
    rw [leaves, ← Option.some.inj result]
    exact List.ne_nil_of_length_pos (sheets ▸ Nat.one_pos)
  obtain ⟨before, raw, after, front, back, -, start, rfl, -, f, hf, starts, stops, -⟩ :=
    vanishes emitted (by decide)
  have one : (Text.ofString ">").length = 1 := rfl
  rw [List.take_zero, List.map_nil, fill_nil] at starts stops
  simp only [List.length_append, one] at start
  refine ⟨f, hf, by omega, ?_⟩
  have whole : spliced.code.length = 22 + (placeholder ++ Kind.style.closing).length := by
    rw [code]
    decide +kernel
  rw [stops, Kind.length_element, whole]
  simp only [List.length_append]
  omega

end Step

end Componentry
