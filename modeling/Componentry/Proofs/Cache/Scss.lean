import Componentry.Cache.Key
import Componentry.Proofs.Markup.Block

/-!
# Which documents have no key

A document has no key exactly if behind some `<style`, before the tag ends, there is `lang=` and
`scss` between quotes. The language of a block may be written otherwise: with blanks around the
equals sign, or without quotes. So a document with an `scss` block has no key if the block's tag is
written that way, and it may have one if not.
-/

namespace Componentry

open Markup

/-! ## Recognised languages -/

/-- A quote of either kind. -/
def IsQuote (c : CodePoint) : Prop := c = .char '"' ∨ c = .char '\''

/-- A style tag that gives the language `scss` in quotes, right behind `lang=`, with at least one
character between the tag's name and that; `raw` is what stands there. -/
def GivesScss (content : Text) : Prop :=
  ∃ (before raw after : Text) (q q' : CodePoint),
    content = before ++ "<style" ++ raw ++ "lang=" ++ [q] ++ "scss" ++ [q'] ++ after ∧
    raw ≠ [] ∧ .char '>' ∉ raw ∧ IsQuote q ∧ IsQuote q'

theorem isQuote_iff {c : CodePoint} : (c == '"' || c == '\'') = true ↔ IsQuote c := by
  simp [IsQuote]

theorem startsScssLang_iff {s : Text} :
    startsScssLang s ↔ ∃ (q q' : CodePoint) (after : Text),
      s = "lang=" ++ [q] ++ "scss" ++ [q'] ++ after ∧ IsQuote q ∧ IsQuote q' := by
  constructor
  · intro h
    rw [startsScssLang] at h
    split at h
    · rename_i q rest hlang
      rw [Bool.and_eq_true, isQuote_iff] at h
      obtain ⟨hq, h⟩ := h
      split at h
      · rename_i q' after hscss
        rw [Text.after?_eq_some] at hlang hscss
        exact ⟨q, q', after, by simp [hlang, hscss], hq, isQuote_iff.mp h⟩
      · cases h
    · cases h
  · rintro ⟨q, q', after, rfl, hq, hq'⟩
    rw [startsScssLang]
    simp only [List.append_assoc, Text.after?_append, List.cons_append]
    simpa [IsQuote] using And.intro hq hq'

theorem tagHasScss_iff {s : Text} :
    tagHasScss s ↔ ∃ raw rest, s = raw ++ rest ∧ raw ≠ [] ∧ .char '>' ∉ raw ∧
      startsScssLang rest := by
  induction s with
  | nil => simp [tagHasScss]
  | cons c s ih =>
    rw [tagHasScss, Bool.and_eq_true, Bool.or_eq_true, ih, bne_iff_ne]
    constructor
    · rintro ⟨hc, h | ⟨raw, rest, rfl, -, hraw, h⟩⟩
      · exact ⟨[c], s, rfl, by simp, by simpa using Ne.symm hc, h⟩
      · exact ⟨c :: raw, rest, rfl, by simp, by simp [Ne.symm hc, hraw], h⟩
    · rintro ⟨raw, rest, hs, hne, hraw, h⟩
      cases raw with
      | nil => exact absurd rfl hne
      | cons x raw =>
        obtain ⟨rfl, rfl⟩ := List.cons.inj hs
        rw [List.mem_cons, not_or] at hraw
        refine ⟨Ne.symm hraw.1, ?_⟩
        by_cases empty : raw = []
        · subst empty
          exact .inl h
        · exact .inr ⟨raw, rest, rfl, empty, hraw.2, h⟩

theorem mentionsScss_iff_tag {s : Text} :
    mentionsScss s ↔ ∃ before rest, s = before ++ "<style" ++ rest ∧ tagHasScss rest := by
  induction s with
  | nil =>
    have style : Text.ofString "<style" ≠ [] := by decide
    simp [mentionsScss, style]
  | cons c s ih =>
    rw [mentionsScss, Bool.or_eq_true, ih]
    constructor
    · rintro (h | ⟨before, rest, rfl, h⟩)
      · split at h
        · rename_i rest hrest
          exact ⟨[], rest, Text.after?_eq_some.mp hrest, h⟩
        · cases h
      · exact ⟨c :: before, rest, rfl, h⟩
    · rintro ⟨before, rest, hs, h⟩
      cases before with
      | nil =>
        rw [List.nil_append] at hs
        rw [hs, Text.after?_append]
        exact .inl h
      | cons x before =>
        obtain ⟨rfl, rfl⟩ := List.cons.inj hs
        exact .inr ⟨before, rest, rfl, h⟩

theorem mentionsScss_iff {s : Text} : mentionsScss s ↔ GivesScss s := by
  simp only [mentionsScss_iff_tag, tagHasScss_iff, startsScssLang_iff]
  constructor
  · rintro ⟨before, _, rfl, raw, _, rfl, hne, hraw, q, q', after, rfl, hq, hq'⟩
    exact ⟨before, raw, after, q, q', by simp, hne, hraw, hq, hq'⟩
  · rintro ⟨before, raw, after, q, q', rfl, hne, hraw, hq, hq'⟩
    refine ⟨before, raw ++ ("lang=" ++ [q] ++ "scss" ++ [q'] ++ after), by simp, raw, _, rfl, hne,
      hraw, q, q', after, rfl, hq, hq'⟩

theorem derive?_eq_none_iff {document : Document} {options : Options} {hot production : Bool}
    {version : Text} {runtime : Option Text} :
    CacheKey.derive? document options hot version production runtime = none ↔
      GivesScss document.content := by
  rw [CacheKey.derive?, ← mentionsScss_iff]
  split <;> simp_all

/-! ## Languages of blocks -/

/-- How a block with a language gives it: in its tag, behind a blank, there are `lang`, an equals
sign that blanks may surround, and the language, in quotes or bare. -/
theorem exists_spelled_of_lang {source : Text} {b : Block} {value : Text} (found : b ∈ blocks source)
    (lang : b.lang = some value) :
    ∃ before raw blanks blanks' written rest after : Text,
      source = before ++ b.kind.element
        (raw ++ "lang" ++ blanks ++ "=" ++ blanks' ++ written ++ rest) b.content ++ after ∧
      raw ≠ [] ∧ .char '>' ∉ raw ∧ Text.allBlank blanks ∧ Text.allBlank blanks' ∧
      Spelled value written := by
  obtain ⟨before, raw, after, text, attributes, ⟨⟨noEnd, blank⟩, -, -⟩, -, -⟩ := mem_blocks found
  rw [Block.lang, attributes] at lang
  obtain ⟨f, hf, hvalue⟩ := Attributes.mem_scan_of_value?_parse lang
  obtain ⟨bound, matched⟩ := Text.mem_scan hf
  rw [hvalue] at matched
  obtain ⟨blanks, blanks', written, rest, hdrop, -, hb, hb', spelled⟩ := attribute?_eq_some matched
  have hraw : raw = raw.take f.start ++ "lang" ++ blanks ++ "=" ++ blanks' ++ written ++ rest := by
    calc raw
        = raw.take f.start ++ raw.drop f.start := (List.take_append_drop ..).symm
      _ = raw.take f.start ++ ("lang" ++ (blanks ++ ("=" ++ (blanks' ++ written ++ rest)))) := by
          rw [hdrop]
          rfl
      _ = raw.take f.start ++ "lang" ++ blanks ++ "=" ++ blanks' ++ written ++ rest := by simp
  refine ⟨before, raw.take f.start, blanks, blanks', written, rest, after, ?_, ?_, ?_, hb, hb', spelled⟩
  · rw [← hraw]
    exact text
  · -- The tag's text starts with a blank, and the attribute's name does not.
    intro empty
    rw [empty] at hraw
    rw [hraw] at blank
    exact absurd (blank 'l' rfl) (by decide)
  · exact fun h => noEnd (List.mem_of_mem_take h)

theorem givesScss_of_spelled {source before raw written rest content after : Text}
    (text : source =
      before ++ Kind.style.element (raw ++ "lang" ++ "=" ++ written ++ rest) content ++ after)
    (nonempty : raw ≠ []) (noEnd : .char '>' ∉ raw) (spelled : Spelled "scss" written)
    (quoted : written ≠ "scss") : GivesScss source := by
  obtain ⟨q, hq, rfl⟩ : ∃ q, IsQuote q ∧ written = [q] ++ "scss" ++ [q] := by
    cases spelled with
    | double => exact ⟨_, .inl rfl, rfl⟩
    | single => exact ⟨_, .inr rfl, rfl⟩
    | bare => exact absurd rfl quoted
  refine ⟨before, raw, rest ++ ">" ++ content ++ Kind.style.closing ++ after, q, q, ?_, nonempty,
    noEnd, hq, hq⟩
  have lang : Text.ofString "lang=" = "lang" ++ "=" := by decide
  have style : Text.ofString "<style" = "<" ++ "style" := by decide
  rw [text, lang, style]
  simp [Kind.element, Kind.tag]

/-- **When a document with an `scss` style has no key.** It has none exactly if a style tag gives
`scss` in quotes right behind `lang=`. The tag of the style itself has `lang`, an equals sign and the
language; if no blanks surround the sign and the language is quoted, the document has no key. -/
theorem derive?_eq_none_iff_of_scss_block {document : Document} {options : Options}
    {hot production : Bool} {version : Text} {runtime : Option Text} {b : Block}
    (found : b ∈ blocks document.content) (style : b.kind = .style) (lang : b.lang = some "scss") :
    (CacheKey.derive? document options hot version production runtime = none ↔
      GivesScss document.content) ∧
    ∃ before raw blanks blanks' written rest after : Text,
      document.content = before ++ Kind.style.element
        (raw ++ "lang" ++ blanks ++ "=" ++ blanks' ++ written ++ rest) b.content ++ after ∧
      Text.allBlank blanks ∧ Text.allBlank blanks' ∧ Spelled "scss" written ∧
      (blanks = [] → blanks' = [] → written ≠ "scss" →
        CacheKey.derive? document options hot version production runtime = none) := by
  refine ⟨derive?_eq_none_iff, ?_⟩
  obtain ⟨before, raw, blanks, blanks', written, rest, after, text, nonempty, noEnd, hb, hb',
    spelled⟩ := exists_spelled_of_lang found lang
  rw [style] at text
  refine ⟨before, raw, blanks, blanks', written, rest, after, text, hb, hb', spelled, ?_⟩
  rintro rfl rfl quoted
  simp only [List.append_nil] at text
  exact derive?_eq_none_iff.mpr (givesScss_of_spelled text nonempty noEnd spelled quoted)

/-- A document with a style whose language is not quoted. -/
def bareScss : Document := { path := "a", content := "<style lang=scss>a{}</style>", sourceHash := "" }

/-- Its style is compiled as `scss`, and it has a key. -/
theorem derive?_bareScss :
    (∃ b ∈ blocks bareScss.content, b.kind = .style ∧ b.lang = some "scss") ∧
      CacheKey.derive? bareScss {} false "3" false none ≠ none ∧ ¬ GivesScss bareScss.content := by
  let b : Block := ⟨.style, "a{}", [("lang", some "scss")], 17, 20⟩
  have found : b ∈ blocks bareScss.content := by
    have only : blocks bareScss.content = [b] := by rfl
    rw [only]
    exact List.mem_cons_self
  have given : CacheKey.derive? bareScss {} false "3" false none = none ↔
      GivesScss bareScss.content := (derive?_eq_none_iff_of_scss_block found rfl rfl).1
  have key : CacheKey.derive? bareScss {} false "3" false none ≠ none := by
    have absent : mentionsScss bareScss.content = false := by decide
    simp [CacheKey.derive?, absent]
  exact ⟨⟨b, found, rfl, rfl⟩, key, mt given.mpr key⟩

end Componentry
