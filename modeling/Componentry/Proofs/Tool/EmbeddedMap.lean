import Componentry.Proofs.Files.Bytes
import Componentry.Proofs.Json.Fields
import Componentry.Proofs.Json.RoundTrip
import Componentry.Proofs.Text.Run
import Componentry.Tool.Sass

/-!
# The map at the end of a style

The library ends its output by a comment, and the data in the comment stands for a map. The comment
is read from the end of the text: blanks, the end of the comment, the run of data, and the words
that stand before data. So the last comment is found whatever the style before it is like, and a
text that does not end in one stays as it is.
-/

namespace Componentry.Sass

/-! ## Comments -/

/-- May `c` stand in the name of a character set? -/
def isCharsetChar (c : CodePoint) : Bool := isWordChar c || c == '-'

/-- A name for the character set of the data. -/
def IsCharset (name : Text) : Prop := name ≠ [] ∧ ∀ c ∈ name, isCharsetChar c

/-- The part of the comment that names the character set. -/
def charsetText : Option Text → Text
  | none => []
  | some name => "charset=" ++ name ++ ";"

/-- A comment that holds data, for whose characters a set may be named. -/
structure MapComment where
  charset : Option Text
  data : Text
  isCharset : ∀ name ∈ charset, IsCharset name
  data_ne_nil : data ≠ []
  dataChars : ∀ c ∈ data, isDataChar c

def MapComment.text (m : MapComment) : Text :=
  commentStart ++ charsetText m.charset ++ "base64," ++ m.data ++ " */"

/-- Does the text end in such a comment, with nothing but blanks behind it? -/
def EndsInMap (css : Text) : Prop :=
  ∃ (style after : Text) (m : MapComment), css = style ++ m.text ++ after ∧ Text.allBlank after

/-! ## Runs at the end -/

section Run

variable {α : Type} {p : CodePoint → Bool} {f : Text → Text → Option α}

/-- What `f` makes of the text before a run at the end, and of the run, unless the run is empty. -/
def withRun (p : CodePoint → Bool) (f : Text → Text → Option α) (s : Text) : Option α :=
  let run := (s.reverse.takeWhile p).reverse
  if run.isEmpty then none else f (s.take (s.length - run.length)) run

theorem withRun_append {front run : Text} (ne_nil : run ≠ []) (all : ∀ c ∈ run, p c)
    (ends : ∀ c ∈ front.getLast?, p c = false) : withRun p f (front ++ run) = f front run := by
  rw [withRun, Text.takeWhile_reverse_append all ends]
  simp [ne_nil]

theorem exists_of_withRun {s : Text} {a : α} (h : withRun p f s = some a) :
    ∃ front run, s = front ++ run ∧ run ≠ [] ∧ (∀ c ∈ run, p c) ∧ f front run = some a := by
  obtain ⟨front, run, rfl, all, ends⟩ := Text.exists_run p s
  cases run with
  | nil =>
    rw [withRun, Text.takeWhile_reverse_append all ends] at h
    cases h
  | cons c run =>
    rw [withRun_append (List.cons_ne_nil c run) all ends] at h
    exact ⟨front, c :: run, rfl, List.cons_ne_nil c run, all, h⟩

end Run

/-! ## Finding the comment -/

theorem beforeComment?_eq (s : Text) :
    beforeComment? s = (Text.before? "base64," s).bind fun s =>
      (Text.before? commentStart s).or ((Text.before? ";" s).bind
        (withRun isCharsetChar fun front _ =>
          (Text.before? "charset=" front).bind (Text.before? commentStart))) := by
  rw [beforeComment?]
  cases Text.before? "base64," s with
  | none => rfl
  | some s =>
    dsimp only [Option.bind_some]
    cases Text.before? commentStart s with
    | some before => rfl
    | none =>
      dsimp only [Option.none_or]
      cases Text.before? ";" s with
      | none => rfl
      | some s =>
        rw [Option.bind_some, withRun, List.isEmpty_reverse, List.length_reverse]
        rfl

theorem splitComment?_eq (css : Text) :
    splitComment? css = (Text.before? " */" (Text.trimRight css)).bind
      (withRun isDataChar fun front data =>
        (beforeComment? front).map fun before => (Text.trimRight before, data)) := by
  rw [splitComment?]
  cases Text.before? " */" (Text.trimRight css) with
  | none => rfl
  | some s => rfl

theorem isCharsetChar_sign : isCharsetChar '=' = false := by decide +kernel

theorem commentStart_eq : commentStart =
    Text.ofString "/*# sourceMappingURL=data:application" ++ .char '/' :: Text.ofString "json" ++
      Text.ofString ";" := by
  decide +kernel

/-- A text that ends in the name of a character set does not end in the words that stand before data
when none is named. -/
theorem before?_commentStart_of_charset {name : Text} (h : IsCharset name) (front : Text) :
    Text.before? commentStart (front ++ "charset=" ++ name ++ ";") = none := by
  rw [Option.eq_none_iff_forall_ne_some]
  intro rest found
  rw [Text.before?_eq_some_iff] at found
  -- The last word before the semicolon follows an equals sign in one and a slash in the other.
  have named : front ++ "charset=" ++ name =
      (front ++ Text.ofString "charset") ++ .char '=' :: name := by
    rw [List.append_assoc, List.append_assoc]
    rfl
  rw [named, commentStart_eq, ← List.append_assoc, ← List.append_assoc] at found
  have word : ∀ c ∈ Text.ofString "json", isCharsetChar c := by decide +kernel
  obtain ⟨-, same, -⟩ := Text.append_run_inj h.2 word isCharsetChar_sign (by decide +kernel)
    (List.append_cancel_right found)
  exact absurd same (by decide)

theorem beforeComment?_append (before : Text) {charset : Option Text}
    (h : ∀ name ∈ charset, IsCharset name) :
    beforeComment? (before ++ commentStart ++ charsetText charset ++ "base64,") = some before := by
  rw [beforeComment?_eq, Text.before?_append, Option.bind_some]
  cases charset with
  | none => rw [charsetText, List.append_nil, Text.before?_append, Option.some_or]
  | some name =>
    have isCharset := h name rfl
    have ends : ∀ c ∈ (before ++ commentStart ++ "charset=").getLast?, isCharsetChar c = false := by
      rw [List.getLast?_append]
      rintro c ⟨⟩
      exact isCharsetChar_sign
    rw [charsetText, ← List.append_assoc, ← List.append_assoc,
      before?_commentStart_of_charset isCharset, Option.none_or, Text.before?_append,
      Option.bind_some, withRun_append isCharset.1 isCharset.2 ends, Text.before?_append,
      Option.bind_some, Text.before?_append]

theorem exists_of_beforeComment? {s before : Text} (h : beforeComment? s = some before) :
    ∃ charset, (∀ name ∈ charset, IsCharset name) ∧
      s = before ++ commentStart ++ charsetText charset ++ "base64," := by
  rw [beforeComment?_eq, Option.bind_eq_some_iff] at h
  obtain ⟨s, whole, found⟩ := h
  rw [Text.before?_eq_some_iff] at whole
  rcases Option.or_eq_some_iff.mp found with plain | ⟨-, named⟩
  · refine ⟨none, by simp, ?_⟩
    rw [whole, Text.before?_eq_some_iff.mp plain, charsetText, List.append_nil]
  · obtain ⟨s, hs, found⟩ := Option.bind_eq_some_iff.mp named
    obtain ⟨front, name, rfl, ne_nil, all, found⟩ := exists_of_withRun found
    obtain ⟨s, hfront, hstart⟩ := Option.bind_eq_some_iff.mp found
    refine ⟨some name, ?_, ?_⟩
    · rintro _ ⟨⟩
      exact ⟨ne_nil, all⟩
    · rw [whole, Text.before?_eq_some_iff.mp hs, Text.before?_eq_some_iff.mp hfront,
        Text.before?_eq_some_iff.mp hstart, charsetText]
      simp only [List.append_assoc]

/-- **The last comment is found**, whatever stands before it. -/
theorem splitComment?_append (style : Text) (m : MapComment) {after : Text}
    (h : Text.allBlank after) :
    splitComment? (style ++ m.text ++ after) = some (Text.trimRight style, m.data) := by
  have trimmed : Text.trimRight (style ++ m.text ++ after) =
      style ++ commentStart ++ charsetText m.charset ++ "base64," ++ m.data ++ " */" := by
    have ends : ∀ c ∈ (style ++ m.text).getLast?, isBlank c = false := by
      rw [MapComment.text, ← List.append_assoc, List.getLast?_append]
      rintro c ⟨⟩
      decide
    rw [Text.trimRight_append h, Text.trimRight_of_ends ends, MapComment.text]
    simp only [List.append_assoc]
  have ends : ∀ c ∈ (style ++ commentStart ++ charsetText m.charset ++ "base64,").getLast?,
      isDataChar c = false := by
    rw [List.getLast?_append]
    rintro c ⟨⟩
    decide
  rw [splitComment?_eq, trimmed, Text.before?_append, Option.bind_some,
    withRun_append m.data_ne_nil m.dataChars ends, beforeComment?_append style m.isCharset]
  rfl

theorem endsInMap_of_splitComment? {css : Text} {found : Text × Text}
    (h : splitComment? css = some found) : EndsInMap css := by
  rw [splitComment?_eq, Option.bind_eq_some_iff] at h
  obtain ⟨s, whole, found⟩ := h
  obtain ⟨front, data, rfl, ne_nil, all, found⟩ := exists_of_withRun found
  obtain ⟨before, start, -⟩ := Option.map_eq_some_iff.mp found
  obtain ⟨charset, isCharset, rfl⟩ := exists_of_beforeComment? start
  obtain ⟨after, hafter, blank⟩ := Text.exists_trimRight css
  refine ⟨before, after, ⟨charset, data, isCharset, ne_nil, all⟩, ?_, blank⟩
  rw [hafter, Text.before?_eq_some_iff.mp whole, MapComment.text]
  simp only [List.append_assoc]

theorem splitComment?_eq_none_iff {css : Text} : splitComment? css = none ↔ ¬ EndsInMap css := by
  constructor
  · rintro none_ ⟨style, after, m, rfl, blank⟩
    rw [splitComment?_append style m blank] at none_
    cases none_
  · intro no
    rw [Option.eq_none_iff_forall_ne_some]
    intro found h
    exact no (endsInMap_of_splitComment? h)

/-! ## Taking the map off -/

/-- The data of the comment stands for an object with these fields. -/
def MapComment.Holds (m : MapComment) (fields : Json.Fields) : Prop :=
  ∃ bytes text, Base64.decode? m.data = some bytes ∧ decodeUtf8 ⟨bytes.toArray⟩ = .ok text ∧
    Json.parse text = .ok (.obj fields)

/-- A source, with `filename` for the library's own name of its input. -/
def sourceIn (filename : Text) : Json → Json
  | .str s => .str (if s = "stdin" then filename else s)
  | j => j

/-- The field of a map that lists its sources. -/
def sourcesField (sources : List Json) : Text × Json := ("sources", .arr sources)

theorem MapComment.Holds.mapOf_eq {m : MapComment} {fields : Json.Fields} (h : m.Holds fields) :
    mapOf m.data = .ok (.obj fields) := by
  obtain ⟨bytes, text, decoded, read, parsed⟩ := h
  rw [mapOf, decoded]
  dsimp only
  rw [read]
  show (Json.parse text).mapError _ = _
  rw [parsed]
  rfl

theorem named_obj (filename : Text) {fields : Json.Fields} {sources : List Json}
    (h : Json.Fields.get? "sources" fields = some (.arr sources)) :
    named filename (.obj fields) =
      .ok (.obj (Json.Fields.set "sources" (.arr (sources.map (sourceIn filename))) fields)) := by
  have renamed : (sources.map fun s =>
      if s.asText? = some (Text.ofString "stdin") then .str filename else s) =
        sources.map (sourceIn filename) := by
    refine List.map_congr_left fun s _ => ?_
    cases s with
    | str s =>
      simp only [Json.asText?, sourceIn, Option.some.injEq]
      split <;> rfl
    | _ => rfl
  rw [named, h, Option.getD_some, Json.elements, ← renamed]
  rfl

/-- With a comment at the end, the data decides. -/
theorem splitMap_of_comment {css before data : Text} (h : splitComment? css = some (before, data))
    (filename : Text) :
    splitMap css filename =
      ((mapOf data).bind (named filename)).map fun map => (before ++ "\n", some map) := by
  rw [splitMap, h]
  dsimp only
  cases mapOf data with
  | error e => rfl
  | ok map =>
    show (named filename map).bind _ = (named filename map).map _
    cases named filename map with
    | error e => rfl
    | ok map => rfl

theorem splitMap_eq_none_iff {css filename : Text} :
    splitMap css filename = .ok (css, none) ↔ ¬ EndsInMap css := by
  rw [← splitComment?_eq_none_iff]
  cases found : splitComment? css with
  | none => simp [splitMap, found]
  | some pair =>
    refine iff_of_false ?_ (by simp)
    rw [splitMap_of_comment found]
    intro h
    cases read : (mapOf pair.2).bind (named filename) with
    | error e =>
      rw [read] at h
      cases h
    | ok map =>
      rw [read] at h
      cases h

/-- **The map is taken off cleanly.** A text is returned as it is and without a map exactly if it
does not end in a comment that holds data. If it does, and the data stands for an object with a list
of sources, what is left is the style without the blanks at its end, and a line end. In the object,
the sources that have the library's own name of its input get the name of the file, and nothing else
changes. -/
theorem splitMap_commented (filename : Text) :
    (∀ css, splitMap css filename = .ok (css, none) ↔ ¬ EndsInMap css) ∧
      ∀ (style before after : Text) (m : MapComment) (fields : Json.Fields) (sources : List Json),
        Text.allBlank before → Text.allBlank after → m.Holds fields →
        Json.Fields.get? "sources" fields = some (.arr sources) →
        ∃ front back : Json.Fields, fields = front ++ sourcesField sources :: back ∧
          Text.ofString "sources" ∉ front.keys ∧
          splitMap (style ++ before ++ m.text ++ after) filename =
            .ok (Text.trimRight style ++ "\n",
              some (.obj (front ++ sourcesField (sources.map (sourceIn filename)) :: back))) := by
  refine ⟨fun css => splitMap_eq_none_iff, ?_⟩
  intro style before after m fields sources hbefore hafter holds list
  obtain ⟨front, back, whole, absent, set⟩ := Json.Fields.exists_of_get? list
  refine ⟨front, back, whole, absent, ?_⟩
  rw [splitMap_of_comment (splitComment?_append (style ++ before) m hafter), holds.mapOf_eq]
  show (named filename (.obj fields)).map _ = _
  rw [named_obj filename list, set, Text.trimRight_append hbefore]
  rfl

/-- A comment that names its character set and holds `sampleFields`. -/
def sampleComment : MapComment where
  charset := some "utf-8"
  data := "eyJ2ZXJzaW9uIjogMywgInNvdXJjZXMiOiBbInN0ZGluIiwgImEuc2NzcyJdfQ=="
  isCharset := by
    rintro name ⟨⟩
    exact ⟨by decide, by decide +kernel⟩
  data_ne_nil := by decide +kernel
  dataChars := by decide +kernel

def sampleFields : Json.Fields :=
  [("version", .int 3), ("sources", .arr [.str "stdin", .str "a.scss"])]

theorem holds_sampleFields : sampleComment.Holds sampleFields := by
  refine ⟨Text.bytes (Json.obj sampleFields).render, (Json.obj sampleFields).render,
    by decide +kernel, ?_, ?_⟩
  · exact decodeUtf8_bytes (by decide +kernel)
  · exact Json.parse_render (by decide +kernel) (by decide +kernel)

/-- A style with another such comment in it. -/
def sampleStyle : Text := "a\x7b\x7d /*# sourceMappingURL=data:application/json;base64,e30= */"

/-- Only the last comment is taken off, with the blanks around it. -/
theorem splitMap_sampleStyle :
    Text.allBlank "\n\n" ∧ Text.allBlank "\n" ∧ sampleComment.Holds sampleFields ∧
      splitMap (sampleStyle ++ "\n\n" ++ sampleComment.text ++ "\n") "App.svelte" =
        .ok (sampleStyle ++ "\n", some (.obj
          [("version", .int 3), ("sources", .arr [.str "App.svelte", .str "a.scss"])])) := by
  refine ⟨by decide, by decide, holds_sampleFields, ?_⟩
  obtain ⟨front, back, whole, -, result⟩ := (splitMap_commented "App.svelte").2 sampleStyle
    "\n\n" "\n" sampleComment sampleFields _ (by decide) (by decide) holds_sampleFields rfl
  -- The sources are the second field.
  obtain ⟨rfl, rfl⟩ : front = sampleFields.take 1 ∧ back = [] := by
    rcases front with _ | ⟨f, _ | ⟨g, front⟩⟩
    · simp [sampleFields, sourcesField] at whole
    · simpa [sampleFields, sourcesField, eq_comm] using whole
    · simp [sampleFields, sourcesField] at whole
  rw [result]
  rfl

end Componentry.Sass
