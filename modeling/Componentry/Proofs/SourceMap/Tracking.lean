import Componentry.Proofs.SourceMap.Lookup
import Componentry.Proofs.SourceMap.Splice
import Componentry.Proofs.Text.Change

/-!
# Splices track positions

A splice that copies, replaces and drops spans from left to right keeps a map in which every token of
the source that was copied is mapped to its exact place. Mappings of replacements may fall on copied
text before the replacement, but they lead further on in the source, so that looking the copied text
up finds its own place. `Tracks` is the invariant, with a lemma for each of the three steps.
-/

namespace Componentry.SourceMap

open Change (Outside moved)

/-! ## Tracked positions -/

/-- Does a token start at an offset? A token is a run of word characters, or another character that
is not blank. -/
def TokenAt (s : Text) (i : Nat) : Prop :=
  ∃ c, s[i]? = some c ∧
    if isWordChar c then ∀ p, 0 < i → s[i - 1]? = some p → ¬ isWordChar p else ¬ isBlank c

/-- The mapping of a copied character, from where its copy stands to where it stands itself. -/
def copyMapping (filename source out : Text) (changes : List Change) (i : Nat) : Mapping :=
  ⟨out.place (moved changes i), some ⟨filename, source.place i⟩, none⟩

/-- The source of a replacement's map that stands for the replaced span. -/
def Decoded.own? (d : Decoded) (filename : Text) : Option Text :=
  if d.sources.contains filename then some filename else d.sources.head?

/-- A mapping of a replacement's map at the place of the replacement and of its span. -/
def Splice.lifted (source : Text) (start span : Position) (m : Mapping) (o : Origin) : Mapping :=
  ⟨start.shift m.generated, some ⟨source, span.shift o.position⟩, none⟩

theorem Splice.mem_liftMappings {s : Splice} {offset : Int} {d : Decoded} {x : Mapping} :
    x ∈ s.liftMappings offset d ↔ ∃ m ∈ d.mappings.toList, ∃ o ∈ m.origin,
      d.own? s.source = some o.source ∧
        x = lifted s.source s.here (s.index.position offset) m o := by
  rw [Splice.liftMappings, List.mem_filterMap]
  refine exists_congr fun m => and_congr_right fun _ => ?_
  constructor
  · intro h
    obtain ⟨o, ho, h⟩ := Option.bind_eq_some_iff.mp h
    split at h
    · rename_i own
      exact ⟨o, ho, own, (Option.some.inj h).symm⟩
    · cases h
  · rintro ⟨o, ho, own, rfl⟩
    exact Option.bind_eq_some_iff.mpr ⟨o, ho, if_pos own⟩

/-- A replacement's map can be read. Of the mappings for the replaced span, the places in the span are
in range, and the places in the replacement are before its end. -/
def MapFits (filename text : Text) (map : Option Json) : Prop :=
  ∀ raw ∈ map, ∃ d, Decoded.ofJson raw = .ok d ∧
    ∀ m ∈ d.mappings.toList, ∀ o ∈ m.origin, d.own? filename = some o.source →
      o.position.valid ∧ m.generated.Before (text.place text.length)

/-- The places of a replacement's map are in range. -/
def MapInRange (map : Option Json) : Prop :=
  ∀ raw ∈ map, ∀ d, Decoded.ofJson raw = .ok d → ∀ m ∈ d.mappings.toList, m.generated.valid

/-- A mapping of a splice that has rebuilt the first `offset` characters of `source` as `out`: it is
before the end of `out` and leads into `source`. At a copied character it is that character's own, or
it comes from a replacement and leads further on. -/
def Leads (filename source out : Text) (changes : List Change) (offset : Nat) (m : Mapping) : Prop :=
  ∃ g q, m = ⟨g, some ⟨filename, q⟩, none⟩ ∧ g.valid ∧ q.valid ∧ g.Before (out.place out.length) ∧
    ((∃ i < offset, Outside changes i ∧ m = copyMapping filename source out changes i) ∨
      (∃ c ∈ changes, c.text ≠ none) ∧ ∀ i < offset, Outside changes i →
        g = out.place (moved changes i) → (source.place i).Before q)

/-- A splice that has rebuilt the first `offset` characters of `source` as `out`, with these changes.
The tokens that were copied are mapped. -/
structure Tracks (filename source : Text) (changes : List Change) (offset : Nat) (out : Text)
    (s : Splice) : Prop extends Change.Rebuilt source changes offset out where
  name : s.source = filename
  index : s.index = .ofText source
  contents : s.draft.contents = [(filename, .str source)]
  parts : ∃ texts : List Text, s.parts = texts.map .str ∧ texts.flatten = out
  here : s.here = out.place out.length
  changed : s.changed = true ↔ changes ≠ []
  anchored : ∀ i < offset, Outside changes i → TokenAt source i →
    copyMapping filename source out changes i ∈ s.draft.mappings.toList
  leads : ∀ m ∈ s.draft.mappings.toList, Leads filename source out changes offset m

/-- The splice `s'` is `s` with a text and its mappings added. -/
structure Splice.Adds (s : Splice) (ms : List Mapping) (text : Text) (s' : Splice) : Prop where
  name : s'.source = s.source
  index : s'.index = s.index
  contents : s'.draft.contents = s.draft.contents
  mappings : s'.draft.mappings.toList = s.draft.mappings.toList ++ ms
  parts : ∃ texts : List Text, s'.parts = s.parts ++ texts.map .str ∧ texts.flatten = text
  here : s'.here = s.here.advance text

theorem Splice.put_adds (s : Splice) (changed : Bool) (ms : List Mapping) (text : Text) :
    s.Adds ms text ({ s with changed }.put ms text) where
  name := rfl
  index := rfl
  contents := rfl
  mappings := by simp [put, append]
  parts := ⟨[text], rfl, by simp⟩
  here := here_append ..

/-- Texts are put together one after the other. -/
theorem Splice.joined_str (position : Nat) (texts : List Text) :
    Json.joined position (texts.map .str) = .ok texts.flatten := by
  induction texts generalizing position with
  | nil => rfl
  | cons text texts ih => simp [Json.joined, ih, bind, Except.bind, pure, Except.pure]

/-- Only texts are put together. -/
theorem Splice.exists_of_joined {position : Nat} {parts : List Json} {text : Text}
    (h : Json.joined position parts = .ok text) :
    ∃ texts : List Text, parts = texts.map .str ∧ texts.flatten = text := by
  induction parts generalizing position text with
  | nil =>
    obtain rfl := Except.ok.inj h
    exact ⟨[], rfl, rfl⟩
  | cons j parts ih =>
    cases j with
    | str s =>
      rw [Json.joined] at h
      cases rest : Json.joined (position + 1) parts with
      | error e => simp [rest, bind, Except.bind] at h
      | ok more =>
        simp only [rest, bind, Except.bind, pure, Except.pure, Except.ok.injEq] at h
        obtain ⟨texts, rfl, rfl⟩ := ih rest
        exact ⟨s :: texts, rfl, h⟩
    | _ => cases h

theorem Splice.exists_of_code {s : Splice} {text : Text} (h : s.code = .ok text) :
    ∃ texts : List Text, s.parts = texts.map .str ∧ texts.flatten = text := by
  rw [Splice.code] at h
  cases joined : Json.joined 0 s.parts with
  | error e =>
    rw [joined] at h
    cases h
  | ok out =>
    rw [joined] at h
    obtain rfl := Except.ok.inj h
    exact exists_of_joined joined

theorem Splice.Adds.refl (s : Splice) (changed : Bool) : s.Adds [] [] { s with changed } where
  name := rfl
  index := rfl
  contents := rfl
  mappings := (List.append_nil _).symm
  parts := ⟨[], (List.append_nil _).symm, rfl⟩
  here := rfl

theorem Splice.Adds.trans {s s' s'' : Splice} {ms ms' : List Mapping} {text text' : Text}
    (h : s.Adds ms text s') (h' : s'.Adds ms' text' s'') :
    s.Adds (ms ++ ms') (text ++ text') s'' where
  name := h'.name.trans h.name
  index := h'.index.trans h.index
  contents := h'.contents.trans h.contents
  mappings := by rw [h'.mappings, h.mappings, List.append_assoc]
  parts := by
    obtain ⟨texts, hparts, rfl⟩ := h.parts
    obtain ⟨texts', hparts', rfl⟩ := h'.parts
    exact ⟨texts ++ texts', by rw [hparts', hparts, List.map_append, List.append_assoc],
      List.flatten_append⟩
  here := by rw [h'.here, h.here, Position.advance_append]

/-- The next text goes behind the text that was added. -/
theorem Splice.Adds.here_eq_place {s s' : Splice} {ms : List Mapping} {out text : Text}
    (h : s.Adds ms text s') (here : s.here = out.place out.length) :
    s'.here = (out ++ text).place (out ++ text).length := by
  have := Text.place_length_add out text text.length
  rw [List.take_length] at this
  rw [h.here, here, List.length_append, this]

/-- What is rebuilt from nothing is the text that was added. -/
theorem Splice.Adds.code_eq {s s' : Splice} {ms : List Mapping} {text : Text} (h : s.Adds ms text s')
    (empty : s.parts = []) : s'.code = .ok text := by
  obtain ⟨texts, hparts, rfl⟩ := h.parts
  rw [Splice.code, hparts, empty, List.nil_append, Splice.joined_str]
  rfl

variable {filename source out : Text} {changes : List Change} {offset : Nat} {s : Splice}

/-- What is before the end stays before the end. -/
theorem before_end {g : Position} (h : g.Before (out.place out.length)) (text : Text) {j : Nat}
    (hj : out.length ≤ j) (bound : j ≤ (out ++ text).length) : g.Before ((out ++ text).place j) := by
  rw [← Text.place_append (Nat.le_refl _) text] at h
  rcases Nat.eq_or_lt_of_le hj with rfl | lt
  · exact h
  · exact h.trans (Text.place_before lt bound)

namespace Tracks

theorem start (source filename : Text) : Tracks filename source [] 0 [] (.start source filename) where
  toRebuilt := Change.Rebuilt.start source
  name := rfl
  index := rfl
  contents := rfl
  parts := ⟨[], rfl, rfl⟩
  here := rfl
  changed := by simp [Splice.start]
  anchored := by simp
  leads := by simp [Splice.start, Draft.setContent]

section Step

variable {changes' : List Change} {offset' : Nat} {text : Text}

theorem copyMapping_grow (h : Tracks filename source changes offset out s)
    (agree : Change.Rebuilt.Agree changes changes' offset offset' out.length) (text : Text) {i : Nat}
    (hi : i < offset) (hout : Outside changes i) :
    copyMapping filename source (out ++ text) changes' i = copyMapping filename source out changes i := by
  have bound := (h.copied i hi hout).1
  rw [copyMapping, copyMapping, agree.moved i hi, Text.place_append (Nat.le_of_lt bound)]

theorem leads_grow (h : Tracks filename source changes offset out s)
    (rebuilt : Change.Rebuilt source changes' offset' (out ++ text)) (le : offset ≤ offset')
    (agree : Change.Rebuilt.Agree changes changes' offset offset' out.length) {m : Mapping}
    (hm : Leads filename source out changes offset m) :
    Leads filename source (out ++ text) changes' offset' m := by
  obtain ⟨g, q, rfl, hg, hq, before, own⟩ := hm
  refine ⟨g, q, rfl, hg, hq, before_end before text (by simp) (Nat.le_refl _), ?_⟩
  rcases own with ⟨i, hi, hout, heq⟩ | ⟨⟨c, hc, htext⟩, further⟩
  · refine .inl ⟨i, Nat.lt_of_lt_of_le hi le, (agree.outside i hi).mpr hout, ?_⟩
    rw [h.copyMapping_grow agree text hi hout, ← heq]
  · refine .inr ⟨⟨c, agree.sub hc, htext⟩, fun i hi hout at_ => ?_⟩
    by_cases old : i < offset
    · have hout := (agree.outside i old).mp hout
      rw [agree.moved i old, Text.place_append (Nat.le_of_lt (h.copied i old hout).1)] at at_
      exact further i old hout at_
    · -- What comes later is mapped behind the old end, and `g` is before it.
      have bound := (rebuilt.copied i hi hout).1
      have behind := before_end before text (agree.later i (Nat.le_of_not_lt old) hi hout)
        (Nat.le_of_lt bound)
      exact absurd at_ behind.ne

/-- **One step**: more text is added, and nothing that was copied before moves. -/
theorem grow {s' : Splice} {ms : List Mapping} (h : Tracks filename source changes offset out s)
    (rebuilt : Change.Rebuilt source changes' offset' (out ++ text)) (le : offset ≤ offset')
    (agree : Change.Rebuilt.Agree changes changes' offset offset' out.length) (adds : s.Adds ms text s')
    (changed : s'.changed = true ↔ changes' ≠ [])
    (tokens : ∀ i, offset ≤ i → i < offset' → Outside changes' i → TokenAt source i →
      copyMapping filename source (out ++ text) changes' i ∈ ms)
    (new : ∀ m ∈ ms, Leads filename source (out ++ text) changes' offset' m) :
    Tracks filename source changes' offset' (out ++ text) s' where
  toRebuilt := rebuilt
  name := adds.name.trans h.name
  index := adds.index.trans h.index
  contents := adds.contents.trans h.contents
  parts := by
    obtain ⟨texts, hparts, rfl⟩ := h.parts
    obtain ⟨more, hmore, rfl⟩ := adds.parts
    exact ⟨texts ++ more, by rw [hmore, hparts, List.map_append], List.flatten_append⟩
  here := adds.here_eq_place h.here
  changed := changed
  anchored i hi hout token := by
    rw [adds.mappings, List.mem_append]
    by_cases old : i < offset
    · have hout := (agree.outside i old).mp hout
      rw [h.copyMapping_grow agree text old hout]
      exact .inl (h.anchored i old hout token)
    · exact .inr (tokens i (Nat.le_of_not_lt old) hi hout token)
  leads m hm := by
    rw [adds.mappings, List.mem_append] at hm
    rcases hm with hm | hm
    · exact h.leads_grow rebuilt le agree (h.leads m hm)
    · exact new m hm

end Step

/-! ## Copying -/

theorem copied_eq (h : Tracks filename source changes offset out s) {stop a : Nat}
    (hstop : stop ≤ source.length) (ha : a < stop - offset) :
    s.copied s.here offset (Text.slice source offset stop) a =
      copyMapping filename source (out ++ Text.slice source offset stop) changes (offset + a) := by
  have position : s.index.position (offset + a) = source.place (offset + a) := by
    rw [h.index, ← Int.natCast_add]
    exact LineIndex.position_ofText (by omega)
  rw [Splice.copied, copyMapping, h.moved_add, Text.place_length_add, h.here, h.name, position]

theorem anchored_slice {stop a : Nat} (ha : a < stop - offset) (token : TokenAt source (offset + a)) :
    Anchored (Text.slice source offset stop) a := by
  obtain ⟨c, hc, htoken⟩ := token
  refine ⟨c, by simp [Text.slice, ha, hc], ?_, ?_⟩
  · rintro rfl
    rw [if_neg (by decide)] at htoken
    exact htoken (by decide)
  · cases a with
    | zero => exact .inl rfl
    | succ a =>
      have bound : offset + a < source.length := by
        have := (List.getElem?_eq_some_iff.mp hc).1
        omega
      refine .inr ⟨source[offset + a], ?_, .inr ?_⟩
      · simp [Text.slice, Nat.lt_of_succ_lt ha, List.getElem?_eq_getElem bound]
      · rw [startsToken]
        split at htoken
        · rename_i word
          have := htoken source[offset + a] (by omega) (List.getElem?_eq_getElem bound)
          simpa [word] using this
        · rename_i word
          simpa [word] using htoken

/-- The next span is copied. -/
theorem copy (h : Tracks filename source changes offset out s) {stop : Nat} (hs : offset ≤ stop)
    (hstop : stop ≤ source.length) :
    ∃ s', s.copy (Text.slice source offset stop) offset = (s', none) ∧
      Tracks filename source changes stop (out ++ Text.slice source offset stop) s' := by
  have rebuilt := h.toRebuilt.copy hs hstop
  have length : (Text.slice source offset stop).length = stop - offset := by
    simp [Text.slice]
    omega
  have new : ∀ m ∈ s.copyMappings s.here offset (Text.splitOn '\n' (Text.slice source offset stop)),
      ∃ a < stop - offset, m = copyMapping filename source
        (out ++ Text.slice source offset stop) changes (offset + a) := by
    intro m hm
    obtain ⟨a, ha, rfl⟩ := Splice.mem_copyMappings.mp hm
    have bound : a < stop - offset := length ▸ ha.lt_length
    exact ⟨a, bound, h.copied_eq hstop bound⟩
  refine ⟨_, Splice.place_eq ?_ _, h.grow rebuilt hs (h.agree stop) (Splice.put_adds ..) h.changed ?_ ?_⟩
  · intro m hm
    obtain ⟨a, -, rfl⟩ := new m hm
    exact Draft.refusalOf?_eq_none.mpr ⟨Text.valid_place .., Text.valid_place ..⟩
  · intro i hi hlt _ token
    obtain ⟨a, rfl⟩ := Nat.exists_eq_add_of_le hi
    have bound : a < stop - offset := by omega
    exact Splice.mem_copyMappings.mpr ⟨a, anchored_slice bound token, (h.copied_eq hstop bound).symm⟩
  · intro m hm
    obtain ⟨a, bound, rfl⟩ := new m hm
    refine ⟨_, _, rfl, Text.valid_place .., Text.valid_place .., ?_, .inl ⟨offset + a, by omega,
      h.outside_add a, rfl⟩⟩
    rw [h.moved_add]
    exact Text.place_before (by simp [length, bound]) (Nat.le_refl _)

/-! ## Taking out -/

/-- The next span is taken out without a replacement. -/
theorem drop (h : Tracks filename source changes offset out s) {stop : Nat} (hs : offset ≤ stop)
    (hstop : stop ≤ source.length) :
    Tracks filename source (changes ++ [⟨offset, stop, none⟩]) stop out s.drop := by
  have rebuilt := h.toRebuilt.change hs hstop none
  have adds : s.Adds [] [] s.drop := ⟨rfl, rfl, rfl, by simp [Splice.drop], ⟨[], by simp [Splice.drop], rfl⟩, rfl⟩
  have inside : ∀ i, offset ≤ i → i < stop → ¬ Outside (changes ++ [⟨offset, stop, none⟩]) i := by
    intro i hi hlt hout
    have := hout ⟨offset, stop, none⟩ (by simp)
    simp only at this
    omega
  have grown := h.grow rebuilt hs (Change.Rebuilt.agree_concat hs none _) adds (by simp [Splice.drop])
    (fun i hi hlt hout _ => absurd hout (inside i hi hlt)) (by simp)
  simpa using grown

/-- The next span is replaced. The mappings of the replacement are before its end, and lead to no
place before the span. -/
theorem put (h : Tracks filename source changes offset out s) {stop : Nat} (hs : offset ≤ stop)
    (hstop : stop ≤ source.length) {ms : List Mapping} {text : Text}
    (new : ∀ m ∈ ms, ∃ g q, m = ⟨g, some ⟨filename, q⟩, none⟩ ∧ g.valid ∧ q.valid ∧
      g.Before ((out ++ text).place (out ++ text).length) ∧ ¬ q.Before (source.place offset)) :
    Tracks filename source (changes ++ [⟨offset, stop, some text⟩]) stop (out ++ text)
      ({ s with changed := true }.put ms text) := by
  have rebuilt := h.toRebuilt.change hs hstop (some text)
  have inside : ∀ i < stop, Outside (changes ++ [⟨offset, stop, some text⟩]) i → i < offset := by
    intro i hlt hout
    have := hout ⟨offset, stop, some text⟩ (by simp)
    simp only at this
    omega
  refine h.grow rebuilt hs (Change.Rebuilt.agree_concat hs _ _) (Splice.put_adds ..) (by simp [Splice.put, Splice.append])
    (fun i hi hlt hout _ => absurd (inside i hlt hout) (Nat.not_lt_of_le hi)) ?_
  intro m hm
  obtain ⟨g, q, rfl, hg, hq, before, further⟩ := new m hm
  refine ⟨g, q, rfl, hg, hq, before, .inr ⟨⟨_, List.mem_append_right _ (List.mem_singleton.mpr rfl), by simp⟩, ?_⟩⟩
  intro i hi hout _
  exact (Text.place_before (inside i hi hout) h.bound).of_not_before further

theorem position_offset (h : Tracks filename source changes offset out s) :
    s.index.position offset = source.place offset := by
  rw [h.index]
  exact LineIndex.position_ofText h.bound

/-- The mappings of a replacement, with or without a map. -/
theorem replaceMapping (h : Tracks filename source changes offset out s) {text : Text} {m : Mapping}
    (hm : m ∈ { s with changed := true }.replaceMappings s.here (source.place offset)
      (Text.splitOn '\n' text)) :
    ∃ g q, m = ⟨g, some ⟨filename, q⟩, none⟩ ∧ g.valid ∧ q.valid ∧
      g.Before ((out ++ text).place (out ++ text).length) ∧ ¬ q.Before (source.place offset) := by
  obtain ⟨a, ha, rfl⟩ := Splice.mem_replaceMappings.mp hm
  have generated : s.here.advance (text.take a) = (out ++ text).place (out.length + a) := by
    rw [Text.place_length_add, h.here]
  refine ⟨_, _, by rw [h.name], ?_, Text.valid_place .., ?_, fun h => h.ne rfl⟩
  · rw [generated]
    exact Text.valid_place ..
  · rw [generated]
    exact Text.place_before (by simp [ha.lt_length]) (Nat.le_refl _)

theorem liftMapping (h : Tracks filename source changes offset out s) {text : Text} {d : Decoded}
    (fits : ∀ m ∈ d.mappings.toList, ∀ o ∈ m.origin, d.own? filename = some o.source →
      o.position.valid ∧ m.generated.Before (text.place text.length)) {m : Mapping}
    (hm : m ∈ { s with changed := true }.liftMappings offset d) :
    ∃ g q, m = ⟨g, some ⟨filename, q⟩, none⟩ ∧ (∃ m' ∈ d.mappings.toList, g = s.here.shift m'.generated) ∧
      q.valid ∧ g.Before ((out ++ text).place (out ++ text).length) ∧
      ¬ q.Before (source.place offset) := by
  obtain ⟨m', hm', o, ho, own, rfl⟩ := Splice.mem_liftMappings.mp hm
  have own : d.own? filename = some o.source := h.name ▸ own
  obtain ⟨valid, before⟩ := fits m' hm' o ho own
  have finish : s.here.shift (text.place text.length) = (out ++ text).place (out ++ text).length := by
    rw [h.here, Text.shift_place, List.length_append]
  refine ⟨s.here.shift m'.generated, (source.place offset).shift o.position, ?_, ⟨m', hm', rfl⟩,
    Position.valid_shift (Text.valid_place ..) valid, ?_, Position.not_shift_before valid⟩
  · rw [← h.position_offset, ← h.name]
    rfl
  · rw [← finish]
    exact before.shift s.here

/-- The next span is replaced by a text that may have a map. -/
theorem replace (h : Tracks filename source changes offset out s) {stop : Nat} (hs : offset ≤ stop)
    (hstop : stop ≤ source.length) {text : Text} {map : Option Json} (fits : MapFits filename text map)
    {s' : Splice} (done : s.replace text offset map = (s', none)) :
    Tracks filename source (changes ++ [⟨offset, stop, some text⟩]) stop (out ++ text) s' := by
  cases map with
  | none =>
    simp only [Splice.replace, h.position_offset] at done
    have accepted := Splice.refusalOf?_of_place (congrArg Prod.snd done)
    rw [Splice.place_eq accepted] at done
    obtain ⟨rfl, -⟩ := Prod.mk.inj done
    exact h.put hs hstop fun m hm => h.replaceMapping hm
  | some raw =>
    obtain ⟨d, hd, hfits⟩ := fits raw rfl
    simp only [Splice.replace, hd] at done
    have accepted := Splice.refusalOf?_of_place (congrArg Prod.snd done)
    rw [Splice.place_eq accepted] at done
    obtain ⟨rfl, -⟩ := Prod.mk.inj done
    refine h.put hs hstop fun m hm => ?_
    obtain ⟨g, q, rfl, -, hq, before, further⟩ := h.liftMapping hfits hm
    exact ⟨g, q, rfl, (Draft.refusalOf?_eq_none.mp (accepted _ hm)).1, hq, before, further⟩

/-- A replacement whose map is in range is not refused. -/
theorem exists_replace (h : Tracks filename source changes offset out s) {text : Text}
    {map : Option Json} (fits : MapFits filename text map) (range : MapInRange map) :
    ∃ s', s.replace text offset map = (s', none) := by
  cases map with
  | none =>
    simp only [Splice.replace, h.position_offset]
    refine ⟨_, Splice.place_eq (fun m hm => ?_) text⟩
    obtain ⟨g, q, rfl, hg, hq, -⟩ := h.replaceMapping hm
    exact Draft.refusalOf?_eq_none.mpr ⟨hg, hq⟩
  | some raw =>
    obtain ⟨d, hd, hfits⟩ := fits raw rfl
    simp only [Splice.replace, hd]
    refine ⟨_, Splice.place_eq (fun m hm => ?_) text⟩
    obtain ⟨g, q, rfl, ⟨m', hm', rfl⟩, hq, -⟩ := h.liftMapping hfits hm
    have here : s.here.valid := h.here ▸ Text.valid_place ..
    exact Draft.refusalOf?_eq_none.mpr
      ⟨Position.valid_shift here (range raw rfl d hd m' hm'), hq⟩

/-! ## The finished splice -/

theorem code_eq (h : Tracks filename source changes offset out s) : s.code = .ok out := by
  obtain ⟨texts, hparts, rfl⟩ := h.parts
  rw [Splice.code, hparts, Splice.joined_str]
  rfl

theorem map?_eq (h : Tracks filename source changes offset out s) :
    s.map? = if changes = [] then none else some s.draft.toJson := by
  rw [Splice.map?]
  by_cases empty : changes = []
  · rw [if_pos empty, if_neg fun hc => h.changed.mp hc empty]
  · rw [if_neg empty, if_pos (h.changed.mpr empty)]

theorem lines (h : Tracks filename source changes offset out s) :
    ∀ m ∈ s.draft.mappings.toList, 1 ≤ m.generated.line := by
  intro m hm
  obtain ⟨g, q, rfl, valid, -⟩ := h.leads m hm
  exact of_decide_eq_true (Bool.and_eq_true_iff.mp valid).1

theorem copy_inj (h : Tracks filename source changes offset out s) {i j : Nat} (hi : i < offset)
    (hj : j < offset) (hi' : Outside changes i) (hj' : Outside changes j)
    (heq : out.place (moved changes i) = out.place (moved changes j)) : i = j := by
  have same := Text.place_inj (Nat.le_of_lt (h.copied i hi hi').1) (Nat.le_of_lt (h.copied j hj hj').1) heq
  rcases Nat.lt_trichotomy i j with lt | rfl | gt
  · have := h.mono i j lt hj hi' hj'
    omega
  · rfl
  · have := h.mono j i gt hi hj' hi'
    omega

/-- **A copied token is found**: its copy is looked up as its own place in the source. -/
theorem locate (h : Tracks filename source changes offset out s) {i : Nat} (hi : i < offset)
    (hout : Outside changes i) (token : TokenAt source i) :
    s.draft.decoded.locate (out.place (moved changes i)) = .ok (some (⟨filename, source.place i⟩, none)) := by
  refine Draft.locate_decoded (h.anchored i hi hout token) (Text.valid_place ..) fun m hm at_ => ?_
  obtain ⟨g, q, rfl, -, -, -, ⟨j, hj, hj', heq⟩ | ⟨-, further⟩⟩ := h.leads m hm
  · rw [heq] at at_ ⊢
    rw [h.copy_inj hj hi hj' hout at_]
    exact .inl rfl
  · -- Source and generated place agree, and the place in the source is further on.
    have before := further i hi hout at_
    simp only at at_
    subst at_
    right
    rcases before with line | ⟨line, column⟩
    · simp [Draft.compareMappings, copyMapping, Int.compare_eq_lt.mpr line]
    · simp [Draft.compareMappings, copyMapping, line, Int.compare_eq_lt.mpr column]

end Tracks

end Componentry.SourceMap
