import Componentry.Proofs.SourceMap.Lookup
import Componentry.SourceMap.Compose

/-!
# Composed maps

Composing two maps that can be read never fails, if their places are in range. The result has the
mappings of the later map, each led on to where the earlier one answers for its place.
-/

namespace Componentry.SourceMap

/-- A mapping led on through an earlier map, if that answers for its place. -/
def Mapping.led (earlier : Decoded) (m : Mapping) : Option Mapping :=
  m.origin.bind fun o =>
    match earlier.locate o.position with
    | .ok (some (origin, _)) => some ⟨m.generated, some origin, none⟩
    | _ => none

theorem Mapping.generated_of_led {earlier : Decoded} {m m' : Mapping} (h : m.led earlier = some m') :
    m'.generated = m.generated := by
  obtain ⟨o, -, h⟩ := Option.bind_eq_some_iff.mp h
  split at h
  · obtain rfl := Option.some.inj h
    rfl
  · cases h

/-- Are the places of a mapping in range? -/
def Mapping.InRange (m : Mapping) : Prop := m.generated.valid ∧ ∀ o ∈ m.origin, o.position.valid

instance (m : Mapping) : Decidable m.InRange :=
  inferInstanceAs (Decidable (m.generated.valid ∧ ∀ o ∈ m.origin, o.position.valid))

theorem Decoded.mem_of_nearest? {d : Decoded} {p : Position} {m : Mapping}
    (h : d.nearest? p = some m) : m ∈ d.mappings.toList := by
  rw [Decoded.nearest?] at h
  split at h
  · cases h
  · exact Array.mem_toList_iff.mpr (Array.mem_of_getElem? (Option.filter_eq_some_iff.mp h).1)

/-- An answer is the origin of one of the mappings. -/
theorem Decoded.exists_of_locate {d : Decoded} {p : Position} {origin : Origin} {name : Option Text}
    (h : d.locate p = .ok (some (origin, name))) :
    ∃ m ∈ d.mappings.toList, m.origin = some origin := by
  rw [Decoded.locate] at h
  split at h
  · simp only [Except.ok.injEq, Option.bind_eq_some_iff, Option.map_eq_some_iff, Prod.mk.injEq] at h
    obtain ⟨m, hm, o, ho, rfl, -⟩ := h
    exact ⟨m, mem_of_nearest? hm, ho⟩
  · cases h

theorem Decoded.valid_of_locate {d : Decoded} (hd : ∀ m ∈ d.mappings.toList, m.InRange) {p : Position}
    {origin : Origin} {name : Option Text} (h : d.locate p = .ok (some (origin, name))) :
    origin.position.valid := by
  obtain ⟨m, hm, ho⟩ := exists_of_locate h
  exact (hd m hm).2 origin ho

theorem Draft.addMapping_eq {m : Mapping} (h : m.InRange) (d : Draft) :
    d.addMapping m = .ok { d with mappings := d.mappings.push m } := by
  obtain ⟨g, origin, name⟩ := m
  obtain ⟨hg, ho⟩ := h
  cases origin with
  | none => simp [addMapping, add, refusal?, originOf, hg]
  | some o => simp [addMapping, add, refusal?, originOf, hg, ho o rfl]

/-- Following the mappings adds those that are led on. -/
theorem follow_eq {earlier : Decoded} {ms : List Mapping} (hms : ∀ m ∈ ms, m.InRange)
    (hearlier : ∀ m ∈ earlier.mappings.toList, m.InRange) (d : Draft) :
    follow earlier ms d =
      .ok { d with mappings := d.mappings ++ (ms.filterMap (Mapping.led earlier)).toArray } := by
  induction ms generalizing d with
  | nil => simp [follow]
  | cons m ms ih =>
    have hm := hms m (List.mem_cons_self ..)
    have rest := ih fun m h => hms m (List.mem_cons_of_mem _ h)
    cases ho : m.origin with
    | none =>
      have nowhere : m.led earlier = none := by simp [Mapping.led, ho]
      simp only [follow, ho, rest, List.filterMap_cons, nowhere]
    | some o =>
      cases answer : earlier.locate o.position with
      | error e => simp [Decoded.locate, hm.2 o ho] at answer
      | ok found =>
        cases found with
        | none =>
          have nowhere : m.led earlier = none := by simp [Mapping.led, ho, answer]
          simp [follow, ho, answer, rest, nowhere, bind, Except.bind]
        | some found =>
          obtain ⟨origin, name⟩ := found
          have led : m.led earlier = some ⟨m.generated, some origin, none⟩ := by
            simp [Mapping.led, ho, answer]
          have added := d.addMapping_eq (m := ⟨m.generated, some origin, none⟩)
            ⟨hm.1, by rintro o' ⟨⟩; exact Decoded.valid_of_locate hearlier answer⟩
          simp [follow, ho, answer, added, rest, led, bind, Except.bind]

/-! ## Composed maps -/

/-- Are the texts of the sources, if there are any, a list? -/
def ListsContents (fields : Json.Fields) : Prop :=
  ∀ contents, Json.Fields.get? "sourcesContent" fields = some contents →
    contents = .null ∨ ∃ items, contents = .arr items

/-- The text of the earlier map's first source is kept, and nothing else changes. -/
theorem keepContent_eq {fields : Json.Fields} (lists : ListsContents fields) (earlier : Decoded)
    (d : Draft) : ∃ contents, keepContent fields earlier d = .ok { d with contents } := by
  have setContent : ∀ source text, ∃ contents, d.setContent source text = { d with contents } := by
    intro source text
    cases text <;> exact ⟨_, rfl⟩
  rw [keepContent]
  cases earlier.sources with
  | nil => exact ⟨d.contents, rfl⟩
  | cons source rest =>
    dsimp only
    cases found : Json.Fields.get? "sourcesContent" fields with
    | none => exact ⟨d.contents, rfl⟩
    | some contents =>
      obtain rfl | ⟨items, rfl⟩ := lists contents found
      · exact ⟨d.contents, rfl⟩
      · cases items with
        | nil => exact ⟨d.contents, rfl⟩
        | cons text texts =>
          obtain ⟨contents, set⟩ := setContent source text
          exact ⟨contents, congrArg Except.ok set⟩

/-- The maps of drafts list their texts. -/
theorem Draft.listsContents (d : Draft) : ListsContents d.toFields := by
  intro contents found
  rw [toFields] at found
  by_cases h : d.contents.isEmpty <;> cases hf : d.file <;> simp [h, hf, Json.Fields.get?] at found
  · exact .inr ⟨_, found.symm⟩
  · exact .inr ⟨_, found.symm⟩

/-- **Composed maps**: the later map's mappings are led on through the earlier one. -/
theorem exists_compose {later earlier : Json} {fields : Json.Fields} {l e : Decoded}
    (readLater : Decoded.ofJson later = .ok l) (loaded : load earlier = .ok fields)
    (readEarlier : Decoded.ofFields fields = .ok e) (lists : ListsContents fields)
    (hlater : ∀ m ∈ l.mappings.toList, m.InRange) (hearlier : ∀ m ∈ e.mappings.toList, m.InRange) :
    ∃ d : Draft, compose (some later) (some earlier) = .ok (some d.toJson) ∧
      d.mappings.toList = l.mappings.toList.filterMap (Mapping.led e) := by
  have followed := follow_eq hlater hearlier {}
  obtain ⟨contents, kept⟩ := keepContent_eq lists e { mappings :=
    #[] ++ (l.mappings.toList.filterMap (Mapping.led e)).toArray }
  refine ⟨{ mappings := #[] ++ (l.mappings.toList.filterMap (Mapping.led e)).toArray, contents },
    ?_, by simp⟩
  simp only [compose, composeFields, loaded, readLater, readEarlier, followed, kept, bind,
    Except.bind, pure, Except.pure]
  rfl

namespace Draft

theorem mem_decoded {d : Draft} {m : Mapping} :
    m ∈ d.decoded.mappings.toList ↔ ∃ m' ∈ d.mappings.toList, m'.readable = m := by
  simp only [decoded, List.mem_map, mem_destutter_ne, mem_sortedMappings]

theorem inRange_decoded {d : Draft} (h : ∀ m ∈ d.mappings.toList, m.InRange) :
    ∀ m ∈ d.decoded.mappings.toList, m.InRange := by
  intro m hm
  obtain ⟨m', hm', rfl⟩ := mem_decoded.mp hm
  exact h m' hm'

theorem lines_of_inRange {d : Draft} (h : ∀ m ∈ d.mappings.toList, m.InRange) :
    ∀ m ∈ d.mappings.toList, 1 ≤ m.generated.line := by
  intro m hm
  exact of_decide_eq_true (Bool.and_eq_true_iff.mp (h m hm).1).1

theorem ofFields_toFields {d : Draft} (inRange : ∀ m ∈ d.mappings.toList, m.InRange) :
    Decoded.ofFields d.toFields = .ok d.decoded := by
  have read := ofJson_toJson (lines_of_inRange inRange)
  rwa [Decoded.ofJson, load_toJson] at read

/-- Composed drafts: the later draft's mappings are led on through the earlier one. -/
theorem compose_toJson {later earlier : Draft} (hlater : ∀ m ∈ later.mappings.toList, m.InRange)
    (hearlier : ∀ m ∈ earlier.mappings.toList, m.InRange) :
    ∃ d : Draft, compose (some later.toJson) (some earlier.toJson) = .ok (some d.toJson) ∧
      d.mappings.toList = later.decoded.mappings.toList.filterMap (Mapping.led earlier.decoded) :=
  exists_compose (ofJson_toJson (lines_of_inRange hlater)) (load_toJson earlier)
    (ofFields_toFields hearlier) earlier.listsContents (inRange_decoded hlater)
    (inRange_decoded hearlier)

end Draft

end Componentry.SourceMap
