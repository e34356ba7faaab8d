import Componentry.Proofs.SourceMap.Reorder
import Componentry.Proofs.SourceMap.TwoSteps

/-!
# Texts that maps carry

A composed map carries at most one text, that of the earlier map's first source, and carries it for
that source. So a text is never taken for that of another source, and a document's text is carried
through any chain of maps, absent ones among them, for as long as some place leads back to the
document.
-/

namespace Componentry.SourceMap

theorem exists_of_bind_ok {ε α β : Type} {x : Except ε α} {f : α → Except ε β} {b : β}
    (h : x >>= f = .ok b) : ∃ a, x = .ok a ∧ f a = .ok b := by
  cases x with
  | error e => cases h
  | ok a => exact ⟨a, rfl, h⟩

theorem ok_of_converted {α : Type} {r : Except Json.ConversionError α} {a : α}
    (h : converted r = .ok a) : r = .ok a := by
  cases r with
  | error e => cases h
  | ok b => exact congrArg Except.ok (Except.ok.inj h)

/-! ## Sources of what is read -/

theorem mem_of_tallied {α : Type} {xs : List α} {i : Int} {x : α} (h : tallied xs i = .ok x) :
    x ∈ xs := by
  rw [tallied] at h
  split at h
  · rename_i found
    obtain rfl := Except.ok.inj h
    rw [itemAt?] at found
    split at found
    · exact List.mem_of_getElem? found
    · split at found
      · exact List.mem_of_getElem? found
      · cases found
  · cases h

section Reading

variable {sources names : List Text} {line column : Int} {t t' : Tally}

theorem listed_of_readSegment {text : Text} {m : Mapping}
    (h : readSegment sources names line column t text = .ok (m, t')) : m.Listed sources names := by
  obtain ⟨values, -, h⟩ := exists_of_bind_ok h
  split at h
  · obtain ⟨rfl, -⟩ := Prod.mk.inj (Except.ok.inj h)
    exact ⟨by simp, by simp⟩
  · obtain ⟨source, found, h⟩ := exists_of_bind_ok h
    obtain ⟨rfl, -⟩ := Prod.mk.inj (Except.ok.inj h)
    exact ⟨by rintro o ⟨⟩; exact mem_of_tallied found, by simp⟩
  · obtain ⟨name, named, h⟩ := exists_of_bind_ok h
    obtain ⟨source, found, h⟩ := exists_of_bind_ok h
    obtain ⟨rfl, -⟩ := Prod.mk.inj (Except.ok.inj h)
    exact ⟨by rintro o ⟨⟩; exact mem_of_tallied found, by rintro n ⟨⟩; exact mem_of_tallied named⟩
  · cases h

theorem listed_of_readLine {texts : List Text} {ms : List Mapping}
    (h : readLine sources names line column t texts = .ok (ms, t')) :
    ∀ m ∈ ms, m.Listed sources names := by
  induction texts generalizing column t t' ms with
  | nil =>
    obtain ⟨rfl, -⟩ := Prod.mk.inj (Except.ok.inj h)
    simp
  | cons text texts ih =>
    rw [readLine] at h
    split at h
    · exact ih h
    · obtain ⟨⟨m, t₁⟩, first, h⟩ := exists_of_bind_ok h
      obtain ⟨⟨rest, t₂⟩, more, h⟩ := exists_of_bind_ok h
      obtain ⟨rfl, -⟩ := Prod.mk.inj (Except.ok.inj h)
      exact List.forall_mem_cons.mpr ⟨listed_of_readSegment first, ih more⟩

theorem listed_of_readLines {texts : List Text} {ms : List Mapping}
    (h : readLines sources names line t texts = .ok ms) : ∀ m ∈ ms, m.Listed sources names := by
  induction texts generalizing line t ms with
  | nil =>
    obtain rfl := Except.ok.inj h
    simp
  | cons text texts ih =>
    obtain ⟨⟨own, t₁⟩, first, h⟩ := exists_of_bind_ok h
    obtain ⟨more, rest, h⟩ := exists_of_bind_ok h
    obtain rfl := Except.ok.inj h
    exact List.forall_mem_append.mpr ⟨listed_of_readLine first, ih rest⟩

end Reading

/-- What is read leads to sources that the map lists. -/
theorem Decoded.listed_of_ofFields {fields : Json.Fields} {d : Decoded}
    (read : ofFields fields = .ok d) : ∀ m ∈ d.mappings.toList, m.Listed d.sources d.names := by
  obtain ⟨sources, -, read⟩ := exists_of_bind_ok read
  obtain ⟨names, -, read⟩ := exists_of_bind_ok read
  obtain ⟨contents, -, read⟩ := exists_of_bind_ok read
  obtain ⟨sorted, mappings, read⟩ := exists_of_bind_ok read
  obtain ⟨unsorted, lines, mappings⟩ := exists_of_bind_ok mappings
  obtain rfl := Except.ok.inj mappings
  obtain rfl := Except.ok.inj read
  intro m hm
  exact listed_of_readLines lines m (List.mem_mergeSort.mp hm)

/-- The texts that are read are the items of the map's list. -/
theorem Decoded.contents_of_ofFields {fields : Json.Fields} {d : Decoded}
    (read : ofFields fields = .ok d) :
    (((Json.Fields.get? "sourcesContent" fields).getD .null).presentOr (.arr [])).elements =
      .ok d.contents := by
  obtain ⟨sources, -, read⟩ := exists_of_bind_ok read
  obtain ⟨names, -, read⟩ := exists_of_bind_ok read
  obtain ⟨contents, given, read⟩ := exists_of_bind_ok read
  obtain ⟨mappings, -, read⟩ := exists_of_bind_ok read
  obtain rfl := Except.ok.inj read
  exact ok_of_converted given

/-- The fields of a map are a map with these fields. -/
theorem load_obj_of_load {raw : Json} {fields : Json.Fields} (loaded : load raw = .ok fields) :
    load (.obj fields) = .ok fields := by
  obtain ⟨entries, known, same⟩ := exists_of_bind_ok loaded
  obtain rfl := Except.ok.inj same
  obtain ⟨_, -, known⟩ := exists_of_bind_ok known
  dsimp only at known
  split at known
  · cases known
  · rename_i sections
    obtain ⟨n, version, known⟩ := exists_of_bind_ok known
    split at known
    · cases known
    · rename_i number
      obtain rfl := Except.ok.inj known
      rw [load_obj (Json.Entries.nodup_toFields _), if_neg sections]
      simp only [version, bind, Except.bind, if_neg number]

/-! ## One composition -/

theorem Draft.eq_of_addMapping {d d' : Draft} {m : Mapping} (h : d.addMapping m = .ok d') :
    m.InRange ∧ d' = { d with mappings := d.mappings.push m } := by
  obtain ⟨g, origin, name⟩ := m
  by_cases hg : g.valid
  · cases origin with
    | none =>
      simp [addMapping, add, refusal?, originOf, hg] at h
      exact ⟨⟨hg, by simp⟩, h.symm⟩
    | some o =>
      by_cases ho : o.position.valid
      · simp [addMapping, add, refusal?, originOf, hg, ho] at h
        exact ⟨⟨hg, by simpa using ho⟩, h.symm⟩
      · simp [addMapping, add, refusal?, hg, ho] at h
  · simp [addMapping, add, refusal?, hg] at h

/-- A mapping in range that leads to one of the sources. -/
def Mapping.LeadsTo (sources : List Text) (m : Mapping) : Prop :=
  m.InRange ∧ ∃ o, m.origin = some o ∧ o.source ∈ sources

/-- An answer names a source that the map lists. -/
theorem Decoded.mem_sources_of_locate {d : Decoded}
    (listed : ∀ m ∈ d.mappings.toList, m.Listed d.sources d.names) {p : Position} {origin : Origin}
    {name : Option Text} (h : d.locate p = .ok (some (origin, name))) :
    origin.source ∈ d.sources := by
  obtain ⟨m, hm, ho⟩ := exists_of_locate h
  exact (listed m hm).1 origin ho

/-- Following mappings adds mappings to sources of the earlier map, and no texts. -/
theorem of_follow {earlier : Decoded}
    (listed : ∀ m ∈ earlier.mappings.toList, m.Listed earlier.sources earlier.names)
    {ms : List Mapping} {d d' : Draft} (h : follow earlier ms d = .ok d')
    (led : ∀ m ∈ d.mappings.toList, m.LeadsTo earlier.sources) :
    d'.contents = d.contents ∧ ∀ m ∈ d'.mappings.toList, m.LeadsTo earlier.sources := by
  induction ms generalizing d with
  | nil =>
    obtain rfl := Except.ok.inj h
    exact ⟨rfl, led⟩
  | cons m ms ih =>
    rw [follow] at h
    split at h
    · exact ih h led
    · obtain ⟨answer, located, h⟩ := exists_of_bind_ok h
      split at h
      · exact ih h led
      · rename_i origin name
        obtain ⟨d₁, added, h⟩ := exists_of_bind_ok h
        obtain ⟨inRange, rfl⟩ := Draft.eq_of_addMapping added
        have next : Mapping.LeadsTo earlier.sources ⟨m.generated, some origin, none⟩ :=
          ⟨inRange, origin, rfl, Decoded.mem_sources_of_locate listed located⟩
        have both := List.forall_mem_append.mpr ⟨led, List.forall_mem_singleton.mpr next⟩
        rw [← Array.toList_push] at both
        obtain ⟨contents, leads⟩ := ih h both
        exact ⟨contents, leads⟩

/-- The text that a draft has for a source. -/
def Draft.textFor (d : Draft) (source : Text) : Json :=
  (Json.Fields.get? source d.contents).getD .null

theorem Draft.textFor_setContent (d : Draft) (source other : Text) (text : Json) :
    (d.setContent source text).textFor other =
      if source = other then text else d.textFor other := by
  by_cases hs : source = other <;> cases text <;>
    simp [textFor, setContent, hs, Json.Fields.get?_set, Json.Fields.get?_filter_ne]

theorem Draft.mappings_setContent (d : Draft) (source : Text) (text : Json) :
    (d.setContent source text).mappings = d.mappings := by
  cases text <;> rfl

/-- The first item of a value is the first of its items. -/
theorem Json.head?_of_firstItem {j first : Json} {items : List Json} (truthy : j.truthy)
    (given : j.firstItem = .ok first) (all : (j.presentOr (.arr [])).elements = .ok items) :
    items.head? = some first := by
  have own : j.presentOr (.arr []) = j := by rw [Json.presentOr, if_pos truthy]
  rw [own] at all
  cases j with
  | arr js =>
    cases js with
    | nil => cases given
    | cons j js =>
      obtain rfl := Except.ok.inj given
      obtain rfl := Except.ok.inj all
      rfl
  | str s =>
    cases s with
    | nil => cases given
    | cons c s =>
      obtain rfl := Except.ok.inj given
      obtain rfl := Except.ok.inj all
      rfl
  | _ => cases given

/-- The first source's text is the first of the texts. -/
theorem Decoded.contentFor_head {d : Decoded} {source : Text} {rest : List Text}
    (sources : d.sources = source :: rest) : d.contentFor source = d.contents.head?.getD .null := by
  rw [contentFor, sources, List.findIdx?_cons, if_pos (beq_self_eq_true source)]
  cases d.contents <;> rfl

/-- **What is kept**: for the earlier map's first source the text that the map has for it, and no
other text. -/
theorem of_keepContent {fields : Json.Fields} {earlier : Decoded} {d d' : Draft}
    (read : Decoded.ofFields fields = .ok earlier) (h : keepContent fields earlier d = .ok d')
    (bare : d.contents = []) :
    d'.mappings = d.mappings ∧
      ∀ source, d'.textFor source =
        if earlier.sources.head? = some source then earlier.contentFor source else .null := by
  have contents := Decoded.contents_of_ofFields read
  have nothing (source : Text) : d.textFor source = .null := by
    rw [Draft.textFor, bare]
    rfl
  rw [keepContent] at h
  split at h
  · rename_i first rest sources
    split at h
    · rename_i truthy
      obtain ⟨text, given, h⟩ := exists_of_bind_ok h
      obtain rfl := Except.ok.inj h
      refine ⟨d.mappings_setContent first text, fun source => ?_⟩
      have own := Json.head?_of_firstItem truthy (ok_of_converted given) contents
      rw [Draft.textFor_setContent, nothing, sources, List.head?_cons]
      by_cases hs : first = source
      · subst hs
        rw [if_pos rfl, if_pos rfl, Decoded.contentFor_head sources, own, Option.getD_some]
      · rw [if_neg hs, if_neg fun same => hs (Option.some.inj same)]
    · -- without texts, the map has none for its first source either
      rename_i falsy
      rw [Json.presentOr, if_neg falsy] at contents
      obtain rfl := Except.ok.inj h
      refine ⟨rfl, fun source => ?_⟩
      rw [nothing]
      split
      · rename_i same
        obtain ⟨_, rest⟩ := List.head?_eq_some_iff.mp same
        rw [Decoded.contentFor_head rest, ← Except.ok.inj contents]
        rfl
      · rfl
  · rename_i sources
    obtain rfl := Except.ok.inj h
    refine ⟨rfl, fun source => ?_⟩
    rw [nothing, sources]
    rfl

theorem Decoded.contentFor_of_notMem {d : Decoded} {source : Text} (h : source ∉ d.sources) :
    d.contentFor source = .null := by
  have absent : d.sources.findIdx? (· == source) = none := by
    rw [List.findIdx?_eq_none_iff]
    intro x hx
    exact beq_false_of_ne fun same => h (same ▸ hx)
  rw [contentFor, absent]

/-- **What composing gives**: a draft whose mappings lead to sources of the earlier map, with the
text of its first source. -/
theorem exists_draft_of_compose {later earlier : Json} {composed : Option Json}
    (h : compose (some later) (some earlier) = .ok composed) :
    ∃ (e : Decoded) (d : Draft), Decoded.ofJson earlier = .ok e ∧ composed = some d.toJson ∧
      Decoded.ofJson d.toJson = .ok d.decoded ∧
      (∀ m ∈ d.mappings.toList, m.LeadsTo e.sources) ∧
      ∀ source, d.textFor source =
        if e.sources.head? = some source then e.contentFor source else .null := by
  obtain ⟨fields, made, same⟩ := exists_of_bind_ok h
  obtain ⟨earlierFields, loaded, made⟩ := exists_of_bind_ok made
  obtain ⟨l, -, made⟩ := exists_of_bind_ok made
  obtain ⟨e, read, made⟩ := exists_of_bind_ok made
  obtain ⟨d₀, followed, made⟩ := exists_of_bind_ok made
  obtain ⟨d, kept, made⟩ := exists_of_bind_ok made
  obtain rfl := Except.ok.inj made
  obtain ⟨bare, led⟩ := of_follow (Decoded.listed_of_ofFields read) followed (by simp)
  obtain ⟨mappings, texts⟩ := of_keepContent read kept bare
  rw [← mappings] at led
  have readEarlier : Decoded.ofJson earlier = .ok e := by
    rw [Decoded.ofJson, loaded]
    exact read
  have lines := Draft.lines_of_inRange fun m hm => (led m hm).1
  exact ⟨e, d, readEarlier, (Except.ok.inj same).symm, Draft.ofJson_toJson lines, led, texts⟩

theorem compose_none {raw : Json} {fields : Json.Fields} (loaded : load raw = .ok fields) :
    compose none (some raw) = .ok (some (.obj fields)) := by
  simp only [compose, loaded, bind, Except.bind, pure, Except.pure]

/-! ## Chains of maps -/

/-- The maps of a chain composed one after the other onto a first one. -/
def composeAll (chain : List (Option Json)) (first : Option Json) : Except Error (Option Json) :=
  chain.foldlM (fun earlier later => compose later earlier) first

/-- What a map says of a document: nothing at all, or that the document is its only source and what
its text is. -/
def Decoded.Tells (d : Decoded) (source text : Text) : Prop :=
  (d.mappings = #[] ∧ d.sources = []) ∨ (d.sources = [source] ∧ d.contentFor source = .str text)

theorem firstUses_of_forall_eq {α : Type} [DecidableEq α] {x : α} {xs : List α}
    (all : ∀ y ∈ xs, y = x) (ne : xs ≠ []) : firstUses xs = [x] := by
  obtain ⟨y, ys, rfl⟩ := List.exists_cons_of_ne_nil ne
  obtain rfl := all y (List.mem_cons_self ..)
  have none_ : (firstUses ys).filter (fun z => z ≠ y) = [] := by
    rw [List.filter_eq_nil_iff]
    intro z hz
    simpa using all z (List.mem_cons_of_mem _ (mem_firstUses.mp hz))
  rw [firstUses, none_]

/-- A draft without mappings is read back without sources. -/
theorem Draft.decoded_of_empty {d : Draft} (empty : d.mappings = #[]) :
    d.decoded.mappings = #[] ∧ d.decoded.sources = [] := by
  have sorted : d.sortedMappings = [] := by simp [sortedMappings, empty]
  constructor
  · rw [decoded, sorted]; rfl
  · rw [decoded, sources, empty]; rfl

theorem Draft.sources_of_leadsTo {d : Draft} {source : Text}
    (led : ∀ m ∈ d.mappings.toList, m.LeadsTo [source]) (some_ : d.mappings ≠ #[]) :
    d.sources = [source] := by
  refine firstUses_of_forall_eq (fun s hs => ?_) fun none_ => ?_
  · obtain ⟨m, hm, from_⟩ := List.mem_filterMap.mp hs
    obtain ⟨-, o, ho, hsource⟩ := led m hm
    rw [ho, Option.map_some, Option.some.injEq] at from_
    rw [← from_]
    exact List.mem_singleton.mp hsource
  · obtain ⟨m, hm⟩ := Array.exists_mem_of_ne_empty _ some_
    obtain ⟨-, o, ho, -⟩ := led m (Array.mem_toList_iff.mpr hm)
    have listed := List.filterMap_eq_nil_iff.mp none_ m (Array.mem_toList_iff.mpr hm)
    rw [ho] at listed
    cases listed

/-- Composing onto a map that tells of a document gives a map that tells of it. -/
theorem tells_of_compose {later : Option Json} {earlier : Json} {composed : Option Json}
    {e : Decoded} {source text : Text} (h : compose later (some earlier) = .ok composed)
    (read : Decoded.ofJson earlier = .ok e) (tells : e.Tells source text) :
    ∃ m d, composed = some m ∧ Decoded.ofJson m = .ok d ∧ d.Tells source text := by
  cases later with
  | none =>
    obtain ⟨fields, loaded, h⟩ := exists_of_bind_ok h
    obtain rfl := Except.ok.inj h
    refine ⟨.obj fields, e, rfl, ?_, tells⟩
    rw [Decoded.ofJson, load_obj_of_load loaded, ← read, Decoded.ofJson, loaded]
  | some later =>
    obtain ⟨e', d, read', rfl, result, led, texts⟩ := exists_draft_of_compose h
    obtain rfl : e = e' := Except.ok.inj (read.symm.trans read')
    refine ⟨_, _, rfl, result, ?_⟩
    by_cases empty : d.mappings = #[]
    · exact .inl (Draft.decoded_of_empty empty)
    · -- some place leads to a source of the earlier map, which then is the document
      rcases tells with ⟨-, none_⟩ | ⟨only, given⟩
      · obtain ⟨m, hm⟩ := Array.exists_mem_of_ne_empty _ empty
        obtain ⟨-, o, -, hsource⟩ := led m (Array.mem_toList_iff.mpr hm)
        rw [none_] at hsource
        cases hsource
      · rw [only] at led
        have sources := Draft.sources_of_leadsTo led empty
        have listed : source ∈ d.sources := sources ▸ List.mem_singleton_self source
        have own := (Draft.contentFor_decoded listed).trans (texts source)
        rw [only, List.head?_cons, if_pos rfl, given] at own
        exact .inr ⟨sources, own⟩

/-- A chain of maps on a map that tells of a document tells of it. -/
theorem tells_of_composeAll {chain : List (Option Json)} {first : Json} {final : Option Json}
    {f : Decoded} {source text : Text} (h : composeAll chain (some first) = .ok final)
    (read : Decoded.ofJson first = .ok f) (tells : f.Tells source text) :
    ∃ m d, final = some m ∧ Decoded.ofJson m = .ok d ∧ d.Tells source text := by
  induction chain generalizing first f with
  | nil =>
    obtain rfl := Except.ok.inj h
    exact ⟨first, f, rfl, read, tells⟩
  | cons later chain ih =>
    obtain ⟨composed, one, rest⟩ := exists_of_bind_ok h
    obtain ⟨m, d, rfl, read', tells'⟩ := tells_of_compose one read tells
    exact ih rest read' tells'

/-! ## Maps that can be composed -/

/-- A map that can be read, with all its places in range. -/
def IsPlaced (raw : Json) : Prop :=
  ∃ d, Decoded.ofJson raw = .ok d ∧ ∀ m ∈ d.mappings.toList, m.InRange

/-- A map whose texts, if it has any, are a list. -/
def HasTextList (raw : Json) : Prop := ∀ fields, load raw = .ok fields → ListsContents fields

theorem HasTextList.obj {raw : Json} {fields : Json.Fields} (h : HasTextList raw)
    (loaded : load raw = .ok fields) : HasTextList (.obj fields) := by
  intro fields' loaded'
  obtain rfl := Except.ok.inj ((load_obj_of_load loaded).symm.trans loaded')
  exact h fields loaded

/-- Composing onto such a map succeeds and gives such a map. -/
theorem exists_compose_placed {later : Option Json} {earlier : Json}
    (hlater : ∀ l ∈ later, IsPlaced l) (hearlier : IsPlaced earlier) (lists : HasTextList earlier) :
    ∃ composed, compose later (some earlier) = .ok (some composed) ∧ IsPlaced composed ∧
      HasTextList composed := by
  obtain ⟨e, read, inRange⟩ := hearlier
  obtain ⟨fields, loaded, readFields⟩ := Decoded.exists_load_of_ofJson read
  cases later with
  | none =>
    refine ⟨.obj fields, compose_none loaded, ⟨e, ?_, inRange⟩, lists.obj loaded⟩
    rw [Decoded.ofJson, load_obj_of_load loaded]
    exact readFields
  | some later =>
    obtain ⟨l, readLater, inRange'⟩ := hlater later rfl
    obtain ⟨_, composed, -⟩ :=
      exists_compose readLater loaded readFields (lists fields loaded) inRange' inRange
    obtain ⟨_, d, -, same, result, led, -⟩ := exists_draft_of_compose composed
    refine ⟨d.toJson, same ▸ composed,
      ⟨d.decoded, result, Draft.inRange_decoded fun m hm => (led m hm).1⟩, ?_⟩
    intro fields' loaded'
    obtain rfl := Except.ok.inj (d.load_toJson.symm.trans loaded')
    exact d.listsContents

/-- A chain of maps in range on such a map can be composed. -/
theorem exists_composeAll {chain : List (Option Json)} {first : Json}
    (hchain : ∀ later, some later ∈ chain → IsPlaced later) (hfirst : IsPlaced first)
    (lists : HasTextList first) : ∃ final, composeAll chain (some first) = .ok final := by
  induction chain generalizing first with
  | nil => exact ⟨some first, rfl⟩
  | cons later chain ih =>
    obtain ⟨composed, one, placed, lists'⟩ := exists_compose_placed
      (fun l hl => hchain l (List.mem_cons.mpr (.inl (Option.mem_def.mp hl).symm))) hfirst lists
    obtain ⟨final, rest⟩ :=
      ih (fun l hl => hchain l (List.mem_cons_of_mem _ hl)) placed lists'
    refine ⟨final, ?_⟩
    rw [composeAll, List.foldlM_cons, one]
    exact rest

/-- **Texts are carried and never taken for others.** A composed map can be read. It has for each of
its sources the text that the earlier map has for it if that is the earlier map's first source, and
no text otherwise; so a text in it is the earlier map's text of the same source. A chain of maps
composed one after the other onto a map with one source and its text, any of them absent, gives a
map without mappings and sources, or one with that source and that text. The composition succeeds if
all maps are in range and the texts of the first one are in a list. -/
theorem texts_carried :
    (∀ later earlier,
      (∀ composed, compose (some later) (some earlier) = .ok composed →
        ∃ m d e, composed = some m ∧ Decoded.ofJson m = .ok d ∧ Decoded.ofJson earlier = .ok e ∧
          (∀ source ∈ d.sources, d.contentFor source =
            if e.sources.head? = some source then e.contentFor source else .null) ∧
          ∀ source text, d.contentFor source = .str text → e.contentFor source = .str text) ∧
      (IsPlaced later → IsPlaced earlier → HasTextList earlier →
        ∃ composed, compose (some later) (some earlier) = .ok composed)) ∧
    ∀ first chain f source text, Decoded.ofJson first = .ok f → f.sources = [source] →
      f.contentFor source = .str text →
      (∀ final, composeAll chain (some first) = .ok final →
        ∃ m d, final = some m ∧ Decoded.ofJson m = .ok d ∧
          ((d.mappings = #[] ∧ d.sources = []) ∨
            (d.sources = [source] ∧ d.contentFor source = .str text))) ∧
      ((∀ later, some later ∈ chain → IsPlaced later) → IsPlaced first → HasTextList first →
        ∃ final, composeAll chain (some first) = .ok final) := by
  refine ⟨fun later earlier => ⟨fun composed h => ?_, fun hlater hearlier lists => ?_⟩,
    fun first chain f source text read only given => ⟨fun final h => ?_, exists_composeAll⟩⟩
  · obtain ⟨e, d, read, rfl, result, -, texts⟩ := exists_draft_of_compose h
    have kept : ∀ source ∈ d.decoded.sources, d.decoded.contentFor source =
        if e.sources.head? = some source then e.contentFor source else .null := by
      intro source hs
      exact (Draft.contentFor_decoded hs).trans (texts source)
    refine ⟨_, _, e, rfl, result, read, kept, fun source text own => ?_⟩
    by_cases hs : source ∈ d.decoded.sources
    · rw [kept source hs] at own
      split at own
      · exact own
      · cases own
    · rw [Decoded.contentFor_of_notMem hs] at own
      cases own
  · have given : ∀ l ∈ some later, IsPlaced l := by
      rintro l ⟨⟩
      exact hlater
    obtain ⟨composed, made, -⟩ := exists_compose_placed given hearlier lists
    exact ⟨some composed, made⟩
  · exact tells_of_composeAll h read (.inr ⟨only, given⟩)

/-- A map of one line with its document's text. -/
def documentMap : Json :=
  .obj [("version", .int 3), ("sources", .arr [.str "a.svelte"]), ("mappings", .str "AAAA,CAAC"),
    ("sourcesContent", .arr [.str "ab"])]

theorem ofJson_documentMap : Decoded.ofJson documentMap = .ok ⟨.null, ["a.svelte"], [], [.str "ab"],
    #[⟨⟨1, 0⟩, some ⟨"a.svelte", ⟨1, 0⟩⟩, none⟩, ⟨⟨1, 1⟩, some ⟨"a.svelte", ⟨1, 1⟩⟩, none⟩]⟩ := by
  have read : readMappings ["a.svelte"] [] "AAAA,CAAC" =
      .ok [⟨⟨1, 0⟩, some ⟨"a.svelte", ⟨1, 0⟩⟩, none⟩, ⟨⟨1, 1⟩, some ⟨"a.svelte", ⟨1, 1⟩⟩, none⟩] :=
    readMappings_of_pairwise rfl (by decide)
  show (readMappings ["a.svelte"] [] "AAAA,CAAC" >>= fun ms =>
    .ok (⟨.null, ["a.svelte"], [], [.str "ab"], ms.toArray⟩ : Decoded)) = _
  rw [read]
  rfl

/-- A document's text is carried past a stage with a map, between two without one. -/
theorem text_carried_past_absent : ∃ m d,
    composeAll [none, some (lineMap "b.js" "AAAA,EAAC"), none] (some documentMap) = .ok (some m) ∧
      Decoded.ofJson m = .ok d ∧ d.sources = ["a.svelte"] ∧ d.contentFor "a.svelte" = .str "ab" := by
  have later : Decoded.ofJson (lineMap "b.js" "AAAA,EAAC") = .ok ⟨.null, ["b.js"], [], [],
      #[⟨⟨1, 0⟩, some ⟨"b.js", ⟨1, 0⟩⟩, none⟩, ⟨⟨1, 2⟩, some ⟨"b.js", ⟨1, 1⟩⟩, none⟩]⟩ :=
    ofJson_lineMap rfl (by decide) (by decide)
  have placed : IsPlaced (lineMap "b.js" "AAAA,EAAC") := ⟨_, later, by decide⟩
  have placed' : IsPlaced documentMap := ⟨_, ofJson_documentMap, by decide⟩
  have lists : HasTextList documentMap := by
    rintro fields ⟨⟩ contents ⟨⟩
    exact .inr ⟨_, rfl⟩
  obtain ⟨tells, succeeds⟩ := texts_carried.2 documentMap
    [none, some (lineMap "b.js" "AAAA,EAAC"), none] _ "a.svelte" "ab" ofJson_documentMap rfl rfl
  obtain ⟨final, made⟩ := succeeds (by simpa using placed) placed' lists
  obtain ⟨m, d, rfl, read, nothing | told⟩ := tells final made
  · -- the later map's first place leads to the document
    obtain ⟨fields, loaded, readFields⟩ := Decoded.exists_load_of_ofJson ofJson_documentMap
    obtain ⟨draft, composed, mappings⟩ :=
      exists_compose later loaded readFields (lists fields loaded) (by decide) (by decide)
    have absent : compose none (some documentMap) = .ok (some documentMap) := compose_none rfl
    have absent' : compose none (some draft.toJson) = .ok (some draft.toJson) :=
      compose_none draft.load_toJson
    have same : composeAll [none, some (lineMap "b.js" "AAAA,EAAC"), none] (some documentMap) =
        .ok (some draft.toJson) := by
      simp only [composeAll, List.foldlM_cons, List.foldlM_nil, absent, composed, absent', bind,
        Except.bind, pure, Except.pure]
    obtain rfl : m = draft.toJson := Option.some.inj (Except.ok.inj (made.symm.trans same))
    have lines : ∀ x ∈ draft.mappings.toList, 1 ≤ x.generated.line := by
      rw [mappings]
      decide
    have sources : draft.sources = ["a.svelte"] := by
      rw [Draft.sources, mappings]
      decide
    obtain rfl := Except.ok.inj (read.symm.trans (Draft.ofJson_toJson lines))
    exact absurd (sources.symm.trans nothing.2) (by decide)
  · exact ⟨m, d, made, read, told⟩

end Componentry.SourceMap
