import Componentry.Proofs.Json.Sorted
import Componentry.SourceMap.Compose

/-!
# Maps up to the order of fields

A map that comes back from a cache has its fields in another order. Composing it gives what
composing the map itself gives, up to the order of fields again: all that is used of a later map are
the places of its mappings, and these do not depend on the order. What is said of a map that cannot
be read does not depend on it either.
-/

namespace Componentry

/-- Both outcomes are the same failure, or both are values that `R` relates. -/
inductive Agree {ε α β : Type} (R : α → β → Prop) : Except ε α → Except ε β → Prop
  | ok {a : α} {b : β} (h : R a b) : Agree R (.ok a) (.ok b)
  | error (e : ε) : Agree R (.error e) (.error e)

namespace Agree

variable {ε ε' α β γ δ : Type} {R : α → β → Prop} {S : γ → δ → Prop}

theorem of_eq {x y : Except ε α} (h : x = y) : Agree Eq x y := by
  subst h
  cases x with
  | ok a => exact .ok rfl
  | error e => exact .error e

theorem bind {x : Except ε α} {y : Except ε β} {f : α → Except ε γ} {g : β → Except ε δ}
    (h : Agree R x y) (next : ∀ a b, R a b → Agree S (f a) (g b)) : Agree S (x >>= f) (y >>= g) := by
  cases h with
  | ok h => exact next _ _ h
  | error e => exact .error e

theorem mapError {x : Except ε α} {y : Except ε β} (h : Agree R x y) (f : ε → ε') :
    Agree R (x.mapError f) (y.mapError f) := by
  cases h with
  | ok h => exact .ok h
  | error e => exact .error _

theorem mono {R' : α → β → Prop} {x : Except ε α} {y : Except ε β} (h : Agree R x y)
    (imp : ∀ a b, R a b → R' a b) : Agree R' x y := by
  cases h with
  | ok h => exact .ok (imp _ _ h)
  | error e => exact .error e

/-- Outcomes that agree with the same one agree with each other. -/
theorem of_agree {x : Except ε α} {y : Except ε γ} {z : Except ε β} {S : γ → β → Prop}
    {T : α → γ → Prop} (h : Agree R x z) (h' : Agree S y z)
    (imp : ∀ a b c, R a b → S c b → T a c) : Agree T x y := by
  cases h with
  | ok h =>
    cases h' with
    | ok h' => exact .ok (imp _ _ _ h h')
  | error e =>
    cases h' with
    | error => exact .error e

end Agree

/-! ## Values -/

namespace Json

@[simp] theorem toInteger_sorted (j : Json) : j.sorted.toInteger = j.toInteger := by
  cases j <;> rfl

/-- Values that are alike are equal, unless both are lists or both are objects. -/
theorem eq_or_compound {j k : Json} (h : j.sorted = k.sorted) :
    j = k ∨ (∃ items others, j = .arr items ∧ k = .arr others) ∨
      ∃ fields others, j = .obj fields ∧ k = .obj others := by
  cases j <;> cases k <;> simp_all [sorted]

/-- Values that are alike and stand for an integer are equal. -/
theorem eq_of_toInteger {j k : Json} (h : j.sorted = k.sorted) {n : Int} (hn : k.toInteger = .ok n) :
    j = k := by
  rcases eq_or_compound h with same | ⟨_, _, _, rfl⟩ | ⟨_, _, _, rfl⟩
  · exact same
  · cases hn
  · cases hn

/-- Of values that are alike, the items are as many. -/
theorem agree_elements {j k : Json} (h : j.sorted = k.sorted) :
    Agree (fun a b => a.length = b.length) j.elements k.elements := by
  have count (j : Json) :
      Agree (fun a b => a.length = b.length) j.elements j.sorted.elements := by
    cases j with
    | arr items => exact .ok (by rw [sortedItems_eq_map, List.length_map])
    | obj fields =>
      refine .ok ?_
      rw [List.length_map, List.length_map, (sortFields_perm _).length_eq, sortedFields_eq_map,
        List.length_map]
    | str s => exact .ok rfl
    | _ => exact .error _
  have first := count j
  rw [h] at first
  have second := count k
  cases hj : j.elements <;> cases hk : k.elements <;> cases hs : k.sorted.elements <;>
    simp only [hj, hk, hs] at first second <;> cases first <;> cases second
  · exact .error _
  · exact .ok (by omega)

theorem presentOr_of_sorted_eq {j k : Json} (h : j.sorted = k.sorted) (other : Json) :
    (j.presentOr other).sorted = (k.presentOr other).sorted := by
  have same : j.truthy = k.truthy := by rw [← truthy_sorted, h, truthy_sorted]
  rw [presentOr, presentOr, same]
  split
  · exact h
  · rfl

end Json

namespace SourceMap

/-! ## Places of mappings -/

/-- The generated place of a mapping and the place it came from. -/
def Mapping.places (m : Mapping) : Position × Option Position :=
  (m.generated, m.origin.map Origin.position)

variable {sources sources' names names' : List Text}

theorem agree_tallied {α : Type} {xs ys : List α} (h : xs.length = ys.length) (i : Int) :
    Agree (fun _ _ => True) (tallied xs i) (tallied ys i) := by
  have some_iff : (itemAt? xs i).isSome = (itemAt? ys i).isSome := by
    have at_ (n : Nat) : xs[n]?.isSome = ys[n]?.isSome := by
      rw [Bool.eq_iff_iff, isSome_getElem?, isSome_getElem?, h]
    rw [itemAt?, itemAt?, h]
    split
    · exact at_ _
    · split
      · exact at_ _
      · rfl
  rw [tallied, tallied]
  cases hx : itemAt? xs i <;> cases hy : itemAt? ys i <;> simp [hx, hy] at some_iff
  · exact .error _
  · exact .ok trivial

/-- Segments are read alike for sources and names of the same number. -/
theorem agree_readSegment (hs : sources.length = sources'.length) (hn : names.length = names'.length)
    (line column : Int) (t : Tally) (text : Text) :
    Agree (fun a b => a.1.places = b.1.places ∧ a.2 = b.2)
      (readSegment sources names line column t text)
      (readSegment sources' names' line column t text) := by
  rw [readSegment, readSegment]
  refine (Agree.of_eq rfl).bind ?_
  rintro values _ rfl
  split
  · exact .ok ⟨rfl, rfl⟩
  · exact (agree_tallied hs _).bind fun _ _ _ => .ok ⟨rfl, rfl⟩
  · exact (agree_tallied hn _).bind fun _ _ _ => (agree_tallied hs _).bind fun _ _ _ => .ok ⟨rfl, rfl⟩
  · exact .error _

theorem agree_readLine (hs : sources.length = sources'.length) (hn : names.length = names'.length)
    (line column : Int) (t : Tally) (texts : List Text) :
    Agree (fun a b => a.1.map Mapping.places = b.1.map Mapping.places ∧ a.2 = b.2)
      (readLine sources names line column t texts)
      (readLine sources' names' line column t texts) := by
  induction texts generalizing column t with
  | nil => exact .ok ⟨rfl, rfl⟩
  | cons text rest ih =>
    rw [readLine, readLine]
    split
    · exact ih column t
    · refine (agree_readSegment hs hn line column t text).bind ?_
      rintro ⟨m, t⟩ ⟨m', t'⟩ ⟨same, rfl⟩
      have column : m.generated = m'.generated := congrArg Prod.fst same
      simp only [column]
      refine (ih _ t).bind ?_
      rintro ⟨ms, t⟩ ⟨ms', t'⟩ ⟨more, rfl⟩
      exact .ok ⟨by simp [same, more], rfl⟩

theorem agree_readLines (hs : sources.length = sources'.length) (hn : names.length = names'.length)
    (line : Int) (t : Tally) (texts : List Text) :
    Agree (fun a b => a.map Mapping.places = b.map Mapping.places)
      (readLines sources names line t texts) (readLines sources' names' line t texts) := by
  induction texts generalizing line t with
  | nil => exact .ok rfl
  | cons text rest ih =>
    rw [readLines, readLines]
    refine (agree_readLine hs hn line 0 t _).bind ?_
    rintro ⟨ms, t⟩ ⟨ms', t'⟩ ⟨same, rfl⟩
    refine (ih _ t).bind fun more more' h => ?_
    exact .ok (by simp only [List.map_append, same, h])

/-- Mappings that have the same places are sorted alike. -/
theorem map_places_mergeSort {ms ms' : List Mapping}
    (h : ms.map Mapping.places = ms'.map Mapping.places) :
    (ms.mergeSort fun a b => atOrBefore a.generated b.generated).map Mapping.places =
      (ms'.mergeSort fun a b => atOrBefore a.generated b.generated).map Mapping.places := by
  have sort (ms : List Mapping) :
      (ms.mergeSort fun a b => atOrBefore a.generated b.generated).map Mapping.places =
        (ms.map Mapping.places).mergeSort fun a b => atOrBefore a.1 b.1 :=
    List.map_mergeSort fun a _ b _ => rfl
  rw [sort, sort, h]

theorem agree_readMappings (hs : sources.length = sources'.length)
    (hn : names.length = names'.length) (text : Text) :
    Agree (fun a b => a.map Mapping.places = b.map Mapping.places)
      (readMappings sources names text) (readMappings sources' names' text) :=
  (agree_readLines hs hn 1 {} _).bind fun _ _ h => .ok (map_places_mergeSort h)

/-- Following looks at the places of mappings only. -/
theorem follow_congr {earlier : Decoded} {ms ms' : List Mapping}
    (h : ms.map Mapping.places = ms'.map Mapping.places) (d : Draft) :
    follow earlier ms d = follow earlier ms' d := by
  induction ms generalizing ms' d with
  | nil =>
    rw [List.map_nil, eq_comm, List.map_eq_nil_iff] at h
    rw [h]
  | cons m ms ih =>
    cases ms' with
    | nil => cases h
    | cons m' ms' =>
      obtain ⟨same, more⟩ := List.cons.inj h
      have generated : m.generated = m'.generated := congrArg Prod.fst same
      have origin : m.origin.map Origin.position = m'.origin.map Origin.position :=
        congrArg Prod.snd same
      cases ho : m.origin <;> cases ho' : m'.origin <;> simp [ho, ho'] at origin
      · rw [follow, follow, ho, ho']
        exact ih more d
      · rw [follow, follow, ho, ho']
        simp only [origin, generated, ih more]

/-! ## Reading -/

/-- A mappings text that starts with no digit and no separator is refused. -/
theorem readMappings_bad {c : CodePoint} {s : Text} (digit : Vlq.digit? c = none)
    (comma : c ≠ .char ',') (semicolon : c ≠ .char ';') :
    readMappings sources names (c :: s) = .error (.numberDigit c) := by
  have first (sep : CodePoint) (ne : c ≠ sep) (s : Text) :
      ∃ piece rest, Text.splitOn sep (c :: s) = (c :: piece) :: rest := by
    rw [Text.splitOn, if_neg ne]
    cases Text.splitOn sep s with
    | nil => exact ⟨_, _, rfl⟩
    | cons piece rest => exact ⟨_, _, rfl⟩
  obtain ⟨line, lines, split⟩ := first _ semicolon s
  obtain ⟨segment, segments, split'⟩ := first _ comma line
  simp [readMappings, readLines, readLine, readSegment, Vlq.decodeSegment, Vlq.decodeFrom, split,
    split', digit, bind, Except.bind]

/-- Values that are alike are shown alike, or both as a list or an object. -/
theorem shown_of_sorted_eq {j k : Json} (h : j.sorted = k.sorted) :
    j.shown = k.shown ∨ ∃ c s t, (c = .char '[' ∨ c = .char '\x7b') ∧
      j.shown = c :: s ∧ k.shown = c :: t := by
  rcases Json.eq_or_compound h with rfl | ⟨_, _, rfl, rfl⟩ | ⟨_, _, rfl, rfl⟩
  · exact .inl rfl
  · exact .inr ⟨_, _, _, .inl rfl, rfl, rfl⟩
  · exact .inr ⟨_, _, _, .inr rfl, rfl, rfl⟩

/-- The field of a map, `null` if it has none. -/
theorem sorted_getD_get? {fields fields' : Json.Fields}
    (h : (Json.obj fields).sorted = (Json.obj fields').sorted)
    (hs : (Json.obj fields').isStorable) (key : Text) :
    ((Json.Fields.get? key fields).getD .null).sorted =
      ((Json.Fields.get? key fields').getD .null).sorted :=
  Json.fieldD_of_sorted_eq h hs key

/-- The mappings of maps that are alike have the same places. -/
theorem agree_ofFields {fields fields' : Json.Fields}
    (h : (Json.obj fields).sorted = (Json.obj fields').sorted)
    (hs : (Json.obj fields').isStorable) :
    Agree (fun a b => a.mappings.toList.map Mapping.places = b.mappings.toList.map Mapping.places)
      (Decoded.ofFields fields) (Decoded.ofFields fields') := by
  have get := sorted_getD_get? h hs
  have items (key : Text) := (Json.agree_elements
    (Json.presentOr_of_sorted_eq (get key) (.arr []))).mapError Error.conversion
  rw [Decoded.ofFields, Decoded.ofFields]
  refine (items "sources").bind fun sources sources' hs => ?_
  refine (items "names").bind fun names names' hn => ?_
  refine (items "sourcesContent").bind fun _ _ _ => ?_
  have lengths {f g : Json → Text} : (sources.map f).length = (sources'.map g).length := by
    rw [List.length_map, List.length_map, hs]
  have counts : (names.map Json.shown).length = (names'.map Json.shown).length := by
    rw [List.length_map, List.length_map, hn]
  refine Agree.bind (R := fun a b => a.map Mapping.places = b.map Mapping.places) ?_
    fun ms ms' same => .ok (by simpa using same)
  rcases shown_of_sorted_eq (Json.presentOr_of_sorted_eq (get "mappings") (.str "")) with
    same | ⟨c, s, t, start, first, second⟩
  · rw [same]
    exact agree_readMappings lengths counts _
  · -- a list or an object is no mappings text
    rw [first, second]
    have bad : Vlq.digit? c = none ∧ c ≠ .char ',' ∧ c ≠ .char ';' := by
      rcases start with rfl | rfl <;> decide
    rw [readMappings_bad bad.1 bad.2.1 bad.2.2, readMappings_bad bad.1 bad.2.1 bad.2.2]
    exact .error _

/-- An object without repeated names is taken as a map with its own fields, if it is one. -/
theorem load_obj {fields : Json.Fields} (nodup : fields.keys.Nodup) :
    load (.obj fields) =
      (if (Json.Fields.get? "sections" fields).isSome then .error .indexed
      else do
        let version := (Json.Fields.get? "version" fields).getD (.int 3)
        let n ← converted version.toInteger
        if n ≠ 3 then .error (.version version.shown) else .ok fields) := by
  have own : Json.Entries.toFields (fields.map fun f => (.str f.1, f.2)) = fields :=
    Json.toFields_obj nodup
  have entries : entriesOf (.obj fields) = .ok (fields.map fun f => (.str f.1, f.2)) := rfl
  rw [load, loadEntries, entries]
  simp only [bind, Except.bind, own]
  by_cases sections : (Json.Fields.get? "sections" fields).isSome
  · simp only [if_pos sections]
  · simp only [if_neg sections]
    cases converted ((Json.Fields.get? "version" fields).getD (.int 3)).toInteger with
    | error e => rfl
    | ok n =>
      by_cases known : n ≠ 3
      · simp only [if_pos known]
      · simp only [if_neg known]
        exact congrArg Except.ok own

/-- Objects that are alike are both taken as maps, with their own fields, or neither is. -/
theorem agree_load {fields fields' : Json.Fields}
    (h : (Json.obj fields).sorted = (Json.obj fields').sorted)
    (hs : (Json.obj fields').isStorable) :
    Agree (fun a b => a = fields ∧ b = fields') (load (.obj fields)) (load (.obj fields')) := by
  have hs' := Json.isStorable_of_sorted_eq h hs
  have field (key : Text) : (Json.Fields.get? key fields).map Json.sorted =
      (Json.Fields.get? key fields').map Json.sorted := by
    have := congrArg (Json.field? key) h
    rwa [Json.field?_sorted hs', Json.field?_sorted hs] at this
  have sections : (Json.Fields.get? "sections" fields).isSome =
      (Json.Fields.get? "sections" fields').isSome := by
    simpa using congrArg Option.isSome (field "sections")
  have version : ((Json.Fields.get? "version" fields).getD (.int 3)).sorted =
      ((Json.Fields.get? "version" fields').getD (.int 3)).sorted := by
    have sorted (v : Option Json) : (v.getD (.int 3)).sorted = (v.map Json.sorted).getD (.int 3) := by
      cases v <;> rfl
    rw [sorted, field "version", sorted]
  rw [load_obj (Json.nodup_of_isStorable hs'), load_obj (Json.nodup_of_isStorable hs), sections]
  split
  · exact .error _
  · have integer := congrArg Json.toInteger version
    rw [Json.toInteger_sorted, Json.toInteger_sorted] at integer
    simp only [integer]
    cases known : ((Json.Fields.get? "version" fields').getD (.int 3)).toInteger with
    | error e => exact .error _
    | ok n =>
      rw [Json.eq_of_toInteger version known]
      simp only [converted, Except.mapError, bind, Except.bind]
      split
      · exact .error _
      · exact .ok ⟨rfl, rfl⟩

/-- The composed map is the same for later maps that are alike. -/
theorem agree_composeFields {fields fields' : Json.Fields}
    (h : (Json.obj fields).sorted = (Json.obj fields').sorted)
    (hs : (Json.obj fields').isStorable) (earlier : Json) :
    Agree Eq (composeFields (.obj fields) earlier) (composeFields (.obj fields') earlier) := by
  rw [composeFields, composeFields]
  refine (Agree.of_eq rfl).bind ?_
  rintro earlierFields _ rfl
  have later : Agree (fun a b =>
      a.mappings.toList.map Mapping.places = b.mappings.toList.map Mapping.places)
      (Decoded.ofJson (.obj fields)) (Decoded.ofJson (.obj fields')) := by
    refine (agree_load h hs).bind ?_
    rintro _ _ ⟨rfl, rfl⟩
    exact agree_ofFields h hs
  refine later.bind fun a b same => ?_
  refine Agree.of_eq ?_
  simp only [follow_congr same]

/-- **Composing a map that has its fields in another order** gives the same up to that order. -/
theorem agree_compose {later later' : Json} (h : later.sorted = later'.sorted)
    (hs : later'.isStorable) (noList : ∀ items, later' ≠ .arr items) (earlier : Option Json) :
    Agree (fun a b => a.map Json.sorted = b.map Json.sorted)
      (compose (some later) earlier) (compose (some later') earlier) := by
  rcases Json.eq_or_compound h with rfl | ⟨_, others, _, rfl⟩ | ⟨fields, fields', rfl, rfl⟩
  · exact (Agree.of_eq rfl).mono (by rintro a _ rfl; rfl)
  · exact absurd rfl (noList others)
  · cases earlier with
    | none =>
      refine (agree_load h hs).bind ?_
      rintro _ _ ⟨rfl, rfl⟩
      exact .ok (congrArg some h)
    | some e =>
      refine (agree_composeFields h hs e).bind ?_
      rintro composed _ rfl
      exact .ok rfl

end SourceMap

end Componentry
