import Componentry.Proofs.SourceMap.Compose

/-!
# Looking up in two steps

A composed map answers a lookup with what the later map and then the earlier map answer. Its mappings
are those of the later map that lead somewhere in the earlier one, each once. Between two of them the
later map may have had others that were dropped, so the answer at a place is only that of two steps
where the later map's own answer is led on, and is the only mapping at its position.
-/

namespace Componentry.SourceMap

/-! ## Maps that were read -/

/-- Mappings that are read in order stay as they are. -/
theorem readMappings_of_pairwise {sources names : List Text} {text : Text} {ms : List Mapping}
    (read : readLines sources names 1 {} (Text.splitOn ';' text) = .ok ms)
    (sorted : ms.Pairwise fun a b => atOrBefore a.generated b.generated) :
    readMappings sources names text = .ok ms := by
  rw [readMappings, read]
  exact congrArg Except.ok (List.mergeSort_of_pairwise sorted)

theorem pairwise_readMappings {sources names : List Text} {text : Text} {ms : List Mapping}
    (read : readMappings sources names text = .ok ms) :
    ms.Pairwise fun a b => atOrBefore a.generated b.generated := by
  rw [readMappings] at read
  cases lines : readLines sources names 1 {} (Text.splitOn ';' text) with
  | error e => simp [lines, bind, Except.bind] at read
  | ok unsorted =>
    simp only [lines, bind, Except.bind, pure, Except.pure, Except.ok.injEq] at read
    subst read
    refine List.pairwise_mergeSort ?_ ?_ unsorted
    · intro a b c hab hbc
      exact atOrBefore_trans hab hbc
    · intro a b
      rw [Bool.or_eq_true, atOrBefore_iff, atOrBefore_iff]
      omega

/-- **What is read is in order.** -/
theorem Decoded.ordered_of_ofFields {fields : Json.Fields} {d : Decoded}
    (read : ofFields fields = .ok d) : d.Ordered := by
  simp only [ofFields, bind, Except.bind] at read
  repeat' split at read
  all_goals try cases read
  exact pairwise_readMappings ‹_›

theorem Decoded.exists_load_of_ofJson {raw : Json} {d : Decoded} (read : ofJson raw = .ok d) :
    ∃ fields, load raw = .ok fields ∧ ofFields fields = .ok d := by
  rw [ofJson] at read
  cases loaded : load raw with
  | error e => simp [loaded, bind, Except.bind] at read
  | ok fields => exact ⟨fields, rfl, by simpa [loaded, bind, Except.bind] using read⟩

/-- A place that is answered for is in range. -/
theorem Decoded.Ordered.valid_of_nearest? {d : Decoded} (ordered : d.Ordered)
    (inRange : ∀ m ∈ d.mappings.toList, m.InRange) {p : Position} {m : Mapping}
    (answer : d.nearest? p = some m) : p.valid := by
  obtain ⟨mem, line, before, -⟩ := ordered.of_nearest? answer
  have valid := (inRange m mem).1
  rw [atOrBefore_iff] at before
  simp only [Position.valid, Bool.and_eq_true, decide_eq_true_eq] at valid ⊢
  omega

/-! ## Each mapping once -/

/-- A sorted list without equal neighbours has nothing twice. -/
theorem nodup_of_isChain {α : Type} {R : α → α → Prop} {xs : List α}
    (anti : ∀ a ∈ xs, ∀ b ∈ xs, R a b → R b a → a = b) (sorted : xs.Pairwise R)
    (chain : xs.IsChain (· ≠ ·)) : xs.Nodup := by
  induction xs with
  | nil => exact .nil
  | cons a rest ih =>
    cases rest with
    | nil => simp
    | cons b rest =>
      rw [List.isChain_cons_cons] at chain
      rw [List.pairwise_cons] at sorted
      have anti' : ∀ x ∈ b :: rest, ∀ y ∈ b :: rest, R x y → R y x → x = y := fun x hx y hy =>
        anti x (List.mem_cons_of_mem _ hx) y (List.mem_cons_of_mem _ hy)
      refine List.nodup_cons.mpr ⟨fun again => ?_, ih anti' sorted.2 chain.2⟩
      -- A second `a` would come after `b` and before it.
      have first : R a b := sorted.1 b (List.mem_cons_self ..)
      rcases List.mem_cons.mp again with rfl | later
      · exact chain.1 rfl
      · have back : R b a := List.rel_of_pairwise_cons sorted.2 later
        exact chain.1 (anti a (List.mem_cons_self ..) b (by simp) first back)

/-- Has the mapping a source and no name? -/
def Mapping.IsPlain (m : Mapping) : Prop := m.origin.isSome ∧ m.name = none

/-- The order tells mappings with a source and without a name apart. -/
theorem Mapping.IsPlain.eq_of_isLE {a b : Mapping} (ha : a.IsPlain) (hb : b.IsPlain)
    (hab : (Draft.compareMappings a b).isLE) (hba : (Draft.compareMappings b a).isLE) : a = b := by
  have swap : Draft.compareMappings b a = (Draft.compareMappings a b).swap := Std.OrientedCmp.eq_swap
  have same : Draft.compareMappings a b = .eq := by
    rw [swap] at hba
    cases h : Draft.compareMappings a b <;> simp_all
  obtain ⟨⟨line, column⟩, origin, name⟩ := a
  obtain ⟨⟨line', column'⟩, origin', name'⟩ := b
  obtain ⟨some_, rfl⟩ := ha
  obtain ⟨some_', rfl⟩ := hb
  obtain ⟨⟨source, ⟨l, c⟩⟩, rfl⟩ := Option.isSome_iff_exists.mp some_
  obtain ⟨⟨source', ⟨l', c'⟩⟩, rfl⟩ := Option.isSome_iff_exists.mp some_'
  simp only [Draft.compareMappings, Ordering.then_eq_eq, Option.map_some, Option.getD_some,
    Std.compare_eq_iff_eq] at same
  obtain ⟨rfl, rfl, rfl, rfl, rfl, -⟩ := same
  rfl

/-- A draft whose mappings have sources and no names is read with its own mappings. -/
theorem Draft.toList_decoded_of_plain {d : Draft} (plain : ∀ m ∈ d.mappings.toList, m.IsPlain) :
    d.decoded.mappings.toList = d.sortedMappings.destutter (· ≠ ·) := by
  refine (List.map_congr_left fun m hm => ?_).trans (List.map_id _)
  obtain ⟨g, origin, name⟩ := m
  obtain ⟨-, rfl⟩ := plain _ (mem_sortedMappings.mp (mem_destutter_ne.mp hm))
  cases origin <;> rfl

/-- A draft whose mappings have sources and no names is read with each of them once. -/
theorem Draft.nodup_decoded {d : Draft} (plain : ∀ m ∈ d.mappings.toList, m.IsPlain) :
    d.decoded.mappings.toList.Nodup := by
  have plain' : ∀ m ∈ d.sortedMappings.destutter (· ≠ ·), m.IsPlain := fun m hm =>
    plain m (mem_sortedMappings.mp (mem_destutter_ne.mp hm))
  rw [toList_decoded_of_plain plain]
  exact nodup_of_isChain (fun a ha b hb => (plain' a ha).eq_of_isLE (plain' b hb))
    (d.pairwise_sortedMappings.sublist (List.destutter_sublist _ _)) (List.isChain_destutter _ _)

/-! ## Two steps -/

theorem Mapping.led_eq_some_iff {e : Decoded} {m m' : Mapping} :
    m.led e = some m' ↔ ∃ o origin name, m.origin = some o ∧
      e.locate o.position = .ok (some (origin, name)) ∧ m' = ⟨m.generated, some origin, none⟩ := by
  rw [led, Option.bind_eq_some_iff]
  constructor
  · rintro ⟨o, origin, found⟩
    split at found
    next origin' name answer => exact ⟨o, origin', name, origin, answer, (Option.some.inj found).symm⟩
    next => cases found
  · rintro ⟨o, origin, name, from_, answer, rfl⟩
    exact ⟨o, from_, by simp only [answer]⟩

/-- A draft with the mappings that are led on is read as just these. -/
theorem Draft.mem_decoded_led {d : Draft} {l e : Decoded}
    (mappings : d.mappings.toList = l.mappings.toList.filterMap (Mapping.led e)) {m' : Mapping} :
    m' ∈ d.decoded.mappings.toList ↔ ∃ m ∈ l.mappings.toList, m.led e = some m' := by
  rw [mem_decoded, mappings]
  simp only [List.mem_filterMap]
  constructor
  · rintro ⟨m'', ⟨m, hm, led⟩, rfl⟩
    obtain ⟨o, origin, name, -, -, rfl⟩ := Mapping.led_eq_some_iff.mp led
    exact ⟨m, hm, led⟩
  · rintro ⟨m, hm, led⟩
    obtain ⟨o, origin, name, -, -, rfl⟩ := Mapping.led_eq_some_iff.mp led
    exact ⟨_, ⟨m, hm, led⟩, rfl⟩

/-- Where the later map's answer is led on and is alone at its position, it answers for the place in
the composed map, too: what was dropped did not stand between them. -/
theorem nearest?_led {d l e : Decoded} (ordered : d.Ordered) (ordered' : l.Ordered)
    (led : ∀ m', m' ∈ d.mappings.toList ↔ ∃ m ∈ l.mappings.toList, m.led e = some m')
    {p : Position} {m m' : Mapping} (answer : l.nearest? p = some m)
    (alone : ∀ x ∈ l.mappings.toList, x.generated = m.generated → x = m)
    (on : m.led e = some m') : d.nearest? p = some m' := by
  obtain ⟨hm, line, before, greatest⟩ := ordered'.of_nearest? answer
  have same := Mapping.generated_of_led on
  have hm' : m' ∈ d.mappings.toList := (led m').mpr ⟨m, hm, on⟩
  rcases ordered.nearest?_cases p with ⟨none_, -⟩ | ⟨_, x, _, split, -, before', greatest', found⟩
  · exact absurd (same ▸ before) (none_ m' hm')
  · -- The composed map's answer comes from a mapping at the position of `m`, and so from `m`.
    obtain ⟨y, hy, ony⟩ := (led x).mp (by simp [split])
    have samey := Mapping.generated_of_led ony
    have upTo : atOrBefore x.generated m.generated := by
      rw [samey] at before' ⊢
      exact greatest y hy before'
    have from_ : atOrBefore m.generated x.generated := by
      rw [← same] at before ⊢
      exact greatest' m' hm' before
    have at_ : x.generated = m.generated := atOrBefore_antisymm upTo from_
    obtain rfl : y = m := alone y hy (samey.symm.trans at_)
    obtain rfl : x = m' := Option.some.inj (ony.symm.trans on)
    rw [found, Option.filter_some, same, line]
    simp

/-- **A composed map looks up in two steps.** Composing two maps that can be read, with all places in
range and the texts of the earlier one's sources, if any, in a list, gives a map that can be read.
Its mappings are those of the later map whose origins the earlier map answers for, led on to the
answers, each once and without names. Looking a place up in it gives what the earlier map answers
for the later map's answer, wherever that is led on and comes from the only mapping at its
position. -/
theorem compose_two_steps {later earlier : Json} {l e : Decoded}
    (readLater : Decoded.ofJson later = .ok l) (readEarlier : Decoded.ofJson earlier = .ok e)
    (lists : ∀ fields, load earlier = .ok fields → ListsContents fields)
    (hlater : ∀ m ∈ l.mappings.toList, m.InRange) (hearlier : ∀ m ∈ e.mappings.toList, m.InRange) :
    ∃ composed d, compose (some later) (some earlier) = .ok (some composed) ∧
      Decoded.ofJson composed = .ok d ∧ d.mappings.toList.Nodup ∧
      (∀ m', m' ∈ d.mappings.toList ↔ ∃ m ∈ l.mappings.toList, ∃ o origin name,
        m.origin = some o ∧ e.locate o.position = .ok (some (origin, name)) ∧
          m' = ⟨m.generated, some origin, none⟩) ∧
      ∀ p m o origin name, l.nearest? p = some m →
        (∀ x ∈ l.mappings.toList, x.generated = m.generated → x = m) →
        m.origin = some o → e.locate o.position = .ok (some (origin, name)) →
        l.locate p = .ok (some (o, m.name)) ∧ d.locate p = .ok (some (origin, none)) := by
  obtain ⟨fields, loaded, readFields⟩ := Decoded.exists_load_of_ofJson readEarlier
  obtain ⟨_, -, readLater'⟩ := Decoded.exists_load_of_ofJson readLater
  have ordered := Decoded.ordered_of_ofFields readLater'
  obtain ⟨d, composed, mappings⟩ :=
    exists_compose readLater loaded readFields (lists fields loaded) hlater hearlier
  have led : ∀ m', m' ∈ d.decoded.mappings.toList ↔
      ∃ m ∈ l.mappings.toList, m.led e = some m' := fun m' => Draft.mem_decoded_led mappings
  have plain : ∀ m' ∈ d.mappings.toList, m'.IsPlain ∧ 1 ≤ m'.generated.line := by
    intro m' hm'
    rw [mappings] at hm'
    obtain ⟨m, hm, on⟩ := List.mem_filterMap.mp hm'
    obtain ⟨o, origin, name, -, -, rfl⟩ := Mapping.led_eq_some_iff.mp on
    exact ⟨⟨rfl, rfl⟩, of_decide_eq_true (Bool.and_eq_true_iff.mp (hlater m hm).1).1⟩
  refine ⟨d.toJson, d.decoded, composed, Draft.ofJson_toJson fun m hm => (plain m hm).2,
    Draft.nodup_decoded fun m hm => (plain m hm).1, ?_, ?_⟩
  · intro m'
    simp only [led, Mapping.led_eq_some_iff]
  · intro p m o origin name answer alone ho located
    have valid := ordered.valid_of_nearest? hlater answer
    have on : m.led e = some ⟨m.generated, some origin, none⟩ :=
      Mapping.led_eq_some_iff.mpr ⟨o, origin, name, ho, located, rfl⟩
    have answer' := nearest?_led d.ordered_decoded ordered led answer alone on
    constructor
    · rw [Decoded.locate, if_pos valid, answer, Option.bind_some, ho, Option.map_some]
    · rw [Decoded.locate, if_pos valid, answer']
      rfl

/-- A map of one source on one line. -/
def lineMap (source mappings : Text) : Json :=
  .obj [("version", .int 3), ("sources", .arr [.str source]), ("mappings", .str mappings)]

/-- A map of one line is read as its segments, if they are in order. -/
theorem ofJson_lineMap {source mappings : Text} {ms : List Mapping}
    (read : readLines [source] [] 1 {} (Text.splitOn ';' mappings) = .ok ms)
    (sorted : ms.Pairwise fun a b => atOrBefore a.generated b.generated) (some_ : mappings ≠ []) :
    Decoded.ofJson (lineMap source mappings) = .ok ⟨.null, [source], [], [], ms.toArray⟩ := by
  obtain ⟨c, rest, rfl⟩ := List.exists_cons_of_ne_nil some_
  have given : readMappings [source] [] (c :: rest) = .ok ms := readMappings_of_pairwise read sorted
  show (readMappings [source] [] (c :: rest) >>= fun ms =>
    .ok (⟨.null, [source], [], [], ms.toArray⟩ : Decoded)) = _
  rw [given]
  rfl

/-- The second of three segments leads nowhere and is dropped; a place behind the third is looked up
in two steps. -/
theorem locate_composed_behind_dropped :
    ∃ composed d, compose (some (lineMap "b.js" "AAAA,EACA,EADG")) (some (lineMap "a.js" "AAIO,EACN")) =
        .ok (some composed) ∧ Decoded.ofJson composed = .ok d ∧ d.mappings.toList.Nodup ∧
      d.locate ⟨1, 6⟩ = .ok (some (⟨"a.js", ⟨6, 1⟩⟩, none)) := by
  have later : Decoded.ofJson (lineMap "b.js" "AAAA,EACA,EADG") = .ok ⟨.null, ["b.js"], [], [],
      #[⟨⟨1, 0⟩, some ⟨"b.js", ⟨1, 0⟩⟩, none⟩, ⟨⟨1, 2⟩, some ⟨"b.js", ⟨2, 0⟩⟩, none⟩,
        ⟨⟨1, 4⟩, some ⟨"b.js", ⟨1, 3⟩⟩, none⟩]⟩ :=
    ofJson_lineMap rfl (by decide) (by decide)
  have earlier : Decoded.ofJson (lineMap "a.js" "AAIO,EACN") = .ok ⟨.null, ["a.js"], [], [],
      #[⟨⟨1, 0⟩, some ⟨"a.js", ⟨5, 7⟩⟩, none⟩, ⟨⟨1, 2⟩, some ⟨"a.js", ⟨6, 1⟩⟩, none⟩]⟩ :=
    ofJson_lineMap rfl (by decide) (by decide)
  have lists : ∀ fields, load (lineMap "a.js" "AAIO,EACN") = .ok fields → ListsContents fields := by
    rintro fields ⟨⟩ contents found
    cases found
  obtain ⟨composed, d, result, read, nodup, -, twice⟩ :=
    compose_two_steps later earlier lists (by decide) (by decide)
  refine ⟨composed, d, result, read, nodup, ?_⟩
  exact (twice ⟨1, 6⟩ ⟨⟨1, 4⟩, some ⟨"b.js", ⟨1, 3⟩⟩, none⟩ ⟨"b.js", ⟨1, 3⟩⟩ ⟨"a.js", ⟨6, 1⟩⟩ none
    (by decide) (by decide) rfl rfl).2

end Componentry.SourceMap
