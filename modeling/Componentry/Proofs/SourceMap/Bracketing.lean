import Componentry.Proofs.SourceMap.TwoSteps

/-!
# Composing three maps

Three maps in a row can be composed from either end. The two ways drop mappings at different moments
and read and write different maps in between, but where every mapping of the middle map is led on
and has its generated position for itself, they come to the same mappings: looking a place up in the
middle map and leading the answer on is the same as looking it up in the composition of the middle
map and the earliest one.
-/

namespace Componentry.SourceMap

/-! ## Mappings that are led on -/

theorem Mapping.inRange_of_led {e : Decoded} {m m' : Mapping} (hm : m.InRange)
    (he : ∀ x ∈ e.mappings.toList, x.InRange) (on : m.led e = some m') : m'.InRange := by
  obtain ⟨o, origin, name, -, answer, rfl⟩ := led_eq_some_iff.mp on
  refine ⟨hm.1, ?_⟩
  rintro _ ⟨⟩
  exact Decoded.valid_of_locate he answer

namespace Draft

variable {d : Draft} {l e : Decoded}

theorem isPlain_of_led (mappings : d.mappings.toList = l.mappings.toList.filterMap (Mapping.led e)) :
    ∀ m ∈ d.mappings.toList, m.IsPlain := by
  intro m' hm'
  rw [mappings] at hm'
  obtain ⟨m, -, on⟩ := List.mem_filterMap.mp hm'
  obtain ⟨o, origin, name, -, -, rfl⟩ := Mapping.led_eq_some_iff.mp on
  exact ⟨rfl, rfl⟩

theorem inRange_of_led (mappings : d.mappings.toList = l.mappings.toList.filterMap (Mapping.led e))
    (hl : ∀ m ∈ l.mappings.toList, m.InRange) (he : ∀ m ∈ e.mappings.toList, m.InRange) :
    ∀ m ∈ d.mappings.toList, m.InRange := by
  intro m' hm'
  rw [mappings] at hm'
  obtain ⟨m, hm, on⟩ := List.mem_filterMap.mp hm'
  exact Mapping.inRange_of_led (hl m hm) he on

end Draft

/-- No place is answered for where no mapping stands on its line up to it. -/
theorem Decoded.Ordered.nearest?_eq_none_iff {d : Decoded} (ordered : d.Ordered) {p : Position} :
    d.nearest? p = none ↔
      ∀ x ∈ d.mappings.toList, x.generated.line = p.line → ¬ atOrBefore x.generated p := by
  rcases ordered.nearest?_cases p with
    ⟨after, none_⟩ | ⟨front, m, back, split, -, before, greatest, answer⟩
  · exact iff_of_true none_ fun x hx _ => after x hx
  · have hm : m ∈ d.mappings.toList := by simp [split]
    rw [answer, Option.filter_eq_none_iff]
    constructor
    · -- The greatest position up to the place is on an earlier line, and so are the others.
      intro elsewhere x hx line upTo
      have last := greatest x hx upTo
      have other : m.generated.line ≠ p.line := by simpa using elsewhere m rfl
      rw [atOrBefore_iff] at before last
      omega
    · rintro nowhere _ ⟨⟩ line
      exact nowhere m hm (by simpa using line) before

/-! ## The middle map and the composed one -/

section Middle

variable {l e d : Decoded}

/-- If every mapping is led on and has its position for itself, looking a place up in the composed
map is looking it up in the later map and leading the answer on. -/
theorem nearest?_composed (ordered : d.Ordered) (ordered' : l.Ordered)
    (led : ∀ m', m' ∈ d.mappings.toList ↔ ∃ m ∈ l.mappings.toList, m.led e = some m')
    (resolves : ∀ m ∈ l.mappings.toList, (m.led e).isSome)
    (apart : ∀ x ∈ l.mappings.toList, ∀ y ∈ l.mappings.toList, x.generated = y.generated → x = y)
    (p : Position) : d.nearest? p = (l.nearest? p).bind (Mapping.led e) := by
  cases answer : l.nearest? p with
  | none =>
    rw [ordered'.nearest?_eq_none_iff] at answer
    rw [Option.bind_none, ordered.nearest?_eq_none_iff]
    intro x hx line
    obtain ⟨y, hy, on⟩ := (led x).mp hx
    rw [Mapping.generated_of_led on] at line ⊢
    exact answer y hy line
  | some m =>
    have hm := (ordered'.of_nearest? answer).1
    obtain ⟨m', on⟩ := Option.isSome_iff_exists.mp (resolves m hm)
    rw [Option.bind_some, on]
    exact nearest?_led ordered ordered' led answer (fun x hx => apart x hx m hm) on

/-- A mapping is led on by the mapping that answers for its origin. -/
theorem Mapping.led_eq (m : Mapping) : m.led e = m.origin.bind fun o =>
    if o.position.valid then (e.nearest? o.position).bind fun x =>
      x.origin.map fun origin => ⟨m.generated, some origin, none⟩
    else none := by
  rw [led]
  congr 1
  funext o
  rw [Decoded.locate]
  by_cases valid : o.position.valid
  · simp only [valid, if_true]
    cases e.nearest? o.position with
    | none => rfl
    | some x => cases hx : x.origin <;> simp [hx]
  · simp only [valid]
    rfl

/-- Leading a mapping on through two maps, one after the other, is leading it on through the
composed map. -/
theorem Mapping.led_composed
    (composed : ∀ p, d.nearest? p = (l.nearest? p).bind (Mapping.led e))
    (resolves : ∀ m ∈ l.mappings.toList, (m.led e).isSome) (m : Mapping) :
    m.led d = (m.led l).bind (Mapping.led e) := by
  rw [m.led_eq, m.led_eq]
  cases m.origin with
  | none => rfl
  | some o =>
    simp only [Option.bind_some]
    by_cases valid : o.position.valid
    · simp only [valid, if_true, composed]
      cases answer : l.nearest? o.position with
      | none => rfl
      | some x =>
        -- What answers in the middle is itself led on, to the place where the mapping comes out.
        obtain ⟨x', on⟩ := Option.isSome_iff_exists.mp (resolves x (Decoded.mem_of_nearest? answer))
        obtain ⟨o', origin, name, from_, located, rfl⟩ := led_eq_some_iff.mp on
        have on' : Mapping.led e ⟨m.generated, some o', none⟩ =
            some ⟨m.generated, some origin, none⟩ :=
          led_eq_some_iff.mpr ⟨o', origin, name, rfl, located, rfl⟩
        simp [on, from_, on']
    · simp [valid]

end Middle

/-! ## Three maps -/

/-- Drafts with the same mappings, all with sources and without names, are read alike. -/
theorem Draft.mappings_decoded_congr {d d' : Draft} (plain : ∀ m ∈ d.mappings.toList, m.IsPlain)
    (plain' : ∀ m ∈ d'.mappings.toList, m.IsPlain)
    (same : ∀ m, m ∈ d.decoded.mappings.toList ↔ m ∈ d'.decoded.mappings.toList) :
    d.decoded.mappings = d'.decoded.mappings := by
  have sorted : ∀ {x : Draft}, (∀ m ∈ x.mappings.toList, m.IsPlain) →
      x.decoded.mappings.toList.Pairwise fun a b => (compareMappings a b).isLE := by
    intro x hx
    rw [toList_decoded_of_plain hx]
    exact x.pairwise_sortedMappings.sublist (List.destutter_sublist _ _)
  have isPlain : ∀ {x : Draft}, (∀ m ∈ x.mappings.toList, m.IsPlain) →
      ∀ m ∈ x.decoded.mappings.toList, m.IsPlain := by
    intro x hx m hm
    rw [toList_decoded_of_plain hx] at hm
    exact hx m (mem_sortedMappings.mp (mem_destutter_ne.mp hm))
  have perm : d.decoded.mappings.toList.Perm d'.decoded.mappings.toList :=
    (List.perm_ext_iff_of_nodup (nodup_decoded plain) (nodup_decoded plain')).mpr same
  refine Array.toList_inj.mp (perm.eq_of_pairwise ?_ (sorted plain) (sorted plain'))
  intro a b ha hb
  exact (isPlain plain a ha).eq_of_isLE (isPlain plain' b hb)

/-- **Any bracketing of composed maps agrees.** Three maps that can be read, with all places in range
and texts of sources in lists, are composed from either end. If every mapping of the middle map has a
source and is answered for by the last, and no two of them share a generated position, both ways
succeed and give maps with the same mappings: those of the first map that lead on through both of the
others. -/
theorem compose_bracketing {first second third : Json} {a b c : Decoded}
    (readFirst : Decoded.ofJson first = .ok a) (readSecond : Decoded.ofJson second = .ok b)
    (readThird : Decoded.ofJson third = .ok c)
    (listsSecond : ∀ fields, load second = .ok fields → ListsContents fields)
    (listsThird : ∀ fields, load third = .ok fields → ListsContents fields)
    (hfirst : ∀ m ∈ a.mappings.toList, m.InRange) (hsecond : ∀ m ∈ b.mappings.toList, m.InRange)
    (hthird : ∀ m ∈ c.mappings.toList, m.InRange)
    (resolves : ∀ m ∈ b.mappings.toList, ∃ o origin name,
      m.origin = some o ∧ c.locate o.position = .ok (some (origin, name)))
    (apart : b.mappings.toList.Pairwise fun x y => x.generated ≠ y.generated) :
    ∃ front back left right l r,
      compose (some first) (some second) = .ok (some front) ∧
      compose (some front) (some third) = .ok (some left) ∧
      compose (some second) (some third) = .ok (some back) ∧
      compose (some first) (some back) = .ok (some right) ∧
      Decoded.ofJson left = .ok l ∧ Decoded.ofJson right = .ok r ∧ l.mappings = r.mappings ∧
      ∀ m', m' ∈ l.mappings.toList ↔
        ∃ m ∈ a.mappings.toList, ∃ m₁, m.led b = some m₁ ∧ m₁.led c = some m' := by
  obtain ⟨fields₂, loaded₂, readFields₂⟩ := Decoded.exists_load_of_ofJson readSecond
  obtain ⟨fields₃, loaded₃, readFields₃⟩ := Decoded.exists_load_of_ofJson readThird
  -- From the front: the first two maps, and then the third.
  obtain ⟨d₁, front, mappings₁⟩ :=
    exists_compose readFirst loaded₂ readFields₂ (listsSecond fields₂ loaded₂) hfirst hsecond
  have range₁ := Draft.inRange_of_led mappings₁ hfirst hsecond
  have read₁ := Draft.ofJson_toJson (Draft.lines_of_inRange range₁)
  obtain ⟨d₂, left, mappings₂⟩ := exists_compose read₁ loaded₃ readFields₃
    (listsThird fields₃ loaded₃) (Draft.inRange_decoded range₁) hthird
  have range₂ := Draft.inRange_of_led mappings₂ (Draft.inRange_decoded range₁) hthird
  -- From the back: the last two maps, and the first with what they come to.
  obtain ⟨d₃, back, mappings₃⟩ :=
    exists_compose readSecond loaded₃ readFields₃ (listsThird fields₃ loaded₃) hsecond hthird
  have range₃ := Draft.inRange_of_led mappings₃ hsecond hthird
  obtain ⟨d₄, right, mappings₄⟩ := exists_compose readFirst (Draft.load_toJson d₃)
    (Draft.ofFields_toFields range₃) d₃.listsContents hfirst (Draft.inRange_decoded range₃)
  have range₄ := Draft.inRange_of_led mappings₄ hfirst (Draft.inRange_decoded range₃)
  have on : ∀ m ∈ b.mappings.toList, (m.led c).isSome := by
    intro m hm
    obtain ⟨o, origin, name, from_, answer⟩ := resolves m hm
    exact Option.isSome_iff_exists.mpr
      ⟨_, Mapping.led_eq_some_iff.mpr ⟨o, origin, name, from_, answer, rfl⟩⟩
  have alone : ∀ x ∈ b.mappings.toList, ∀ y ∈ b.mappings.toList, x.generated = y.generated → x = y := by
    have distinct : (b.mappings.toList.map Mapping.generated).Nodup := List.pairwise_map.mpr apart
    intro x hx y hy same
    exact List.inj_on_of_nodup_map distinct hx hy same
  have ordered := Decoded.ordered_of_ofFields readFields₂
  have both : ∀ m : Mapping, m.led d₃.decoded = (m.led b).bind (Mapping.led c) :=
    Mapping.led_composed (nearest?_composed d₃.ordered_decoded ordered
      (fun m' => Draft.mem_decoded_led mappings₃) on alone) on
  have through : ∀ m', m' ∈ d₂.decoded.mappings.toList ↔
      ∃ m ∈ a.mappings.toList, ∃ m₁, m.led b = some m₁ ∧ m₁.led c = some m' := by
    intro m'
    rw [Draft.mem_decoded_led mappings₂]
    simp only [Draft.mem_decoded_led mappings₁]
    constructor
    · rintro ⟨m₁, ⟨m, hm, led⟩, led'⟩
      exact ⟨m, hm, m₁, led, led'⟩
    · rintro ⟨m, hm, m₁, led, led'⟩
      exact ⟨m₁, ⟨m, hm, led⟩, led'⟩
  refine ⟨_, _, _, _, _, _, front, left, back, right,
    Draft.ofJson_toJson (Draft.lines_of_inRange range₂),
    Draft.ofJson_toJson (Draft.lines_of_inRange range₄),
    Draft.mappings_decoded_congr (Draft.isPlain_of_led mappings₂) (Draft.isPlain_of_led mappings₄)
      fun m' => ?_, through⟩
  rw [through, Draft.mem_decoded_led mappings₄]
  simp only [both, Option.bind_eq_some_iff]

/-- The second of the first map's three segments leads nowhere in the second map: it is dropped at
once if these two are composed first, and last if the other two are. The other two segments are kept
either way, and lead to different lines of the last source. -/
theorem compose_bracketing_dropped :
    ∃ front back left right l r,
      compose (some (lineMap "b.js" "AAAA,EACA,EADG")) (some (lineMap "a.js" "AAIO,EACN")) =
        .ok (some front) ∧
      compose (some front) (some (lineMap "c.js" ";;;;AAAA;AACA")) = .ok (some left) ∧
      compose (some (lineMap "a.js" "AAIO,EACN")) (some (lineMap "c.js" ";;;;AAAA;AACA")) =
        .ok (some back) ∧
      compose (some (lineMap "b.js" "AAAA,EACA,EADG")) (some back) = .ok (some right) ∧
      Decoded.ofJson left = .ok l ∧ Decoded.ofJson right = .ok r ∧ l.mappings = r.mappings ∧
      ∀ m, m ∈ l.mappings.toList ↔ m = ⟨⟨1, 0⟩, some ⟨"c.js", ⟨1, 0⟩⟩, none⟩ ∨
        m = ⟨⟨1, 4⟩, some ⟨"c.js", ⟨2, 0⟩⟩, none⟩ := by
  have first : Decoded.ofJson (lineMap "b.js" "AAAA,EACA,EADG") = .ok ⟨.null, ["b.js"], [], [],
      #[⟨⟨1, 0⟩, some ⟨"b.js", ⟨1, 0⟩⟩, none⟩, ⟨⟨1, 2⟩, some ⟨"b.js", ⟨2, 0⟩⟩, none⟩,
        ⟨⟨1, 4⟩, some ⟨"b.js", ⟨1, 3⟩⟩, none⟩]⟩ :=
    ofJson_lineMap rfl (by decide) (by decide)
  have second : Decoded.ofJson (lineMap "a.js" "AAIO,EACN") = .ok ⟨.null, ["a.js"], [], [],
      #[⟨⟨1, 0⟩, some ⟨"a.js", ⟨5, 7⟩⟩, none⟩, ⟨⟨1, 2⟩, some ⟨"a.js", ⟨6, 1⟩⟩, none⟩]⟩ :=
    ofJson_lineMap rfl (by decide) (by decide)
  have third : Decoded.ofJson (lineMap "c.js" ";;;;AAAA;AACA") = .ok ⟨.null, ["c.js"], [], [],
      #[⟨⟨5, 0⟩, some ⟨"c.js", ⟨1, 0⟩⟩, none⟩, ⟨⟨6, 0⟩, some ⟨"c.js", ⟨2, 0⟩⟩, none⟩]⟩ :=
    ofJson_lineMap rfl (by decide) (by decide)
  have lists : ∀ source mappings fields, load (lineMap source mappings) = .ok fields →
      ListsContents fields := by
    rintro source mappings fields ⟨⟩ contents found
    cases found
  obtain ⟨front, back, left, right, l, r, hfront, hleft, hback, hright, readLeft, readRight, same,
    through⟩ := compose_bracketing first second third (lists _ _) (lists _ _) (by decide) (by decide)
    (by decide) (by
      intro m hm
      simp only [List.mem_cons, List.not_mem_nil, or_false] at hm
      obtain rfl | rfl := hm
      · exact ⟨_, ⟨"c.js", ⟨1, 0⟩⟩, none, rfl, rfl⟩
      · exact ⟨_, ⟨"c.js", ⟨2, 0⟩⟩, none, rfl, rfl⟩) (by decide)
  refine ⟨front, back, left, right, l, r, hfront, hleft, hback, hright, readLeft, readRight, same, ?_⟩
  intro m'
  rw [through]
  constructor
  · rintro ⟨m, hm, m₁, led, led'⟩
    simp only [List.mem_cons, List.not_mem_nil, or_false] at hm
    rcases hm with rfl | rfl | rfl
    · cases led
      cases led'
      exact .inl rfl
    · cases led
    · cases led
      cases led'
      exact .inr rfl
  · rintro (rfl | rfl)
    · exact ⟨_, List.mem_cons_self .., _, rfl, rfl⟩
    · exact ⟨_, List.mem_cons_of_mem _ (List.mem_cons_of_mem _ (List.mem_cons_self ..)), _, rfl, rfl⟩

end Componentry.SourceMap
