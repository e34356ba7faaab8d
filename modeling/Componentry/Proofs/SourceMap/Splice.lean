import Componentry.Proofs.Text.Place
import Componentry.SourceMap.Splice

/-!
# What a splice writes

The mappings that a splice adds for a text: those of copied text are the mappings of its anchors, the
first character of each line and the starts of tokens; those of replaced text without a map stand at
the starts of its lines.
-/

namespace Componentry.SourceMap

open Position Text

/-! ## Anchors of copied text -/

/-- Is an offset of a text mapped when the text is copied? -/
def Anchored (s : Text) (a : Nat) : Prop :=
  ∃ c, s[a]? = some c ∧ c ≠ .char '\n' ∧
    (a = 0 ∨ ∃ p, s[a - 1]? = some p ∧ (p = .char '\n' ∨ startsToken p c))

theorem mem_tokenStarts {prev : CodePoint} {offset k : Nat} {s : Text} :
    k ∈ tokenStarts prev offset s ↔
      ∃ a p c, k = offset + a ∧ (prev :: s)[a]? = some p ∧ s[a]? = some c ∧ startsToken p c := by
  induction s generalizing prev offset with
  | nil => simp [tokenStarts]
  | cons c s ih =>
    have later : k ∈ tokenStarts c (offset + 1) s ↔ ∃ a p c', k = offset + (a + 1) ∧
        (prev :: c :: s)[a + 1]? = some p ∧ (c :: s)[a + 1]? = some c' ∧ startsToken p c' := by
      rw [ih]
      simp only [List.getElem?_cons_succ, Nat.add_assoc, Nat.add_comm 1]
    have here : (∃ p c', k = offset + 0 ∧ (prev :: c :: s)[0]? = some p ∧ (c :: s)[0]? = some c' ∧
        startsToken p c') ↔ k = offset ∧ startsToken prev c := by
      simp
    have split : (∃ a p c', k = offset + a ∧ (prev :: c :: s)[a]? = some p ∧
        (c :: s)[a]? = some c' ∧ startsToken p c') ↔
        (k = offset ∧ startsToken prev c) ∨ k ∈ tokenStarts c (offset + 1) s := by
      rw [later, ← here]
      constructor
      · rintro ⟨_ | a, h⟩
        · exact .inl h
        · exact .inr ⟨a, h⟩
      · rintro (h | ⟨a, h⟩)
        · exact ⟨0, h⟩
        · exact ⟨a + 1, h⟩
    rw [split, tokenStarts]
    by_cases h : startsToken prev c <;> simp [h]

theorem mem_anchors {t : Text} (h : .char '\n' ∉ t) {k : Nat} :
    k ∈ anchors t ↔ Anchored t k := by
  have noBreak : ∀ (a : Nat) {c : CodePoint}, t[a]? = some c → c ≠ .char '\n' := by
    rintro a c hc rfl
    exact h (List.mem_of_getElem? hc)
  cases t with
  | nil => simp [anchors, Anchored]
  | cons c s =>
    rw [anchors, List.mem_cons, mem_tokenStarts]
    constructor
    · rintro (rfl | ⟨a, p, c', rfl, hp, hc, token⟩)
      · exact ⟨c, rfl, noBreak 0 rfl, .inl rfl⟩
      · rw [Nat.add_comm]
        exact ⟨c', hc, noBreak (a + 1) hc, .inr ⟨p, hp, .inr token⟩⟩
    · rintro ⟨c', hc, -, rfl | ⟨p, hp, hbreak | token⟩⟩
      · exact .inl rfl
      · exact absurd hbreak (noBreak _ hp)
      · cases k with
        | zero => exact .inl rfl
        | succ a => exact .inr ⟨a, p, c', Nat.add_comm .., hp, hc, token⟩

/-- On the first line everything is as in that line alone. -/
theorem anchored_append {s t : Text} {a : Nat} (h : a < s.length) :
    Anchored (s ++ t) a ↔ Anchored s a := by
  have here : (s ++ t)[a]? = s[a]? := List.getElem?_append_left h
  have before : (s ++ t)[a - 1]? = s[a - 1]? := List.getElem?_append_left (by omega)
  simp only [Anchored, here, before]

/-- After a line end everything is as in a text of its own. -/
theorem anchored_append_cons {s t : Text} {a : Nat} :
    Anchored (s ++ .char '\n' :: t) (s.length + 1 + a) ↔ Anchored t a := by
  have here : (s ++ .char '\n' :: t)[s.length + 1 + a]? = t[a]? := by
    rw [List.getElem?_append_right (by omega), show s.length + 1 + a - s.length = a + 1 by omega,
      List.getElem?_cons_succ]
  simp only [Anchored, here]
  cases a with
  | zero => simp
  | succ a =>
    have before : (s ++ .char '\n' :: t)[s.length + 1 + a]? = t[a]? := by
      rw [List.getElem?_append_right (by omega), show s.length + 1 + a - s.length = a + 1 by omega,
        List.getElem?_cons_succ]
    simp [before]

theorem not_anchored_break {s t : Text} : ¬ Anchored (s ++ .char '\n' :: t) s.length := by
  rintro ⟨c, hc, hne, -⟩
  simp at hc
  exact hne hc.symm

/-- The mapping of the character at offset `a` of a text that stands at `offset` in the source and is
copied to `generated`. -/
def Splice.copied (s : Splice) (generated : Position) (offset : Int) (text : Text) (a : Nat) : Mapping :=
  ⟨generated.advance (text.take a), some ⟨s.source, s.index.position (offset + a)⟩, none⟩

theorem advance_of_notMem {text : Text} (h : .char '\n' ∉ text) (p : Position) :
    p.advance text = ⟨p.line, p.column + text.length⟩ := by
  induction text generalizing p with
  | nil => simp
  | cons c text ih =>
    rw [List.mem_cons, not_or] at h
    rw [advance_cons, ih h.2]
    simp only [step, if_neg (Ne.symm h.1), List.length_cons, Position.mk.injEq, true_and]
    omega

theorem Anchored.lt_length {s : Text} {a : Nat} (h : Anchored s a) : a < s.length := by
  obtain ⟨c, hc, -⟩ := h
  exact (List.getElem?_eq_some_iff.mp hc).1

theorem Splice.copied_append {s : Splice} {generated : Position} {offset : Int} {first : Text} {a : Nat}
    (h : a < first.length) (rest : Text) :
    s.copied generated offset (first ++ rest) a = s.copied generated offset first a := by
  rw [copied, copied, List.take_append_of_le_length (Nat.le_of_lt h)]

theorem advance_take_append_cons {generated : Position} {first rest : Text} {a : Nat}
    (h : .char '\n' ∉ first) :
    generated.advance ((first ++ .char '\n' :: rest).take (first.length + 1 + a)) =
      advance ⟨generated.line + 1, 0⟩ (rest.take a) := by
  rw [Nat.add_assoc, List.take_length_add_append, Nat.add_comm 1, List.take_succ_cons,
    advance_append, advance_of_notMem h, advance_cons, step, if_pos rfl]

theorem Splice.copied_append_cons {s : Splice} {generated : Position} {offset : Int} {first : Text}
    (h : .char '\n' ∉ first) (rest : Text) (a : Nat) :
    s.copied generated offset (first ++ .char '\n' :: rest) (first.length + 1 + a) =
      s.copied ⟨generated.line + 1, 0⟩ (offset + first.length + 1) rest a := by
  rw [copied, copied, advance_take_append_cons h]
  congr 4
  omega

/-- The mappings of copied text are those of its anchors. -/
theorem Splice.mem_copyMappings {s : Splice} {generated : Position} {offset : Int} {text : Text}
    {m : Mapping} :
    m ∈ s.copyMappings generated offset (Text.splitOn '\n' text) ↔
      ∃ a, Anchored text a ∧ m = s.copied generated offset text a := by
  induction h : text.length using Nat.strongRecOn generalizing text generated offset with
  | ind n ih =>
    -- The mappings of one line.
    have line : ∀ {first : Text}, .char '\n' ∉ first →
        (m ∈ (anchors first).map (fun (i : Nat) => (⟨⟨generated.line, generated.column + i⟩,
          some ⟨s.source, s.index.position (offset + i)⟩, none⟩ : Mapping)) ↔
        ∃ a, Anchored first a ∧ m = s.copied generated offset first a) := by
      intro first hfirst
      simp only [List.mem_map, mem_anchors hfirst, copied]
      refine exists_congr fun a => and_congr_right fun ha => ?_
      have bound := ha.lt_length
      rw [advance_of_notMem fun hmem => hfirst (List.mem_of_mem_take hmem), List.length_take,
        Nat.min_eq_left (Nat.le_of_lt bound), eq_comm]
    rcases Text.splitOn_cases '\n' text with ⟨absent, split⟩ | ⟨first, rest, absent, rfl, split⟩
    · rw [split, copyMappings, copyMappings, List.append_nil, line absent]
    · rw [split, copyMappings, List.mem_append, line absent, ih rest.length (by subst h; simp; omega) rfl]
      constructor
      · rintro (⟨a, ha, rfl⟩ | ⟨a, ha, rfl⟩)
        · exact ⟨a, (anchored_append ha.lt_length).mpr ha, (copied_append ha.lt_length _).symm⟩
        · exact ⟨_, anchored_append_cons.mpr ha, (copied_append_cons absent rest a).symm⟩
      · rintro ⟨a, ha, rfl⟩
        rcases Nat.lt_trichotomy a first.length with lt | rfl | gt
        · exact .inl ⟨a, (anchored_append lt).mp ha, copied_append lt _⟩
        · exact absurd ha not_anchored_break
        · obtain ⟨b, rfl⟩ := Nat.exists_eq_add_of_le gt
          exact .inr ⟨b, anchored_append_cons.mp ha, copied_append_cons absent rest b⟩

/-! ## Lines of replaced text -/

/-- Does a line start at an offset of a text, and is there something on it? -/
def StartsLine (s : Text) (a : Nat) : Prop :=
  (∃ c, s[a]? = some c ∧ c ≠ .char '\n') ∧ (.char '\n' :: s)[a]? = some (.char '\n')

theorem StartsLine.lt_length {s : Text} {a : Nat} (h : StartsLine s a) : a < s.length := by
  obtain ⟨⟨c, hc, -⟩, -⟩ := h
  exact (List.getElem?_eq_some_iff.mp hc).1

theorem startsLine_of_notMem {s : Text} {a : Nat} (absent : .char '\n' ∉ s) :
    StartsLine s a ↔ a = 0 ∧ s ≠ [] := by
  constructor
  · rintro ⟨⟨c, hc, -⟩, before⟩
    have bound := (List.getElem?_eq_some_iff.mp hc).1
    refine ⟨?_, List.ne_nil_of_length_pos (by omega)⟩
    cases a with
    | zero => rfl
    | succ a => exact absurd (List.mem_of_getElem? (List.getElem?_cons_succ ▸ before)) absent
  · rintro ⟨rfl, some_⟩
    obtain ⟨c, rest, rfl⟩ := List.exists_cons_of_ne_nil some_
    exact ⟨⟨c, rfl, fun h => absent (h ▸ List.mem_cons_self ..)⟩, rfl⟩

/-- Lines start on the first line and on those behind it. -/
theorem startsLine_append_cons {first rest : Text} {a : Nat} :
    StartsLine (first ++ .char '\n' :: rest) a ↔
      (StartsLine first a ∨ ∃ b, a = first.length + 1 + b ∧ StartsLine rest b) := by
  have later : ∀ b, StartsLine (first ++ .char '\n' :: rest) (first.length + 1 + b) ↔
      StartsLine rest b := by
    intro b
    have here : (first ++ .char '\n' :: rest)[first.length + 1 + b]? = rest[b]? := by
      rw [List.getElem?_append_right (by omega), show first.length + 1 + b - first.length = b + 1 by
        omega, List.getElem?_cons_succ]
    have before : (.char '\n' :: (first ++ .char '\n' :: rest))[first.length + 1 + b]? =
        (.char '\n' :: rest)[b]? := by
      rw [show first.length + 1 + b = first.length + b + 1 by omega, List.getElem?_cons_succ,
        List.getElem?_append_right (by omega), Nat.add_sub_cancel_left]
    rw [StartsLine, here, before, StartsLine]
  have now : a < first.length →
      (StartsLine (first ++ .char '\n' :: rest) a ↔ StartsLine first a) := by
    intro bound
    have before : (.char '\n' :: (first ++ .char '\n' :: rest))[a]? = (.char '\n' :: first)[a]? := by
      rw [← List.cons_append, List.getElem?_append_left (by simp; omega)]
    rw [StartsLine, List.getElem?_append_left bound, before, StartsLine]
  constructor
  · intro h
    rcases Nat.lt_trichotomy a first.length with lt | rfl | gt
    · exact .inl ((now lt).mp h)
    · -- At the end of the first line stands the line end.
      obtain ⟨⟨c, hc, other⟩, -⟩ := h
      simp at hc
      exact absurd hc.symm other
    · obtain ⟨b, rfl⟩ := Nat.exists_eq_add_of_le gt
      exact .inr ⟨b, rfl, (later b).mp h⟩
  · rintro (h | ⟨b, rfl, h⟩)
    · exact (now h.lt_length).mpr h
    · exact (later b).mpr h

/-- The mappings of replaced text stand at the starts of its lines. -/
theorem Splice.mem_replaceMappings {s : Splice} {generated place : Position} {text : Text} {m : Mapping} :
    m ∈ s.replaceMappings generated place (Text.splitOn '\n' text) ↔
      ∃ a, StartsLine text a ∧ m = ⟨generated.advance (text.take a), some ⟨s.source, place⟩, none⟩ := by
  induction hn : text.length using Nat.strongRecOn generalizing text generated with
  | ind n ih =>
    -- The mapping of one line.
    have line : ∀ {first : Text}, .char '\n' ∉ first → (m ∈ (if first.isEmpty then [] else
        [(⟨generated, some ⟨s.source, place⟩, none⟩ : Mapping)]) ↔ ∃ a, StartsLine first a ∧
          m = ⟨generated.advance (first.take a), some ⟨s.source, place⟩, none⟩) := by
      intro first absent
      simp only [startsLine_of_notMem absent]
      cases first <;> simp
    subst hn
    rcases Text.splitOn_cases '\n' text with ⟨absent, split⟩ | ⟨first, rest, absent, rfl, split⟩
    · rw [split, replaceMappings, replaceMappings, List.append_nil, line absent]
    · rw [split, replaceMappings, List.mem_append, line absent, ih rest.length (by simp; omega) rfl]
      simp only [startsLine_append_cons]
      constructor
      · rintro (⟨a, ha, rfl⟩ | ⟨a, ha, rfl⟩)
        · refine ⟨a, .inl ha, ?_⟩
          rw [List.take_append_of_le_length (Nat.le_of_lt ha.lt_length)]
        · refine ⟨_, .inr ⟨a, rfl, ha⟩, ?_⟩
          rw [advance_take_append_cons absent]
      · rintro ⟨_, ha | ⟨a, rfl, ha⟩, rfl⟩
        · refine .inl ⟨_, ha, ?_⟩
          rw [List.take_append_of_le_length (Nat.le_of_lt ha.lt_length)]
        · refine .inr ⟨a, ha, ?_⟩
          rw [advance_take_append_cons absent]

/-! ## Adding mappings -/

theorem Draft.refusalOf?_eq_none {g q : Position} {source : Text} {name : Option Text} :
    refusalOf? ⟨g, some ⟨source, q⟩, name⟩ = none ↔ g.valid ∧ q.valid := by
  by_cases hg : g.valid <;> by_cases hq : q.valid <;> simp [refusalOf?, refusal?, hg, hq]

/-- Mappings of which none is refused are all added. -/
theorem Draft.addAll_eq {ms : List Mapping} (h : ∀ m ∈ ms, refusalOf? m = none) (d : Draft) :
    d.addAll ms = ({ d with mappings := d.mappings ++ ms.toArray }, none) := by
  induction ms generalizing d with
  | nil => simp [addAll]
  | cons m ms ih =>
    rw [addAll, h m (List.mem_cons_self ..)]
    simp only
    rw [ih fun m hm => h m (List.mem_cons_of_mem _ hm)]
    simp

/-- If no mapping was refused, there was none to refuse. -/
theorem Draft.refusalOf?_of_addAll {d : Draft} {ms : List Mapping} (h : (d.addAll ms).2 = none) :
    ∀ m ∈ ms, refusalOf? m = none := by
  induction ms generalizing d with
  | nil => simp
  | cons m ms ih =>
    rw [addAll] at h
    cases hm : refusalOf? m with
    | some e => simp [hm] at h
    | none =>
      rw [hm] at h
      intro x hx
      rcases List.mem_cons.mp hx with rfl | hx
      · exact hm
      · exact ih h x hx

namespace Splice

theorem here_append (s : Splice) (text : Text) : (s.append text).here = s.here.advance text := by
  rw [Position.advance_eq_splitOn]
  rfl

/-- The splice with more mappings and the text they are for. -/
def put (s : Splice) (ms : List Mapping) (text : Text) : Splice :=
  { s with draft := { s.draft with mappings := s.draft.mappings ++ ms.toArray } }.append text

theorem place_eq {s : Splice} {ms : List Mapping} (h : ∀ m ∈ ms, Draft.refusalOf? m = none)
    (text : Text) : s.place ms text = (s.put ms text, none) := by
  rw [place, Draft.addAll_eq h]
  rfl

theorem refusalOf?_of_place {s : Splice} {ms : List Mapping} {text : Text}
    (h : (s.place ms text).2 = none) : ∀ m ∈ ms, Draft.refusalOf? m = none := by
  refine Draft.refusalOf?_of_addAll (d := s.draft) ?_
  rw [place] at h
  split at h
  · rename_i heq
    rw [heq]
  · cases h

/-! ## Adding texts -/

theorem parts_of_place {s s' : Splice} {ms : List Mapping} {text : Text}
    (h : s.place ms text = (s', none)) : s'.parts = s.parts ++ [.str text] := by
  rw [place_eq (refusalOf?_of_place (congrArg Prod.snd h))] at h
  obtain ⟨rfl, -⟩ := Prod.mk.inj h
  rfl

theorem parts_of_replace {s s' : Splice} {text : Text} {offset : Int} {map : Option Json}
    (h : s.replace text offset map = (s', none)) : s'.parts = s.parts ++ [.str text] := by
  cases map with
  | none =>
    have added := parts_of_place h
    exact added
  | some raw =>
    simp only [replace] at h
    split at h
    · cases h
    · have added := parts_of_place h
      exact added

theorem parts_of_appendOdd {s s' : Splice} {value : Json} (h : s.appendOdd value = (s', none)) :
    s'.parts = s.parts ++ [value] := by
  rw [appendOdd.eq_def] at h
  cases value with
  | arr items =>
    simp only at h
    split at h
    · obtain ⟨rfl, -⟩ := Prod.mk.inj h
      rfl
    · cases h
  | _ => cases h

/-- A replacement that is not refused has been added, whatever it is. -/
theorem parts_of_replaceBy {s s' : Splice} {value : Json} {offset : Int} {map : Option Json}
    (h : s.replaceBy value offset map = (s', none)) : s'.parts = s.parts ++ [value] := by
  have odd : s.replaceOdd value offset map = (s', none) → s'.parts = s.parts ++ [value] := by
    intro h
    cases map with
    | none => cases h
    | some raw =>
      simp only [replaceOdd] at h
      split at h
      · cases h
      · split at h
        · cases h
        · have added := parts_of_appendOdd h
          exact added
  cases value with
  | str text => exact parts_of_replace h
  | _ => exact odd h

end Splice

end Componentry.SourceMap
