import Componentry.Markup.Block
import Componentry.Proofs.Text.Walk

/-!
# Where blocks and attributes stand

A block that is found stands in the document as an opening tag, its content and a closing tag, at
the offsets that it carries. An attribute with a value stands in its tag as a name, an equals sign
and the value, in quotes or bare.
-/

namespace Componentry.Markup

/-! ## Attributes -/

/-- The ways to write a value: between quotes of one kind, or bare. -/
inductive Spelled (value : Text) : Text → Prop where
  | double : .char '"' ∉ value → Spelled value ('"' :: (value ++ [.char '"']))
  | single : .char '\'' ∉ value → Spelled value ('\'' :: (value ++ [.char '\'']))
  | bare : value ≠ [] → (∀ c ∈ value, isValueChar c) → Spelled value value

theorem quotedValue?_eq_some {q : CodePoint} {s value : Text} {n : Nat}
    (h : quotedValue? q s = some (value, n)) :
    q ∉ value ∧ ∃ rest, s = value ++ [q] ++ rest := by
  simp only [quotedValue?, Option.map_eq_some_iff] at h
  obtain ⟨⟨front, rest⟩, hcut, heq⟩ := h
  obtain ⟨rfl, -⟩ := Prod.mk.inj heq
  obtain ⟨rfl, absent⟩ := Text.cut?_singleton_eq_some_iff.mp hcut
  exact ⟨absent, rest, by simp⟩

theorem value?_eq_some {s value : Text} {n : Nat} (h : value? s = some (value, n)) :
    ∃ written rest, s = written ++ rest ∧ Spelled value written := by
  rw [value?.eq_def] at h
  split at h
  · simp only [Option.map_eq_some_iff] at h
    obtain ⟨⟨v, k⟩, hv, heq⟩ := h
    obtain ⟨rfl, -⟩ := Prod.mk.inj heq
    obtain ⟨absent, rest, rfl⟩ := quotedValue?_eq_some hv
    exact ⟨_, rest, by simp, .double absent⟩
  · simp only [Option.map_eq_some_iff] at h
    obtain ⟨⟨v, k⟩, hv, heq⟩ := h
    obtain ⟨rfl, -⟩ := Prod.mk.inj heq
    obtain ⟨absent, rest, rfl⟩ := quotedValue?_eq_some hv
    exact ⟨_, rest, by simp, .single absent⟩
  · split at h
    · cases h
    · rename_i v nonempty
      obtain ⟨rfl, -⟩ := Prod.mk.inj (Option.some.inj h)
      refine ⟨_, s.dropWhile isValueChar, List.takeWhile_append_dropWhile.symm, .bare nonempty ?_⟩
      intro c hc
      exact List.all_eq_true.mp List.all_takeWhile c hc

theorem assignment?_eq_some {s value : Text} {n : Nat} (h : assignment? s = some (value, n)) :
    ∃ blanks blanks' written rest : Text, s = blanks ++ .char '=' :: (blanks' ++ written ++ rest) ∧
      Text.allBlank blanks ∧ Text.allBlank blanks' ∧ Spelled value written := by
  rw [assignment?] at h
  split at h
  · rename_i rest heq
    simp only [Option.map_eq_some_iff] at h
    obtain ⟨⟨v, k⟩, hv, he⟩ := h
    obtain ⟨rfl, -⟩ := Prod.mk.inj he
    obtain ⟨written, tail, hbody, hspelled⟩ := value?_eq_some hv
    refine ⟨s.takeWhile isBlank, rest.takeWhile isBlank, written, tail, ?_, ?_, ?_, hspelled⟩
    · rw [List.append_assoc, ← hbody, List.takeWhile_append_dropWhile, ← heq,
        List.takeWhile_append_dropWhile]
    · exact List.all_takeWhile
    · exact List.all_takeWhile
  · cases h

/-- An attribute with a value, where it stands. -/
theorem attribute?_eq_some {s name value : Text} {n : Nat}
    (h : attribute? s = some ((name, some value), n)) :
    ∃ blanks blanks' written rest : Text,
      s = name ++ (blanks ++ .char '=' :: (blanks' ++ written ++ rest)) ∧
      name ≠ [] ∧ Text.allBlank blanks ∧ Text.allBlank blanks' ∧ Spelled value written := by
  rw [attribute?] at h
  split at h
  · cases h
  · rename_i nonempty
    cases ha : assignment? (s.dropWhile isNameChar) with
    | none => simp [ha] at h
    | some found =>
      obtain ⟨v, k⟩ := found
      simp only [ha, Option.some.injEq, Prod.mk.injEq] at h
      obtain ⟨⟨rfl, rfl⟩, -⟩ := h
      obtain ⟨blanks, blanks', written, rest, hs, hb, hb', hspelled⟩ := assignment?_eq_some ha
      refine ⟨blanks, blanks', written, rest, ?_, nonempty, hb, hb', hspelled⟩
      rw [← hs, List.takeWhile_append_dropWhile]

theorem Attributes.value?_set (name other : Text) (value : Option Text) (attributes : Attributes) :
    (attributes.set other value).value? name =
      if other = name then value else attributes.value? name := by
  induction attributes with
  | nil => by_cases h : other = name <;> simp [Attributes.set, Attributes.value?, h]
  | cons a rest ih =>
    obtain ⟨n, v⟩ := a
    simp only [Attributes.value?] at ih ⊢
    by_cases hn : n = other
    · by_cases ho : other = name <;> simp [Attributes.set, hn, ho]
    · by_cases hname : n = name
      · subst hname
        simp [Attributes.set, hn, Ne.symm hn]
      · simp [Attributes.set, hn, hname, ih]

/-- What holds of no attributes, and stays true when one that is found is set, holds of the attributes
of a tag. -/
@[elab_as_elim]
theorem Attributes.parse_induction {raw : Text} {motive : Attributes → Prop} (empty : motive [])
    (set : ∀ attributes, motive attributes → ∀ found ∈ Text.scan attribute? raw,
      motive (attributes.set found.value.1 found.value.2)) : motive (Attributes.parse raw) :=
  List.foldlRecOn _ _ empty set

/-- A value that a tag has for a name is the value of one of its attributes. -/
theorem Attributes.mem_scan_of_value?_parse {raw name value : Text} :
    (Attributes.parse raw).value? name = some value →
      ∃ found ∈ Text.scan attribute? raw, found.value = (name, some value) := by
  refine Attributes.parse_induction ?_ ?_
  · intro h
    cases h
  · intro attributes ih found mem h
    rw [Attributes.value?_set] at h
    split at h
    · rename_i hname
      exact ⟨found, mem, Prod.ext hname h⟩
    · exact ih h

theorem Attributes.has_set (name other : Text) (value : Option Text) (attributes : Attributes) :
    (attributes.set other value).has name ↔ other = name ∨ attributes.has name := by
  induction attributes with
  | nil => simp [Attributes.set, Attributes.has]
  | cons a rest ih =>
    obtain ⟨n, v⟩ := a
    simp only [Attributes.has] at ih
    by_cases hn : n = other
    · subst hn
      simp [Attributes.set, Attributes.has]
    · simp [Attributes.set, Attributes.has, hn, ih, or_left_comm]

/-- A name that a tag has is the name of one of its attributes. -/
theorem Attributes.mem_scan_of_has_parse {raw name : Text} :
    (Attributes.parse raw).has name → ∃ found ∈ Text.scan attribute? raw, found.value.1 = name := by
  refine Attributes.parse_induction ?_ ?_
  · intro h
    cases h
  · intro attributes ih found mem h
    rcases (Attributes.has_set ..).mp h with hname | h
    · exact ⟨found, mem, hname⟩
    · exact ih h

/-- An attribute starts with its name. -/
theorem prefix_of_attribute? {s name : Text} {value : Option Text} {n : Nat}
    (h : attribute? s = some ((name, value), n)) : name <+: s := by
  have front : s.takeWhile isNameChar <+: s := List.takeWhile_prefix _
  rw [attribute?] at h
  split at h
  · cases h
  · split at h
    · obtain ⟨⟨rfl, -⟩, -⟩ := by simpa using h
      exact front
    · obtain ⟨⟨rfl, -⟩, -⟩ := by simpa using h
      exact front

/-! ## Blocks -/

/-- The text of a block: its opening tag, with `raw` behind the tag's name, its content and its
closing tag. -/
def Kind.element (k : Kind) (raw content : Text) : Text :=
  "<" ++ k.tag ++ raw ++ ">" ++ content ++ k.closing

/-- The text `raw` behind a tag's name: it ends where the tag does and starts with a blank. -/
def IsTagRest (raw : Text) : Prop := .char '>' ∉ raw ∧ ∀ c ∈ raw.head?, isBlank c

/-- A piece of a document: plain text, or what a scan for blocks finds. -/
inductive Piece where
  | text (t : Text)
  | comment (body : Text)
  | selfClosing (kind : Kind) (raw : Text)
  | block (kind : Kind) (raw content : Text)

namespace Piece

/-- How a piece is written. -/
def written : Piece → Text
  | text t => t
  | comment body => "<!--" ++ body ++ "-->"
  | selfClosing kind raw => "<" ++ kind.tag ++ raw ++ "/>"
  | block kind raw content => kind.element raw content

/-- As what a piece is found. -/
def found? : Piece → Option Item
  | text _ => none
  | comment _ => some .comment
  | selfClosing _ _ => some .selfClosing
  | block kind raw content => some (.block kind raw content)

/-- The kind of a piece that is a tag or a block. -/
def kind? : Piece → Option Kind
  | text _ => none
  | comment _ => none
  | selfClosing kind _ => some kind
  | block kind _ _ => some kind

/-- A text starts none of the other pieces, and these end where they are meant to. -/
def Proper : Piece → Prop
  | text t => ¬ Text.ofString "<!--" <:+: t ∧ ∀ kind : Kind, ¬ Text.ofString "<" ++ kind.tag <:+: t
  | comment body => ¬ Text.ofString "-->" <:+: body
  | selfClosing _ raw => IsTagRest raw
  | block kind raw content =>
    IsTagRest raw ∧ raw.getLast? ≠ some (.char '/') ∧ ¬ kind.closing <:+: content

instance (raw : Text) : Decidable (IsTagRest raw) := inferInstanceAs (Decidable (_ ∧ _))

instance (p : Kind → Prop) [DecidablePred p] : Decidable (∀ kind, p kind) :=
  decidable_of_iff (p .script ∧ p .style)
    ⟨fun h kind => kind.casesOn h.1 h.2, fun h => ⟨h .script, h .style⟩⟩

instance : DecidablePred Proper
  | text _ => inferInstanceAs (Decidable (_ ∧ ∀ _ : Kind, _))
  | comment _ => inferInstanceAs (Decidable (¬ _))
  | selfClosing _ raw => inferInstanceAs (Decidable (IsTagRest raw))
  | block .. => inferInstanceAs (Decidable (_ ∧ _))

end Piece

theorem terminator_comment : Text.Terminator "-->" := ⟨"--", .char '>', by decide, by decide⟩

theorem Kind.terminator_closing (k : Kind) : Text.Terminator k.closing :=
  ⟨"</" ++ k.tag, .char '>', rfl, by cases k <;> decide⟩

theorem comment?_eq_some_iff {s : Text} {n : Nat} :
    comment? s = some ((), n) ↔ ∃ body rest, (Piece.comment body).Proper ∧
      s = (Piece.comment body).written ++ rest ∧ n = (Piece.comment body).written.length := by
  have length : ∀ body : Text, (Piece.comment body).written.length = body.length + 7 := by
    intro body
    have opening : (Text.ofString "<!--").length = 4 := rfl
    have ending : (Text.ofString "-->").length = 3 := rfl
    simp only [Piece.written, List.length_append, opening, ending]
    omega
  simp only [comment?, Option.bind_eq_bind, Option.bind_eq_some_iff, Text.after?_eq_some, length]
  constructor
  · rintro ⟨behind, rfl, ⟨body, rest⟩, cut, done⟩
    obtain ⟨rfl, free⟩ := terminator_comment.cut?_eq_some_iff.mp cut
    obtain ⟨-, rfl⟩ := Prod.mk.inj (Option.some.inj done)
    exact ⟨body, rest, free, by simp [Piece.written], rfl⟩
  · rintro ⟨body, rest, free, rfl, rfl⟩
    refine ⟨body ++ "-->" ++ rest, by simp [Piece.written], (body, rest), ?_, rfl⟩
    exact terminator_comment.cut?_eq_some_iff.mpr ⟨rfl, free⟩

theorem blockBody?_eq_some_iff {kind : Kind} {raw rest : Text} {opening n : Nat} {v : Item} :
    blockBody? kind raw rest opening = some (v, n) ↔ ∃ content after,
      ¬ kind.closing <:+: content ∧ rest = content ++ kind.closing ++ after ∧
        v = .block kind raw content ∧ n = opening + content.length + kind.closing.length := by
  simp only [blockBody?, Option.map_eq_some_iff, Prod.exists, kind.terminator_closing.cut?_eq_some_iff,
    Prod.mk.injEq]
  constructor
  · rintro ⟨content, after, ⟨rfl, free⟩, rfl, rfl⟩
    exact ⟨content, after, free, rfl, rfl, rfl⟩
  · rintro ⟨content, after, free, rfl, rfl, rfl⟩
    exact ⟨content, after, ⟨rfl, free⟩, rfl, rfl⟩

/-- A tag with more than its name goes to the first `>`, and closes itself if a slash stands before
that. -/
theorem element?_of_blank {kind : Kind} {c : CodePoint} {tail : Text} (blank : isBlank c) :
    element? kind ("<" ++ kind.tag ++ c :: tail) =
      (Text.cut? [.char '>'] (c :: tail)).bind fun cut =>
        if cut.1.getLast? = some (.char '/') then
          some (.selfClosing, ("<" ++ kind.tag).length + cut.1.length + 1)
        else blockBody? kind cut.1 cut.2 (("<" ++ kind.tag).length + cut.1.length + 1) := by
  rw [element?, Text.after?_append]
  simp only [Option.bind_eq_bind, Option.bind_some]
  split
  · rename_i h
    obtain ⟨rfl, -⟩ := List.cons.inj h
    exact absurd blank (by decide)
  · rename_i h
    obtain ⟨rfl, -⟩ := List.cons.inj h
    exact absurd blank (by decide)
  · rename_i h
    obtain ⟨rfl, rfl⟩ := List.cons.inj h
    rw [if_pos blank]
    rfl
  · rename_i h
    cases h

theorem element?_gt (kind : Kind) (body : Text) :
    element? kind ("<" ++ kind.tag ++ .char '>' :: body) =
      blockBody? kind [] body (("<" ++ kind.tag).length + 1) := by
  rw [element?, Text.after?_append]
  rfl

theorem element?_slash (kind : Kind) (rest : Text) :
    element? kind ("<" ++ kind.tag ++ .char '/' :: .char '>' :: rest) =
      some (.selfClosing, ("<" ++ kind.tag).length + 2) := by
  rw [element?, Text.after?_append]
  rfl

/-- What follows the name of a tag that is matched. -/
theorem element?_cases {kind : Kind} {rest : Text} {found : Item × Nat}
    (h : element? kind ("<" ++ kind.tag ++ rest) = some found) :
    (∃ body, rest = .char '>' :: body) ∨ (∃ after, rest = .char '/' :: .char '>' :: after) ∨
      ∃ c tail, rest = c :: tail ∧ isBlank c := by
  rw [element?, Text.after?_append] at h
  simp only [Option.bind_eq_bind, Option.bind_some] at h
  split at h
  · exact .inl ⟨_, rfl⟩
  · exact .inr (.inl ⟨_, rfl⟩)
  · split at h
    · rename_i blank
      exact .inr (.inr ⟨_, _, rfl, blank⟩)
    · cases h
  · cases h

theorem Kind.length_element (kind : Kind) (raw content : Text) :
    (kind.element raw content).length =
      ("<" ++ kind.tag).length + raw.length + 1 + content.length + kind.closing.length := by
  have one : (Text.ofString ">").length = 1 := rfl
  simp only [Kind.element, List.length_append, one]

theorem Kind.element_append (kind : Kind) (raw content rest : Text) :
    kind.element raw content ++ rest =
      "<" ++ kind.tag ++ (raw ++ .char '>' :: (content ++ kind.closing ++ rest)) := by
  have ending : Text.ofString ">" = [.char '>'] := rfl
  rw [Kind.element, ending]
  simp only [List.append_assoc, List.cons_append, List.nil_append]

theorem selfClosing_append (kind : Kind) (raw rest : Text) :
    (Piece.selfClosing kind raw).written ++ rest =
      "<" ++ kind.tag ++ (raw ++ .char '/' :: .char '>' :: rest) := by
  have ending : Text.ofString "/>" = [.char '/', .char '>'] := rfl
  rw [Piece.written, ending]
  simp only [List.append_assoc, List.cons_append, List.nil_append]

theorem length_selfClosing (kind : Kind) (raw : Text) :
    (Piece.selfClosing kind raw).written.length = ("<" ++ kind.tag).length + raw.length + 2 := by
  have two : (Text.ofString "/>").length = 2 := rfl
  simp only [Piece.written, List.length_append, two]

theorem Piece.exists_tail {p : Piece} {kind : Kind} (h : p.kind? = some kind) (rest : Text) :
    ∃ tail, p.written ++ rest = "<" ++ kind.tag ++ tail := by
  cases p with
  | text t => cases h
  | comment body => cases h
  | selfClosing k raw =>
    obtain rfl := Option.some.inj h
    exact ⟨_, selfClosing_append ..⟩
  | block k raw content =>
    obtain rfl := Option.some.inj h
    exact ⟨_, Kind.element_append ..⟩

/-- A block or a self-closing tag at the start of a text. -/
theorem element?_eq_some_iff {kind : Kind} {s : Text} {v : Item} {n : Nat} :
    element? kind s = some (v, n) ↔ ∃ p : Piece, ∃ rest, p.kind? = some kind ∧ p.Proper ∧
      p.found? = some v ∧ s = p.written ++ rest ∧ n = p.written.length := by
  constructor
  · intro h
    obtain ⟨rest, rfl⟩ : ∃ rest, s = "<" ++ kind.tag ++ rest := by
      simp only [element?, Option.bind_eq_bind, Option.bind_eq_some_iff, Text.after?_eq_some] at h
      obtain ⟨rest, opened, -⟩ := h
      exact ⟨rest, opened⟩
    rcases element?_cases h with ⟨body, rfl⟩ | ⟨after, rfl⟩ | ⟨c, tail, rfl, blank⟩
    · rw [element?_gt] at h
      obtain ⟨content, after, free, rfl, rfl, rfl⟩ := blockBody?_eq_some_iff.mp h
      refine ⟨.block kind [] content, after, rfl, ⟨by simp [IsTagRest], by simp, free⟩, rfl, ?_, ?_⟩
      · rw [Piece.written, Kind.element_append, List.nil_append]
      · rw [Piece.written, Kind.length_element, List.length_nil, Nat.add_zero]
    · rw [element?_slash] at h
      obtain ⟨rfl, rfl⟩ := Prod.mk.inj (Option.some.inj h)
      refine ⟨.selfClosing kind [], after, rfl, by simp [Piece.Proper, IsTagRest], rfl, ?_, ?_⟩
      · rw [selfClosing_append, List.nil_append]
      · rw [length_selfClosing, List.length_nil, Nat.add_zero]
    · rw [element?_of_blank blank] at h
      obtain ⟨⟨raw, body⟩, cut, done⟩ := Option.bind_eq_some_iff.mp h
      obtain ⟨text, noEnd⟩ := Text.cut?_singleton_eq_some_iff.mp cut
      obtain ⟨raw, rfl, rfl⟩ : ∃ raw', raw = c :: raw' ∧ tail = raw' ++ .char '>' :: body := by
        cases raw with
        | nil => exact absurd blank (by rw [(List.cons.inj text).1]; decide)
        | cons x raw =>
          obtain ⟨rfl, rfl⟩ := List.cons.inj text
          exact ⟨raw, rfl, rfl⟩
      split at done
      · rename_i slash
        obtain ⟨rfl, rfl⟩ := Prod.mk.inj (Option.some.inj done)
        obtain ⟨raw, rfl⟩ : ∃ front, raw = front ++ [.char '/'] := by
          obtain ⟨front, whole⟩ := List.getLast?_eq_some_iff.mp slash
          cases front with
          | nil => exact absurd blank (by rw [(List.cons.inj whole).1]; decide)
          | cons x front => exact ⟨front, (List.cons.inj whole).2⟩
        have noEnd : .char '>' ∉ c :: raw := fun h => noEnd (by simp [List.mem_cons.mp h])
        refine ⟨.selfClosing kind (c :: raw), body, rfl, ⟨noEnd, by simpa using blank⟩, rfl, ?_, ?_⟩
        · rw [selfClosing_append]
          simp
        · rw [length_selfClosing]
          simp [Nat.add_assoc]
      · rename_i open_
        obtain ⟨content, after, free, rfl, rfl, rfl⟩ := blockBody?_eq_some_iff.mp done
        refine ⟨.block kind (c :: raw) content, after, rfl, ⟨⟨noEnd, by simpa using blank⟩, open_, free⟩,
          rfl, ?_, ?_⟩
        · rw [Piece.written, Kind.element_append, List.cons_append]
        · rw [Piece.written, Kind.length_element]
  · rintro ⟨p, rest, hkind, proper, found, rfl, rfl⟩
    cases p with
    | text t => cases hkind
    | comment body => cases hkind
    | selfClosing k raw =>
      obtain rfl := Option.some.inj hkind
      obtain rfl := Option.some.inj found
      rw [selfClosing_append, length_selfClosing]
      cases raw with
      | nil => exact element?_slash k rest
      | cons c raw =>
        have cut : Text.cut? [.char '>'] (c :: (raw ++ .char '/' :: .char '>' :: rest)) =
            some (c :: raw ++ [.char '/'], rest) :=
          Text.cut?_singleton_eq_some_iff.mpr ⟨by simp, by simpa using proper.1⟩
        rw [List.cons_append, element?_of_blank (proper.2 c rfl), cut, Option.bind_some,
          if_pos List.getLast?_concat]
        simp [Nat.add_assoc]
    | block k raw content =>
      obtain rfl := Option.some.inj hkind
      obtain rfl := Option.some.inj found
      obtain ⟨tag, open_, free⟩ := proper
      rw [Piece.written, Kind.element_append, Kind.length_element]
      have body : blockBody? k raw (content ++ k.closing ++ rest)
          (("<" ++ k.tag).length + raw.length + 1) = some (.block k raw content,
            ("<" ++ k.tag).length + raw.length + 1 + content.length + k.closing.length) :=
        blockBody?_eq_some_iff.mpr ⟨content, rest, free, rfl, rfl, rfl⟩
      cases raw with
      | nil => exact (element?_gt k _).trans body
      | cons c raw =>
        have cut : Text.cut? [.char '>'] (c :: (raw ++ .char '>' :: (content ++ k.closing ++ rest))) =
            some (c :: raw, content ++ k.closing ++ rest) :=
          Text.cut?_singleton_eq_some_iff.mpr ⟨rfl, tag.1⟩
        rw [List.cons_append, element?_of_blank (tag.2 c rfl), cut, Option.bind_some, if_neg open_]
        exact body

theorem item?_tag (kind : Kind) (tail : Text) :
    item? ("<" ++ kind.tag ++ tail) = element? kind ("<" ++ kind.tag ++ tail) := by
  have noComment : comment? ("<" ++ kind.tag ++ tail) = none := by cases kind <;> rfl
  rw [item?, noComment]
  cases kind with
  | script =>
    have other : element? .style ("<" ++ Kind.script.tag ++ tail) = none := rfl
    rw [other, Option.or_none]
  | style =>
    have other : element? .script ("<" ++ Kind.style.tag ++ tail) = none := rfl
    rw [other, Option.none_or]

/-- **The matcher** finds a comment, a self-closing tag or a block at the start of a text, whatever
follows. -/
theorem item?_eq_some_iff {s : Text} {v : Item} {n : Nat} :
    item? s = some (v, n) ↔ ∃ p : Piece, ∃ rest, p.Proper ∧ p.found? = some v ∧
      s = p.written ++ rest ∧ n = p.written.length := by
  constructor
  · intro h
    rw [item?] at h
    cases comment : comment? s with
    | some found =>
      simp only [comment, Option.some.injEq, Prod.mk.injEq] at h
      obtain ⟨rfl, rfl⟩ := h
      obtain ⟨body, rest, proper, text, length⟩ := comment?_eq_some_iff.mp comment
      exact ⟨_, rest, proper, rfl, text, length⟩
    | none =>
      simp only [comment, Option.or_eq_some_iff] at h
      obtain ⟨kind, h⟩ : ∃ kind, element? kind s = some (v, n) := by
        rcases h with h | ⟨-, h⟩
        · exact ⟨_, h⟩
        · exact ⟨_, h⟩
      obtain ⟨p, rest, -, stands⟩ := element?_eq_some_iff.mp h
      exact ⟨p, rest, stands⟩
  · rintro ⟨p, rest, proper, found, rfl, rfl⟩
    cases hkind : p.kind? with
    | some kind =>
      have here := element?_eq_some_iff.mpr ⟨p, rest, hkind, proper, found, rfl, rfl⟩
      obtain ⟨tail, opened⟩ := Piece.exists_tail hkind rest
      rw [opened] at here ⊢
      rwa [item?_tag]
    | none =>
      cases p with
      | text t => cases found
      | comment body =>
        obtain rfl := Option.some.inj found
        have here := comment?_eq_some_iff.mpr ⟨body, rest, proper, rfl, rfl⟩
        simp only [item?, here]
      | selfClosing k raw => cases hkind
      | block k raw content => cases hkind

theorem item?_eq_block {s : Text} {k : Kind} {raw content : Text} {n : Nat}
    (h : item? s = some (.block k raw content, n)) :
    (Piece.block k raw content).Proper ∧ n = (k.element raw content).length ∧
      ∃ after, s = k.element raw content ++ after := by
  obtain ⟨p, rest, proper, found, text, length⟩ := item?_eq_some_iff.mp h
  cases p with
  | text t => cases found
  | comment body => cases found
  | selfClosing k' raw' => cases found
  | block k' raw' content' =>
    cases found
    exact ⟨proper, length, rest, text⟩

/-- A found block stands where the match is. -/
theorem element_of_found {source : Text} {found : Text.Found Item} {b : Block}
    (hfound : found ∈ Text.scan item? source) (hb : Block.ofFound found = some b) :
    ∃ raw after, source = source.take found.start ++ b.kind.element raw b.content ++ after ∧
      found.start ≤ source.length ∧ found.length = (b.kind.element raw b.content).length ∧
      b.attributes = Attributes.parse raw ∧ (Piece.block b.kind raw b.content).Proper ∧
      b.start = found.start + b.kind.tag.length + raw.length + 2 ∧
      b.stop = b.start + b.content.length := by
  obtain ⟨bound, hitem⟩ := Text.mem_scan hfound
  rw [Block.ofFound] at hb
  split at hb
  · rename_i kind raw content hvalue
    rw [hvalue] at hitem
    obtain ⟨proper, hlength, after, htext⟩ := item?_eq_block hitem
    obtain rfl := Option.some.inj hb
    refine ⟨raw, after, ?_, Nat.le_of_lt bound, hlength, rfl, proper, ?_, rfl⟩
    · rw [List.append_assoc, ← htext, List.take_append_drop]
    · have one : (Text.ofString "<").length = 1 := rfl
      simp only [Text.Found.stop, hlength, Kind.length_element, List.length_append, one]
      omega
  · cases hb

/-- **A block stands where it says**: between the text before and after it there are its opening
tag, its content and its closing tag, and its offsets are those of the content. -/
theorem mem_blocks {source : Text} {b : Block} (h : b ∈ blocks source) :
    ∃ before raw after, source = before ++ b.kind.element raw b.content ++ after ∧
      b.attributes = Attributes.parse raw ∧ (Piece.block b.kind raw b.content).Proper ∧
      b.start = before.length + b.kind.tag.length + raw.length + 2 ∧
      b.stop = b.start + b.content.length := by
  obtain ⟨found, hfound, hb⟩ := List.mem_filterMap.mp h
  obtain ⟨raw, after, text, bound, -, attributes, hraw, start, stop⟩ := element_of_found hfound hb
  refine ⟨source.take found.start, raw, after, text, attributes, hraw, ?_, stop⟩
  rw [List.length_take, Nat.min_eq_left bound, start]

/-! ## Spans of blocks -/

/-- A block stands in a document: its content is what is between its offsets, directly behind the end
of a tag, and goes up to the first closing tag of its kind. -/
structure Block.StandsIn (source : Text) (b : Block) : Prop where
  le : b.start ≤ b.stop
  bound : b.stop ≤ source.length
  content : Text.slice source b.start b.stop = b.content
  opened : [.char '>'] <:+ source.take b.start
  closed : b.kind.closing <+: source.drop b.stop
  free : ¬ b.kind.closing <:+: b.content

/-- **Blocks stand in their document.** -/
theorem standsIn_of_mem_blocks {source : Text} {b : Block} (h : b ∈ blocks source) :
    b.StandsIn source := by
  obtain ⟨before, raw, after, text, -, ⟨-, -, free⟩, start, stop⟩ := mem_blocks h
  have one : (Text.ofString "<").length = 1 := rfl
  -- What stands before the content is as long as its offset says.
  have front : source = (before ++ Text.ofString "<" ++ b.kind.tag ++ raw ++ [.char '>']) ++
      (b.content ++ (b.kind.closing ++ after)) := by
    rw [text, List.append_assoc, Kind.element_append]
    simp only [List.append_assoc, List.singleton_append]
  have length :
      (before ++ Text.ofString "<" ++ b.kind.tag ++ raw ++ [CodePoint.char '>']).length = b.start := by
    simp only [List.length_append, List.length_singleton, one, start]
    omega
  have behind : source.drop b.stop = b.kind.closing ++ after := by
    rw [front, stop, ← length, List.drop_length_add_append, List.drop_left]
  refine ⟨by omega, ?_, ?_, ?_, ⟨after, behind.symm⟩, free⟩
  · rw [front, stop, ← length]
    simp only [List.length_append]
    omega
  · rw [Text.slice, stop, Nat.add_sub_cancel_left, front, ← length, List.drop_left, List.take_left]
  · rw [front, ← length, List.take_left]
    exact List.suffix_append ..

/-- Blocks stand one behind the other, with a closing tag between them. -/
theorem pairwise_blocks (source : Text) :
    (blocks source).Pairwise fun b b' => b.stop < b'.start := by
  rw [blocks, List.pairwise_filterMap]
  refine (Text.pairwise_scan source).imp_of_mem ?_
  intro f f' hf hf' behind b hb b' hb'
  obtain ⟨raw, after, -, -, length, -, -, start, stop⟩ := element_of_found hf hb
  obtain ⟨raw', after', -, -, -, -, -, start', -⟩ := element_of_found hf' hb'
  have one : (Text.ofString "<").length = 1 := rfl
  simp only [Text.Found.stop, length, Kind.length_element, List.length_append, one] at behind
  omega

end Componentry.Markup
