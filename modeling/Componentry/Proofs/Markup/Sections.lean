import Componentry.Markup.Section
import Componentry.Proofs.Markup.Block
import Componentry.Proofs.Text.Run

/-!
# Pages

A document is a page exactly if nothing but `head` and `body` elements is left of it once its comments
are removed, with blanks between and around them. An element goes up to the first closing tag of its
name, in whatever case that is written, so a text is a page in one way only, and its sections are
those that are found.
-/

namespace Componentry

/-! ## Letters and blanks -/

theorem isAlpha_iff_toNat {c : Char} :
    c.isAlpha = true ↔ 65 ≤ c.toNat ∧ c.toNat ≤ 90 ∨ 97 ≤ c.toNat ∧ c.toNat ≤ 122 := by
  have cases_ : c.isAlpha = (decide (c.val ≥ 'A'.val ∧ c.val ≤ 'Z'.val) ||
      (decide (c.val ≥ 'a'.val) && decide (c.val ≤ 'z'.val))) := rfl
  rw [cases_]
  simp only [Bool.or_eq_true, Bool.and_eq_true, decide_eq_true_eq, ge_iff_le,
    UInt32.le_iff_toNat_le]
  exact Iff.rfl

/-- Only a letter has another case. -/
theorem CodePoint.toLower_eq_iff {c x : CodePoint} (h : x.isAlpha = false) : c.toLower = x ↔ c = x := by
  cases c with
  | half n => rfl
  | char c =>
    cases x with
    | half n => simp [CodePoint.toLower]
    | char x =>
      have other : ¬ x.isAlpha = true := Bool.not_eq_true _ ▸ h
      rw [isAlpha_iff_toNat] at other
      rw [CodePoint.toLower, CodePoint.char.injEq, CodePoint.char.injEq]
      delta Char.toLower
      split
      · rename_i upper
        -- An upper case letter and its lower case are letters.
        have lo : 65 ≤ c.toNat := UInt32.le_iff_toNat_le.mp upper.1
        have hi : c.toNat ≤ 90 := UInt32.le_iff_toNat_le.mp upper.2
        refine iff_of_false ?_ ?_
        · rintro rfl
          have value : (c.val + ('a'.val - 'A'.val)).toNat = c.toNat + 32 := by
            rw [UInt32.toNat_add]
            exact Nat.mod_eq_of_lt (show c.toNat + 32 < 2 ^ 32 by omega)
          rw [Char.toNat, value] at other
          omega
        · rintro rfl
          omega
      · rfl

namespace Text

/-- A text without letters is written in one case only. -/
theorem lowerAscii_eq_iff {p q : Text} (h : ∀ c ∈ p, c.isAlpha = false) :
    lowerAscii q = p ↔ q = p := by
  induction p generalizing q with
  | nil => exact List.map_eq_nil_iff
  | cons c p ih =>
    obtain ⟨hc, hp⟩ := List.forall_mem_cons.mp h
    rw [lowerAscii, List.map_eq_cons_iff]
    constructor
    · rintro ⟨d, q, rfl, hd, hq⟩
      rw [(CodePoint.toLower_eq_iff hc).mp hd, (ih hp).mp hq]
    · rintro rfl
      exact ⟨c, p, rfl, (CodePoint.toLower_eq_iff hc).mpr rfl, (ih hp).mpr rfl⟩

theorem exists_trim (s : Text) :
    ∃ front back, s = front ++ trim s ++ back ∧ allBlank front ∧ allBlank back := by
  obtain ⟨back, whole, blank⟩ := exists_trimRight (trimLeft s)
  refine ⟨s.takeWhile isBlank, back, ?_, List.all_takeWhile, blank⟩
  rw [List.append_assoc, trim, ← whole, trimLeft, List.takeWhile_append_dropWhile]

/-- Trimming takes the blanks around a text that starts and ends with something else. -/
theorem trim_append {front back t start end_ : Text} {a z : CodePoint}
    (hfront : allBlank front) (hback : allBlank back)
    (ha : isBlank a = false) (hz : isBlank z = false) (first : t = a :: end_) (last : t = start ++ [z]) :
    trim (front ++ t ++ back) = t := by
  have left : trimLeft (front ++ t ++ back) = t ++ back := by
    rw [trimLeft, List.append_assoc]
    exact dropWhile_append_of_ends (List.all_eq_true.mp hfront) (by simp [first, ha])
  rw [trim, left, trimRight_append hback]
  exact trimRight_of_ends (by simp [last, hz])

end Text

namespace Markup

/-! ## Comments -/

/-- What is left of a text when its comments are removed. The first comment starts at the first `<!--`
and ends at the first `-->` behind that; a start without an end is no comment. -/
inductive Uncommented : Text → Text → Prop where
  | plain {s : Text} : (∀ before body after : Text, s ≠ before ++ "<!--" ++ body ++ "-->" ++ after) →
      Uncommented s s
  | comment {before body rest left : Text} : ¬ Text.ofString "<!--" <:+: before →
      ¬ Text.ofString "-->" <:+: body → Uncommented rest left →
      Uncommented (before ++ "<!--" ++ body ++ "-->" ++ rest) (before ++ left)

theorem local_comment? : Text.Local comment? where
  pos h := by
    obtain ⟨body, rest, -, -, rfl⟩ := comment?_eq_some_iff.mp h
    rw [Piece.written, List.length_append, List.length_append]
    exact Nat.add_pos_right _ (by decide)
  le_length h := by
    obtain ⟨body, rest, -, rfl, rfl⟩ := comment?_eq_some_iff.mp h
    rw [List.length_append]
    exact Nat.le_add_right ..
  take_append h t := by
    obtain ⟨body, rest, proper, rfl, rfl⟩ := comment?_eq_some_iff.mp h
    rw [List.take_left]
    exact comment?_eq_some_iff.mpr ⟨body, t, proper, rfl, rfl⟩

/-- There is a comment wherever one is opened and a closing follows. -/
theorem comment?_eq_none_iff {s : Text} :
    comment? s = none ↔ ∀ rest : Text, s = "<!--" ++ rest → ¬ Text.ofString "-->" <:+: rest := by
  rw [Option.eq_none_iff_forall_ne_some]
  constructor
  · rintro none_ rest rfl closed
    obtain ⟨body, after, rfl, free⟩ := terminator_comment.exists_first closed
    exact none_ _ (comment?_eq_some_iff.mpr ⟨body, after, free, by simp [Piece.written], rfl⟩)
  · rintro open_ found h
    obtain ⟨body, rest, -, rfl, -⟩ := comment?_eq_some_iff.mp h
    exact open_ (body ++ "-->" ++ rest) (by simp [Piece.written]) ⟨body, rest, rfl⟩

theorem clear_comment?_iff {s : Text} :
    Text.Clear comment? s s.length ↔
      ∀ before body after : Text, s ≠ before ++ "<!--" ++ body ++ "-->" ++ after := by
  constructor
  · rintro clear before body after rfl
    have opening : 0 < (Text.ofString "<!--").length := by decide
    have none_ := clear before.length (by simp only [List.length_append]; omega)
    rw [List.append_assoc, List.append_assoc, List.append_assoc, List.drop_left] at none_
    exact comment?_eq_none_iff.mp none_ _ rfl ⟨body, after, by simp⟩
  · intro absent i _
    refine comment?_eq_none_iff.mpr ?_
    rintro rest hs ⟨body, after, rfl⟩
    refine absent (s.take i) body after ?_
    rw [List.append_assoc, List.append_assoc, List.append_assoc, ← List.append_assoc body, ← hs,
      List.take_append_drop]

/-- Before the first comment nothing opens one. -/
theorem first_comment?_iff {before body : Text} (rest : Text)
    (free : ¬ Text.ofString "-->" <:+: body) :
    Text.First comment? before (Piece.comment body).written rest () ↔
      ¬ Text.ofString "<!--" <:+: before := by
  have opening : Text.ofString "<!--" = .char '<' :: Text.ofString "!--" := by decide
  constructor
  · rintro ⟨clear, -⟩ ⟨front, back, rfl⟩
    have none_ := clear front.length (by simp [opening])
    rw [List.append_assoc, List.append_assoc, List.drop_left] at none_
    refine comment?_eq_none_iff.mp none_ _ rfl ⟨back ++ "<!--" ++ body, rest, ?_⟩
    simp [Piece.written]
  · intro absent
    refine ⟨fun i hi => comment?_eq_none_iff.mpr fun behind text _ => ?_,
      comment?_eq_some_iff.mpr ⟨body, rest, free, rfl, rfl⟩⟩
    rw [List.drop_append_of_le_length (Nat.le_of_lt hi)] at text
    -- An opening that starts before the comment ends before it, too.
    have starts : .char '<' :: Text.ofString "!--" <+:
        before.drop i ++ .char '<' :: (Text.ofString "!--" ++ body ++ Text.ofString "-->" ++ rest) :=
      ⟨behind, by rw [← opening, ← text, Piece.written, opening]; simp⟩
    have within := Text.prefix_of_append_of_tail (by decide)
      (List.ne_nil_of_length_pos (by rw [List.length_drop]; omega)) starts
    rw [← opening] at within
    exact absent (within.isInfix.trans (List.drop_suffix i before).isInfix)

/-- **Removing the comments** of a text. -/
theorem remove_comment?_eq_iff {s left : Text} :
    Text.remove comment? s = left ↔ Uncommented s left := by
  constructor
  · rintro rfl
    induction s using local_comment?.walk with
    | clear s clear =>
      rw [Text.remove_of_clear clear]
      exact .plain (clear_comment?_iff.mp clear)
    | first gap found rest v first ih =>
      obtain ⟨body, after, free, text, length⟩ := comment?_eq_some_iff.mp first.matched
      obtain ⟨rfl, rfl⟩ := List.append_inj text length
      rw [first.remove_eq local_comment?, Piece.written, ← List.append_assoc, ← List.append_assoc,
        ← List.append_assoc]
      exact .comment ((first_comment?_iff _ free).mp first) free ih
  · intro h
    induction h with
    | plain absent => exact Text.remove_of_clear (clear_comment?_iff.mpr absent)
    | @comment before body rest left absent free _ ih =>
      have first := ((first_comment?_iff rest free).mpr absent).remove_eq local_comment?
      rw [Piece.written, ih] at first
      simpa using first

/-! ## Letters in any case -/

theorem afterAnyCase?_eq (p s : Text) :
    afterAnyCase? p s = (Text.after? p (Text.lowerAscii s)).map fun _ => s.drop p.length := by
  induction p generalizing s with
  | nil => simp [afterAnyCase?, Text.after?]
  | cons a p ih =>
    cases s with
    | nil => rfl
    | cons b s =>
      by_cases h : a = b.toLower
      · simp [afterAnyCase?, Text.lowerAscii, Text.after?, ← h, ih]
      · simp [afterAnyCase?, Text.lowerAscii, Text.after?, h]

theorem afterAnyCase?_eq_some_iff {p s rest : Text} :
    afterAnyCase? p s = some rest ↔ ∃ front, Text.lowerAscii front = p ∧ s = front ++ rest := by
  rw [afterAnyCase?_eq, Option.map_eq_some_iff]
  simp only [Text.after?_eq_some, Text.lowerAscii, List.map_eq_append_iff]
  constructor
  · rintro ⟨-, ⟨front, back, rfl, rfl, -⟩, rfl⟩
    exact ⟨front, rfl, by simp⟩
  · rintro ⟨front, rfl, rfl⟩
    exact ⟨_, ⟨front, rest, rfl, rfl, rfl⟩, by simp⟩

theorem beforeAnyCase?_eq {needle : Text} (some_ : needle ≠ []) (s : Text) :
    beforeAnyCase? needle s =
      (Text.cut? needle (Text.lowerAscii s)).map fun cut => s.take cut.1.length := by
  induction s with
  | nil => simp [beforeAnyCase?, Text.lowerAscii, Text.cut?, some_]
  | cons c s ih =>
    have lower : Text.lowerAscii (c :: s) = c.toLower :: Text.lowerAscii s := rfl
    rw [beforeAnyCase?, afterAnyCase?_eq, ih, lower, Text.cut?]
    cases Text.after? needle (c.toLower :: Text.lowerAscii s) with
    | some rest => simp
    | none =>
      simp only [Option.map_none, Option.isSome_none, Bool.false_eq_true, if_false, Option.map_map]
      rfl

/-- The text up to the first terminator in any case. -/
theorem beforeAnyCase?_eq_some_iff {needle s data : Text} (h : Text.Terminator needle) :
    beforeAnyCase? needle s = some data ↔ ¬ needle <:+: Text.lowerAscii data ∧
      ∃ closing rest, Text.lowerAscii closing = needle ∧ s = data ++ closing ++ rest := by
  have some_ : needle ≠ [] := by
    obtain ⟨stem, c, rfl, -⟩ := h
    simp
  rw [beforeAnyCase?_eq some_, Option.map_eq_some_iff]
  simp only [Prod.exists, h.cut?_eq_some_iff, Text.lowerAscii, List.map_eq_append_iff]
  constructor
  · rintro ⟨-, -, ⟨⟨-, back, rfl, ⟨front, closing, rfl, rfl, rfl⟩, -⟩, free⟩, rfl⟩
    have front_ : (front ++ closing ++ back).take (front.map CodePoint.toLower).length = front := by
      rw [List.length_map, List.append_assoc, List.take_left]
    rw [front_]
    exact ⟨free, closing, back, rfl, rfl⟩
  · rintro ⟨free, closing, rest, rfl, rfl⟩
    refine ⟨_, _, ⟨⟨_, rest, rfl, ⟨data, closing, rfl, rfl, rfl⟩, rfl⟩, free⟩, ?_⟩
    rw [List.length_map, List.append_assoc, List.take_left]

/-! ## Elements -/

namespace SectionName

/-- The closing tag in lower case. -/
def closing (name : SectionName) : Text := "</" ++ name.tag ++ ">"

/-- Is this the tag of the section, in any letter case? -/
def Spells (name : SectionName) (t : Text) : Prop := Text.lowerAscii t = name.tag

theorem terminator_closing (name : SectionName) : Text.Terminator name.closing :=
  ⟨"</" ++ name.tag, .char '>', rfl, by cases name <;> decide⟩

theorem Spells.length_eq {name : SectionName} {t : Text} (h : name.Spells t) :
    t.length = name.tag.length := by
  rw [← h, Text.lowerAscii, List.length_map]

theorem lowerAscii_eq_opened_iff {name : SectionName} {m : Text} :
    Text.lowerAscii m = "<" ++ name.tag ↔ ∃ t, name.Spells t ∧ m = "<" ++ t := by
  rw [Text.lowerAscii, List.map_eq_append_iff]
  constructor
  · rintro ⟨a, t, rfl, ha, spells⟩
    exact ⟨t, spells, congrArg (· ++ t) ((Text.lowerAscii_eq_iff (by decide)).mp ha)⟩
  · rintro ⟨t, spells, rfl⟩
    exact ⟨"<", t, rfl, by decide, spells⟩

theorem lowerAscii_eq_closing_iff {name : SectionName} {m : Text} :
    Text.lowerAscii m = name.closing ↔ ∃ t, name.Spells t ∧ m = "</" ++ t ++ ">" := by
  simp only [Text.lowerAscii, closing, List.map_eq_append_iff]
  constructor
  · rintro ⟨-, b, rfl, ⟨a, t, rfl, ha, spells⟩, hb⟩
    rw [(Text.lowerAscii_eq_iff (by decide)).mp ha, (Text.lowerAscii_eq_iff (by decide)).mp hb]
    exact ⟨t, spells, rfl⟩
  · rintro ⟨t, spells, rfl⟩
    exact ⟨_, ">", rfl, ⟨"</", t, rfl, by decide, spells⟩, by decide⟩

/-- A closing tag in any case shows as one in the text in lower case. -/
theorem closing_infix_iff {name : SectionName} {data : Text} :
    name.closing <:+: Text.lowerAscii data ↔
      ∃ t, name.Spells t ∧ ("</" ++ t ++ ">" : Text) <:+: data := by
  constructor
  · rintro ⟨front, back, whole⟩
    obtain ⟨before, b, rfl, hbefore, -⟩ := List.map_eq_append_iff.mp whole.symm
    obtain ⟨a, m, rfl, -, hm⟩ := List.map_eq_append_iff.mp hbefore
    obtain ⟨t, spells, rfl⟩ := lowerAscii_eq_closing_iff.mp hm
    exact ⟨t, spells, a, b, rfl⟩
  · rintro ⟨t, spells, a, b, rfl⟩
    have lower := lowerAscii_eq_closing_iff.mpr ⟨t, spells, rfl⟩
    exact ⟨Text.lowerAscii a, Text.lowerAscii b, by simp [Text.lowerAscii, ← lower]⟩

end SectionName

/-- An element with the data of a section: `opening` and `closing` are the names in its tags, and `raw`
is what stands behind the first one. -/
def Section.element (s : Section) (opening raw closing : Text) : Text :=
  "<" ++ opening ++ raw ++ ">" ++ s.data ++ "</" ++ closing ++ ">"

/-- How a section is written: the tags have its name in any letter case, behind the first name there is
nothing or a blank with attributes, and no such closing tag is in the data. -/
inductive Section.Written (s : Section) : Text → Prop where
  | intro {opening raw closing : Text} : s.name.Spells opening → IsTagRest raw →
      s.name.Spells closing → (∀ tag, s.name.Spells tag → ¬ ("</" ++ tag ++ ">" : Text) <:+: s.data) →
      Written s (s.element opening raw closing)

theorem Section.element_append (s : Section) (opening raw closing rest : Text) :
    s.element opening raw closing ++ rest =
      Text.ofString "<" ++ opening ++
        (raw ++ .char '>' :: (s.data ++ ("</" ++ closing ++ ">" : Text) ++ rest)) := by
  have ending : Text.ofString ">" = [.char '>'] := rfl
  simp [Section.element, ending]

theorem Section.length_element (s : Section) (opening raw closing : Text) :
    (s.element opening raw closing).length = ("<" ++ opening ++ raw ++ ">" : Text).length +
      s.data.length + ("</" ++ closing ++ ">" : Text).length := by
  simp only [Section.element, List.length_append]
  omega

/-- What follows an opening tag up to the first closing tag, in any case. -/
theorem sectionBody?_eq_some_iff {name : SectionName} {body : Text} {opening n : Nat} {s : Section} :
    sectionBody? name body opening = some (s, n) ↔ s.name = name ∧
      (∀ tag, s.name.Spells tag → ¬ ("</" ++ tag ++ ">" : Text) <:+: s.data) ∧
      ∃ closing rest, s.name.Spells closing ∧ body = s.data ++ ("</" ++ closing ++ ">") ++ rest ∧
        n = opening + s.data.length + ("</" ++ closing ++ ">" : Text).length := by
  have free : (∀ tag, s.name.Spells tag → ¬ ("</" ++ tag ++ ">" : Text) <:+: s.data) ↔
      ¬ s.name.closing <:+: Text.lowerAscii s.data := by
    rw [SectionName.closing_infix_iff]
    simp only [not_exists, not_and]
  have found (data : Text) : beforeAnyCase? name.closing body = some data ↔
      ¬ name.closing <:+: Text.lowerAscii data ∧ ∃ closing rest, name.Spells closing ∧
        body = data ++ ("</" ++ closing ++ ">") ++ rest := by
    rw [beforeAnyCase?_eq_some_iff name.terminator_closing]
    simp only [SectionName.lowerAscii_eq_closing_iff]
    refine and_congr_right fun _ => ⟨?_, ?_⟩
    · rintro ⟨_, rest, ⟨closing, spells, rfl⟩, text⟩
      exact ⟨closing, rest, spells, text⟩
    · rintro ⟨closing, rest, spells, text⟩
      exact ⟨_, rest, ⟨closing, spells, rfl⟩, text⟩
  have length {closing : Text} (spells : name.Spells closing) :
      ("</" ++ closing ++ ">" : Text).length = name.closing.length := by
    simp only [SectionName.closing, List.length_append, spells.length_eq]
  obtain ⟨sname, data⟩ := s
  rw [free, sectionBody?]
  change Option.map _ (beforeAnyCase? name.closing body) = _ ↔ _
  simp only [Option.map_eq_some_iff, Prod.mk.injEq, Section.mk.injEq, found]
  constructor
  · rintro ⟨_, ⟨absent, closing, rest, spells, text⟩, ⟨rfl, rfl⟩, rfl⟩
    exact ⟨rfl, absent, closing, rest, spells, text, by rw [length spells]; rfl⟩
  · rintro ⟨rfl, absent, closing, rest, spells, text, rfl⟩
    exact ⟨data, ⟨absent, closing, rest, spells, text⟩, ⟨rfl, rfl⟩, by rw [length spells]; rfl⟩

/-- An opening tag is read up to its end. -/
theorem sectionNamed?_tag {name : SectionName} {opening raw : Text} (spells : name.Spells opening)
    (tag : IsTagRest raw) (body : Text) :
    sectionNamed? name ("<" ++ opening ++ (raw ++ .char '>' :: body)) =
      sectionBody? name body ("<" ++ opening ++ raw ++ ">" : Text).length := by
  have opened : afterAnyCase? ("<" ++ name.tag) ("<" ++ opening ++ (raw ++ .char '>' :: body)) =
      some (raw ++ .char '>' :: body) :=
    afterAnyCase?_eq_some_iff.mpr
      ⟨_, SectionName.lowerAscii_eq_opened_iff.mpr ⟨opening, spells, rfl⟩, rfl⟩
  have one : (Text.ofString ">").length = 1 := rfl
  rw [sectionNamed?, opened]
  simp only [Option.bind_eq_bind, Option.bind_some, List.length_append, spells.length_eq, one]
  cases raw with
  | nil => rfl
  | cons c raw =>
    have blank : isBlank c := tag.2 c rfl
    have cut : Text.cut? ">" (c :: raw ++ .char '>' :: body) = some (c :: raw, body) :=
      Text.cut?_singleton_eq_some_iff.mpr ⟨rfl, tag.1⟩
    rw [cut]
    split
    · rename_i h
      rw [(List.cons.inj h).1] at blank
      exact absurd blank (by decide)
    · rename_i h
      obtain ⟨rfl, -⟩ := List.cons.inj h
      rw [if_pos blank]
      rfl
    · rename_i h
      cases h

/-- What is matched starts with an opening tag. -/
theorem exists_tag_of_sectionNamed? {name : SectionName} {s : Text} {found : Section × Nat}
    (h : sectionNamed? name s = some found) :
    ∃ opening raw body : Text, name.Spells opening ∧ IsTagRest raw ∧
      s = "<" ++ opening ++ (raw ++ .char '>' :: body) := by
  simp only [sectionNamed?, Option.bind_eq_bind, Option.bind_eq_some_iff,
    afterAnyCase?_eq_some_iff, SectionName.lowerAscii_eq_opened_iff] at h
  obtain ⟨rest, ⟨_, ⟨opening, spells, rfl⟩, rfl⟩, tag⟩ := h
  split at tag
  · rename_i body
    exact ⟨opening, [], body, spells, by simp [IsTagRest], rfl⟩
  · rename_i c tail _
    split at tag
    · rename_i blank
      obtain ⟨⟨raw, body⟩, cut, -⟩ := Option.bind_eq_some_iff.mp tag
      have cut : Text.cut? [.char '>'] (c :: tail) = some (raw, body) := cut
      obtain ⟨text, noEnd⟩ := Text.cut?_singleton_eq_some_iff.mp cut
      refine ⟨opening, raw, body, spells, ⟨noEnd, ?_⟩, by rw [text]⟩
      intro d hd
      cases raw with
      | nil => cases hd
      | cons x raw =>
        obtain rfl := Option.some.inj hd
        rwa [← (List.cons.inj text).1]
    · cases tag
  · cases tag

/-- **An element** of a name at the start of a text, whatever follows. -/
theorem sectionNamed?_eq_some_iff {name : SectionName} {text : Text} {s : Section} {n : Nat} :
    sectionNamed? name text = some (s, n) ↔
      s.name = name ∧ ∃ e rest, s.Written e ∧ text = e ++ rest ∧ n = e.length := by
  constructor
  · intro h
    obtain ⟨opening, raw, body, spells, tag, rfl⟩ := exists_tag_of_sectionNamed? h
    rw [sectionNamed?_tag spells tag] at h
    obtain ⟨rfl, free, closing, rest, spells', rfl, rfl⟩ := sectionBody?_eq_some_iff.mp h
    exact ⟨rfl, _, rest, .intro spells tag spells' free, (s.element_append ..).symm,
      (s.length_element ..).symm⟩
  · rintro ⟨rfl, _, rest, ⟨spells, tag, spells', free⟩, rfl, rfl⟩
    rw [Section.element_append, sectionNamed?_tag spells tag, sectionBody?_eq_some_iff]
    exact ⟨rfl, free, _, rest, spells', rfl, s.length_element ..⟩

/-- A text does not start with elements of both names. -/
theorem sectionNamed?_eq_none {name : SectionName} {text : Text} {found : Section × Nat}
    (h : sectionNamed? name text = some found) {other : SectionName} (hne : other ≠ name) :
    sectionNamed? other text = none := by
  rw [Option.eq_none_iff_forall_ne_some]
  intro found' h'
  obtain ⟨opening, raw, body, spells, -, rfl⟩ := exists_tag_of_sectionNamed? h
  obtain ⟨opening', raw', body', spells', -, text⟩ := exists_tag_of_sectionNamed? h'
  have four : ∀ name : SectionName, name.tag.length = 4 := by
    intro name
    cases name <;> rfl
  rw [List.append_assoc, List.append_assoc, List.append_cancel_left_eq] at text
  obtain ⟨rfl, -⟩ := List.append_inj text (by rw [spells.length_eq, spells'.length_eq, four, four])
  have same : name.tag = other.tag := spells.symm.trans spells'
  cases name <;> cases other <;> simp_all [SectionName.tag]

/-- **The matcher** finds an element at the start of a text, whatever follows. -/
theorem section?_eq_some_iff {text : Text} {s : Section} {n : Nat} : section? text = some (s, n) ↔
    ∃ e rest, s.Written e ∧ text = e ++ rest ∧ n = e.length := by
  have found : section? text = some (s, n) ↔ sectionNamed? s.name text = some (s, n) := by
    rw [section?, Option.or_eq_some_iff]
    constructor
    · rintro (h | ⟨-, h⟩)
      · rwa [(sectionNamed?_eq_some_iff.mp h).1]
      · rwa [(sectionNamed?_eq_some_iff.mp h).1]
    · intro h
      cases name : s.name with
      | head => exact .inl (name ▸ h)
      | body => exact .inr ⟨sectionNamed?_eq_none h (by simp [name]), name ▸ h⟩
  rw [found, sectionNamed?_eq_some_iff, and_iff_right rfl]

/-! ## Pages -/

/-- Elements one after the other, with blanks before, between and behind them. -/
inductive Elements : Text → List Section → Prop where
  | nil : Elements [] []
  | blank {c : CodePoint} {t : Text} {found : List Section} : isBlank c → Elements t found →
      Elements (c :: t) found
  | element {s : Section} {e t : Text} {found : List Section} : s.Written e → Elements t found →
      Elements (e ++ t) (s :: found)

theorem sectionsFrom_eq (skip : Nat) (t : Text) : sectionsFrom skip t = sectionsFrom 0 (t.drop skip) := by
  induction t generalizing skip with
  | nil => cases skip <;> simp [sectionsFrom]
  | cons c t ih =>
    cases skip with
    | zero => rfl
    | succ skip => rw [sectionsFrom, ih, List.drop_succ_cons]

/-- An element starts with `<`. -/
theorem Section.Written.exists_cons {s : Section} {e : Text} (h : s.Written e) :
    ∃ rest, e = .char '<' :: rest := by
  obtain ⟨-, -, -, -⟩ := h
  exact ⟨_, rfl⟩

/-- An element ends with `>`. -/
theorem Section.Written.exists_concat {s : Section} {e : Text} (h : s.Written e) :
    ∃ front, e = front ++ [.char '>'] := by
  obtain ⟨-, -, -, -⟩ := h
  exact ⟨_, rfl⟩

theorem sectionsFrom_element {s : Section} {e : Text} (h : s.Written e) (t : Text) :
    sectionsFrom 0 (e ++ t) = (sectionsFrom 0 t).map (s :: ·) := by
  have matched := section?_eq_some_iff.mpr ⟨e, t, h, rfl, rfl⟩
  obtain ⟨rest, rfl⟩ := h.exists_cons
  rw [List.cons_append, sectionsFrom, ← List.cons_append, matched, if_neg (by decide)]
  simp only [List.length_cons, Nat.add_sub_cancel]
  rw [sectionsFrom_eq, List.drop_left]

/-- **The loop** gives the sections of elements with blanks around them, and of nothing else. -/
theorem sectionsFrom_eq_some_iff {t : Text} {found : List Section} :
    sectionsFrom 0 t = some found ↔ Elements t found := by
  constructor
  · intro h
    induction hn : t.length using Nat.strongRecOn generalizing t found with
    | ind n ih =>
      cases t with
      | nil =>
        obtain rfl := Option.some.inj h
        exact .nil
      | cons c t =>
        by_cases blank : isBlank c
        · rw [sectionsFrom, if_pos blank] at h
          exact .blank blank (ih t.length (by rw [← hn]; exact Nat.lt_succ_self _) h rfl)
        · cases here : section? (c :: t) with
          | none =>
            rw [sectionsFrom, if_neg blank, here] at h
            cases h
          | some m =>
            obtain ⟨e, rest, written, text, -⟩ := section?_eq_some_iff.mp here
            rw [text, sectionsFrom_element written, Option.map_eq_some_iff] at h
            obtain ⟨later, hlater, rfl⟩ := h
            have shorter : rest.length < n := by
              obtain ⟨front, rfl⟩ := written.exists_cons
              rw [← hn, text, List.length_append, List.length_cons]
              omega
            rw [text]
            exact .element written (ih rest.length shorter hlater rfl)
  · intro h
    induction h with
    | nil => rfl
    | blank blank _ ih => rw [sectionsFrom, if_pos blank, ih]
    | element written _ ih => rw [sectionsFrom_element written, ih]; rfl

theorem Elements.blanks_append {blanks t : Text} {found : List Section} (h : Elements t found)
    (blank : Text.allBlank blanks) : Elements (blanks ++ t) found := by
  induction blanks with
  | nil => exact h
  | cons c blanks ih =>
    rw [Text.allBlank, List.all_cons, Bool.and_eq_true] at blank
    exact .blank blank.1 (ih blank.2)

theorem Elements.allBlank {t : Text} (h : Elements t []) : Text.allBlank t := by
  generalize none_ : ([] : List Section) = found at h
  induction h with
  | nil => rfl
  | blank blank _ ih => rw [Text.allBlank, List.all_cons, Bool.and_eq_true]; exact ⟨blank, ih none_⟩
  | element => cases none_

/-- How the sections of a page are written: one or more elements, with blanks between them. -/
inductive PageText : Text → List Section → Prop where
  | last {s : Section} {e : Text} : s.Written e → PageText e [s]
  | cons {s : Section} {e blanks t : Text} {found : List Section} : s.Written e →
      Text.allBlank blanks → PageText t found → PageText (e ++ (blanks ++ t)) (s :: found)

theorem PageText.elements {t : Text} {found : List Section} (h : PageText t found) :
    Elements t found := by
  induction h with
  | last written => simpa using Elements.element written .nil
  | cons written blank _ ih => exact .element written (ih.blanks_append blank)

/-- Elements with blanks around them are a page within blanks. -/
theorem Elements.exists_page {t : Text} {found : List Section} (h : Elements t found)
    (some_ : found ≠ []) :
    ∃ front page back, t = front ++ page ++ back ∧ Text.allBlank front ∧ Text.allBlank back ∧
      PageText page found := by
  induction h with
  | nil => exact absurd rfl some_
  | @blank c t found blank _ ih =>
    obtain ⟨front, page, back, rfl, hfront, hback, written⟩ := ih some_
    refine ⟨c :: front, page, back, rfl, ?_, hback, written⟩
    rw [Text.allBlank, List.all_cons, Bool.and_eq_true]
    exact ⟨blank, hfront⟩
  | @element s e t found written later ih =>
    cases found with
    | nil => exact ⟨[], e, t, rfl, rfl, later.allBlank, .last written⟩
    | cons s' found =>
      obtain ⟨front, page, back, rfl, hfront, hback, page_⟩ := ih (List.cons_ne_nil s' found)
      exact ⟨[], e ++ (front ++ page), back, by simp, rfl, hback, .cons written hfront page_⟩

/-- A page starts with a tag and ends with one. -/
theorem PageText.ends {t : Text} {found : List Section} (h : PageText t found) :
    (∃ rest, t = .char '<' :: rest) ∧ ∃ front, t = front ++ [.char '>'] := by
  induction h with
  | last written => exact ⟨written.exists_cons, written.exists_concat⟩
  | @cons s e blanks t found written _ _ ih =>
    obtain ⟨rest, rfl⟩ := written.exists_cons
    obtain ⟨-, front, rfl⟩ := ih
    exact ⟨⟨_, rfl⟩, .char '<' :: rest ++ (blanks ++ front), by simp⟩

theorem PageText.ne_nil {t : Text} {found : List Section} (h : PageText t found) : found ≠ [] := by
  cases h <;> exact List.cons_ne_nil _ _

/-- **Sections of pages.** A document has sections exactly if without its comments it is a page with
blanks around it, and then they are the sections of the page as they are written, in order. -/
theorem sections?_eq_some_iff {source : Text} {found : List Section} :
    sections? source = some found ↔ ∃ front page back : Text,
      Uncommented source (front ++ page ++ back) ∧ Text.allBlank front ∧ Text.allBlank back ∧
        PageText page found := by
  rw [sections?, Option.filter_eq_some_iff, sectionsFrom_eq_some_iff]
  constructor
  · rintro ⟨elements, some_⟩
    obtain ⟨front, page, back, text, hfront, hback, written⟩ :=
      elements.exists_page (by simpa using some_)
    obtain ⟨front', back', bare, hfront', hback'⟩ := Text.exists_trim (Text.remove comment? source)
    refine ⟨front' ++ front, page, back ++ back', remove_comment?_eq_iff.mp ?_, ?_, ?_, written⟩
    · rw [bare, text]
      simp
    · rw [Text.allBlank, List.all_append, Bool.and_eq_true]
      exact ⟨hfront', hfront⟩
    · rw [Text.allBlank, List.all_append, Bool.and_eq_true]
      exact ⟨hback, hback'⟩
  · rintro ⟨front, page, back, bare, hfront, hback, written⟩
    obtain ⟨⟨end_, first⟩, start, last⟩ := written.ends
    rw [remove_comment?_eq_iff.mpr bare,
      Text.trim_append hfront hback (by decide) (by decide) first last]
    exact ⟨written.elements, by simpa using written.ne_nil⟩

end Markup

end Componentry
