import Componentry.Proofs.Markup.Rendering
import Componentry.Proofs.Text.Removal

/-!
# Blocks of a document with other contents

Texts are put in the places of the contents of a document's blocks. If no closing tag starts in them
and no comment ends in them, the blocks of the result are those of the document, with the texts as
their contents. A comment or a block that nothing ends has been looked for up to the end of the
document, through all contents behind it. The texts cannot end it either, and what ended another one
is still there.
-/

namespace Componentry.Markup

/-! ## Texts in the places of contents -/

/-- A text in the place of a block's content. -/
def Block.put (source : Text) (b : Block) (text : Text) : Text :=
  source.take b.start ++ text ++ source.drop b.stop

/-- Texts in the places of the contents of blocks. The last one is put first, so that the blocks
before it are where they were. -/
def putAll (source : Text) (pairs : List (Block × Text)) : Text :=
  pairs.foldr (fun p s => p.1.put s p.2) source

/-- A document with texts in the places of the contents of its blocks. -/
def fill (source : Text) (texts : List Text) : Text := putAll source ((blocks source).zip texts)

theorem Block.put_shift (b : Block) (front s text : Text) :
    (b.shift front.length).put (front ++ s) text = front ++ b.put s text := by
  simp only [put, shift, List.take_length_add_append, List.drop_length_add_append, List.append_assoc]

theorem putAll_shift (front s : Text) (bs : List Block) (texts : List Text) :
    putAll (front ++ s) ((bs.map (Block.shift front.length)).zip texts) =
      front ++ putAll s (bs.zip texts) := by
  induction bs generalizing texts with
  | nil => rfl
  | cons b bs ih =>
    cases texts with
    | nil => rfl
    | cons text texts =>
      have later := ih texts
      simp only [putAll] at later
      simp only [putAll, List.map_cons, List.zip_cons_cons, List.foldr_cons, later, Block.put_shift]

theorem fill_nil (source : Text) : fill source [] = source := by
  rw [fill, List.zip_nil_right]
  rfl

/-- Where nothing is found nothing changes. -/
theorem fill_append_of_clear {gap rest : Text} (clear : Text.Clear item? (gap ++ rest) gap.length)
    (texts : List Text) : fill (gap ++ rest) texts = gap ++ fill rest texts := by
  rw [fill, blocks_append_of_clear clear, putAll_shift, fill]

/-! ## What ends a comment or a block -/

/-- The texts that end a comment or a block. -/
inductive IsEnd : Text → Prop where
  | comment : IsEnd "-->"
  | closing (kind : Kind) : IsEnd kind.closing

/-- No closing tag starts in the text and no comment ends in it. -/
structure IsInner (text : Text) : Prop where
  noClosing : ¬ Text.ofString "</" <:+: text
  noCommentEnd : ¬ Text.ofString "-->" <:+: text

theorem IsInner.not_closing_isInfix {text : Text} (h : IsInner text) (kind : Kind) :
    ¬ kind.closing <:+: text := by
  intro inside
  have opening : Text.ofString "</" <+: kind.closing := ⟨kind.tag ++ ">", rfl⟩
  exact h.noClosing (opening.isInfix.trans inside)

theorem IsEnd.exists_stem {needle : Text} (h : IsEnd needle) :
    ∃ stem, needle = stem ++ [.char '>'] ∧ .char '>' ∉ stem := by
  cases h with
  | comment => exact ⟨"--", rfl, by decide⟩
  | closing kind =>
    refine ⟨"</" ++ kind.tag, rfl, ?_⟩
    cases kind <;> decide

theorem Kind.exists_closing (kind : Kind) :
    ∃ tail, kind.closing = .char '<' :: tail ∧ .char '<' ∉ tail ∧ .char '-' ∉ kind.closing := by
  refine ⟨"/" ++ kind.tag ++ ">", rfl, ?_⟩
  cases kind <;> decide

theorem Kind.eq_of_closing_prefix {k kind : Kind} {s : Text} (h : k.closing <+: kind.closing ++ s) :
    k = kind := by
  have either : k.closing <+: kind.closing ∨ kind.closing <+: k.closing := by
    rcases Text.prefix_append_cases h with within | ⟨d, whole, -⟩
    · exact .inl within
    · exact .inr ⟨d, whole.symm⟩
  revert either
  cases k <;> cases kind <;> decide

/-- In an inner text nothing ends, and behind it the first end is the closing tag. -/
theorem IsEnd.eq_or_isInfix {needle text s : Text} {kind : Kind} (ends : IsEnd needle)
    (inner : IsInner text) (h : needle <:+: .char '>' :: (text ++ (kind.closing ++ s))) :
    needle = kind.closing ∨ needle <:+: s := by
  obtain ⟨tail, closing, alone, noDash⟩ := kind.exists_closing
  cases ends with
  | comment =>
    have inside : "-->" <:+: text ++ (kind.closing ++ s) :=
      Text.isInfix_of_cons (by decide) h
    rw [closing, List.cons_append] at inside
    have behind := Text.isInfix_of_append_of_tail (by decide) inner.noCommentEnd inside
    rw [← List.cons_append, ← closing] at behind
    exact .inr (Text.isInfix_of_append_of_head noDash behind)
  | closing k =>
    obtain ⟨tail', closing', alone', -⟩ := k.exists_closing
    have free := inner.not_closing_isInfix k
    rw [closing'] at h free ⊢
    have inside : .char '<' :: tail' <:+: text ++ (kind.closing ++ s) :=
      Text.isInfix_of_cons (by decide) h
    rw [closing, List.cons_append] at inside
    -- The closing tag starts with the only `<` in it.
    rcases List.infix_cons_iff.mp (Text.isInfix_of_append_of_tail alone' free inside) with
      starts | later
    · rw [← closing', ← List.cons_append, ← closing] at starts
      rw [← closing', Kind.eq_of_closing_prefix starts]
      exact .inl rfl
    · exact .inr (Text.isInfix_of_append_of_head alone later)

/-! ## Recast texts -/

/-- The second text is the first one with inner texts in the places of what stands between some tags
and closing tags. -/
inductive Recast : Text → Text → Prop where
  | nil : Recast [] []
  | keep {s s' : Text} (c : CodePoint) : Recast s s' → Recast (c :: s) (c :: s')
  | fill {s s' text : Text} (kind : Kind) (content : Text) : IsInner text → Recast s s' →
      Recast (.char '>' :: (content ++ (kind.closing ++ s)))
        (.char '>' :: (text ++ (kind.closing ++ s')))

namespace Recast

variable {s s' front rest : Text}

theorem append (front : Text) (h : Recast s s') : Recast (front ++ s) (front ++ s') := by
  induction front with
  | nil => exact h
  | cons c front ih => exact .keep c ih

theorem refl (s : Text) : Recast s s := by
  simpa using append s .nil

/-- What has no `>` in it has been kept. -/
theorem exists_of_append (absent : .char '>' ∉ front) (h : Recast s (front ++ rest)) :
    ∃ r, s = front ++ r ∧ Recast r rest := by
  induction front generalizing s with
  | nil => exact ⟨s, rfl, h⟩
  | cons c front ih =>
    rw [List.mem_cons, not_or] at absent
    generalize whole : c :: front ++ rest = t at h
    cases h with
    | nil => cases whole
    | keep _ h =>
      obtain ⟨rfl, rfl⟩ := List.cons.inj whole
      obtain ⟨r, rfl, h'⟩ := ih absent.2 h
      exact ⟨r, rfl, h'⟩
    | fill => exact absurd (List.cons.inj whole).1.symm absent.1

theorem exists_of_gt (h : Recast s (.char '>' :: rest)) : ∃ r, s = .char '>' :: r := by
  cases h with
  | keep _ h => exact ⟨_, rfl⟩
  | fill => exact ⟨_, rfl⟩

/-- **Nothing new ends**: what ends a comment or a block in a recast text was there before. -/
theorem isInfix {needle : Text} (h : Recast s s') (ends : IsEnd needle) (occurs : needle <:+: s') :
    needle <:+: s := by
  induction h with
  | nil => exact occurs
  | @keep s s' c h ih =>
    rcases List.infix_cons_iff.mp occurs with ⟨rest, starts⟩ | later
    · -- Up to its last character the end has been kept.
      obtain ⟨stem, rfl, absent⟩ := ends.exists_stem
      have h : Recast (c :: s) (stem ++ .char '>' :: rest) := by
        rw [List.append_assoc, List.singleton_append] at starts
        rw [starts]
        exact .keep c h
      obtain ⟨r, kept, h'⟩ := exists_of_append absent h
      obtain ⟨r', rfl⟩ := exists_of_gt h'
      exact ⟨[], r', by simp [kept]⟩
    · exact (ih later).trans (List.suffix_cons ..).isInfix
  | @fill s s' text kind content inner h ih =>
    rcases ends.eq_or_isInfix inner occurs with rfl | later
    · exact ⟨.char '>' :: content, s, by simp⟩
    · have behind : s <:+ .char '>' :: (content ++ (kind.closing ++ s)) :=
        ⟨.char '>' :: (content ++ kind.closing), by simp⟩
      exact (ih later).trans behind.isInfix

/-- **Nothing new is found** at the start of a recast text. -/
theorem item?_eq_none (h : Recast s s') (nothing : item? s = none) : item? s' = none := by
  rw [Option.eq_none_iff_forall_ne_some] at nothing ⊢
  rintro ⟨v, n⟩ here
  obtain ⟨p, rest, proper, found, rfl, -⟩ := item?_eq_some_iff.mp here
  have noEnd : ∀ kind : Kind, .char '>' ∉ Text.ofString "<" ∧ .char '>' ∉ kind.tag := by
    intro kind
    cases kind <;> decide
  cases p with
  | text t => cases found
  | comment body =>
    rw [Piece.written, List.append_assoc, List.append_assoc] at h
    obtain ⟨r, rfl, h'⟩ := exists_of_append (by decide) h
    obtain ⟨body', rest', rfl, free⟩ := terminator_comment.exists_first
      (h'.isInfix .comment ⟨body, rest, by simp⟩)
    refine nothing _ (item?_eq_some_iff.mpr ⟨.comment body', rest', free, rfl, ?_, rfl⟩)
    simp [Piece.written]
  | selfClosing kind raw =>
    have absent : .char '>' ∉ Text.ofString "<" ++ kind.tag ++ (raw ++ [.char '/']) := by
      simp [noEnd kind, proper.1]
    rw [selfClosing_append, ← List.singleton_append, ← List.append_assoc raw, ← List.append_assoc] at h
    obtain ⟨r, rfl, h'⟩ := exists_of_append absent h
    obtain ⟨r', rfl⟩ := exists_of_gt h'
    refine nothing _ (item?_eq_some_iff.mpr ⟨.selfClosing kind raw, r', proper, rfl, ?_, rfl⟩)
    rw [selfClosing_append]
    simp
  | block kind raw content =>
    obtain ⟨isRest, last, -⟩ := proper
    have absent : .char '>' ∉ Text.ofString "<" ++ kind.tag ++ raw := by
      simp [noEnd kind, isRest.1]
    rw [Piece.written, Kind.element_append, ← List.append_assoc] at h
    obtain ⟨r, rfl, h'⟩ := exists_of_append absent h
    obtain ⟨r', rfl⟩ := exists_of_gt h'
    have occurs : kind.closing <:+: r' := by
      have := h'.isInfix (.closing kind) ⟨.char '>' :: content, rest, by simp⟩
      exact Text.isInfix_of_cons (by decide) this
    obtain ⟨content', rest', rfl, free⟩ := kind.terminator_closing.exists_first occurs
    refine nothing _ (item?_eq_some_iff.mpr
      ⟨.block kind raw content', rest', ⟨isRest, last, free⟩, rfl, ?_, rfl⟩)
    rw [Piece.written, Kind.element_append, ← List.append_assoc]

end Recast

/-! ## Blocks of the result -/

/-- What the opening tag of a block says. -/
def Block.opening (b : Block) : Kind × Attributes := (b.kind, b.attributes)

/-- A block at the start gets the first text. -/
theorem fill_element {kind : Kind} {raw content : Text} (proper : (Piece.block kind raw content).Proper)
    (rest t : Text) (texts : List Text) :
    fill (kind.element raw content ++ rest) (t :: texts) = kind.element raw t ++ fill rest texts := by
  let opening := "<" ++ kind.tag ++ raw ++ ">"
  have whole : ∀ inside behind : Text, kind.element raw inside ++ behind =
      opening ++ (inside ++ (kind.closing ++ behind)) := by
    intro inside behind
    simp only [Kind.element, opening, List.append_assoc]
  have found := blocks_written_append proper rfl rest
  have later := putAll_shift (kind.element raw content) rest (blocks rest) texts
  simp only [Piece.written, Piece.block?, Option.toList_some, List.singleton_append, Nat.zero_add] at found
  rw [fill, found, List.zip_cons_cons, putAll, List.foldr_cons]
  rw [putAll] at later
  rw [later, Block.put, whole, whole, List.take_left, List.drop_length_add_append, List.drop_left,
    List.append_assoc, fill]

/-- How a piece is written if the next texts are these: a block takes the first of them. -/
def Piece.filled (texts : List Text) : Piece → Text
  | block kind raw content => kind.element raw (texts.headD content)
  | p => p.written

/-- How many texts a piece takes. -/
def Piece.taken (p : Piece) : Nat := (p.block? 0).toList.length

/-- **One piece** is filled, and the rest is filled behind it. -/
theorem fill_written_append {p : Piece} {v : Item} (proper : p.Proper) (found : p.found? = some v)
    (rest : Text) (texts : List Text) :
    fill (p.written ++ rest) texts = p.filled texts ++ fill rest (texts.drop p.taken) := by
  have stays (noBlock : p.block? 0 = none) :
      fill (p.written ++ rest) texts = p.written ++ fill rest texts := by
    rw [fill, blocks_written_append proper found, noBlock]
    exact putAll_shift ..
  cases p with
  | text t => exact stays rfl
  | comment body => exact stays rfl
  | selfClosing kind raw => exact stays rfl
  | block kind raw content =>
    cases texts with
    | nil =>
      rw [List.drop_nil, fill_nil, fill_nil]
      rfl
    | cons t texts => exact fill_element proper rest t texts

theorem Piece.filled_take (p : Piece) (texts : List Text) (n : Nat) :
    p.filled (texts.take (p.taken + n)) = p.filled texts := by
  cases p with
  | text t => rfl
  | comment body => rfl
  | selfClosing kind raw => rfl
  | block kind raw content =>
    rw [show (Piece.block kind raw content).taken = 1 from rfl, Nat.add_comm]
    cases texts <;> rfl

/-- **Around one block**: its element gets its text, and what stands before the element and behind it
is filled on its own. -/
theorem exists_fill_eq {source : Text} {texts : List Text} {k : Nat} {b : Block} {t : Text}
    (hb : (blocks source)[k]? = some b) (ht : texts[k]? = some t) :
    ∃ before raw after, source = before ++ (b.kind.element raw b.content ++ after) ∧
      b.attributes = Attributes.parse raw ∧ IsTagRest raw ∧
      b.start = before.length + ("<" ++ b.kind.tag ++ raw ++ ">").length ∧
      fill source texts = fill before (texts.take k) ++
        (b.kind.element raw t ++ fill after (texts.drop (k + 1))) := by
  induction source using local_item?.walk generalizing texts k b with
  | clear s clear =>
    rw [blocks, Text.scan_of_clear clear] at hb
    cases hb
  | first gap found rest v first ih =>
    obtain ⟨p, tail, proper, hfound, whole, length⟩ := item?_eq_some_iff.mp first.matched
    obtain ⟨rfl, rfl⟩ := List.append_inj whole length
    rw [blocks_append_of_clear first.clear, blocks_written_append proper hfound,
      List.getElem?_map] at hb
    obtain ⟨b₁, hb₁, rfl⟩ := Option.map_eq_some_iff.mp hb
    rw [fill_append_of_clear first.clear, fill_written_append proper hfound]
    rcases Nat.lt_or_ge k p.taken with here | ge
    · -- The piece is the block.
      rw [List.getElem?_append_left here] at hb₁
      cases p with
      | text t => cases hb₁
      | comment body => cases hb₁
      | selfClosing kind raw => cases hb₁
      | block kind raw content =>
        obtain rfl : k = 0 := Nat.lt_one_iff.mp here
        obtain rfl := Option.some.inj hb₁
        refine ⟨gap, raw, rest, rfl, rfl, proper.1, ?_, ?_⟩
        · simp only [Block.shift, List.length_append]
          omega
        · rw [List.take_zero, fill_nil, Piece.filled, List.headD_eq_head?_getD,
            List.head?_eq_getElem?, ht]
          rfl
    · -- The block is behind the piece. The piece is found also if less of the rest follows.
      obtain ⟨j, rfl⟩ := Nat.exists_eq_add_of_le ge
      rw [List.getElem?_append_right ge, List.getElem?_map] at hb₁
      obtain ⟨b₂, hb₂, rfl⟩ := Option.map_eq_some_iff.mp hb₁
      rw [show p.taken + j - (p.block? 0).toList.length = j from Nat.add_sub_cancel_left ..] at hb₂
      obtain ⟨before, raw, after, text, attributes, tag, start, filled⟩ :=
        @ih (texts.drop p.taken) j b₂ hb₂ (by rw [List.getElem?_drop, ht])
      have front : fill (gap ++ (p.written ++ before)) (texts.take (p.taken + j)) =
          gap ++ (p.filled texts ++ fill before ((texts.drop p.taken).take j)) := by
        have less := (local_item?.first_take first before.length).clear
        rw [text, List.take_left] at less
        rw [fill_append_of_clear less, fill_written_append proper hfound, Piece.filled_take,
          List.drop_take, Nat.add_sub_cancel_left]
      refine ⟨gap ++ (p.written ++ before), raw, after, ?_, attributes, tag, ?_, ?_⟩
      · rw [text]
        simp only [Block.shift, List.append_assoc]
      · simp only [Block.shift, List.length_append] at start ⊢
        omega
      · rw [front, filled, List.drop_drop, Nat.add_assoc]
        simp only [Block.shift, List.append_assoc]

/-- **One piece** stays, unless it is a block, which gets the first of the texts. -/
theorem exists_fill_written {p : Piece} {v : Item} {rest : Text} {texts : List Text} (proper : p.Proper)
    (found : p.found? = some v) (length : texts.length = (blocks (p.written ++ rest)).length)
    (inner : ∀ t ∈ texts, IsInner t) :
    ∃ (p' : Piece) (v' : Item) (texts' : List Text), p'.Proper ∧ p'.found? = some v' ∧
      fill (p.written ++ rest) texts = p'.written ++ fill rest texts' ∧
      (∀ {s s'}, Recast s s' → Recast (p.written ++ s) (p'.written ++ s')) ∧
      (p'.block? 0).toList.map Block.opening = (p.block? 0).toList.map Block.opening ∧
      (p'.block? 0).toList.map Block.content ++ texts' = texts := by
  rw [blocks_written_append proper found] at length
  cases block : p.block? 0 with
  | none =>
    refine ⟨p, v, texts, proper, found, ?_, fun h => h.append _, by rw [block], by rw [block]; rfl⟩
    rw [fill, blocks_written_append proper found, block]
    exact putAll_shift ..
  | some b =>
    cases p with
    | text t => cases block
    | comment body => cases block
    | selfClosing kind raw => cases block
    | block kind raw content =>
      obtain ⟨t, texts, rfl⟩ : ∃ t texts', texts = t :: texts' := by
        refine List.exists_cons_of_ne_nil fun empty => ?_
        simp [empty, block] at length
      have first := inner t (List.mem_cons_self ..)
      refine ⟨.block kind raw t, _, texts, ⟨proper.1, proper.2.1, first.not_closing_isInfix kind⟩,
        rfl, fill_element proper rest t texts, fun {s s'} h => ?_, ?_, rfl⟩
      · rw [Piece.written, Piece.written, Kind.element_append, Kind.element_append, List.append_assoc,
          List.append_assoc content, List.append_assoc, List.append_assoc t]
        exact (((Recast.fill kind content first h).append raw).append kind.tag).append "<"
      · rw [← block]
        rfl

/-- **The blocks stay** if inner texts are put in the places of their contents. The induction is along
the scan of the document. Between two finds the filled document is a recast of what was scanned, so
that nothing is found there. -/
theorem blocks_fill {source : Text} {texts : List Text} (length : texts.length = (blocks source).length)
    (inner : ∀ t ∈ texts, IsInner t) :
    Recast source (fill source texts) ∧
      (blocks (fill source texts)).map Block.opening = (blocks source).map Block.opening ∧
      (blocks (fill source texts)).map Block.content = texts := by
  induction source using local_item?.walk generalizing texts with
  | clear s clear =>
    have none_ : blocks s = [] := by
      rw [blocks, Text.scan_of_clear clear]
      rfl
    rw [none_] at length
    obtain rfl := List.eq_nil_of_length_eq_zero length
    have same : fill s [] = s := by
      rw [fill, none_]
      rfl
    rw [same]
    exact ⟨.refl s, rfl, by rw [none_]; rfl⟩
  | first gap found rest v first ih =>
    obtain ⟨p, after, proper, hfound, whole, same⟩ := item?_eq_some_iff.mp first.matched
    obtain ⟨rfl, rfl⟩ := List.append_inj whole same
    have shifted : ∀ k (bs : List Block), (bs.map (Block.shift k)).map Block.opening =
        bs.map Block.opening ∧ (bs.map (Block.shift k)).map Block.content = bs.map Block.content := by
      intro k bs
      simp only [List.map_map]
      exact ⟨rfl, rfl⟩
    rw [blocks_append_of_clear first.clear, List.length_map] at length
    obtain ⟨p', v', texts', proper', hfound', filled, recast, openings, contents⟩ :=
      exists_fill_written proper hfound length inner
    have length' : texts'.length = (blocks rest).length := by
      have count := congrArg List.length openings
      have total := congrArg List.length contents
      rw [blocks_written_append proper hfound] at length
      simp only [List.length_append, List.length_map] at count total length
      omega
    have inner' : ∀ t ∈ texts', IsInner t := fun t ht =>
      inner t (contents ▸ List.mem_append_right _ ht)
    obtain ⟨recast', openings', contents'⟩ := ih length' inner'
    rw [fill_append_of_clear first.clear, filled]
    have clear' : Text.Clear item? (gap ++ (p'.written ++ fill rest texts')) gap.length := by
      intro i hi
      have nothing := first.clear i hi
      rw [List.drop_append_of_le_length (Nat.le_of_lt hi)] at nothing ⊢
      exact ((recast recast').append _).item?_eq_none nothing
    refine ⟨(recast recast').append gap, ?_, ?_⟩
    · rw [blocks_append_of_clear clear', blocks_append_of_clear first.clear,
        blocks_written_append proper' hfound', blocks_written_append proper hfound, (shifted ..).1,
        (shifted ..).1, List.map_append, List.map_append, (shifted ..).1, (shifted ..).1, openings,
        openings']
    · rw [blocks_append_of_clear clear', blocks_written_append proper' hfound', (shifted ..).2,
        List.map_append, (shifted ..).2, contents', contents]

end Componentry.Markup
