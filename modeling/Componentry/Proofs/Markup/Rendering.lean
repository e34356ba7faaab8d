import Componentry.Proofs.Markup.Block
import Mathlib.Data.List.Basic

/-!
# Blocks of a document that is written out

A document is written piece by piece: texts, comments, self-closing tags and blocks. Looking for the
blocks of what is written gives back the blocks among the pieces, each at the offset at which it was
written. What is in a comment, in a tag or in another block is not found, and nothing is found across
the border of two pieces.
-/

namespace Componentry.Markup

/-! ## What a piece starts with -/

/-- A piece other than text starts with a word that no text has. -/
theorem Piece.exists_word {p : Piece} {v : Item} (h : p.found? = some v) :
    ∃ word tail, p.written = .char '<' :: (word ++ tail) ∧ .char '<' ∉ word ∧
      ∀ t, (Piece.text t).Proper → ¬ .char '<' :: word <:+: t := by
  have tag : ∀ kind : Kind, .char '<' ∉ kind.tag := by
    intro kind
    cases kind <;> decide
  cases p with
  | text t => cases h
  | comment body =>
    refine ⟨"!--", body ++ "-->", ?_, by decide, fun t proper => proper.1⟩
    rw [written, List.append_assoc]
    rfl
  | selfClosing kind raw =>
    refine ⟨kind.tag, raw ++ "/>", ?_, tag kind, fun t proper => proper.2 kind⟩
    rw [written, List.append_assoc, List.append_assoc]
    rfl
  | block kind raw content =>
    refine ⟨kind.tag, raw ++ .char '>' :: (content ++ kind.closing), ?_, tag kind,
      fun t proper => proper.2 kind⟩
    have whole := kind.element_append raw content []
    rw [List.append_nil, List.append_nil, List.append_assoc] at whole
    exact whole

/-- What is found starts with `<`, and does not depend on what follows it. -/
theorem local_item? : Text.Local item? where
  pos h := by
    obtain ⟨p, rest, -, found, -, rfl⟩ := item?_eq_some_iff.mp h
    obtain ⟨word, tail, written, -⟩ := Piece.exists_word found
    rw [written]
    exact Nat.succ_pos _
  le_length h := by
    obtain ⟨p, rest, -, -, rfl, rfl⟩ := item?_eq_some_iff.mp h
    rw [List.length_append]
    exact Nat.le_add_right ..
  take_append h t := by
    obtain ⟨p, rest, proper, found, rfl, rfl⟩ := item?_eq_some_iff.mp h
    rw [List.take_left]
    exact item?_eq_some_iff.mpr ⟨p, t, proper, found, rfl, rfl⟩

/-- In a text nothing is found, also not across its end, if what follows starts with `<`. -/
theorem clear_text {t rest : Text} (proper : (Piece.text t).Proper)
    (starts : ∀ c ∈ rest.head?, c = .char '<') : Text.Clear item? (t ++ rest) t.length := by
  intro i hi
  rw [Option.eq_none_iff_forall_ne_some]
  rintro ⟨v, n⟩ here
  obtain ⟨p, tail, -, found, text, -⟩ := item?_eq_some_iff.mp here
  obtain ⟨word, more, written, alone, absent⟩ := Piece.exists_word found
  have within : .char '<' :: word <+: t.drop i := by
    have starts_ : .char '<' :: word <+: t.drop i ++ rest := by
      rw [← List.drop_append_of_le_length (Nat.le_of_lt hi), text, written]
      exact ⟨more ++ tail, by simp⟩
    cases rest with
    | nil => simpa using starts_
    | cons c rest =>
      obtain rfl := starts c rfl
      refine Text.prefix_of_append_of_tail alone ?_ starts_
      exact List.ne_nil_of_length_pos (by rw [List.length_drop]; omega)
  exact absent t proper (within.isInfix.trans (List.drop_suffix i t).isInfix)

/-! ## Blocks further on -/

/-- A block further on by so much. -/
def Block.shift (k : Nat) (b : Block) : Block := { b with start := k + b.start, stop := k + b.stop }

theorem ofFound_shift {source : Text} {f : Text.Found Item} (hf : f ∈ Text.scan item? source)
    (k : Nat) : Block.ofFound (f.shift k) = (Block.ofFound f).map (Block.shift k) := by
  obtain ⟨-, here⟩ := Text.mem_scan hf
  rw [Block.ofFound, Block.ofFound, Text.Found.value_shift]
  split
  · rename_i kind raw content value
    rw [value] at here
    obtain ⟨-, length, -⟩ := item?_eq_block here
    have enough : kind.closing.length + content.length ≤ f.stop := by
      rw [Text.Found.stop, length, Kind.length_element]
      omega
    simp only [Text.Found.stop_shift, Option.map_some, Block.shift, Option.some.injEq, Block.mk.injEq,
      true_and]
    omega
  · rfl

theorem filterMap_ofFound_shift (k : Nat) (s : Text) :
    ((Text.scan item? s).map (Text.Found.shift k)).filterMap Block.ofFound =
      (blocks s).map (Block.shift k) := by
  rw [List.filterMap_map, blocks, List.map_filterMap]
  exact List.filterMap_congr fun f hf => ofFound_shift hf k

/-- Where nothing is found there is no block. -/
theorem blocks_append_of_clear {gap rest : Text} (clear : Text.Clear item? (gap ++ rest) gap.length) :
    blocks (gap ++ rest) = (blocks rest).map (Block.shift gap.length) := by
  rw [blocks, Text.scan_append_of_clear clear, filterMap_ofFound_shift]

/-! ## Blocks of pieces -/

/-- The block that a piece at an offset is, if it is one. -/
def Piece.block? (offset : Nat) : Piece → Option Block
  | block kind raw content =>
    let start := offset + ("<" ++ kind.tag ++ raw ++ ">").length
    some ⟨kind, content, Attributes.parse raw, start, start + content.length⟩
  | _ => none

/-- The blocks among pieces, the first of which is at an offset. -/
def blocksFrom (offset : Nat) : List Piece → List Block
  | [] => []
  | p :: rest => (p.block? offset).toList ++ blocksFrom (offset + p.written.length) rest

theorem Piece.block?_add (k offset : Nat) (p : Piece) :
    p.block? (k + offset) = (p.block? offset).map (Block.shift k) := by
  cases p with
  | block kind raw content => simp [block?, Block.shift, Nat.add_assoc]
  | text t => rfl
  | comment body => rfl
  | selfClosing kind raw => rfl

theorem blocksFrom_add (k offset : Nat) (pieces : List Piece) :
    blocksFrom (k + offset) pieces = (blocksFrom offset pieces).map (Block.shift k) := by
  induction pieces generalizing offset with
  | nil => rfl
  | cons p rest ih =>
    rw [blocksFrom, blocksFrom, Piece.block?_add, List.map_append, Nat.add_assoc, ih]
    cases p.block? offset <;> rfl

theorem ofFound_written {p : Piece} {v : Item} (found : p.found? = some v) :
    Block.ofFound ⟨0, p.written.length, v⟩ = p.block? 0 := by
  cases p with
  | text t => cases found
  | comment body =>
    cases found
    rfl
  | selfClosing kind raw =>
    cases found
    rfl
  | block kind raw content =>
    cases found
    have one : (Text.ofString ">").length = 1 := rfl
    simp only [Block.ofFound, Piece.block?, Text.Found.stop, Piece.written, Kind.length_element,
      List.length_append, one, Option.some.injEq, Block.mk.injEq, true_and]
    omega

/-- **One piece**: what is found at the start is that piece, and the rest is looked at behind it. -/
theorem blocks_written_append {p : Piece} {v : Item} (proper : p.Proper) (found : p.found? = some v)
    (rest : Text) :
    blocks (p.written ++ rest) =
      (p.block? 0).toList ++ (blocks rest).map (Block.shift p.written.length) := by
  have matched := item?_eq_some_iff.mpr ⟨p, rest, proper, found, rfl, rfl⟩
  rw [blocks, Text.scan_of_match (local_item?.pos matched) matched, List.filterMap_cons,
    ofFound_written found, filterMap_ofFound_shift]
  cases p.block? 0 <;> rfl

/-- Two pieces of which at most one is text. -/
def Piece.Apart (p q : Piece) : Prop := p.found? = none → q.found? ≠ none

/-- **Every block that is written is found.** Pieces are written one after the other, no text next to
a text. The blocks of what is written are exactly the blocks among the pieces, in order, each with its
kind, its content, the attributes of its tag, and the offsets between which its content was written. -/
theorem blocks_written {pieces : List Piece} (proper : ∀ p ∈ pieces, p.Proper)
    (apart : pieces.IsChain Piece.Apart) :
    blocks (pieces.flatMap Piece.written) = blocksFrom 0 pieces := by
  induction pieces with
  | nil => rfl
  | cons p rest ih =>
    have later := ih (fun q hq => proper q (List.mem_cons_of_mem p hq)) apart.of_cons
    have shifted := blocksFrom_add p.written.length 0 rest
    rw [Nat.add_zero] at shifted
    rw [List.flatMap_cons, blocksFrom, Nat.zero_add, shifted, ← later]
    cases found : p.found? with
    | some v => exact blocks_written_append (proper p (List.mem_cons_self ..)) found _
    | none =>
      cases p with
      | text t =>
        refine blocks_append_of_clear (clear_text (proper _ (List.mem_cons_self ..)) ?_)
        intro c hc
        cases rest with
        | nil => cases hc
        | cons q rest =>
          -- The next piece is no text.
          obtain ⟨v, hv⟩ := Option.ne_none_iff_exists'.mp ((List.isChain_cons_cons.mp apart).1 found)
          obtain ⟨word, tail, written, -⟩ := Piece.exists_word hv
          rw [List.flatMap_cons, written] at hc
          exact (Option.some.inj hc).symm
      | comment body => cases found
      | selfClosing kind raw => cases found
      | block kind raw content => cases found

/-- A comment around a style, a tag that is not one, a self-closing tag with a slash in a value, and a
style with the start of a comment and another closing tag in it. -/
def mixedPieces : List Piece :=
  [.comment "<style>a</style>-", .text "<scrip", .selfClosing .script " src=\"a/b\" ",
    .block .style " lang='scss'" "<!--</script>", .text "--></style>"]

/-- Only the last style is found. -/
theorem blocks_mixedPieces : (∀ p ∈ mixedPieces, p.Proper) ∧ mixedPieces.IsChain Piece.Apart ∧
    blocks (mixedPieces.flatMap Piece.written) =
      [⟨.style, "<!--</script>", [("lang", some "scss")], 69, 82⟩] := by
  have proper : ∀ p ∈ mixedPieces, p.Proper := by decide +kernel
  have apart : mixedPieces.IsChain Piece.Apart := by
    simp [mixedPieces, Piece.Apart, Piece.found?]
  refine ⟨proper, apart, ?_⟩
  rw [blocks_written proper apart]
  rfl

end Componentry.Markup
