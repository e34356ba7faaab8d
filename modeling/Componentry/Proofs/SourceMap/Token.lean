import Componentry.Proofs.SourceMap.Splice
import Componentry.Text.Scan

/-!
# Tokens

A token is a run of word characters, or another character that is not blank. Scanning a text for
tokens finds them where a splice puts its mappings: at each word character that follows none, and at
every other character that is not blank.
-/

namespace Componentry

/-- A token at the start of a text, and its length: a run of word characters, or another character
that is not blank. -/
def token? (s : Text) : Option (Unit × Nat) :=
  match s.takeWhile SourceMap.isWordChar with
  | [] => (s.head?.filter fun c => !isBlank c).map fun _ => ((), 1)
  | word => some ((), word.length)

/-- The offsets at which the tokens of a text start. -/
def tokenOffsets (s : Text) : List Nat := (Text.scan token? s).map (·.start)

namespace SourceMap

theorem token?_of_word {c : CodePoint} (word : isWordChar c) (s : Text) :
    token? (c :: s) = some ((), (s.takeWhile isWordChar).length + 1) := by
  simp [token?, word]

theorem token?_of_not_word {c : CodePoint} (other : ¬ isWordChar c) (s : Text) :
    token? (c :: s) = if isBlank c then none else some ((), 1) := by
  by_cases blank : isBlank c <;> simp [token?, other, blank]

/-- What is left of the word that `prev` is in. -/
def wordRest (prev : CodePoint) (s : Text) : Nat :=
  if isWordChar prev then (s.takeWhile isWordChar).length else 0

/-- A scan that has passed `prev`, and is to pass the rest of its word, finds the tokens that start
behind it. -/
theorem map_start_scanFrom (prev : CodePoint) (offset : Nat) (s : Text) :
    (Text.scanFrom token? (wordRest prev s) offset s).map (·.start) = tokenStarts prev offset s := by
  induction s generalizing prev offset with
  | nil => simp [Text.scanFrom, tokenStarts]
  | cons c s ih =>
    have next := ih c (offset + 1)
    by_cases word : isWordChar c
    · have rest : wordRest c s = (s.takeWhile isWordChar).length := by simp [wordRest, word]
      rw [rest] at next
      by_cases before : isWordChar prev
      · -- The word goes on.
        simp [wordRest, before, word, Text.scanFrom, tokenStarts, startsToken, next]
      · simp [wordRest, before, token?_of_word word, Text.scanFrom, tokenStarts, startsToken, word,
          next]
    · have rest : wordRest c s = 0 := by simp [wordRest, word]
      have ended : wordRest prev (c :: s) = 0 := by simp [wordRest, word]
      rw [rest] at next
      by_cases blank : isBlank c <;>
        simp [ended, token?_of_not_word word, Text.scanFrom, tokenStarts, startsToken, word, blank,
          next]

/-- The tokens of a text are those behind something that is no word. -/
theorem tokenOffsets_eq (s : Text) : tokenOffsets s = tokenStarts '\n' 0 s :=
  map_start_scanFrom (.char '\n') 0 s

/-- A token starts where a character follows the start of the text or another character as a token
does. -/
theorem mem_tokenOffsets {s : Text} {i : Nat} :
    i ∈ tokenOffsets s ↔
      ∃ p c, (.char '\n' :: s)[i]? = some p ∧ s[i]? = some c ∧ startsToken p c := by
  rw [tokenOffsets_eq, mem_tokenStarts]
  simp

/-- The offsets of a line that are mapped when it is copied: its start and its tokens. -/
theorem anchored_iff_of_notMem {line : Text} (absent : .char '\n' ∉ line) {a : Nat} :
    Anchored line a ↔ line ≠ [] ∧ (a = 0 ∨ a ∈ tokenOffsets line) := by
  rw [← mem_anchors absent, tokenOffsets_eq]
  cases line with
  | nil => simp [anchors]
  | cons c s =>
    by_cases h : startsToken '\n' c <;> simp [anchors, tokenStarts, h]

end SourceMap

end Componentry
