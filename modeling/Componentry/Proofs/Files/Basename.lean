import Componentry.Document
import Componentry.Proofs.Text.Basic

/-!
# Names in a path

The last name of a path is what follows its last slash, of either kind.
-/

namespace Componentry

namespace Text

/-! ## Pieces put together -/

theorem join_cons {sep piece : Text} {pieces : List Text} (h : pieces ≠ []) :
    join sep (piece :: pieces) = piece ++ sep ++ join sep pieces := by
  cases pieces with
  | nil => exact absurd rfl h
  | cons next rest => rfl

theorem splitOn_ne_nil (c : CodePoint) (s : Text) : splitOn c s ≠ [] := by
  obtain ⟨first, rest, h⟩ := exists_splitOn_eq_cons c s
  rw [h]
  exact List.cons_ne_nil first rest

/-- The pieces between separators make up the text. -/
theorem join_splitOn (c : CodePoint) (s : Text) : join [c] (splitOn c s) = s := by
  induction hn : s.length using Nat.strongRecOn generalizing s with
  | ind n ih =>
    rcases splitOn_cases c s with ⟨-, split⟩ | ⟨first, rest, -, rfl, split⟩
    · rw [split, join]
    · have shorter : rest.length < n := by
        rw [← hn, List.length_append, List.length_cons]
        omega
      rw [split, join_cons (splitOn_ne_nil c rest), ih rest.length shorter rest rfl]
      simp

/-- A text without the separator is all that follows it. -/
theorem splitLast_of_not_mem {c : CodePoint} {s : Text} (h : c ∉ s) :
    splitLast c s = (none, s) := by
  have absent : c ∉ s.reverse := fun mem => h (List.mem_reverse.mp mem)
  rcases splitOn_cases c s.reverse with ⟨-, split⟩ | ⟨first, rest, -, whole, -⟩
  · rw [splitLast, split]
  · exact absurd (by rw [whole]; simp) absent

/-- What follows the last separator, and what stands before it. -/
theorem splitLast_append {c : CodePoint} (front : Text) {last : Text} (h : c ∉ last) :
    splitLast c (front ++ c :: last) = (some front, last) := by
  have absent : c ∉ last.reverse := fun mem => h (List.mem_reverse.mp mem)
  have split : splitOn c (front ++ c :: last).reverse = last.reverse :: splitOn c front.reverse := by
    have pieces := splitOn_append absent (splitOn_cons_self (c := c) front.reverse)
    rw [List.append_nil] at pieces
    simpa using pieces
  obtain ⟨first, rest, more⟩ := exists_splitOn_eq_cons c front.reverse
  have whole : join [c] (first :: rest) = front.reverse := more ▸ join_splitOn c front.reverse
  rw [splitLast, split, more]
  simp [whole]

/-- Every text is one that ends in a separator, or nothing, and one without separators. -/
theorem exists_last (sep : CodePoint → Prop) [DecidablePred sep] (s : Text) :
    ∃ front last, s = front ++ last ∧ (∀ c ∈ front.getLast?, sep c) ∧ ∀ c ∈ last, ¬ sep c := by
  induction s with
  | nil => exact ⟨[], [], rfl, by simp, by simp⟩
  | cons c s ih =>
    obtain ⟨front, last, rfl, hfront, hlast⟩ := ih
    by_cases more : front = [] ∧ ¬ sep c
    · obtain ⟨rfl, hc⟩ := more
      exact ⟨[], c :: last, rfl, hfront, List.forall_mem_cons.mpr ⟨hc, hlast⟩⟩
    · refine ⟨c :: front, last, rfl, ?_, hlast⟩
      intro d mem
      rw [List.getLast?_cons] at mem
      cases front with
      | nil =>
        obtain rfl : c = d := by simpa using mem
        exact Classical.not_not.mp fun hc => more ⟨rfl, hc⟩
      | cons e rest => exact hfront d (by simpa [List.getLast?_cons] using mem)

theorem replaceAll_singleton (a b : CodePoint) (s : Text) :
    replaceAll [a] [b] s = s.map fun c => if c = a then b else c := by
  rw [replaceAll]
  induction s with
  | nil => rfl
  | cons c s ih =>
    by_cases h : c = a
    · subst h
      simp [replaceFrom, startsWith, after?, ih]
    · simp [replaceFrom, startsWith, after?, h, Ne.symm h, ih]

end Text

/-! ## The last name -/

/-- Does `c` part the names of a path? -/
def IsSlash (c : CodePoint) : Prop := c = .char '/' ∨ c = .char '\\'

instance : DecidablePred IsSlash := fun c => inferInstanceAs (Decidable (c = _ ∨ c = _))

/-- A path up to its last slash, or nothing. -/
def IsFront (front : Text) : Prop := ∀ c ∈ front.getLast?, IsSlash c

theorem slashed_eq (path : Text) :
    Text.replaceAll "\\" "/" path = path.map fun c => if c = .char '\\' then .char '/' else c :=
  Text.replaceAll_singleton (.char '\\') (.char '/') path

theorem slashed_of_not_mem {path : Text} (h : .char '\\' ∉ path) :
    Text.replaceAll "\\" "/" path = path := by
  rw [slashed_eq]
  refine (List.map_congr_left fun c hc => if_neg ?_).trans (List.map_id path)
  rintro rfl
  exact h hc

/-- **The last name** of a path is what follows its last slash. -/
theorem basename_append {front base : Text} (hfront : IsFront front) (hbase : ∀ c ∈ base, ¬ IsSlash c) :
    basename (front ++ base) = base := by
  have backslash : .char '\\' ∉ base := fun mem => hbase _ mem (.inr rfl)
  have slash : CodePoint.char '/' ∉ base := fun mem => hbase _ mem (.inl rfl)
  have parts : Text.replaceAll "\\" "/" (front ++ base) = Text.replaceAll "\\" "/" front ++ base := by
    rw [slashed_eq, slashed_eq, List.map_append, ← slashed_eq base, slashed_of_not_mem backslash]
  rw [basename, parts, slashed_eq]
  rcases List.eq_nil_or_concat front with rfl | ⟨init, c, rfl⟩
  · exact congrArg Prod.snd (Text.splitLast_of_not_mem slash)
  · have last : (if c = .char '\\' then .char '/' else c) = CodePoint.char '/' := by
      rcases hfront c (by simp) with rfl | rfl <;> simp
    rw [List.concat_eq_append, List.map_append, List.append_assoc]
    simp only [List.map_cons, List.map_nil, last, List.singleton_append]
    exact congrArg Prod.snd (Text.splitLast_append _ slash)

/-- Every path ends in a last name. -/
theorem exists_basename (path : Text) :
    ∃ front base, path = front ++ base ∧ IsFront front ∧ ∀ c ∈ base, ¬ IsSlash c :=
  Text.exists_last IsSlash path

end Componentry
