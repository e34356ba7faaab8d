import Componentry.Text.Basic

/-!
# Cuts and searches

What the cuts of a text give back: the pieces around a separator, the text behind a beginning, and
the two sides of the first occurrence of a word.
-/

namespace Componentry.Text

@[simp] theorem ofString_inj {a b : String} : ofString a = ofString b ↔ a = b := by
  constructor
  · intro h
    exact String.toList_inj.mp ((List.map_inj_right fun _ _ => CodePoint.char.inj).mp h)
  · rintro rfl
    rfl

/-! ## Pieces between separators -/

section Split

variable {c : CodePoint}

@[simp] theorem splitOn_nil : splitOn c [] = [[]] := rfl

@[simp] theorem splitOn_cons_self (s : Text) : splitOn c (c :: s) = [] :: splitOn c s := by
  simp [splitOn]

theorem exists_splitOn_eq_cons (c : CodePoint) (s : Text) :
    ∃ first rest, splitOn c s = first :: rest := by
  cases s with
  | nil => exact ⟨_, _, rfl⟩
  | cons x s =>
    rw [splitOn]
    split
    · exact ⟨_, _, rfl⟩
    · split <;> exact ⟨_, _, rfl⟩

/-- A text without the separator joins the first piece of what follows it. -/
theorem splitOn_append {a s first : Text} {rest : List Text} (ha : c ∉ a)
    (hs : splitOn c s = first :: rest) : splitOn c (a ++ s) = (a ++ first) :: rest := by
  induction a with
  | nil => exact hs
  | cons x a ih =>
    rw [List.mem_cons, not_or] at ha
    rw [List.cons_append, splitOn, if_neg (Ne.symm ha.1), ih ha.2]
    rfl

/-- A text without the separator is its only piece; otherwise the first piece ends at the first one. -/
theorem splitOn_cases (c : CodePoint) (s : Text) :
    (c ∉ s ∧ splitOn c s = [s]) ∨
      ∃ first rest, c ∉ first ∧ s = first ++ c :: rest ∧ splitOn c s = first :: splitOn c rest := by
  induction s with
  | nil => simp
  | cons x s ih =>
    by_cases h : x = c
    · subst h
      exact .inr ⟨[], s, by simp, rfl, splitOn_cons_self s⟩
    · rcases ih with ⟨absent, split⟩ | ⟨first, rest, absent, rfl, split⟩
      · exact .inl ⟨by simp [absent, Ne.symm h], by simp [splitOn, h, split]⟩
      · exact .inr ⟨x :: first, rest, by simp [absent, Ne.symm h], rfl, by simp [splitOn, h, split]⟩

theorem splitOn_replicate (n : Nat) (s : Text) :
    splitOn c (List.replicate n c ++ s) = List.replicate n [] ++ splitOn c s := by
  induction n with
  | zero => rfl
  | succ n ih => simp [List.replicate_succ, ih]

end Split

/-! ## Beginnings and occurrences -/

theorem after?_eq_some {p s rest : Text} : after? p s = some rest ↔ s = p ++ rest := by
  induction p generalizing s with
  | nil => simp [after?]
  | cons a p ih =>
    cases s with
    | nil => simp [after?]
    | cons b s =>
      by_cases h : a = b
      · simp [after?, h, ih]
      · simp [after?, h, Ne.symm h]

@[simp] theorem after?_append (p s : Text) : after? p (p ++ s) = some s := after?_eq_some.mpr rfl

theorem startsWith_iff {p s : Text} : startsWith p s ↔ ∃ rest, s = p ++ rest := by
  simp [startsWith, Option.isSome_iff_exists, after?_eq_some]

/-- The two sides of an occurrence, and nothing before it is one. -/
theorem eq_of_cut?_eq_some {needle s before rest : Text} (h : cut? needle s = some (before, rest)) :
    s = before ++ needle ++ rest ∧ ∀ i < before.length, after? needle (s.drop i) = none := by
  induction s generalizing before with
  | nil =>
    rw [cut?] at h
    split at h
    · rename_i empty
      obtain ⟨rfl, rfl⟩ : [] = before ∧ [] = rest := by simpa using h
      simpa using empty
    · cases h
  | cons x s ih =>
    rw [cut?] at h
    cases hx : after? needle (x :: s) with
    | some tail =>
      obtain ⟨rfl, rfl⟩ : [] = before ∧ tail = rest := by simpa [hx] using h
      simpa using after?_eq_some.mp hx
    | none =>
      simp only [hx, Option.map_eq_some_iff] at h
      obtain ⟨⟨front, tail⟩, hcut, heq⟩ := h
      obtain ⟨rfl, rfl⟩ : x :: front = before ∧ tail = rest := by simpa using heq
      obtain ⟨rfl, earlier⟩ := ih hcut
      refine ⟨by simp, fun i hi => ?_⟩
      cases i with
      | zero => exact hx
      | succ i => exact earlier i (by simpa using hi)

theorem contains_iff {needle s : Text} :
    contains needle s ↔ ∃ before after, s = before ++ needle ++ after := by
  constructor
  · intro h
    obtain ⟨⟨before, after⟩, hcut⟩ := Option.isSome_iff_exists.mp h
    exact ⟨before, after, (eq_of_cut?_eq_some hcut).1⟩
  · rintro ⟨before, after, rfl⟩
    rw [contains]
    induction before with
    | nil =>
      cases needle with
      | nil => cases after <;> rfl
      | cons a needle =>
        rw [List.nil_append, List.cons_append, cut?, ← List.cons_append, after?_append]
        rfl
    | cons x before ih =>
      rw [List.cons_append, List.cons_append, cut?]
      split
      · rfl
      · rwa [Option.isSome_map]

theorem contains_iff_isInfix {needle s : Text} : contains needle s ↔ needle <:+: s := by
  rw [contains_iff]
  simp only [List.IsInfix, eq_comm]

/-! ## Occurrences across a seam -/

theorem prefix_append_cases {a b c : Text} (h : a <+: b ++ c) :
    a <+: b ∨ ∃ d, a = b ++ d ∧ d <+: c := by
  rcases List.prefix_or_prefix_of_prefix h (List.prefix_append b c) with short | ⟨d, rfl⟩
  · exact .inl short
  · exact .inr ⟨d, rfl, (List.prefix_append_right_inj b).mp h⟩

/-- A word does not start at another character. -/
theorem isInfix_of_cons {x c : CodePoint} {word back : Text} (other : x ≠ c)
    (h : x :: word <:+: c :: back) : x :: word <:+: back := by
  rcases List.infix_cons_iff.mp h with starts | later
  · exact absurd (List.cons_prefix_cons.mp starts).1 other
  · exact later

theorem isInfix_of_append_of_head {x : CodePoint} {word front back : Text} (absent : x ∉ front)
    (h : x :: word <:+: front ++ back) : x :: word <:+: back := by
  induction front with
  | nil => exact h
  | cons c front ih =>
    rw [List.mem_cons, not_or] at absent
    exact ih absent.2 (isInfix_of_cons absent.1 h)

/-- A word does not go past a character that is not behind its first one. -/
theorem prefix_of_append_of_tail {x y : CodePoint} {word front back : Text} (absent : y ∉ word)
    (some_ : front ≠ []) (h : x :: word <+: front ++ y :: back) : x :: word <+: front := by
  rcases prefix_append_cases h with within | ⟨rest, whole, crosses⟩
  · exact within
  · cases rest with
    | nil => exact ⟨[], by simpa using whole⟩
    | cons d rest =>
      obtain ⟨rfl, -⟩ := List.cons_prefix_cons.mp crosses
      obtain ⟨c, front, rfl⟩ := List.exists_cons_of_ne_nil some_
      obtain ⟨-, rfl⟩ := List.cons.inj whole
      exact absurd (by simp) absent

theorem isInfix_of_append_of_tail {x y : CodePoint} {word front back : Text} (absent : y ∉ word)
    (free : ¬ x :: word <:+: front) (h : x :: word <:+: front ++ y :: back) :
    x :: word <:+: y :: back := by
  induction front with
  | nil => exact h
  | cons c front ih =>
    rcases List.infix_cons_iff.mp h with starts | later
    · exact absurd (prefix_of_append_of_tail absent (List.cons_ne_nil c front) starts).isInfix free
    · exact ih (fun inside => free (inside.trans (List.suffix_cons c front).isInfix)) later

/-- A text whose last character is nowhere else in it. Two occurrences of it never overlap. -/
def Terminator (needle : Text) : Prop := ∃ stem c, needle = stem ++ [c] ∧ c ∉ stem

/-- **The first terminator** ends a text that has none. -/
theorem Terminator.cut?_eq_some_iff {needle s before rest : Text} (h : Terminator needle) :
    cut? needle s = some (before, rest) ↔ s = before ++ needle ++ rest ∧ ¬ needle <:+: before := by
  obtain ⟨stem, z, rfl, absent⟩ := h
  constructor
  · intro cut
    obtain ⟨rfl, earlier⟩ := eq_of_cut?_eq_some cut
    refine ⟨rfl, ?_⟩
    rintro ⟨front, back, rfl⟩
    have inside : front.length < (front ++ (stem ++ [z]) ++ back).length := by
      simp only [List.length_append, List.length_singleton]
      omega
    have none_ := earlier front.length inside
    rw [List.append_assoc, List.append_assoc, List.append_assoc, List.drop_left, after?_append] at none_
    cases none_
  · rintro ⟨rfl, free⟩
    induction before with
    | nil =>
      obtain ⟨x, needle, hn⟩ := List.exists_cons_of_ne_nil (show stem ++ [z] ≠ [] by simp)
      rw [List.nil_append, hn, List.cons_append, cut?, ← List.cons_append, after?_append]
    | cons c before ih =>
      have later := ih fun inside => free (inside.trans (List.suffix_cons c before).isInfix)
      have here : after? (stem ++ [z]) (c :: (before ++ (stem ++ [z]) ++ rest)) = none := by
        rw [Option.eq_none_iff_forall_ne_some]
        intro tail found
        have starts : stem ++ [z] <+: (c :: before) ++ (stem ++ [z] ++ rest) :=
          ⟨tail, by simpa using (after?_eq_some.mp found).symm⟩
        rcases prefix_append_cases starts with within | ⟨d, whole, crosses⟩
        · exact free within.isInfix
        · -- The last character would be one of the stem.
          rcases List.eq_nil_or_concat d with rfl | ⟨d', z', rfl⟩
          · exact free ⟨[], [], by simpa using whole⟩
          · rw [List.concat_eq_append, ← List.append_assoc] at whole
            rw [List.concat_eq_append] at crosses
            obtain ⟨rfl, ⟨⟩⟩ := List.append_inj' whole rfl
            have inStem : d' ++ [z] <+: c :: before ++ d' :=
              List.prefix_of_prefix_length_le crosses ⟨[z] ++ rest, by simp⟩ (by simp)
            exact absent (inStem.subset (by simp))
      rw [List.cons_append, List.cons_append, cut?, here, later]
      rfl

/-- A terminator that occurs occurs for a first time. -/
theorem Terminator.exists_first {needle s : Text} (h : Terminator needle) (occurs : needle <:+: s) :
    ∃ before rest, s = before ++ needle ++ rest ∧ ¬ needle <:+: before := by
  rw [← contains_iff_isInfix, contains, Option.isSome_iff_exists] at occurs
  obtain ⟨⟨before, rest⟩, cut⟩ := occurs
  exact ⟨before, rest, h.cut?_eq_some_iff.mp cut⟩

theorem cut?_singleton_eq_some_iff {c : CodePoint} {s before rest : Text} :
    cut? [c] s = some (before, rest) ↔ s = before ++ c :: rest ∧ c ∉ before := by
  have once : Terminator [c] := ⟨[], c, rfl, List.not_mem_nil⟩
  have occurs : [c] <:+: before ↔ c ∈ before := by
    simp only [List.IsInfix, List.mem_iff_append, List.append_assoc, List.singleton_append, eq_comm]
  rw [once.cut?_eq_some_iff, occurs, List.append_assoc, List.singleton_append]

end Componentry.Text
