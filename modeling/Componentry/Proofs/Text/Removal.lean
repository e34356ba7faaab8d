import Componentry.Proofs.Text.Walk

/-!
# What a removal leaves

Removing the matches of a text joins what stood on their two sides. For a matcher that looks at
nothing behind its match, nothing matches within what is left between two seams, so a match of the
result lies across a seam. Removing again changes nothing exactly if no seam is crossed.
-/

namespace Componentry.Text

variable {α : Type} {match? : Text → Option (α × Nat)}

/-! ## What is left -/

/-- What stands between matches, and before and behind them, from an offset on. -/
def between (s : Text) : (offset : Nat) → List (Found α) → Text
  | offset, [] => s.drop offset
  | offset, f :: rest => slice s offset f.start ++ between s f.stop rest

theorem between_shift (front s : Text) (offset : Nat) (founds : List (Found α)) :
    between (front ++ s) (front.length + offset) (founds.map (Found.shift front.length)) =
      between s offset founds := by
  induction founds generalizing offset with
  | nil => rw [List.map_nil, between, between, List.drop_length_add_append]
  | cons f rest ih =>
    rw [List.map_cons, between, between, Found.stop_shift, ih, Found.start_shift, slice, slice,
      List.drop_length_add_append, Nat.add_sub_add_left]

/-- A removal leaves what stands between the matches of a scan. -/
theorem Local.remove_eq_between (hlocal : Local match?) (s : Text) :
    remove match? s = between s 0 (scan match? s) := by
  induction s using hlocal.walk with
  | clear s clear => rw [remove_of_clear clear, scan_of_clear clear, between, List.drop_zero]
  | first gap found rest v first ih =>
    have behind := between_shift (gap ++ found) rest 0 (scan match? rest)
    rw [List.length_append, List.append_assoc, Nat.add_zero] at behind
    rw [first.remove_eq hlocal, first.scan_eq hlocal, between, Found.stop, behind, ← ih, slice,
      List.drop_zero, Nat.sub_zero, List.take_left]

/-! ## Seams -/

namespace Local

variable (hlocal : Local match?)
include hlocal

/-- What matches in a text also matches if more follows. -/
theorem append {s : Text} {v : α} {n : Nat} (h : match? s = some (v, n)) (t : Text) :
    match? (s ++ t) = some (v, n) := by
  have := hlocal.take_append h (s.drop n ++ t)
  rwa [← List.append_assoc, List.take_append_drop] at this

/-- Where nothing matches, nothing matches if less follows. -/
theorem clear_of_append {s t : Text} {n : Nat} (clear : Clear match? (s ++ t) n) (hn : n ≤ s.length) :
    Clear match? s n := by
  intro i hi
  cases here : match? (s.drop i) with
  | none => rfl
  | some m =>
    have := hlocal.append here t
    rw [← List.drop_append_of_le_length (by omega), clear i hi] at this
    cases this

/-- The gap and the first match stay if less follows. -/
theorem first_take {gap found rest : Text} {v : α} (h : First match? gap found rest v) (n : Nat) :
    First match? gap found (rest.take n) v where
  clear := by
    refine hlocal.clear_of_append (t := rest.drop n) ?_ (by simp)
    have whole : gap ++ (found ++ rest.take n) ++ rest.drop n = gap ++ (found ++ rest) := by simp
    rw [whole]
    exact h.clear
  matched := by
    have := hlocal.take_append h.matched (rest.take n)
    rwa [List.take_left] at this

theorem remove_gap {gap found rest : Text} {v : α} (h : First match? gap found rest v) :
    remove match? gap = gap :=
  remove_of_clear (hlocal.clear_of_append h.clear (Nat.le_refl _))

/-- **A seam**: what is left of a text is what is left of the two sides of each match. -/
theorem remove_of_mem_scan {s : Text} {f : Found α} (hf : f ∈ scan match? s) :
    remove match? s = remove match? (s.take f.start) ++ remove match? (s.drop f.stop) := by
  induction s using hlocal.walk generalizing f with
  | clear s clear =>
    rw [scan_of_clear clear] at hf
    cases hf
  | first gap found rest v first ih =>
    rw [first.scan_eq hlocal, List.mem_cons, List.mem_map] at hf
    rw [first.remove_eq hlocal]
    rcases hf with rfl | ⟨g, hg, rfl⟩
    · simp only [Found.stop, List.take_left, hlocal.remove_gap first]
      rw [← List.append_assoc, ← List.length_append, List.drop_left]
    · -- The sides of a later match are those in the rest, the first with the gap before it.
      have back : (gap ++ (found ++ rest)).drop (gap.length + found.length + g.stop) =
          rest.drop g.stop := by
        rw [Nat.add_assoc, List.drop_length_add_append, List.drop_length_add_append]
      rw [Found.start_shift, Found.stop_shift, take_behind, back,
        (hlocal.first_take first g.start).remove_eq hlocal, ih hg, List.append_assoc]

/-- **What matches in the result lies across a seam.** -/
theorem exists_seam {s : Text} {i n : Nat} {v : α}
    (h : match? ((remove match? s).drop i) = some (v, n)) :
    ∃ f ∈ scan match? s, i < (remove match? (s.take f.start)).length ∧
      (remove match? (s.take f.start)).length < i + n := by
  induction s using hlocal.walk generalizing i with
  | clear s clear =>
    have inside : i < s.length := by
      have := hlocal.le_length h
      have := hlocal.pos h
      rw [remove_of_clear clear, List.length_drop] at *
      omega
    rw [remove_of_clear clear, clear i inside] at h
    cases h
  | first gap found rest w first ih =>
    rw [first.scan_eq hlocal]
    rw [first.remove_eq hlocal] at h
    rcases Nat.lt_or_ge i gap.length with lt | ge
    · refine ⟨_, List.mem_cons_self .., ?_⟩
      simp only [List.take_left, hlocal.remove_gap first]
      refine ⟨lt, Nat.lt_of_not_le fun within => ?_⟩
      -- A match within the gap would have been found.
      rw [List.drop_append_of_le_length (Nat.le_of_lt lt)] at h
      have taken := hlocal.take_append h
        (((gap.drop i).drop n) ++ (found ++ rest))
      rw [List.take_append_of_le_length (by rw [List.length_drop]; omega), ← List.append_assoc,
        List.take_append_drop, ← List.drop_append_of_le_length (Nat.le_of_lt lt),
        first.clear i lt] at taken
      cases taken
    · obtain ⟨j, rfl⟩ := Nat.exists_eq_add_of_le ge
      rw [List.drop_length_add_append] at h
      obtain ⟨g, hg, lower, upper⟩ := ih h
      refine ⟨g.shift (gap.length + found.length),
        List.mem_cons_of_mem _ (List.mem_map_of_mem hg), ?_⟩
      rw [Found.start_shift, take_behind, (hlocal.first_take first g.start).remove_eq hlocal,
        List.length_append]
      omega

theorem length_remove_le (s : Text) : (remove match? s).length ≤ s.length := by
  induction s using hlocal.walk with
  | clear s clear => exact Nat.le_of_eq (congrArg List.length (remove_of_clear clear))
  | first gap found rest w first ih =>
    rw [first.remove_eq hlocal, List.length_append, List.length_append, List.length_append]
    omega

/-- Nothing is removed only where nothing matches. -/
theorem clear_of_remove_eq {s : Text} (h : remove match? s = s) : Clear match? s s.length := by
  rcases clear_or_first hlocal s with clear | ⟨gap, found, rest, w, rfl, first⟩
  · exact clear
  · have := hlocal.pos first.matched
    have := hlocal.length_remove_le rest
    have same := congrArg List.length h
    rw [first.remove_eq hlocal] at same
    simp only [List.length_append] at same
    omega

/-- **Removing again** changes nothing exactly if no match lies across a seam. -/
theorem remove_remove_eq_iff {s : Text} :
    remove match? (remove match? s) = remove match? s ↔
      ∀ f ∈ scan match? s, ∀ i n v, match? ((remove match? s).drop i) = some (v, n) →
        i < (remove match? (s.take f.start)).length →
          ¬ (remove match? (s.take f.start)).length < i + n := by
  constructor
  · intro same f _ i n v h inside _
    have clear := hlocal.clear_of_remove_eq same
    have bound : i < (remove match? s).length := by
      have := hlocal.le_length h
      have := hlocal.pos h
      rw [List.length_drop] at *
      omega
    rw [clear i bound] at h
    cases h
  · intro none_
    refine remove_of_clear fun i _ => ?_
    cases h : match? ((remove match? s).drop i) with
    | none => rfl
    | some m =>
      obtain ⟨f, hf, lower, upper⟩ := hlocal.exists_seam h
      exact absurd upper (none_ f hf i m.2 m.1 h lower)

end Local

end Componentry.Text
