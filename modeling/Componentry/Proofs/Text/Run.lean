import Componentry.Proofs.Text.Basic
import Componentry.Text.Blank

/-!
# Runs of characters

A run is a stretch of characters of one kind, as long as possible. It stands at the start of a text,
up to the first character of another kind, or at its end, behind the last one. Trimming takes off
the runs of blanks.
-/

namespace Componentry.Text

/-! ## Runs at the start and at the end -/

section Run

variable {p : CodePoint → Bool} {front run rest : Text}

/-- A run at the start ends where another character follows. -/
theorem takeWhile_append_of_ends (all : ∀ c ∈ run, p c) (ends : ∀ c ∈ rest.head?, p c = false) :
    (run ++ rest).takeWhile p = run := by
  rw [List.takeWhile_append_of_pos all]
  cases rest with
  | nil => simp
  | cons c rest => simp [ends c rfl]

theorem dropWhile_append_of_ends (all : ∀ c ∈ run, p c) (ends : ∀ c ∈ rest.head?, p c = false) :
    (run ++ rest).dropWhile p = rest := by
  rw [List.dropWhile_append_of_pos all]
  cases rest with
  | nil => simp
  | cons c rest => simp [ends c rfl]

/-- A run at the end, read backwards. -/
theorem takeWhile_reverse_append (all : ∀ c ∈ run, p c) (ends : ∀ c ∈ front.getLast?, p c = false) :
    (front ++ run).reverse.takeWhile p = run.reverse := by
  rw [List.reverse_append]
  refine takeWhile_append_of_ends ?_ ?_
  · intro c hc
    exact all c (List.mem_reverse.mp hc)
  · intro c hc
    exact ends c (by rwa [List.head?_reverse] at hc)

/-- Every text ends in a run, which may be empty. -/
theorem exists_run (p : CodePoint → Bool) (s : Text) :
    ∃ front run : Text,
      s = front ++ run ∧ (∀ c ∈ run, p c) ∧ ∀ c ∈ front.getLast?, p c = false := by
  refine ⟨(s.reverse.dropWhile p).reverse, (s.reverse.takeWhile p).reverse, ?_, ?_, ?_⟩
  · rw [← List.reverse_append, List.takeWhile_append_dropWhile, List.reverse_reverse]
  · intro c hc
    exact List.all_eq_true.mp List.all_takeWhile c (List.mem_reverse.mp hc)
  · intro c hc
    rw [List.getLast?_reverse] at hc
    have first := List.head?_dropWhile_not p s.reverse
    rw [hc] at first
    exact first

/-- The run at the end and the character before it are those of the text. -/
theorem append_run_inj {a b u v : Text} {x y : CodePoint} (hu : ∀ c ∈ u, p c) (hv : ∀ c ∈ v, p c)
    (hx : p x = false) (hy : p y = false) (h : a ++ x :: u = b ++ y :: v) :
    a = b ∧ x = y ∧ u = v := by
  have run_eq {front run : Text} {z : CodePoint} (all : ∀ c ∈ run, p c) (hz : p z = false) :
      (front ++ z :: run).reverse.takeWhile p = run.reverse := by
    rw [List.append_cons]
    refine takeWhile_reverse_append all ?_
    simp [hz]
  have runs : (a ++ x :: u).reverse.takeWhile p = u.reverse := run_eq hu hx
  rw [h, run_eq hv hy] at runs
  obtain rfl := List.reverse_inj.mp runs
  rw [List.append_cons, List.append_cons b] at h
  obtain ⟨rfl, last⟩ := List.append_inj' (List.append_cancel_right h) rfl
  exact ⟨rfl, List.singleton_inj.mp last, rfl⟩

end Run

theorem before?_eq_some_iff {p s rest : Text} : before? p s = some rest ↔ s = rest ++ p := by
  rw [before?, Option.map_eq_some_iff]
  constructor
  · rintro ⟨back, found, rfl⟩
    rw [after?_eq_some] at found
    rw [← List.reverse_reverse s, found, List.reverse_append, List.reverse_reverse]
  · rintro rfl
    exact ⟨rest.reverse, by rw [List.reverse_append, after?_append], List.reverse_reverse rest⟩

theorem before?_append (rest p : Text) : before? p (rest ++ p) = some rest :=
  before?_eq_some_iff.mpr rfl

/-! ## Blanks at the end -/

theorem trimRight_append {blanks : Text} (h : allBlank blanks) (s : Text) :
    trimRight (s ++ blanks) = trimRight s := by
  rw [trimRight, List.reverse_append, List.dropWhile_append_of_pos, trimRight]
  intro c hc
  exact List.all_eq_true.mp h c (List.mem_reverse.mp hc)

theorem trimRight_of_ends {s : Text} (ends : ∀ c ∈ s.getLast?, isBlank c = false) :
    trimRight s = s := by
  have kept : ([] ++ s.reverse).dropWhile isBlank = s.reverse :=
    dropWhile_append_of_ends (by simp) (by rwa [List.head?_reverse])
  rw [List.nil_append] at kept
  rw [trimRight, kept, List.reverse_reverse]

theorem exists_trimRight (s : Text) : ∃ blanks, s = trimRight s ++ blanks ∧ allBlank blanks := by
  obtain ⟨front, blanks, rfl, all, ends⟩ := exists_run isBlank s
  have blank : allBlank blanks := List.all_eq_true.mpr all
  exact ⟨blanks, by rw [trimRight_append blank, trimRight_of_ends ends], blank⟩

end Componentry.Text
