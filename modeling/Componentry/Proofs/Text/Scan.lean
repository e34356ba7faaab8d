import Componentry.Proofs.Text.Basic
import Componentry.Text.Scan

/-!
# What a scan finds

Every match of a scan is a match of the matcher at its place. Matches stand one behind the other
without overlapping.
-/

namespace Componentry.Text

variable {α : Type} {match? : Text → Option (α × Nat)}

theorem mem_scanFrom {f : Found α} {skip offset : Nat} {s : Text}
    (h : f ∈ scanFrom match? skip offset s) :
    offset + skip ≤ f.start ∧ f.start < offset + s.length ∧
      match? (s.drop (f.start - offset)) = some (f.value, f.length) := by
  induction s generalizing skip offset with
  | nil => simp [scanFrom] at h
  | cons c s ih =>
    -- A match in the rest of the text is one offset further on.
    have later : ∀ {skip}, f ∈ scanFrom match? skip (offset + 1) s →
        offset + 1 + skip ≤ f.start ∧ f.start < offset + (c :: s).length ∧
          match? ((c :: s).drop (f.start - offset)) = some (f.value, f.length) := by
      intro skip hf
      obtain ⟨lower, upper, found⟩ := ih hf
      have shift : f.start - offset = f.start - (offset + 1) + 1 := by omega
      rw [shift, List.drop_succ_cons]
      simp only [List.length_cons]
      exact ⟨lower, by omega, found⟩
    cases skip with
    | succ skip =>
      obtain ⟨lower, upper, found⟩ := later h
      exact ⟨by omega, upper, found⟩
    | zero =>
      rw [scanFrom] at h
      cases hm : match? (c :: s) with
      | none =>
        obtain ⟨lower, upper, found⟩ := later (by simpa [hm] using h)
        exact ⟨by omega, upper, found⟩
      | some found =>
        obtain ⟨value, length⟩ := found
        simp only [hm, List.mem_cons] at h
        rcases h with rfl | h
        · simp [hm]
        · obtain ⟨lower, upper, found⟩ := later h
          exact ⟨by omega, upper, found⟩

/-- A match of a scan is a match of the matcher at its place. -/
theorem mem_scan {f : Found α} {s : Text} (h : f ∈ scan match? s) :
    f.start < s.length ∧ match? (s.drop f.start) = some (f.value, f.length) := by
  obtain ⟨-, upper, found⟩ := mem_scanFrom h
  exact ⟨by simpa using upper, by simpa using found⟩

theorem pairwise_scanFrom (skip offset : Nat) (s : Text) :
    (scanFrom match? skip offset s).Pairwise fun f g => f.stop ≤ g.start := by
  induction s generalizing skip offset with
  | nil => simp [scanFrom]
  | cons c s ih =>
    cases skip with
    | succ skip => exact ih skip (offset + 1)
    | zero =>
      rw [scanFrom]
      cases match? (c :: s) with
      | none => exact ih 0 (offset + 1)
      | some found =>
        refine List.pairwise_cons.mpr ⟨?_, ih _ _⟩
        intro g hg
        have := (mem_scanFrom hg).1
        simp only [Found.stop]
        omega

/-- Matches stand one behind the other. -/
theorem pairwise_scan (s : Text) :
    (scan match? s).Pairwise fun f g => f.stop ≤ g.start :=
  pairwise_scanFrom 0 0 s

end Componentry.Text
