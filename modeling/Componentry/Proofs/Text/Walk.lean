import Componentry.Proofs.Text.Scan

/-!
# Walking over a text

A scan and a removal walk over a text in the same way: past a gap in which nothing matches, over the
first match, and on behind it. For a matcher that looks at nothing behind its match, a property of
all texts is shown along this walk.
-/

namespace Componentry.Text

variable {α : Type} {match? : Text → Option (α × Nat)}

/-- A match is not empty, is part of the text, and does not depend on what follows it. -/
structure Local (match? : Text → Option (α × Nat)) : Prop where
  pos : ∀ {s v n}, match? s = some (v, n) → 0 < n
  le_length : ∀ {s v n}, match? s = some (v, n) → n ≤ s.length
  take_append : ∀ {s v n}, match? s = some (v, n) → ∀ t, match? (s.take n ++ t) = some (v, n)

/-- A match found further on by so much. -/
def Found.shift (k : Nat) (f : Found α) : Found α := { f with start := k + f.start }

@[simp] theorem Found.start_shift (k : Nat) (f : Found α) : (f.shift k).start = k + f.start := rfl

@[simp] theorem Found.stop_shift (k : Nat) (f : Found α) : (f.shift k).stop = k + f.stop :=
  Nat.add_assoc ..

@[simp] theorem Found.value_shift (k : Nat) (f : Found α) : (f.shift k).value = f.value := rfl

@[simp] theorem Found.shift_zero : Found.shift (α := α) 0 = id := by
  funext f
  simp [Found.shift]

theorem Found.shift_comp (k l : Nat) : Found.shift (α := α) k ∘ Found.shift l = Found.shift (k + l) := by
  funext f
  simp [Found.shift, Nat.add_assoc]

/-! ## Walking on behind a match -/

theorem removeFrom_eq (skip : Nat) (s : Text) : removeFrom match? skip s = remove match? (s.drop skip) := by
  induction s generalizing skip with
  | nil => cases skip <;> simp [removeFrom, remove]
  | cons c s ih =>
    cases skip with
    | zero => rfl
    | succ skip => rw [removeFrom, ih, List.drop_succ_cons]

theorem scanFrom_eq_map (skip k offset : Nat) (s : Text) :
    scanFrom match? skip (k + offset) s = (scanFrom match? skip offset s).map (Found.shift k) := by
  induction s generalizing skip offset with
  | nil => cases skip <;> simp [scanFrom]
  | cons c s ih =>
    cases skip with
    | succ skip => simp only [scanFrom, Nat.add_assoc, ih]
    | zero =>
      simp only [scanFrom, Nat.add_assoc, ih]
      cases match? (c :: s) <;> rfl

theorem scanFrom_eq (skip offset : Nat) (s : Text) :
    scanFrom match? skip offset s = (scan match? (s.drop skip)).map (Found.shift (offset + skip)) := by
  induction s generalizing skip offset with
  | nil => cases skip <;> simp [scanFrom, scan]
  | cons c s ih =>
    cases skip with
    | zero => exact scanFrom_eq_map 0 offset 0 (c :: s)
    | succ skip =>
      rw [scanFrom, ih, List.drop_succ_cons, Nat.add_assoc, Nat.add_comm 1]

section Match

variable {found rest : Text} {v : α}

/-- A match at the start is skipped. -/
theorem remove_of_match (pos : 0 < found.length)
    (matched : match? (found ++ rest) = some (v, found.length)) :
    remove match? (found ++ rest) = remove match? rest := by
  obtain ⟨c, found, rfl⟩ := List.exists_cons_of_ne_nil (List.length_pos_iff.mp pos)
  rw [List.cons_append, remove, removeFrom, ← List.cons_append, matched]
  simp only [List.length_cons, Nat.add_sub_cancel]
  rw [removeFrom_eq, List.drop_left]

/-- A match at the start is found first. -/
theorem scan_of_match (pos : 0 < found.length)
    (matched : match? (found ++ rest) = some (v, found.length)) :
    scan match? (found ++ rest) =
      ⟨0, found.length, v⟩ :: (scan match? rest).map (Found.shift found.length) := by
  obtain ⟨c, found, rfl⟩ := List.exists_cons_of_ne_nil (List.length_pos_iff.mp pos)
  rw [List.cons_append, scan, scanFrom, ← List.cons_append, matched]
  simp only [List.length_cons, Nat.add_sub_cancel]
  rw [scanFrom_eq, List.drop_left, Nat.zero_add, Nat.add_comm]

end Match

/-! ## Gaps -/

/-- Does nothing match within the first `n` characters? -/
def Clear (match? : Text → Option (α × Nat)) (s : Text) (n : Nat) : Prop :=
  ∀ i < n, match? (s.drop i) = none

theorem clear_succ {c : CodePoint} {s : Text} {n : Nat} :
    Clear match? (c :: s) (n + 1) ↔ match? (c :: s) = none ∧ Clear match? s n := by
  constructor
  · intro clear
    exact ⟨clear 0 (Nat.succ_pos n), fun i hi => clear (i + 1) (Nat.succ_lt_succ hi)⟩
  · rintro ⟨first, clear⟩ i hi
    cases i with
    | zero => exact first
    | succ i => exact clear i (Nat.lt_of_succ_lt_succ hi)

/-- Where nothing matches, nothing is removed. -/
theorem remove_append_of_clear {gap rest : Text} (clear : Clear match? (gap ++ rest) gap.length) :
    remove match? (gap ++ rest) = gap ++ remove match? rest := by
  induction gap with
  | nil => rfl
  | cons c gap ih =>
    rw [List.cons_append] at clear
    obtain ⟨first, clear⟩ := clear_succ.mp clear
    rw [List.cons_append, remove, removeFrom, first]
    exact congrArg (c :: ·) (ih clear)

/-- Where nothing matches, nothing is found. -/
theorem scan_append_of_clear {gap rest : Text} (clear : Clear match? (gap ++ rest) gap.length) :
    scan match? (gap ++ rest) = (scan match? rest).map (Found.shift gap.length) := by
  induction gap with
  | nil => simp
  | cons c gap ih =>
    rw [List.cons_append] at clear
    obtain ⟨first, clear⟩ := clear_succ.mp clear
    rw [List.cons_append, scan, scanFrom, first]
    simp only
    rw [scanFrom_eq, List.drop_zero, ih clear, List.map_map, Found.shift_comp, List.length_cons]
    congr 2
    omega

theorem remove_of_clear {s : Text} (clear : Clear match? s s.length) : remove match? s = s := by
  have := @remove_append_of_clear _ match? s [] (by simpa using clear)
  simpa [remove, removeFrom] using this

theorem scan_of_clear {s : Text} (clear : Clear match? s s.length) : scan match? s = [] := by
  have := @scan_append_of_clear _ match? s [] (by simpa using clear)
  simpa [scan, scanFrom] using this

/-! ## The first match -/

/-- The first match of a text. -/
structure First (match? : Text → Option (α × Nat)) (gap found rest : Text) (v : α) : Prop where
  clear : Clear match? (gap ++ (found ++ rest)) gap.length
  matched : match? (found ++ rest) = some (v, found.length)

section First

variable {gap found rest : Text} {v : α}

/-- The text before a later match. -/
theorem take_behind (gap found rest : Text) (n : Nat) :
    (gap ++ (found ++ rest)).take (gap.length + found.length + n) = gap ++ (found ++ rest.take n) := by
  rw [Nat.add_assoc, List.take_length_add_append, List.take_length_add_append]

/-- The walk passes the gap, skips the match and goes on behind it. -/
theorem First.remove_eq (h : First match? gap found rest v) (hlocal : Local match?) :
    remove match? (gap ++ (found ++ rest)) = gap ++ remove match? rest := by
  rw [remove_append_of_clear h.clear, remove_of_match (hlocal.pos h.matched) h.matched]

theorem First.scan_eq (h : First match? gap found rest v) (hlocal : Local match?) :
    scan match? (gap ++ (found ++ rest)) = ⟨gap.length, found.length, v⟩ ::
      (scan match? rest).map (Found.shift (gap.length + found.length)) := by
  rw [scan_append_of_clear h.clear, scan_of_match (hlocal.pos h.matched) h.matched, List.map_cons,
    List.map_map, Found.shift_comp]
  rfl

end First

/-- A text has no match, or a first one. -/
theorem clear_or_first (hlocal : Local match?) (s : Text) :
    Clear match? s s.length ∨
      ∃ gap found rest v, s = gap ++ (found ++ rest) ∧ First match? gap found rest v := by
  induction s with
  | nil => exact .inl fun i hi => absurd hi (Nat.not_lt_zero i)
  | cons c s ih =>
    cases here : match? (c :: s) with
    | some m =>
      obtain ⟨v, n⟩ := m
      refine .inr ⟨[], (c :: s).take n, (c :: s).drop n, v, ?_, ?_, ?_⟩
      · simp
      · exact fun i hi => absurd hi (Nat.not_lt_zero i)
      · rw [List.take_append_drop, here, List.length_take, Nat.min_eq_left (hlocal.le_length here)]
    | none =>
      rcases ih with clear | ⟨gap, found, rest, v, rfl, clear, matched⟩
      · exact .inl (clear_succ.mpr ⟨here, clear⟩)
      · exact .inr ⟨c :: gap, found, rest, v, rfl, clear_succ.mpr ⟨here, clear⟩, matched⟩

/-- **Along the walk**: a property holds of every text if it holds where nothing matches, and holds of
a text with a first match whenever it holds of the rest. -/
@[elab_as_elim]
theorem Local.walk {motive : Text → Prop} (hlocal : Local match?)
    (clear : ∀ s, Clear match? s s.length → motive s)
    (first : ∀ gap found rest v, First match? gap found rest v → motive rest →
      motive (gap ++ (found ++ rest))) (s : Text) : motive s := by
  induction hn : s.length using Nat.strongRecOn generalizing s with
  | ind n ih =>
    rcases clear_or_first hlocal s with none_ | ⟨gap, found, rest, v, rfl, h⟩
    · exact clear s none_
    · refine first gap found rest v h (ih rest.length ?_ rest rfl)
      have := hlocal.pos h.matched
      rw [← hn, List.length_append, List.length_append]
      omega

/-- What matches somewhere is found, or starts within something that is found before it. -/
theorem Local.exists_mem_scan (hlocal : Local match?) {s : Text} {i n : Nat} {v : α}
    (h : match? (s.drop i) = some (v, n)) : ∃ f ∈ scan match? s, f.start ≤ i ∧ i < f.stop := by
  induction s using hlocal.walk generalizing i with
  | clear s clear =>
    have inside : i < s.length := by
      have := hlocal.le_length h
      have := hlocal.pos h
      rw [List.length_drop] at *
      omega
    rw [clear i inside] at h
    cases h
  | first gap found rest w first ih =>
    rw [first.scan_eq hlocal]
    rcases Nat.lt_or_ge i gap.length with before | ge
    · rw [first.clear i before] at h
      cases h
    · rcases Nat.lt_or_ge i (gap.length + found.length) with within | ge'
      · exact ⟨_, List.mem_cons_self .., ge, within⟩
      · obtain ⟨j, rfl⟩ := Nat.exists_eq_add_of_le ge'
        rw [Nat.add_assoc, List.drop_length_add_append, List.drop_length_add_append] at h
        obtain ⟨f, hf, lower, upper⟩ := ih h
        refine ⟨f.shift (gap.length + found.length),
          List.mem_cons_of_mem _ (List.mem_map_of_mem hf), ?_⟩
        rw [Found.start_shift, Found.stop_shift]
        omega

end Componentry.Text
