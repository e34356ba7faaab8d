import Componentry.Proofs.Text.Basic
import Mathlib.Algebra.Ring.Nat

/-!
# Changed texts

A text is rebuilt from left to right: spans of it are copied, and others are taken out, with
something else or nothing in their place. What is not in a span that was taken out has a copy, whose
offset is moved by what the changes before it took out and put in. Copies keep their order, and
unless a change ends at a character, its copy stands behind the copy of the character before it.
-/

namespace Componentry

/-- A span of a text that is taken out, and what is put in its place, if anything is. -/
structure Change where
  start : Nat
  stop : Nat
  text : Option Text
  deriving DecidableEq

namespace Change

/-- How many characters are taken out. -/
def removed (c : Change) : Nat := c.stop - c.start

/-- How many characters are put in. -/
def added (c : Change) : Nat := (c.text.getD []).length

/-- Where the copy of the character at an offset stands: the changes that end before it have moved
it. -/
def moved (changes : List Change) (i : Nat) : Nat :=
  let passed := changes.filter fun c => c.stop ≤ i
  i + (passed.map added).sum - (passed.map removed).sum

/-- Is the character at an offset in no span that was taken out? -/
def Outside (changes : List Change) (i : Nat) : Prop := ∀ c ∈ changes, i < c.start ∨ c.stop ≤ i

instance (changes : List Change) (i : Nat) : Decidable (Outside changes i) :=
  inferInstanceAs (Decidable (∀ c ∈ changes, i < c.start ∨ c.stop ≤ i))

@[simp] theorem moved_nil (i : Nat) : moved [] i = i := rfl

theorem outside_nil (i : Nat) : Outside [] i := fun _ h => nomatch h

/-- A later change moves nothing before its end. -/
theorem moved_concat {changes : List Change} {c : Change} {i : Nat} (h : i < c.stop) :
    moved (changes ++ [c]) i = moved changes i := by
  simp [moved, List.filter_append, Nat.not_le_of_lt h]

/-- Unless a change ends at a character, the character before it has a copy too, and no change lies
between them. -/
theorem Outside.pred {changes : List Change} {i : Nat} (h : Outside changes (i + 1))
    (none : ∀ c ∈ changes, c.stop ≠ i + 1) :
    Outside changes i ∧ (moved changes i < moved changes (i + 1) →
      moved changes (i + 1) = moved changes i + 1) := by
  constructor
  · intro c hc
    have := none c hc
    rcases h c hc with before | after
    · left; omega
    · right; omega
  · have same : (changes.filter fun c => c.stop ≤ i + 1) = changes.filter fun c => c.stop ≤ i := by
      refine List.filter_congr fun c hc => decide_eq_decide.mpr ?_
      have := none c hc
      omega
    simp only [moved, same]
    omega

/-! ## Rebuilding a text -/

/-- The first `offset` characters of `source` have been rebuilt as `out`, with these changes. -/
structure Rebuilt (source : Text) (changes : List Change) (offset : Nat) (out : Text) : Prop where
  bound : offset ≤ source.length
  closed : ∀ c ∈ changes, c.stop ≤ offset
  length : out.length + (changes.map removed).sum = offset + (changes.map added).sum
  copied : ∀ i < offset, Outside changes i →
    moved changes i < out.length ∧ out[moved changes i]? = source[i]?
  mono : ∀ i j, i < j → j < offset → Outside changes i → Outside changes j →
    moved changes i < moved changes j

namespace Rebuilt

variable {source out : Text} {changes : List Change} {offset : Nat}

theorem start (source : Text) : Rebuilt source [] 0 [] where
  bound := Nat.zero_le _
  closed := by simp
  length := rfl
  copied := by simp
  mono := by simp

/-- What comes next is copied to the end of what has been rebuilt. -/
theorem moved_add (h : Rebuilt source changes offset out) (a : Nat) :
    moved changes (offset + a) = out.length + a := by
  have all : (changes.filter fun c => c.stop ≤ offset + a) = changes := by
    refine List.filter_eq_self.mpr fun c hc => decide_eq_true ?_
    have := h.closed c hc
    omega
  have := h.length
  simp only [moved, all]
  omega

theorem outside_add (h : Rebuilt source changes offset out) (a : Nat) :
    Outside changes (offset + a) := by
  intro c hc
  have := h.closed c hc
  right
  omega

theorem copy (h : Rebuilt source changes offset out) {stop : Nat} (hs : offset ≤ stop)
    (hstop : stop ≤ source.length) :
    Rebuilt source changes stop (out ++ Text.slice source offset stop) where
  bound := hstop
  closed c hc := Nat.le_trans (h.closed c hc) hs
  length := by
    have := h.length
    simp only [Text.slice, List.length_append, List.length_take, List.length_drop]
    omega
  copied i hi hout := by
    by_cases before : i < offset
    · obtain ⟨bound, same⟩ := h.copied i before hout
      rw [List.getElem?_append_left bound]
      exact ⟨by simp; omega, same⟩
    · obtain ⟨a, rfl⟩ := Nat.exists_eq_add_of_le (Nat.le_of_not_lt before)
      rw [h.moved_add, List.getElem?_append_right (Nat.le_add_right ..)]
      have : a < stop - offset := by omega
      simp only [Text.slice, List.length_append, List.length_take, List.length_drop,
        Nat.add_sub_cancel_left, List.getElem?_take, this, if_true, List.getElem?_drop, and_true]
      omega
  mono i j hij hj hi hj' := by
    by_cases before : j < offset
    · exact h.mono i j hij before hi hj'
    · obtain ⟨b, rfl⟩ := Nat.exists_eq_add_of_le (Nat.le_of_not_lt before)
      rw [h.moved_add]
      by_cases first : i < offset
      · have := (h.copied i first hi).1
        omega
      · obtain ⟨a, rfl⟩ := Nat.exists_eq_add_of_le (Nat.le_of_not_lt first)
        rw [h.moved_add]
        omega

/-- Before the end of a change, the change makes no difference. -/
theorem outside_concat {c : Change} {i : Nat} (hi : i < c.start) :
    Outside (changes ++ [c]) i ↔ Outside changes i := by
  simp only [Outside, List.mem_append, List.mem_singleton]
  constructor
  · exact fun h d hd => h d (.inl hd)
  · rintro h d (hd | rfl)
    · exact h d hd
    · exact .inl hi

theorem change (h : Rebuilt source changes offset out) {stop : Nat} (hs : offset ≤ stop)
    (hstop : stop ≤ source.length) (text : Option Text) :
    Rebuilt source (changes ++ [⟨offset, stop, text⟩]) stop (out ++ text.getD []) := by
  have inside : ∀ i < stop, Outside (changes ++ [⟨offset, stop, text⟩]) i → i < offset := by
    intro i hi hout
    have := hout ⟨offset, stop, text⟩ (by simp)
    simp only at this
    omega
  constructor
  · exact hstop
  · intro c hc
    rcases List.mem_append.mp hc with hc | hc
    · exact Nat.le_trans (h.closed c hc) hs
    · obtain rfl := List.mem_singleton.mp hc
      exact Nat.le_refl _
  · have := h.length
    simp only [List.length_append, List.map_append, List.map_singleton, List.sum_append,
      List.sum_singleton, removed, added]
    omega
  · intro i hi hout
    have before := inside i hi hout
    rw [moved_concat hi]
    obtain ⟨bound, same⟩ := h.copied i before ((outside_concat before).mp hout)
    rw [List.getElem?_append_left bound]
    exact ⟨by simp; omega, same⟩
  · intro i j hij hj hi hj'
    have beforeI := inside i (by omega) hi
    have beforeJ := inside j hj hj'
    rw [moved_concat (Nat.lt_trans hij hj), moved_concat hj]
    exact h.mono i j hij beforeJ ((outside_concat beforeI).mp hi) ((outside_concat beforeJ).mp hj')

/-- The changes `changes'` of a longer part of the text agree with `changes` on what was rebuilt as
the first `size` characters. -/
structure Agree (changes changes' : List Change) (offset offset' size : Nat) : Prop where
  sub : changes ⊆ changes'
  outside : ∀ i < offset, Outside changes' i ↔ Outside changes i
  moved : ∀ i < offset, Change.moved changes' i = Change.moved changes i
  later : ∀ i, offset ≤ i → i < offset' → Outside changes' i → size ≤ Change.moved changes' i

theorem agree (h : Rebuilt source changes offset out) (offset' : Nat) :
    Agree changes changes offset offset' out.length where
  sub := List.Subset.refl _
  outside _ _ := Iff.rfl
  moved _ _ := rfl
  later i hi _ _ := by
    obtain ⟨a, rfl⟩ := Nat.exists_eq_add_of_le hi
    rw [h.moved_add]
    exact Nat.le_add_right ..

theorem agree_concat {stop : Nat} (hs : offset ≤ stop) (text : Option Text) (size : Nat) :
    Agree changes (changes ++ [⟨offset, stop, text⟩]) offset stop size where
  sub := List.subset_append_left ..
  outside _ hi := outside_concat hi
  moved _ hi := moved_concat (Nat.lt_of_lt_of_le hi hs)
  later i hi hstop hout := by
    have := hout ⟨offset, stop, text⟩ (by simp)
    simp only at this
    omega

theorem eq_take (h : Rebuilt source [] offset out) : out = source.take offset := by
  refine List.ext_getElem? fun i => ?_
  have length := h.length
  simp only [List.map_nil, List.sum_nil, Nat.add_zero] at length
  by_cases hi : i < offset
  · have := (h.copied i hi (outside_nil i)).2
    rw [moved_nil] at this
    rw [this, List.getElem?_take, if_pos hi]
  · rw [List.getElem?_take, if_neg hi, List.getElem?_eq_none (by omega)]

end Rebuilt

end Change

end Componentry
