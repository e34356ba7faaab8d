import Componentry.Proofs.SourceMap.RoundTrip
import Componentry.Proofs.Text.Place

/-!
# Looking places up

A place is answered by the first of the mappings with the greatest generated position that is not
behind it. In a map that was written from a draft, a place at which a mapping was put is answered by
the least of the mappings there.
-/

namespace Componentry.SourceMap

/-! ## The nearest mapping -/

theorem atOrBefore_iff {a b : Position} :
    atOrBefore a b ↔ a.line < b.line ∨ a.line = b.line ∧ a.column ≤ b.column := by
  simp [atOrBefore]

theorem firstAt_eq {front same after : List Mapping} {m : Mapping}
    (hfront : ∀ x ∈ front, x.generated ≠ m.generated) (hsame : ∀ x ∈ same, x.generated = m.generated)
    {k : Nat} (hk : k ≤ same.length) :
    Decoded.firstAt (front ++ m :: same ++ after).toArray (front.length + k) = front.length := by
  have at_ : ∀ j ≤ same.length,
      ((front ++ m :: same ++ after)[front.length + j]?).map Mapping.generated =
        some m.generated := by
    intro j hj
    cases j with
    | zero => simp
    | succ j =>
      simp [List.getElem?_append, Nat.lt_of_succ_le hj, hsame]
  induction k with
  | zero =>
    cases hlength : front.length with
    | zero => rfl
    | succ n =>
      have before : ((front ++ m :: same ++ after)[n]?).map Mapping.generated ≠ some m.generated := by
        have bound : n < front.length := by omega
        simp [List.getElem?_append, bound, hfront]
      have here := at_ 0 (Nat.zero_le _)
      rw [Nat.add_zero, hlength] at here
      rw [Nat.add_zero, Decoded.firstAt]
      simp only [List.getElem?_toArray, here, if_neg before]
  | succ k ih =>
    have here := at_ (k + 1) hk
    rw [← Nat.add_assoc] at here ⊢
    rw [Decoded.firstAt]
    simp only [List.getElem?_toArray, here, at_ k (by omega), if_true]
    exact ih (by omega)

/-- The mapping that answers for a place, if it is on its line: what is before it has other
positions, and what is behind it has its position or comes after the place. -/
theorem Decoded.nearest?_eq_filter {d : Decoded} {p : Position} {front same after : List Mapping}
    {m : Mapping} (mappings : d.mappings.toList = front ++ m :: same ++ after)
    (hfront : ∀ x ∈ front, x.generated ≠ m.generated ∧ atOrBefore x.generated p)
    (hsame : ∀ x ∈ same, x.generated = m.generated) (hm : atOrBefore m.generated p)
    (hafter : ∀ x ∈ after, ¬ atOrBefore x.generated p) :
    d.nearest? p = (some m).filter fun m => m.generated.line == p.line := by
  have array : d.mappings = (front ++ m :: same ++ after).toArray := by
    rw [← mappings, Array.toArray_toList]
  have count : countLeading (fun (x : Mapping) => atOrBefore x.generated p) d.mappings =
      front.length + same.length + 1 := by
    rw [array, countLeading_append]
    · rw [List.length_append, List.length_cons]
      omega
    · intro x hx
      rcases List.mem_append.mp hx with hx | hx
      · exact (hfront x hx).2
      · rcases List.mem_cons.mp hx with rfl | hx
        · exact hm
        · rw [hsame x hx]
          exact hm
    · exact hafter
  rw [Decoded.nearest?, count]
  simp only
  rw [array, firstAt_eq (fun x hx => (hfront x hx).1) hsame (Nat.le_refl _)]
  simp

theorem atOrBefore_trans {a b c : Position} (hab : atOrBefore a b) (hbc : atOrBefore b c) :
    atOrBefore a c := by
  rw [atOrBefore_iff] at *
  omega

theorem atOrBefore_antisymm {a b : Position} (hab : atOrBefore a b) (hba : atOrBefore b a) :
    a = b := by
  rw [atOrBefore_iff] at *
  obtain ⟨line, column⟩ := a
  obtain ⟨line', column'⟩ := b
  simp only [Position.mk.injEq] at *
  omega

namespace Decoded

/-- Are the mappings in the order of their generated positions? -/
def Ordered (d : Decoded) : Prop :=
  d.mappings.toList.Pairwise fun a b => atOrBefore a.generated b.generated

/-- The mappings up to a place stand before all others. -/
theorem Ordered.not_atOrBefore {d : Decoded} (ordered : d.Ordered) {p : Position} {x : Mapping}
    (hx : x ∈ d.mappings.toList.dropWhile fun m => atOrBefore m.generated p) :
    ¬ atOrBefore x.generated p := by
  cases hdrop : d.mappings.toList.dropWhile fun m => atOrBefore m.generated p with
  | nil => simp [hdrop] at hx
  | cons y rest =>
    have first : ¬ atOrBefore y.generated p := by
      have := List.head?_dropWhile_not (fun m : Mapping => atOrBefore m.generated p) d.mappings.toList
      simpa [hdrop] using this
    have sorted : (y :: rest).Pairwise fun a b => atOrBefore a.generated b.generated :=
      hdrop ▸ List.Pairwise.sublist (List.dropWhile_sublist _) ordered
    rcases List.mem_cons.mp (hdrop ▸ hx) with rfl | hx
    · exact first
    · exact fun h => first (atOrBefore_trans (List.rel_of_pairwise_cons sorted hx) h)

/-- **A place is answered by the first of the mappings with the greatest position up to it**, if that
is on the line of the place. There is none if all mappings come after the place. -/
theorem Ordered.nearest?_cases {d : Decoded} (ordered : d.Ordered) (p : Position) :
    ((∀ x ∈ d.mappings.toList, ¬ atOrBefore x.generated p) ∧ d.nearest? p = none) ∨
    ∃ front m back, d.mappings.toList = front ++ m :: back ∧
      (∀ x ∈ front, x.generated ≠ m.generated) ∧ atOrBefore m.generated p ∧
      (∀ x ∈ d.mappings.toList, atOrBefore x.generated p → atOrBefore x.generated m.generated) ∧
      d.nearest? p = (some m).filter fun m => m.generated.line == p.line := by
  let lead := d.mappings.toList.takeWhile fun m => atOrBefore m.generated p
  let after := d.mappings.toList.dropWhile fun m => atOrBefore m.generated p
  have whole : d.mappings.toList = lead ++ after := List.takeWhile_append_dropWhile.symm
  have hlead : ∀ x ∈ lead, atOrBefore x.generated p := fun x hx =>
    List.all_eq_true.mp List.all_takeWhile x hx
  have hafter : ∀ x ∈ after, ¬ atOrBefore x.generated p := fun x hx => ordered.not_atOrBefore hx
  rcases List.eq_nil_or_concat lead with empty | ⟨init, y, split⟩
  · refine .inl ⟨fun x hx => hafter x (by rwa [whole, empty] at hx), ?_⟩
    have array : d.mappings = ([] ++ after).toArray := by
      rw [← empty, ← whole, Array.toArray_toList]
    rw [nearest?, array, countLeading_append (by simp) hafter]
    rfl
  · -- Among the mappings up to the place, those at the last position stand together at the end.
    have hy : y ∈ lead := by simp [split]
    have sorted : lead.Pairwise fun a b => atOrBefore a.generated b.generated :=
      List.Pairwise.sublist (List.takeWhile_sublist _) ordered
    have last : ∀ x ∈ lead, atOrBefore x.generated y.generated := by
      intro x hx
      rw [split, List.concat_eq_append, List.mem_append, List.mem_singleton] at hx
      rcases hx with hx | rfl
      · rw [split, List.concat_eq_append, List.pairwise_append] at sorted
        exact sorted.2.2 x hx y (List.mem_singleton_self y)
      · simp [atOrBefore]
    obtain ⟨m, found⟩ : ∃ m, lead.find? (fun x => x.generated = y.generated) = some m :=
      Option.isSome_iff_exists.mp (List.find?_isSome.mpr ⟨y, hy, by simp⟩)
    obtain ⟨hm, front, same, cut, hfront⟩ := List.find?_eq_some_iff_append.mp found
    have at_ : m.generated = y.generated := of_decide_eq_true hm
    have mappings : d.mappings.toList = front ++ m :: same ++ after := by rw [whole, cut]
    have hfront' : ∀ x ∈ front, x.generated ≠ m.generated := fun x hx => by
      simpa [at_] using hfront x hx
    have hsame : ∀ x ∈ same, x.generated = m.generated := by
      intro x hx
      have mem : x ∈ lead := by simp [cut, hx]
      rw [cut, List.pairwise_append] at sorted
      exact atOrBefore_antisymm (at_ ▸ last x mem) (List.rel_of_pairwise_cons sorted.2.1 hx)
    have before : atOrBefore m.generated p := hlead m (by simp [cut])
    refine .inr ⟨front, m, same ++ after, by rw [mappings]; simp, hfront', before, ?_, ?_⟩
    · intro x hx upTo
      rw [whole, List.mem_append] at hx
      rcases hx with hx | hx
      · exact at_ ▸ last x hx
      · exact absurd upTo (hafter x hx)
    · exact nearest?_eq_filter mappings
        (fun x hx => ⟨hfront' x hx, hlead x (by simp [cut, hx])⟩) hsame before hafter

/-- An answer is on the line of the place, and no mapping up to the place comes after it. -/
theorem Ordered.of_nearest? {d : Decoded} (ordered : d.Ordered) {p : Position} {m : Mapping}
    (answer : d.nearest? p = some m) : m ∈ d.mappings.toList ∧ m.generated.line = p.line ∧
      atOrBefore m.generated p ∧
      ∀ x ∈ d.mappings.toList, atOrBefore x.generated p → atOrBefore x.generated m.generated := by
  rcases ordered.nearest?_cases p with ⟨-, none_⟩ | ⟨_, x, _, split, -, before, greatest, found⟩
  · rw [none_] at answer
    cases answer
  · rw [found, Option.filter_eq_some_iff, Option.some.injEq] at answer
    obtain ⟨rfl, line⟩ := answer
    exact ⟨by simp [split], by simpa using line, before, greatest⟩

/-- In a list in the order of generated positions, the first mapping at a place answers for it. -/
theorem Ordered.nearest?_generated {d : Decoded} (ordered : d.Ordered) {front back : List Mapping}
    {m : Mapping} (mappings : d.mappings.toList = front ++ m :: back)
    (hfront : ∀ x ∈ front, x.generated ≠ m.generated) : d.nearest? m.generated = some m := by
  have same : atOrBefore m.generated m.generated := by simp [atOrBefore]
  have mem : m ∈ d.mappings.toList := by simp [mappings]
  rcases ordered.nearest?_cases m.generated with
    ⟨none_, -⟩ | ⟨front', x, back', split, hfront', before, greatest, answer⟩
  · exact absurd same (none_ m mem)
  · have at_ : x.generated = m.generated := atOrBefore_antisymm before (greatest m mem same)
    -- Both are the first mapping at the place.
    have first : x = m := by
      rw [mappings] at split
      rcases List.append_eq_append_iff.mp split with ⟨more, rfl, rest⟩ | ⟨more, rfl, rest⟩
      · cases more with
        | nil => exact (List.cons.inj rest).1.symm
        | cons y more =>
          obtain rfl : m = y := (List.cons.inj rest).1
          exact absurd at_.symm (hfront' m (by simp))
      · cases more with
        | nil => exact (List.cons.inj rest).1
        | cons y more =>
          obtain rfl : x = y := (List.cons.inj rest).1
          exact absurd at_ (hfront x (by simp))
    rw [answer, first, Option.filter_some]
    simp

end Decoded

/-! ## Lookup in a draft -/

theorem mem_destutter'_ne {α : Type} [DecidableEq α] {a x : α} {xs : List α} (h : x ∈ a :: xs) :
    x ∈ xs.destutter' (· ≠ ·) a := by
  induction xs generalizing a with
  | nil => exact h
  | cons b xs ih =>
    by_cases hab : a = b
    · subst hab
      rw [List.destutter'_cons_neg _ (by simp)]
      exact ih (by simpa using h)
    · rw [List.destutter'_cons_pos _ hab]
      rcases List.mem_cons.mp h with rfl | h
      · exact List.mem_cons_self ..
      · exact List.mem_cons_of_mem _ (ih h)

theorem mem_destutter_ne {α : Type} [DecidableEq α] {x : α} {xs : List α} :
    x ∈ xs.destutter (· ≠ ·) ↔ x ∈ xs := by
  refine ⟨fun h => (List.destutter_sublist _ _).subset h, fun h => ?_⟩
  cases xs with
  | nil => exact h
  | cons a xs => exact mem_destutter'_ne h

/-- What is read from a draft is in order. -/
theorem Draft.ordered_decoded (d : Draft) : d.decoded.Ordered := d.pairwise_readable

/-- A place is answered by the last mapping that was put on its line up to it. -/
theorem Draft.locate_decoded_of_last {d : Draft} {m : Mapping} (hm : m ∈ d.mappings.toList)
    {p : Position} (valid : p.valid) (line : m.generated.line = p.line)
    (upTo : atOrBefore m.generated p)
    (last : ∀ m' ∈ d.mappings.toList, atOrBefore m.generated m'.generated →
      atOrBefore m'.generated p → m' = m) :
    d.decoded.locate p = .ok (m.origin.map fun o => (o, m.name)) := by
  have mem : ∀ {x}, x ∈ d.decoded.mappings.toList ↔ ∃ y ∈ d.mappings.toList, y.readable = x := by
    intro x
    simp only [decoded, List.mem_map, mem_destutter_ne, mem_sortedMappings]
  rcases d.ordered_decoded.nearest?_cases p with
    ⟨after, -⟩ | ⟨front, x, back, split, -, before, greatest, answer⟩
  · exact absurd upTo (after m.readable (mem.mpr ⟨m, hm, rfl⟩))
  · obtain ⟨y, hy, rfl⟩ := mem.mp (show x ∈ d.decoded.mappings.toList by simp [split])
    have reached := greatest m.readable (mem.mpr ⟨m, hm, rfl⟩) upTo
    obtain rfl := last y hy reached before
    have found : d.decoded.nearest? p = some y.readable := by
      rw [answer, Option.filter_some, if_pos (by simpa [Mapping.readable] using line)]
    rw [Decoded.locate, if_pos valid, found]
    cases horigin : y.origin <;> simp [Mapping.readable, horigin]

/-- **A place at which a mapping was put** is answered by this mapping, if it is the least of those
that were put there. -/
theorem Draft.locate_decoded {d : Draft} {m : Mapping} (hm : m ∈ d.mappings.toList)
    (valid : m.generated.valid)
    (least : ∀ m' ∈ d.mappings.toList, m'.generated = m.generated →
      m' = m ∨ compareMappings m m' = .lt) :
    d.decoded.locate m.generated = .ok (m.origin.map fun o => (o, m.name)) := by
  have mem : ∀ {x}, x ∈ d.sortedMappings.destutter (· ≠ ·) ↔ x ∈ d.mappings.toList :=
    mem_destutter_ne.trans mem_sortedMappings
  obtain ⟨x, found⟩ : ∃ x, (d.sortedMappings.destutter (· ≠ ·)).find?
      (fun x => x.generated = m.generated) = some x :=
    Option.isSome_iff_exists.mp (List.find?_isSome.mpr ⟨m, mem.mpr hm, by simp⟩)
  obtain ⟨hx, front, back, split, hfront⟩ := List.find?_eq_some_iff_append.mp found
  have at_ : x.generated = m.generated := of_decide_eq_true hx
  have first : x = m := by
    have hxmem : x ∈ d.mappings.toList := mem.mp (by rw [split]; simp)
    rcases least x hxmem at_ with h | less
    · exact h
    · have hmem := mem.mpr hm
      rw [split, List.mem_append, List.mem_cons] at hmem
      rcases hmem with h | h | h
      · simpa using hfront m h
      · exact h.symm
      · have sorted := d.pairwise_sortedMappings.sublist (List.destutter_sublist (· ≠ ·) _)
        rw [split, List.pairwise_append] at sorted
        have le := List.rel_of_pairwise_cons sorted.2.1 h
        have swap : compareMappings x m = (compareMappings m x).swap := Std.OrientedCmp.eq_swap
        rw [swap, less] at le
        cases le
  subst first
  have list : d.decoded.mappings.toList =
      front.map Mapping.readable ++ x.readable :: back.map Mapping.readable := by
    simp [decoded, split]
  have nearest : d.decoded.nearest? x.readable.generated = some x.readable := by
    refine Decoded.Ordered.nearest?_generated d.ordered_decoded list ?_
    intro y hy
    obtain ⟨z, hz, rfl⟩ := List.mem_map.mp hy
    simpa [Mapping.readable] using hfront z hz
  have := show d.decoded.nearest? x.generated = some x.readable from nearest
  rw [Decoded.locate, if_pos valid, this]
  cases horigin : x.origin <;> simp [Mapping.readable, horigin]

end Componentry.SourceMap
