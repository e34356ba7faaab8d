import Componentry.Json.Printer
import Componentry.Proofs.Json.Fields
import Componentry.Proofs.Json.RoundTrip
import Componentry.Proofs.Text.Order

/-!
# Values up to the order of fields

Two values whose sorted forms are equal differ in nothing but the order of their fields. Sorting is
done once and for all, it can be undone by no lookup, and it changes neither the depth of a value
nor whether the value can be written and read back.
-/

namespace Componentry.Json

/-! ## Sorting fields -/

theorem sortFields_perm (fields : Fields) : (sortFields fields).Perm fields :=
  List.mergeSort_perm ..

theorem sortFields_pairwise (fields : Fields) :
    (sortFields fields).Pairwise fun a b => !Text.before b.1 a.1 := by
  refine List.pairwise_mergeSort ?_ ?_ fields
  · intro a b c hab hbc
    exact Text.not_before_trans hab hbc
  · intro a b
    exact Text.not_before_total a.1 b.1

theorem keys_sortFields_perm (fields : Fields) : (sortFields fields).keys.Perm fields.keys :=
  (sortFields_perm fields).map Prod.fst

theorem nodup_keys_sortFields {fields : Fields} :
    (sortFields fields).keys.Nodup ↔ fields.keys.Nodup :=
  (keys_sortFields_perm fields).nodup_iff

/-- Fields whose names stand in order stay as they are. -/
theorem sortFields_of_pairwise {fields : Fields}
    (h : fields.keys.Pairwise fun a b => !Text.before b a) : sortFields fields = fields :=
  List.mergeSort_of_pairwise (List.pairwise_map.mp h)

theorem sortFields_sortFields (fields : Fields) :
    sortFields (sortFields fields) = sortFields fields :=
  List.mergeSort_of_pairwise (sortFields_pairwise fields)

theorem sortFields_map (g : Json → Json) (fields : Fields) :
    sortFields (fields.map fun f => (f.1, g f.2)) =
      (sortFields fields).map fun f => (f.1, g f.2) := by
  refine (List.map_mergeSort ?_).symm
  intro a _ b _
  rfl

/-- With distinct names, a field is found where it stands. -/
theorem get?_eq_some_iff {fields : Fields} (nodup : fields.keys.Nodup) {k : Text} {v : Json} :
    Fields.get? k fields = some v ↔ (k, v) ∈ fields := by
  induction fields with
  | nil => simp [Fields.get?]
  | cons f rest ih =>
    obtain ⟨name, w⟩ := f
    simp only [Fields.keys, List.map_cons, List.nodup_cons] at nodup
    rw [Fields.get?, List.mem_cons]
    split
    next same =>
      subst same
      have absent : (name, v) ∉ rest := fun h => nodup.1 (List.mem_map_of_mem (f := Prod.fst) h)
      simp [absent, eq_comm]
    next other =>
      rw [ih nodup.2]
      simp [Ne.symm other]

/-- Lookup does not see the order of fields with distinct names. -/
theorem get?_perm {fields others : Fields} (h : fields.Perm others) (nodup : fields.keys.Nodup)
    (k : Text) : Fields.get? k fields = Fields.get? k others := by
  have nodup' : others.keys.Nodup := (h.map Prod.fst).nodup_iff.mp nodup
  apply Option.ext
  intro v
  rw [get?_eq_some_iff nodup, get?_eq_some_iff nodup', h.mem_iff]

/-- Fields with distinct names have one sorted order. -/
theorem sortFields_eq_of_perm {fields others : Fields} (h : fields.Perm others)
    (nodup : fields.keys.Nodup) : sortFields fields = sortFields others := by
  have perm := (sortFields_perm fields).trans (h.trans (sortFields_perm others).symm)
  refine perm.eq_of_pairwise ?_ (sortFields_pairwise fields) (sortFields_pairwise others)
  intro a b ha hb hab hba
  have name : a.1 = b.1 := Text.eq_of_not_before hab hba
  have hb' : (a.1, b.2) ∈ fields := by
    rw [name]
    exact (sortFields_perm fields).mem_iff.mp (perm.mem_iff.mpr hb)
  have ha' := (get?_eq_some_iff nodup).mpr ((sortFields_perm fields).mem_iff.mp ha)
  rw [(get?_eq_some_iff nodup).mpr hb'] at ha'
  exact Prod.ext name (Option.some.inj ha').symm

/-! ## Sorted values -/

theorem sortedItems_eq_map (items : List Json) : sortedItems items = items.map sorted := by
  induction items with
  | nil => rfl
  | cons j rest ih => rw [sortedItems, ih, List.map_cons]

theorem sortedFields_eq_map (fields : Fields) :
    sortedFields fields = fields.map fun f => (f.1, f.2.sorted) := by
  induction fields with
  | nil => rfl
  | cons f rest ih => rw [sortedFields, ih, List.map_cons]

@[simp] theorem keys_sortedFields (fields : Fields) :
    Fields.keys (sortedFields fields) = fields.keys := by
  rw [sortedFields_eq_map, Fields.keys, Fields.keys, List.map_map]
  rfl

theorem get?_sortedFields (k : Text) (fields : Fields) :
    Fields.get? k (sortedFields fields) = (Fields.get? k fields).map sorted := by
  induction fields with
  | nil => rfl
  | cons f rest ih =>
    obtain ⟨name, v⟩ := f
    rw [sortedFields, Fields.get?, Fields.get?, ih]
    split <;> rfl

mutual

/-- Sorting a sorted value changes nothing. -/
theorem sorted_sorted (j : Json) : j.sorted.sorted = j.sorted := by
  cases j with
  | arr items => rw [sorted, sorted, sortedItems_sortedItems items]
  | obj fields =>
    rw [sorted, sorted, sortedFields_eq_map (sortFields _), ← sortFields_map,
      ← sortedFields_eq_map, sortedFields_sortedFields fields, sortFields_sortFields]
  | _ => rfl

theorem sortedItems_sortedItems (items : List Json) :
    sortedItems (sortedItems items) = sortedItems items := by
  cases items with
  | nil => rfl
  | cons j rest =>
    rw [sortedItems, sortedItems, sorted_sorted j, sortedItems_sortedItems rest]

theorem sortedFields_sortedFields (fields : Fields) :
    sortedFields (sortedFields fields) = sortedFields fields := by
  cases fields with
  | nil => rfl
  | cons f rest =>
    rw [sortedFields, sortedFields, sorted_sorted f.2, sortedFields_sortedFields rest]

end

/-! ## What sorting keeps -/

theorem storableItems_iff {items : List Json} :
    storableItems items ↔ ∀ j ∈ items, j.isStorable := by
  induction items with
  | nil => simp [storableItems]
  | cons j rest ih => simp [storableItems, ih]

theorem storableFields_iff {fields : Fields} :
    storableFields fields ↔ ∀ f ∈ fields, f.1.Whole ∧ f.2.isStorable := by
  induction fields with
  | nil => simp [storableFields]
  | cons f rest ih => simp [storableFields, ih]

theorem depthFields_le_iff {fields : Fields} {n : Nat} :
    depthFields fields ≤ n ↔ ∀ f ∈ fields, f.2.depth ≤ n := by
  induction fields with
  | nil => simp [depthFields]
  | cons f rest ih => simp [depthFields, ih]

theorem storableFields_sortFields (fields : Fields) :
    storableFields (sortFields fields) = storableFields fields := by
  rw [Bool.eq_iff_iff, storableFields_iff, storableFields_iff]
  simp only [(sortFields_perm fields).mem_iff]

theorem depthFields_sortFields (fields : Fields) :
    depthFields (sortFields fields) = depthFields fields := by
  refine Nat.le_antisymm ?_ ?_
  · exact depthFields_le_iff.mpr fun f hf =>
      depthFields_le_iff.mp (Nat.le_refl _) f ((sortFields_perm fields).mem_iff.mp hf)
  · exact depthFields_le_iff.mpr fun f hf =>
      depthFields_le_iff.mp (Nat.le_refl _) f ((sortFields_perm fields).mem_iff.mpr hf)

mutual

/-- A value can be written and read back if and only if its sorted form can. -/
@[simp] theorem isStorable_sorted (j : Json) : j.sorted.isStorable = j.isStorable := by
  cases j with
  | arr items => rw [sorted, isStorable, isStorable, storableItems_sortedItems items]
  | obj fields =>
    simp only [sorted, isStorable, storableFields_sortFields, storableFields_sortedFields fields,
      nodup_keys_sortFields, keys_sortedFields]
  | _ => rfl

theorem storableItems_sortedItems (items : List Json) :
    storableItems (sortedItems items) = storableItems items := by
  cases items with
  | nil => rfl
  | cons j rest =>
    rw [sortedItems, storableItems, storableItems, isStorable_sorted j,
      storableItems_sortedItems rest]

theorem storableFields_sortedFields (fields : Fields) :
    storableFields (sortedFields fields) = storableFields fields := by
  cases fields with
  | nil => rfl
  | cons f rest =>
    rw [sortedFields, storableFields, storableFields, isStorable_sorted f.2,
      storableFields_sortedFields rest]

end

mutual

@[simp] theorem depth_sorted (j : Json) : j.sorted.depth = j.depth := by
  cases j with
  | arr items => rw [sorted, depth, depth, depthItems_sortedItems items]
  | obj fields =>
    rw [sorted, depth, depth, depthFields_sortFields, depthFields_sortedFields fields]
  | _ => rfl

theorem depthItems_sortedItems (items : List Json) :
    depthItems (sortedItems items) = depthItems items := by
  cases items with
  | nil => rfl
  | cons j rest =>
    rw [sortedItems, depthItems, depthItems, depth_sorted j, depthItems_sortedItems rest]

theorem depthFields_sortedFields (fields : Fields) :
    depthFields (sortedFields fields) = depthFields fields := by
  cases fields with
  | nil => rfl
  | cons f rest =>
    rw [sortedFields, depthFields, depthFields, depth_sorted f.2, depthFields_sortedFields rest]

end

theorem isStorable_of_sorted_eq {j k : Json} (h : j.sorted = k.sorted) (hk : k.isStorable) :
    j.isStorable := by
  rwa [← isStorable_sorted j, h, isStorable_sorted k]

/-! ## Reading a value up to the order of fields -/

theorem nodup_of_isStorable {fields : Fields} (h : (obj fields).isStorable) :
    fields.keys.Nodup := by
  simp only [isStorable, Bool.and_eq_true, decide_eq_true_eq] at h
  exact h.1

/-- A field of the sorted form is the sorted field. -/
theorem field?_sorted {j : Json} (h : j.isStorable) (k : Text) :
    j.sorted.field? k = (j.field? k).map sorted := by
  cases j with
  | obj fields =>
    rw [sorted, field?, field?, ← get?_sortedFields]
    refine get?_perm (sortFields_perm _) ?_ k
    rw [nodup_keys_sortFields, keys_sortedFields]
    exact nodup_of_isStorable h
  | _ => rfl

theorem fieldD_sorted {j : Json} (h : j.isStorable) (k : Text) :
    j.sorted.fieldD k = (j.fieldD k).sorted := by
  rw [fieldD, fieldD, field?_sorted h]
  cases j.field? k <;> rfl

/-- Values that are equal up to the order of fields have such fields. -/
theorem fieldD_of_sorted_eq {i j : Json} (h : i.sorted = j.sorted) (hj : j.isStorable) (k : Text) :
    (i.fieldD k).sorted = (j.fieldD k).sorted := by
  rw [← fieldD_sorted (isStorable_of_sorted_eq h hj), h, fieldD_sorted hj]

@[simp] theorem truthy_sorted (j : Json) : j.sorted.truthy = j.truthy := by
  cases j with
  | arr items => cases items <;> rfl
  | obj fields =>
    have same : (sortFields (sortedFields fields)).isEmpty = fields.isEmpty := by
      rw [(sortFields_perm _).isEmpty_eq, sortedFields_eq_map, List.isEmpty_map]
    rw [sorted, truthy, truthy, same]
  | _ => rfl

theorem eq_str_of_sorted {j : Json} {s : Text} (h : j.sorted = .str s) : j = .str s := by
  cases j <;> simp_all [sorted]

theorem eq_bool_of_sorted {j : Json} {b : Bool} (h : j.sorted = .bool b) : j = .bool b := by
  cases j <;> simp_all [sorted]

theorem exists_obj_of_sorted_eq {j : Json} {fields : Fields} (h : j.sorted = (obj fields).sorted) :
    ∃ others, j = .obj others := by
  cases j with
  | obj others => exact ⟨others, rfl⟩
  | _ => simp [sorted] at h

theorem exists_arr_of_sorted_eq {j : Json} {items : List Json} (h : j.sorted = (arr items).sorted) :
    ∃ others, j = .arr others ∧ others.map sorted = items.map sorted := by
  cases j with
  | arr others =>
    refine ⟨others, rfl, ?_⟩
    simpa only [sorted, arr.injEq, sortedItems_eq_map] using h
  | _ => simp [sorted] at h

theorem isStorable_fieldD {j : Json} (h : j.isStorable) (k : Text) : (j.fieldD k).isStorable := by
  cases j with
  | obj fields =>
    rw [fieldD, field?]
    cases found : Fields.get? k fields with
    | none => rfl
    | some v =>
      simp only [isStorable, Bool.and_eq_true] at h
      exact (storableFields_iff.mp h.2 _
        ((get?_eq_some_iff (nodup_of_isStorable (by simpa [isStorable] using h))).mp found)).2
  | _ => rfl

end Componentry.Json
