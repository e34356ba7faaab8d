import Componentry.Json.Convert

/-!
# Fields of objects

Looking a field up beside setting it. An object of which no two fields share a name is the list of
its entries, so that nothing is lost when its entries are taken one by one.
-/

namespace Componentry.Json

/-! ## Lookup and update -/

theorem Fields.get?_set (key name : Text) (v : Json) (fields : Fields) :
    Fields.get? name (Fields.set key v fields) =
      if key = name then some v else Fields.get? name fields := by
  induction fields with
  | nil => simp [Fields.set, Fields.get?]
  | cons f rest ih =>
    obtain ⟨k, w⟩ := f
    by_cases hk : k = key
    · subst hk
      by_cases hn : k = name <;> simp [Fields.set, Fields.get?, hn]
    · by_cases hn : k = name
      · subst hn
        simp [Fields.set, Fields.get?, hk, Ne.symm hk]
      · simp [Fields.set, Fields.get?, hk, hn, ih]

theorem Fields.get?_filter_ne (key name : Text) (fields : Fields) :
    Fields.get? name (fields.filter fun f => !decide (f.1 = key)) =
      if key = name then none else Fields.get? name fields := by
  induction fields with
  | nil => simp [Fields.get?]
  | cons f rest ih =>
    obtain ⟨k, w⟩ := f
    by_cases hk : k = key
    · subst hk
      by_cases hn : k = name
      · simpa [hn, Fields.get?] using ih
      · simpa [hn, Fields.get?] using ih
    · by_cases hn : k = name
      · subst hn
        simp [Fields.get?, hk, Ne.symm hk]
      · simp only [hk, decide_false, Bool.not_false, List.filter_cons_of_pos, Fields.get?,
          if_neg hn]
        exact ih

/-- A field of a new name becomes the last one. -/
theorem Fields.set_of_notMem {key : Text} {v : Json} {fields : Fields} (h : key ∉ fields.keys) :
    Fields.set key v fields = fields ++ [(key, v)] := by
  induction fields with
  | nil => rfl
  | cons f rest ih =>
    obtain ⟨k, w⟩ := f
    simp only [Fields.keys, List.map_cons, List.mem_cons, not_or] at h
    rw [Fields.set, if_neg (Ne.symm h.1), ih h.2]
    rfl

theorem Fields.mem_set {key : Text} {v : Json} {fields : Fields} {f : Text × Json}
    (h : f ∈ Fields.set key v fields) : f = (key, v) ∨ f ∈ fields := by
  induction fields with
  | nil => exact .inl (List.mem_singleton.mp h)
  | cons g rest ih =>
    rw [Fields.set] at h
    split at h
    next same =>
      rcases List.mem_cons.mp h with rfl | h
      · exact .inl (by rw [same])
      · exact .inr (List.mem_cons_of_mem _ h)
    next =>
      rcases List.mem_cons.mp h with rfl | h
      · exact .inr (List.mem_cons_self ..)
      · exact (ih h).imp id (List.mem_cons_of_mem _)

theorem Fields.nodup_keys_set {key : Text} {v : Json} {fields : Fields} (nodup : fields.keys.Nodup) :
    (Fields.set key v fields).keys.Nodup := by
  induction fields with
  | nil => simp [Fields.set, Fields.keys]
  | cons g rest ih =>
    rw [Fields.keys, List.map_cons, List.nodup_cons] at nodup
    rw [Fields.set]
    split
    next => simpa [Fields.keys] using nodup
    next other =>
      rw [Fields.keys, List.map_cons, List.nodup_cons]
      refine ⟨fun h => ?_, ih nodup.2⟩
      obtain ⟨f, hf, name⟩ := List.mem_map.mp h
      rcases Fields.mem_set hf with rfl | hf
      · exact other name.symm
      · exact nodup.1 (name ▸ List.mem_map_of_mem (f := Prod.fst) hf)

/-- A field that an object has is changed in its place, and the fields around it stay. -/
theorem Fields.exists_of_get? {key : Text} {v : Json} {fields : Fields}
    (h : Fields.get? key fields = some v) :
    ∃ front back : Fields, fields = front ++ (key, v) :: back ∧ key ∉ front.keys ∧
      ∀ w, Fields.set key w fields = front ++ (key, w) :: back := by
  induction fields with
  | nil => cases h
  | cons f rest ih =>
    obtain ⟨k, u⟩ := f
    rw [Fields.get?] at h
    by_cases same : k = key
    · subst same
      rw [if_pos rfl] at h
      cases h
      exact ⟨[], rest, rfl, by simp [Fields.keys], fun w => by simp [Fields.set]⟩
    · rw [if_neg same] at h
      obtain ⟨front, back, rfl, absent, set⟩ := ih h
      refine ⟨(k, u) :: front, back, rfl, ?_, fun w => ?_⟩
      · rw [Fields.keys, List.map_cons, List.mem_cons, not_or]
        exact ⟨Ne.symm same, absent⟩
      · rw [Fields.set, if_neg same, set, List.cons_append]

/-! ## Entries -/

theorem Entries.foldl_set (fields acc : Fields) (nodup : (acc ++ fields).keys.Nodup) :
    (fields.map fun f => ((.str f.1 : Json), f.2)).foldl
      (fun fields (k, v) => Fields.set (keyName k) v fields) acc = acc ++ fields := by
  induction fields generalizing acc with
  | nil => simp
  | cons f rest ih =>
    have fresh : f.1 ∉ acc.keys := by
      simp only [Fields.keys, List.map_append, List.map_cons, List.nodup_append] at nodup
      intro hmem
      exact nodup.2.2 _ hmem _ (List.mem_cons_self ..) rfl
    have step : Fields.set (keyName (.str f.1)) f.2 acc = acc ++ [f] :=
      Fields.set_of_notMem fresh
    simp only [List.map_cons, List.foldl_cons, step]
    rw [ih (acc ++ [f]) (by simpa using nodup)]
    simp

/-- The entries of an object without repeated names are its fields again. -/
theorem toFields_obj {fields : Fields} (nodup : fields.keys.Nodup) :
    Entries.toFields (fields.map fun f => ((.str f.1 : Json), f.2)) = fields :=
  Entries.foldl_set fields [] nodup

/-- No two of the fields that entries are written as share a name. -/
theorem Entries.nodup_toFields (entries : Entries) : entries.toFields.keys.Nodup := by
  have kept (acc : Fields) (nodup : acc.keys.Nodup) :
      (entries.foldl (fun fields (k, v) => Fields.set (keyName k) v fields) acc).keys.Nodup := by
    induction entries generalizing acc with
    | nil => exact nodup
    | cons f rest ih => exact ih _ (Fields.nodup_keys_set nodup)
  exact kept [] List.nodup_nil

end Componentry.Json
