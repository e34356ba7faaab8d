import Componentry.Cache.Payload
import Componentry.Proofs.Cache.Store

/-!
# Payloads lose nothing

A result that is written as a data value is read back as the same result, but for the order of the
fields in its source maps. The data of modules and stylesheets must be texts, as every tool should
give them: other data is shown as text when it is read.
-/

namespace Componentry

/-! ## Results up to the order of fields -/

/-- The stylesheet with the fields of its map in order. -/
def Stylesheet.normal (s : Stylesheet) : Stylesheet := { s with sourceMap := s.sourceMap.sorted }

/-- The module with the fields of its maps in order. -/
def Module.normal (m : Module) : Module :=
  { m with sourceMap := m.sourceMap.sorted, stylesheets := m.stylesheets.map Stylesheet.normal }

/-- The result with the fields of its maps in order. -/
def Result.normal : Result → Result
  | .page parts => .page parts
  | .code m => .code m.normal

/-- Is the data of the stylesheet a text? -/
def Stylesheet.HasText (s : Stylesheet) : Prop := ∃ css, s.data = .str css

/-- Is all data of the module text? -/
def Module.HasText (m : Module) : Prop :=
  (∃ code, m.data = .str code) ∧ ∀ s ∈ m.stylesheets, s.HasText

/-- Is all data of the result text? -/
def Result.HasText : Result → Prop
  | .page _ => True
  | .code m => m.HasText

/-- Can a cache keep the result? Its nesting is bounded by the reader's usual room alone. Making the
payload takes no room here; where it does, results nested less deep than this may be refused. -/
structure Result.Keepable (r : Result) : Prop where
  hasText : r.HasText
  isStorable : r.toJson.isStorable
  shallow : r.toJson.depth + 3 ≤ Json.maxDepth

theorem Result.HasText.exists_size {r : Result} (h : r.HasText) : ∃ n, r.size = .ok n := by
  cases r with
  | page parts => exact ⟨_, rfl⟩
  | code m =>
    obtain ⟨⟨code, data⟩, -⟩ := h
    exact ⟨code.length + (Json.render m.sourceMap).length, by rw [Result.size, data]; rfl⟩

theorem Result.HasText.of_normal_eq {r q : Result} (h : q.HasText) (same : r.normal = q.normal) :
    r.HasText := by
  cases r with
  | page parts => trivial
  | code m =>
    cases q with
    | page parts => cases same
    | code n =>
      have same : m.normal = n.normal := Result.code.inj same
      refine ⟨?_, fun s hs => ?_⟩
      · have data : m.data = n.data := (congrArg Module.data same :)
        exact data ▸ h.1
      · have sheets : m.stylesheets.map Stylesheet.normal = n.stylesheets.map Stylesheet.normal :=
          (congrArg Module.stylesheets same :)
        obtain ⟨t, ht, normal⟩ := List.mem_map.mp (sheets ▸ List.mem_map_of_mem hs)
        have data : t.data = s.data := (congrArg Stylesheet.data normal :)
        obtain ⟨css, hcss⟩ := h.2 t ht
        exact ⟨css, data ▸ hcss⟩

/-! ## The written form -/

theorem HtmlPart.sorted_toJson (p : HtmlPart) :
    p.toJson.sorted = .obj [("data", .str p.data), ("section", .str p.name)] := by
  rw [toJson, Json.sorted]
  refine congrArg Json.obj ((Json.sortFields_eq_of_perm (.swap ..) ?_).trans
    (Json.sortFields_of_pairwise ?_))
  · show [Text.ofString "section", Text.ofString "data"].Nodup
    decide
  · show [Text.ofString "data", Text.ofString "section"].Pairwise _
    decide

theorem Stylesheet.sorted_toJson_normal (s : Stylesheet) :
    s.normal.toJson.sorted = s.toJson.sorted := by
  simp only [toJson, normal, Json.sorted, Json.sortedFields, Json.sorted_sorted]

theorem Module.sorted_toJson_normal (m : Module) : m.normal.toJson.sorted = m.toJson.sorted := by
  have sheets : Json.sortedItems ((m.stylesheets.map Stylesheet.normal).map Stylesheet.toJson) =
      Json.sortedItems (m.stylesheets.map Stylesheet.toJson) := by
    simp only [Json.sortedItems_eq_map, List.map_map]
    exact List.map_congr_left fun s _ => s.sorted_toJson_normal
  simp only [toJson, normal, Json.sorted, Json.sortedFields, Json.sorted_sorted, sheets]

/-- Results that are equal up to the order of fields are written as such values. -/
theorem Result.sorted_toJson_of_normal_eq {r q : Result} (h : r.normal = q.normal) :
    r.toJson.sorted = q.toJson.sorted := by
  have written (r : Result) : r.normal.toJson.sorted = r.toJson.sorted := by
    cases r with
    | page parts => rfl
    | code m =>
      simp only [toJson, normal, Json.sorted, Json.sortedFields, m.sorted_toJson_normal]
  rw [← written r, h, written q]

theorem Result.Keepable.of_normal_eq {r q : Result} (h : q.Keepable) (same : r.normal = q.normal) :
    r.Keepable where
  hasText := h.hasText.of_normal_eq same
  isStorable := Json.isStorable_of_sorted_eq (sorted_toJson_of_normal_eq same) h.isStorable
  shallow := by
    rw [← Json.depth_sorted, sorted_toJson_of_normal_eq same, Json.depth_sorted]
    exact h.shallow

theorem Result.Keepable.toJson {r : Result} (h : r.Keepable) : r.toJson.Keepable := by
  refine ⟨?_, h.isStorable, h.shallow⟩
  cases r with
  | page parts => exact ⟨_, rfl⟩
  | code m => exact ⟨_, rfl⟩

/-! ## Reading back -/

theorem shown_presentOr_str (s : Text) : ((Json.str s).presentOr (.str "")).shown = s := by
  cases s with
  | nil => rfl
  | cons c rest => rfl

theorem elements_presentOr_arr (items : List Json) :
    ((Json.arr items).presentOr (.arr [])).elements = .ok items := by
  cases items with
  | nil => rfl
  | cons j rest => rfl

namespace Json

variable {j : Json} {fields : Fields}

/-- A field that is a text up to the order of fields is that text. -/
theorem fieldD_eq_str (h : j.sorted = (obj fields).sorted) (hs : (obj fields).isStorable)
    {k s : Text} (found : (obj fields).fieldD k = .str s) : j.fieldD k = .str s :=
  eq_str_of_sorted ((fieldD_of_sorted_eq h hs k).trans (by rw [found]; rfl))

theorem fieldD_eq_bool (h : j.sorted = (obj fields).sorted) (hs : (obj fields).isStorable)
    {k : Text} {b : Bool} (found : (obj fields).fieldD k = .bool b) : j.fieldD k = .bool b :=
  eq_bool_of_sorted ((fieldD_of_sorted_eq h hs k).trans (by rw [found]; rfl))

end Json

/-- A stylesheet comes back from its value. -/
theorem Stylesheet.exists_ofJson? {j : Json} {s : Stylesheet} (h : j.sorted = s.toJson.sorted)
    (hs : s.toJson.isStorable) (text : s.HasText) :
    ∃ s', ofJson? j = some s' ∧ s'.normal = s.normal := by
  obtain ⟨others, rfl⟩ := Json.exists_obj_of_sorted_eq h
  obtain ⟨css, data⟩ := text
  have path := Json.fieldD_eq_str h hs (k := "path") rfl
  have css' := Json.fieldD_eq_str h hs (k := "data") (show s.data = .str css from data)
  have lazy := Json.fieldD_eq_bool h hs (k := "lazy") rfl
  have map := Json.fieldD_of_sorted_eq h hs "source_map"
  refine ⟨_, rfl, ?_⟩
  simp only [normal, path, css', lazy, map, shown_presentOr_str]
  obtain ⟨_, _, _, _⟩ := s
  subst data
  rfl

/-- A section comes back from its value. -/
theorem HtmlPart.ofJson?_of_sorted_eq {j : Json} {p : HtmlPart} (h : j.sorted = p.toJson.sorted)
    (hp : p.toJson.isStorable) : ofJson? j = some p := by
  obtain ⟨others, rfl⟩ := Json.exists_obj_of_sorted_eq h
  have name := Json.fieldD_eq_str h hp (k := "section") rfl
  have data := Json.fieldD_eq_str h hp (k := "data") rfl
  simp only [ofJson?, name, data, shown_presentOr_str]
  rfl

/-- The stylesheets of a module come back from their values, in order. -/
theorem exists_filterMap_stylesheets {items : List Json} {sheets : List Stylesheet}
    (h : items.map Json.sorted = (sheets.map Stylesheet.toJson).map Json.sorted)
    (hs : ∀ s ∈ sheets, s.toJson.isStorable) (text : ∀ s ∈ sheets, s.HasText) :
    (items.filterMap Stylesheet.ofJson?).map Stylesheet.normal =
      sheets.map Stylesheet.normal := by
  induction sheets generalizing items with
  | nil => simp_all
  | cons s rest ih =>
    obtain ⟨j, more, rfl⟩ : ∃ j more, items = j :: more := by
      cases items with
      | nil => cases h
      | cons j more => exact ⟨j, more, rfl⟩
    simp only [List.map_cons, List.cons.injEq] at h
    obtain ⟨s', read, normal⟩ := Stylesheet.exists_ofJson? h.1
      (hs s (List.mem_cons_self ..)) (text s (List.mem_cons_self ..))
    rw [List.filterMap_cons, read, List.map_cons, List.map_cons, normal,
      ih h.2 (fun t ht => hs t (List.mem_cons_of_mem _ ht))
        (fun t ht => text t (List.mem_cons_of_mem _ ht))]

theorem mapM_htmlPart {items : List Json} {parts : List HtmlPart}
    (h : items.map Json.sorted = (parts.map HtmlPart.toJson).map Json.sorted)
    (hp : ∀ p ∈ parts, p.toJson.isStorable) : items.mapM HtmlPart.ofJson? = some parts := by
  induction parts generalizing items with
  | nil => simp_all
  | cons p rest ih =>
    obtain ⟨j, more, rfl⟩ : ∃ j more, items = j :: more := by
      cases items with
      | nil => cases h
      | cons j more => exact ⟨j, more, rfl⟩
    simp only [List.map_cons, List.cons.injEq] at h
    rw [List.mapM_cons, HtmlPart.ofJson?_of_sorted_eq h.1 (hp p (List.mem_cons_self ..)),
      ih h.2 fun q hq => hp q (List.mem_cons_of_mem _ hq)]
    rfl

/-- The items of a field that is a list up to the order of fields. -/
theorem exists_itemsOf {j : Json} {fields : Json.Fields} (h : j.sorted = (Json.obj fields).sorted)
    (hs : (Json.obj fields).isStorable) {k : Text} {items : List Json}
    (found : (Json.obj fields).fieldD k = .arr items) :
    ∃ others, Result.itemsOf k j = .ok others ∧ others.map Json.sorted = items.map Json.sorted ∧
      ∀ i ∈ items, i.isStorable := by
  have alike := Json.fieldD_of_sorted_eq h hs k
  rw [found] at alike
  obtain ⟨others, arr, same⟩ := Json.exists_arr_of_sorted_eq alike
  refine ⟨others, ?_, same, ?_⟩
  · rw [Result.itemsOf, arr, elements_presentOr_arr]
    rfl
  · have storable := Json.isStorable_fieldD hs k
    rw [found, Json.isStorable] at storable
    exact Json.storableItems_iff.mp storable

/-- **A result comes back from its payload**, up to the order of fields. -/
theorem Result.exists_ofJson? {j : Json} {r : Result} (h : j.sorted = r.toJson.sorted)
    (hr : r.toJson.isStorable) (text : r.HasText) :
    ∃ r', ofJson? j = .ok (some r') ∧ r'.normal = r.normal := by
  cases r with
  | page parts =>
    obtain ⟨others, rfl⟩ := Json.exists_obj_of_sorted_eq h
    have kind := Json.fieldD_eq_str h hr (k := "kind") rfl
    obtain ⟨items, read, same, storable⟩ := exists_itemsOf h hr (k := "sections") rfl
    refine ⟨.page parts, ?_, rfl⟩
    have all := mapM_htmlPart same fun p hp => storable _ (List.mem_map_of_mem hp)
    have sections : pageOf? (.obj others) = .ok (some (.page parts)) := by
      rw [pageOf?, read]
      show Except.ok ((items.mapM HtmlPart.ofJson?).map Result.page) = _
      rw [all]
      rfl
    simp only [ofJson?, kind, sections]
    rfl
  | code m =>
    obtain ⟨others, rfl⟩ := Json.exists_obj_of_sorted_eq h
    have kind := Json.fieldD_eq_str h hr (k := "kind") rfl
    have output : ((Json.obj others).fieldD "output").sorted = m.toJson.sorted :=
      Json.fieldD_of_sorted_eq h hr "output"
    have hm : m.toJson.isStorable := Json.isStorable_fieldD hr "output"
    obtain ⟨fields, raw⟩ := Json.exists_obj_of_sorted_eq output
    rw [raw] at output
    obtain ⟨⟨code, data⟩, sheetText⟩ := text
    have sourcePath := Json.fieldD_eq_str output hm (k := "source_path") rfl
    have path := Json.fieldD_eq_str output hm (k := "path") rfl
    have code' := Json.fieldD_eq_str output hm (k := "data") (show m.data = .str code from data)
    have map := Json.fieldD_of_sorted_eq output hm "source_map"
    obtain ⟨items, read, same, storable⟩ := exists_itemsOf output hm (k := "stylesheets") rfl
    have sheets := exists_filterMap_stylesheets same
      (fun s hs => storable _ (List.mem_map_of_mem hs)) sheetText
    have module_ : moduleOf? (.obj others) = .ok (some (.code {
        sourcePath := m.sourcePath, path := m.path, data := .str code
        sourceMap := (Json.obj fields).fieldD "source_map"
        stylesheets := items.filterMap Stylesheet.ofJson? })) := by
      rw [moduleOf?, raw]
      simp only [read, sourcePath, path, code', shown_presentOr_str]
      rfl
    refine ⟨_, by simp only [ofJson?, kind, module_]; rfl, ?_⟩
    simp only [normal, Module.normal, map, sheets]
    obtain ⟨_, _, _, _, _⟩ := m
    subst data
    rfl

/-! ## Payloads that were not written -/

/-- What is read from a value has texts for its data, whatever the value says. -/
theorem Result.hasText_of_ofJson? {j : Json} {r : Result} (h : ofJson? j = .ok (some r)) :
    r.HasText := by
  cases r with
  | page parts => trivial
  | code m =>
    have read : moduleOf? j = .ok (some (.code m)) := by
      cases j with
      | obj fields =>
        simp only [ofJson?] at h
        split at h
        · split at h
          · -- what is read as a page is no module
            simp only [pageOf?, bind, Except.bind, pure, Except.pure] at h
            split at h
            · cases h
            · obtain ⟨parts, -, other⟩ := Option.map_eq_some_iff.mp (Except.ok.inj h)
              cases other
          · split at h
            · exact h
            · cases h
        · cases h
      | _ => cases h
    simp only [moduleOf?] at read
    split at read
    · simp only [bind, Except.bind, pure, Except.pure] at read
      split at read
      · cases read
      · obtain rfl := Result.code.inj (Option.some.inj (Except.ok.inj read))
        refine ⟨⟨_, rfl⟩, fun s hs => ?_⟩
        obtain ⟨item, -, given⟩ := List.mem_filterMap.mp hs
        cases item with
        | obj fields =>
          obtain rfl := Option.some.inj given
          exact ⟨_, rfl⟩
        | _ => cases given
    · cases read

theorem Stylesheet.ofJson?_toJson {s : Stylesheet} (h : s.HasText) : ofJson? s.toJson = some s := by
  obtain ⟨path, data, map, lazy⟩ := s
  obtain ⟨css, rfl⟩ := h
  show some (Stylesheet.mk path (.str ((Json.str css).presentOr (.str "")).shown) map lazy) = _
  rw [shown_presentOr_str]

theorem HtmlPart.ofJson?_toJson (p : HtmlPart) : ofJson? p.toJson = some p := by
  obtain ⟨name, data⟩ := p
  show some (HtmlPart.mk name ((Json.str data).presentOr (.str "")).shown) = _
  rw [shown_presentOr_str]

theorem HtmlPart.mapM_ofJson? (parts : List HtmlPart) :
    (parts.map toJson).mapM ofJson? = some parts := by
  induction parts with
  | nil => rfl
  | cons p rest ih =>
    rw [List.map_cons, List.mapM_cons, p.ofJson?_toJson, ih]
    rfl

theorem Stylesheet.filterMap_ofJson? {sheets : List Stylesheet} (text : ∀ s ∈ sheets, s.HasText) :
    (sheets.map toJson).filterMap ofJson? = sheets := by
  induction sheets with
  | nil => rfl
  | cons s rest ih =>
    rw [List.map_cons, List.filterMap_cons, ofJson?_toJson (text s (List.mem_cons_self ..)),
      ih fun t ht => text t (List.mem_cons_of_mem _ ht)]

/-- The items of a field that is a list. -/
theorem itemsOf_eq {key : Text} {j : Json} {items : List Json} (h : j.fieldD key = .arr items) :
    Result.itemsOf key j = .ok items := by
  rw [Result.itemsOf, h, elements_presentOr_arr]
  rfl

/-- **A result is read back from its value**, with the fields of its maps where they were. -/
theorem Result.ofJson?_toJson {r : Result} (h : r.HasText) : ofJson? r.toJson = .ok (some r) := by
  cases r with
  | page parts =>
    have items : itemsOf "sections" (Result.page parts).toJson =
        .ok (parts.map HtmlPart.toJson) := itemsOf_eq rfl
    show pageOf? (Result.page parts).toJson = _
    rw [pageOf?, items]
    show Except.ok (((parts.map HtmlPart.toJson).mapM HtmlPart.ofJson?).map Result.page) = _
    rw [HtmlPart.mapM_ofJson?]
    rfl
  | code m =>
    obtain ⟨sourcePath, path, data, map, sheets⟩ := m
    obtain ⟨⟨code, rfl⟩, text⟩ := h
    have items : itemsOf "stylesheets" (Module.mk sourcePath path (.str code) map sheets).toJson =
        .ok (sheets.map Stylesheet.toJson) := itemsOf_eq rfl
    show (itemsOf "stylesheets" (Module.mk sourcePath path (.str code) map sheets).toJson >>=
      fun items => Except.ok (some (Result.code {
        sourcePath, path, sourceMap := map
        data := .str ((Json.str code).presentOr (.str "")).shown
        stylesheets := items.filterMap Stylesheet.ofJson? }))) = _
    rw [items, shown_presentOr_str]
    show Except.ok (some (Result.code {
        sourcePath, path, sourceMap := map, data := .str code
        stylesheets := (sheets.map Stylesheet.toJson).filterMap Stylesheet.ofJson? })) = _
    rw [Stylesheet.filterMap_ofJson? text]

end Componentry
