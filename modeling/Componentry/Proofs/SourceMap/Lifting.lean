import Componentry.Proofs.SourceMap.Tracking
import Componentry.Proofs.SourceMap.TwoSteps

/-!
# Replacements with a map of their own

The map of a replacement counts from the start of the replacement and from the start of the span that
it replaces. Whatever is called before and after, its mappings into the span end up in the finished
map, from where the replacement stands in the rebuilt text to where the span stands in the source.
Its other mappings add nothing.
-/

namespace Componentry.SourceMap

/-! ## What any call adds -/

/-- Of any mappings those before the first refused one are added. -/
theorem Draft.exists_addAll (d : Draft) (ms : List Mapping) :
    ∃ kept, kept <+: ms ∧ (∀ m ∈ kept, refusalOf? m = none) ∧
      (d.addAll ms).1 = { d with mappings := d.mappings ++ kept.toArray } := by
  induction ms generalizing d with
  | nil => exact ⟨[], List.nil_prefix, by simp, by simp [addAll]⟩
  | cons m ms ih =>
    rw [addAll]
    cases hm : refusalOf? m with
    | some e => exact ⟨[], List.nil_prefix, by simp, by simp⟩
    | none =>
      obtain ⟨kept, front, accepted, added⟩ := ih { d with mappings := d.mappings.push m }
      refine ⟨m :: kept, List.cons_prefix_cons.mpr ⟨rfl, front⟩, ?_, ?_⟩
      · exact List.forall_mem_cons.mpr ⟨hm, accepted⟩
      · simp [added]

theorem Draft.refusalOf?_eq_none_iff {m : Mapping} : refusalOf? m = none ↔ m.InRange := by
  obtain ⟨g, origin, name⟩ := m
  cases origin with
  | none => by_cases valid : g.valid <;> simp [refusalOf?, refusal?, Mapping.InRange, valid]
  | some o =>
    obtain ⟨source, q⟩ := o
    simp [refusalOf?_eq_none, Mapping.InRange]

namespace Splice

/-- Of the mappings for a text those before the first refused one are added. -/
theorem exists_place (s : Splice) (changed : Bool) (ms : List Mapping) (text : Text) :
    ∃ kept added, kept <+: ms ∧ (∀ m ∈ kept, m.InRange) ∧
      s.Adds kept added ({ s with changed }.place ms text).1 := by
  obtain ⟨kept, front, accepted, drafted⟩ := s.draft.exists_addAll ms
  have inRange : ∀ m ∈ kept, m.InRange := fun m hm => Draft.refusalOf?_eq_none_iff.mp (accepted m hm)
  rw [place]
  cases done : s.draft.addAll ms with
  | mk draft error =>
    rw [done] at drafted
    subst drafted
    cases error with
    | none => exact ⟨kept, text, front, inRange, put_adds s changed kept text⟩
    | some e =>
      refine ⟨kept, [], front, inRange, ⟨rfl, rfl, rfl, ?_, ⟨[], ?_, rfl⟩, rfl⟩⟩
      · simp
      · simp

theorem changed_place (s : Splice) (ms : List Mapping) (text : Text) :
    (s.place ms text).1.changed = s.changed := by
  rw [place]
  split <;> rfl

theorem changed_replace (s : Splice) (text : Text) (offset : Int) (map : Option Json) :
    (s.replace text offset map).1.changed = true := by
  rw [replace.eq_def]
  split
  · exact changed_place ..
  · split
    · rfl
    · exact changed_place ..

/-- A call that rebuilds more. -/
inductive Call where
  | copy (text : Text) (offset : Int)
  | replace (text : Text) (offset : Int) (map : Option Json)
  | drop

/-- A call leaves what it has done before it was refused. -/
def Call.apply (s : Splice) : Call → Splice
  | .copy text offset => (s.copy text offset).1
  | .replace text offset map => (s.replace text offset map).1
  | .drop => s.drop

/-- The splice of a text after some calls. -/
def after (original source : Text) (calls : List Call) : Splice :=
  calls.foldl Call.apply (.start original source)

/-! ## Lifted mappings -/

/-- Does a mapping of a replacement's map lead into the replaced span? -/
def isOwn (source : Text) (d : Decoded) (m : Mapping) : Bool :=
  m.origin.any fun o => d.own? source = some o.source

/-- Lifted mappings are in the order of those they come from. -/
theorem map_generated_liftMappings (s : Splice) (offset : Int) (d : Decoded) :
    (s.liftMappings offset d).map Mapping.generated =
      (d.mappings.toList.filter (isOwn s.source d)).map fun m => s.here.shift m.generated := by
  rw [liftMappings]
  induction d.mappings.toList with
  | nil => rfl
  | cons m ms ih =>
    rw [List.filterMap_cons, List.filter_cons]
    cases ho : m.origin with
    | none => simpa [isOwn, ho] using ih
    | some o =>
      by_cases own : d.own? s.source = some o.source
      · have own' : s.ownSource? d = some o.source := own
        simpa [isOwn, ho, own, own'] using ih
      · have own' : ¬ s.ownSource? d = some o.source := own
        simpa [isOwn, ho, own, own'] using ih

/-- **One call** adds mappings that are in range and have no name. -/
theorem Call.exists_adds (s : Splice) (call : Call) :
    ∃ ms text, s.Adds ms text (call.apply s) ∧ ∀ m ∈ ms, m.InRange ∧ m.name = none := by
  cases call with
  | copy text offset =>
    obtain ⟨kept, added, front, inRange, adds⟩ := s.exists_place s.changed
      (s.copyMappings s.here offset (Text.splitOn '\n' text)) text
    refine ⟨kept, added, adds, fun m hm => ⟨inRange m hm, ?_⟩⟩
    obtain ⟨a, -, rfl⟩ := mem_copyMappings.mp (front.subset hm)
    rfl
  | replace text offset map =>
    cases map with
    | none =>
      obtain ⟨kept, added, front, inRange, adds⟩ := s.exists_place true
        ({ s with changed := true }.replaceMappings s.here (s.index.position offset)
          (Text.splitOn '\n' text)) text
      refine ⟨kept, added, adds, fun m hm => ⟨inRange m hm, ?_⟩⟩
      obtain ⟨a, -, rfl⟩ := mem_replaceMappings.mp (front.subset hm)
      rfl
    | some raw =>
      simp only [apply, Splice.replace]
      cases Decoded.ofJson raw with
      | error e => exact ⟨[], [], Adds.refl s true, by simp⟩
      | ok d =>
        obtain ⟨kept, added, front, inRange, adds⟩ := s.exists_place true (s.liftMappings offset d) text
        refine ⟨kept, added, adds, fun m hm => ⟨inRange m hm, ?_⟩⟩
        obtain ⟨_, -, o, -, -, rfl⟩ := mem_liftMappings.mp (front.subset hm)
        rfl
  | drop => exact ⟨[], [], Adds.refl s true, by simp⟩

theorem Call.changed_apply {s : Splice} (h : s.changed) (call : Call) : (call.apply s).changed := by
  cases call with
  | copy text offset => exact (changed_place ..).trans h
  | replace text offset map => exact changed_replace ..
  | drop => rfl

/-- **Any calls** add mappings that are in range and have no name. -/
theorem exists_adds_foldl (s : Splice) (calls : List Call) :
    ∃ ms text, s.Adds ms text (calls.foldl Call.apply s) ∧ (∀ m ∈ ms, m.InRange ∧ m.name = none) ∧
      (s.changed → (calls.foldl Call.apply s).changed) := by
  induction calls generalizing s with
  | nil => exact ⟨[], [], Adds.refl s s.changed, by simp, id⟩
  | cons call calls ih =>
    obtain ⟨ms, text, adds, plain⟩ := call.exists_adds s
    obtain ⟨ms', text', adds', plain', changed⟩ := ih (call.apply s)
    exact ⟨ms ++ ms', text ++ text', adds.trans adds', List.forall_mem_append.mpr ⟨plain, plain'⟩,
      fun h => changed (call.changed_apply h)⟩

variable {original source front text : Text} {raw : Json} {d : Decoded}

/-- Only mappings into the replaced span are added, in their order. -/
theorem exists_added {s : Splice} (read : Decoded.ofJson raw = .ok d) (text : Text) (offset : Int) :
    ∃ added,
      (s.replace text offset (some raw)).1.draft.mappings.toList =
        s.draft.mappings.toList ++ added ∧
      added.map Mapping.generated <+:
        (d.mappings.toList.filter (isOwn s.source d)).map fun m => s.here.shift m.generated := by
  obtain ⟨kept, _, isFront, -, adds⟩ := s.exists_place true (s.liftMappings offset d) text
  refine ⟨kept, ?_, ?_⟩
  · simp only [replace, read]
    exact adds.mappings
  · rw [← map_generated_liftMappings s offset d]
    exact isFront.map Mapping.generated

/-- A replacement whose map is in range is not refused, and its mappings into the span are lifted. -/
theorem exists_adds_replace {s : Splice} {offset : Nat} (read : Decoded.ofJson raw = .ok d)
    (inRange : ∀ m ∈ d.mappings.toList, m.InRange) (index : s.index = .ofText original)
    (here : s.here = front.place front.length) (bound : offset ≤ original.length) (text : Text) :
    ∃ s' ms, s.replace text offset (some raw) = (s', none) ∧ s.Adds ms text s' ∧ s'.changed ∧
      (∀ x ∈ ms, x.InRange ∧ x.name = none) ∧
      ∀ m ∈ d.mappings.toList, ∀ o ∈ m.origin, d.own? s.source = some o.source →
        lifted s.source (front.place front.length) (original.place offset) m o ∈ ms := by
  have span : s.index.position offset = original.place offset := by
    rw [index]
    exact LineIndex.position_ofText bound
  have plain : ∀ x ∈ s.liftMappings offset d, x.InRange ∧ x.name = none := by
    intro x hx
    obtain ⟨m, hm, o, ho, -, rfl⟩ := mem_liftMappings.mp hx
    obtain ⟨hg, hq⟩ := inRange m hm
    rw [here, span]
    refine ⟨⟨Position.valid_shift (Text.valid_place ..) hg, fun o' ho' => ?_⟩, rfl⟩
    rw [← Option.some.inj ho']
    exact Position.valid_shift (Text.valid_place ..) (hq o ho)
  refine ⟨_, s.liftMappings offset d, ?_, put_adds s true _ text, rfl, plain, ?_⟩
  · simp only [replace, read]
    exact place_eq (fun x hx => Draft.refusalOf?_eq_none_iff.mpr (plain x hx).1) text
  · intro m hm o ho own
    rw [← here, ← span]
    exact mem_liftMappings.mpr ⟨m, hm, o, ho, own, rfl⟩

theorem lifted_eq {m : Mapping} {o : Origin} {offset i j : Nat} (bound : offset ≤ original.length)
    (hi : i ≤ text.length) (hm : m.generated = text.place i)
    (ho : o.position = Text.place (original.drop offset) j) (back : Text) :
    lifted source (front.place front.length) (original.place offset) m o =
      ⟨(front ++ text ++ back).place (front.length + i),
        some ⟨source, original.place (offset + j)⟩, none⟩ := by
  have inside : front.length + i ≤ (front ++ text).length := by
    rw [List.length_append]
    omega
  rw [lifted, hm, ho, Text.shift_place, Text.shift_place_drop bound, Text.place_append inside]

/-! ## The finished map -/

theorem after_append (calls more : List Call) :
    after original source (calls ++ more) = more.foldl Call.apply (after original source calls) :=
  List.foldl_append

/-- After any calls the next text goes behind what has been rebuilt. -/
theorem exists_adds_after (original source : Text) (calls : List Call) :
    ∃ ms front, (start original source).Adds ms front (after original source calls) ∧
      (∀ m ∈ ms, m.InRange ∧ m.name = none) ∧
      (after original source calls).here = front.place front.length := by
  obtain ⟨ms, front, adds, plain, -⟩ := exists_adds_foldl (.start original source) calls
  exact ⟨ms, front, adds, plain, @Adds.here_eq_place _ _ _ [] front adds rfl⟩

/-- What was added is in the map, which can be read. -/
theorem Adds.exists_map {s : Splice} {ms : List Mapping} {out : Text}
    (adds : (start original source).Adds ms out s) (plain : ∀ m ∈ ms, m.InRange ∧ m.name = none)
    (changed : s.changed) :
    ∃ map built, s.map? = some map ∧ Decoded.ofJson map = .ok built ∧
      ∀ m ∈ ms, m ∈ built.mappings.toList := by
  have mappings : s.draft.mappings.toList = ms := adds.mappings
  have lines := Draft.lines_of_inRange fun m hm => (plain m (mappings ▸ hm)).1
  refine ⟨s.draft.toJson, s.draft.decoded, if_pos changed, Draft.ofJson_toJson lines, ?_⟩
  intro m hm
  refine Draft.mem_decoded.mpr ⟨m, mappings ▸ hm, ?_⟩
  -- Only a mapping with a name may be read otherwise than it was added.
  obtain ⟨g, origin, name⟩ := m
  obtain rfl : name = none := (plain _ hm).2
  cases origin <;> rfl

/-- **A replacement's own map is lifted.** Let any calls come before and after a replacement that has
a map. Only the mappings into the replaced span add a mapping, at the same place of the replacement.
If the span starts within the source, the replacement is not refused, and each of these mappings is
in the finished map, from where its place of the replacement stands in the rebuilt text to where its
place of the span stands in the source. -/
theorem replace_lifts (read : Decoded.ofJson raw = .ok d)
    (inRange : ∀ m ∈ d.mappings.toList, m.InRange) (original source text : Text)
    (earlier later : List Call) :
    ∃ front, (after original source earlier).code = .ok front ∧
      (∀ offset : Int, ∃ added,
        (after original source (earlier ++ [.replace text offset (some raw)])).draft.mappings.toList =
          (after original source earlier).draft.mappings.toList ++ added ∧
        added.map Mapping.generated <+: (d.mappings.toList.filter (isOwn source d)).map
          fun m => (front.place front.length).shift m.generated) ∧
      ∀ offset : Nat, offset ≤ original.length →
        ((after original source earlier).replace text offset (some raw)).2 = none ∧
        ∃ back map built,
          let final := after original source (earlier ++ .replace text offset (some raw) :: later)
          final.code = .ok (front ++ text ++ back) ∧ final.map? = some map ∧
          Decoded.ofJson map = .ok built ∧
          ∀ m ∈ d.mappings.toList, ∀ o ∈ m.origin, d.own? source = some o.source →
            ∀ i ≤ text.length, m.generated = text.place i →
              ∀ j, o.position = Text.place (original.drop offset) j →
                ⟨(front ++ text ++ back).place (front.length + i),
                  some ⟨source, original.place (offset + j)⟩, none⟩ ∈ built.mappings.toList := by
  obtain ⟨ms, front, adds, plain, here⟩ := exists_adds_after original source earlier
  have name : (after original source earlier).source = source := adds.name
  refine ⟨front, adds.code_eq rfl, fun offset => ?_, fun offset bound => ?_⟩
  · obtain ⟨added, mappings, own⟩ := exists_added read text offset (s := after original source earlier)
    rw [name, here] at own
    exact ⟨added, by rw [after_append]; exact mappings, own⟩
  · obtain ⟨s, lifts, done, addsLifts, changed, plainLifts, lift⟩ :=
      exists_adds_replace read inRange adds.index here bound text
    obtain ⟨ms', back, adds', plain', changed'⟩ := exists_adds_foldl s later
    have whole := (adds.trans addsLifts).trans adds'
    obtain ⟨map, built, hmap, readBuilt, kept⟩ := whole.exists_map
      (List.forall_mem_append.mpr ⟨List.forall_mem_append.mpr ⟨plain, plainLifts⟩, plain'⟩)
      (changed' changed)
    have final : after original source (earlier ++ .replace text offset (some raw) :: later) =
        later.foldl Call.apply s := by
      rw [after_append, List.foldl_cons, Call.apply, done]
    rw [final]
    refine ⟨congrArg Prod.snd done, back, map, built, whole.code_eq rfl, hmap, readBuilt, ?_⟩
    intro m hm o ho own i hi hg j hq
    have mem := lift m hm o ho (by rw [name]; exact own)
    rw [name, lifted_eq bound hi hg hq back] at mem
    exact kept _ (List.mem_append_left _ (List.mem_append_right _ mem))

/-- A map of one line: its first segment leads nowhere, the second into `b.js` and the third to the
second line of `a.js`. -/
def twoSources : Json :=
  .obj [("version", .int 3), ("sources", .arr [.str "b.js", .str "a.js"]),
    ("mappings", .str "A,CAAA,CCCA")]

theorem ofJson_twoSources :
    Decoded.ofJson twoSources = .ok ⟨.null, ["b.js", "a.js"], [], [],
      #[⟨⟨1, 0⟩, none, none⟩, ⟨⟨1, 1⟩, some ⟨"b.js", ⟨1, 0⟩⟩, none⟩,
        ⟨⟨1, 2⟩, some ⟨"a.js", ⟨2, 0⟩⟩, none⟩]⟩ := by
  have given : readMappings ["b.js", "a.js"] [] "A,CAAA,CCCA" = .ok [⟨⟨1, 0⟩, none, none⟩,
      ⟨⟨1, 1⟩, some ⟨"b.js", ⟨1, 0⟩⟩, none⟩, ⟨⟨1, 2⟩, some ⟨"a.js", ⟨2, 0⟩⟩, none⟩] :=
    readMappings_of_pairwise rfl (by decide)
  show (readMappings ["b.js", "a.js"] [] "A,CAAA,CCCA" >>= fun ms =>
    .ok (⟨.null, ["b.js", "a.js"], [], [], ms.toArray⟩ : Decoded)) = _
  rw [given]
  rfl

/-- The second copy is refused. The third character of the replacement is traced to the line behind
the one at which the replaced span starts. -/
theorem replace_twoSources : ∃ s map built,
    s = after "p\nqr\ns" "a.js" [.copy "p\n" 0, .copy "?" (-9), .replace "xyz" 2 (some twoSources),
      .copy "s" 5] ∧
    s.code = .ok "p\nxyzs" ∧ s.map? = some map ∧ Decoded.ofJson map = .ok built ∧
    ⟨⟨2, 2⟩, some ⟨"a.js", ⟨3, 0⟩⟩, none⟩ ∈ built.mappings.toList := by
  obtain ⟨front, rebuilt, -, lifts⟩ := replace_lifts ofJson_twoSources (by decide) "p\nqr\ns" "a.js"
    "xyz" [.copy "p\n" 0, .copy "?" (-9)] [.copy "s" 5]
  obtain rfl : Text.ofString "p\n" = front := Except.ok.inj rebuilt
  obtain ⟨-, back, map, built, code, hmap, read, mem⟩ := lifts 2 (by decide)
  have code' : (after "p\nqr\ns" "a.js" [.copy "p\n" 0, .copy "?" (-9),
      .replace "xyz" 2 (some twoSources), .copy "s" 5]).code = .ok "p\nxyzs" := by
    simp only [after, List.foldl_cons, List.foldl_nil, Call.apply, replace, ofJson_twoSources]
    rfl
  have whole : Text.ofString "p\nxyzs" = "p\n" ++ "xyz" ++ back :=
    Except.ok.inj (code'.symm.trans code)
  refine ⟨_, map, built, rfl, code', hmap, read, ?_⟩
  have found := mem ⟨⟨1, 2⟩, some ⟨"a.js", ⟨2, 0⟩⟩, none⟩ (by simp) _ rfl (by decide) 2 (by decide)
    (by decide) 3 (by decide)
  rwa [← whole] at found

end Splice

end Componentry.SourceMap
