import Componentry.Pipeline.Splicing
import Componentry.Proofs.Markup.Extraction
import Componentry.Proofs.SourceMap.Compose
import Componentry.Proofs.SourceMap.Token
import Componentry.Proofs.SourceMap.Tracking

/-!
# Positions of a document

The blocks of a document are replaced, and then the styles that have left it are stripped. Both
steps keep a map, and the two maps composed lead from the stripped markup back into the document. A
token of the document that was copied by both is found at its own place.
-/

namespace Componentry

open SourceMap Markup
open Change (Outside moved)

/-! ## Tokens -/

theorem tokenAt_of_mem {source : Text} {i : Nat} (h : i ∈ tokenOffsets source) : TokenAt source i := by
  obtain ⟨p, c, hp, hc, starts⟩ := mem_tokenOffsets.mp h
  refine ⟨c, hc, ?_⟩
  rw [startsToken] at starts
  by_cases word : SourceMap.isWordChar c
  · rw [if_pos word] at starts ⊢
    intro p' positive hp'
    obtain ⟨j, rfl⟩ : ∃ j, i = j + 1 := ⟨i - 1, by omega⟩
    rw [List.getElem?_cons_succ] at hp
    rw [Nat.add_sub_cancel, hp] at hp'
    obtain rfl := Option.some.inj hp'
    simpa using starts
  · rw [if_neg word] at starts ⊢
    simpa using starts

/-- A token that was copied is a token of the rebuilt text, if no change ends before it except where
it is no word. -/
theorem tokenAt_moved {source out : Text} {changes : List Change} {offset i : Nat}
    (rebuilt : Change.Rebuilt source changes offset out) (hi : i < offset) (hout : Outside changes i)
    (ends : ∀ c ∈ changes, c.stop = i → ∀ x, source[i]? = some x → ¬ SourceMap.isWordChar x)
    (token : TokenAt source i) : TokenAt out (moved changes i) := by
  obtain ⟨c, hc, htoken⟩ := token
  obtain ⟨bound, same⟩ := rebuilt.copied i hi hout
  refine ⟨c, same.trans hc, ?_⟩
  by_cases word : SourceMap.isWordChar c
  · rw [if_pos word] at htoken ⊢
    have noEnd : ∀ c ∈ changes, c.stop ≠ i := fun d hd stop => ends d hd stop c hc word
    intro p positive hp
    cases i with
    | zero =>
      have none : (changes.filter fun c => c.stop ≤ 0) = [] := by
        refine List.filter_eq_nil_iff.mpr fun d hd => ?_
        have := noEnd d hd
        simpa using this
      simp only [moved, none, List.map_nil, List.sum_nil] at positive
      omega
    | succ i =>
      obtain ⟨hout', next⟩ := hout.pred noEnd
      have next := next (rebuilt.mono i (i + 1) (Nat.lt_succ_self i) hi hout' hout)
      rw [next, Nat.add_sub_cancel, (rebuilt.copied i (Nat.lt_of_succ_lt hi) hout').2] at hp
      exact htoken p (Nat.succ_pos i) hp
  · rw [if_neg word] at htoken ⊢
    exact htoken

/-! ## Replaced blocks -/

/-- A block's result is a text, with a map that fits it or none. -/
def Processed.Fits (filename : Text) (r : Processed) : Prop :=
  ∃ code, r.code = .str code ∧ MapFits filename code r.map

/-- The change that a block's result makes, if it is not the block's own text. -/
def replacement? (p : Block × Processed) : Option Change :=
  match p.2.code with
  | .str code => if code = p.1.content then none else some ⟨p.1.start, p.1.stop, some code⟩
  | _ => none

/-- The contents that are replaced when these are the results of a document's blocks. -/
def replacements (source : Text) (results : List Processed) : List Change :=
  ((blocks source).zip results).filterMap replacement?

section Splice

variable {filename source out : Text} {changes : List Change} {offset : Nat} {s : Splice}

/-- **One block**: the text before it is copied, and its content is copied or replaced. -/
theorem placeBlock_tracks (h : Tracks filename source changes offset out s) {b : Block} {r : Processed}
    (hb : b ∈ blocks source) (hs : offset ≤ b.start) (fits : r.Fits filename) :
    ∃ s₁, s.copy (Text.slice source offset b.start) offset = (s₁, none) ∧
      (MapInRange r.map → ∃ s', placeBlock b r s₁ = (s', none)) ∧
      ∀ s', placeBlock b r s₁ = (s', none) →
        ∃ out', Tracks filename source (changes ++ (replacement? (b, r)).toList) b.stop out' s' := by
  obtain ⟨le, bound, content, -, -, -⟩ := standsIn_of_mem_blocks hb
  obtain ⟨code, hcode, hmap⟩ := fits
  obtain ⟨s₁, copied, h₁⟩ := h.copy hs (Nat.le_trans le bound)
  refine ⟨s₁, copied, ?_⟩
  by_cases own : code = b.content
  · obtain ⟨s₂, copied₂, h₂⟩ := h₁.copy le bound
    have placed : placeBlock b r s₁ = (s₂, none) := by
      rw [placeBlock, hcode, Json.asText?, if_pos (congrArg some own), ← copied₂, content]
    have same : replacement? (b, r) = none := by simp [replacement?, hcode, own]
    rw [placed, same]
    refine ⟨fun _ => ⟨s₂, rfl⟩, ?_⟩
    rintro s' ⟨⟩
    exact ⟨_, by simpa using h₂⟩
  · have placed : placeBlock b r s₁ = s₁.replace code b.start r.map := by
      rw [placeBlock, hcode, Json.asText?, if_neg fun h => own (Option.some.inj h), Splice.replaceBy]
    have change : replacement? (b, r) = some ⟨b.start, b.stop, some code⟩ := by
      simp [replacement?, hcode, own]
    rw [placed, change]
    exact ⟨h₁.exists_replace hmap, fun s' done => ⟨_, h₁.replace le bound hmap done⟩⟩

/-- **All blocks**, by the list of them. -/
theorem spliceFrom_tracks {pairs : List (Block × Processed)}
    (h : Tracks filename source changes offset out s) (hb : ∀ p ∈ pairs, p.1 ∈ blocks source)
    (hs : ∀ p ∈ pairs, offset ≤ p.1.start)
    (ordered : pairs.Pairwise fun p p' => p.1.stop ≤ p'.1.start)
    (fits : ∀ p ∈ pairs, p.2.Fits filename) :
    ((∀ p ∈ pairs, MapInRange p.2.map) → ∃ s', spliceFrom source offset pairs s =
      .ok (s', pairs.flatMap fun p => p.2.dependencies)) ∧
    ∀ s' dependencies, spliceFrom source offset pairs s = .ok (s', dependencies) →
      ∃ out', Tracks filename source (changes ++ pairs.filterMap replacement?) source.length out' s' := by
  induction pairs generalizing changes offset out s with
  | nil =>
    obtain ⟨s', copied, h'⟩ := h.copy h.bound (Nat.le_refl _)
    have whole : Text.slice source offset source.length = source.drop offset := by
      simp [Text.slice, List.take_of_length_le]
    rw [whole] at copied h'
    simp only [spliceFrom, copied]
    refine ⟨fun _ => ⟨s', rfl⟩, ?_⟩
    rintro _ _ ⟨⟩
    exact ⟨_, by simpa using h'⟩
  | cons p pairs ih =>
    obtain ⟨b, r⟩ := p
    obtain ⟨s₁, copied, placed, tracked⟩ := placeBlock_tracks h (hb _ (List.mem_cons_self ..))
      (hs _ (List.mem_cons_self ..)) (fits _ (List.mem_cons_self ..))
    obtain ⟨behind, ordered⟩ := List.pairwise_cons.mp ordered
    have rest : ∀ {s₂}, placeBlock b r s₁ = (s₂, none) → _ := fun {s₂} done =>
      ih (tracked s₂ done).choose_spec (fun p hp => hb p (List.mem_cons_of_mem _ hp)) behind ordered
        fun p hp => fits p (List.mem_cons_of_mem _ hp)
    constructor
    · intro range
      obtain ⟨s₂, done⟩ := placed (range _ (List.mem_cons_self ..))
      obtain ⟨s', finished⟩ := (rest done).1 fun p hp => range p (List.mem_cons_of_mem _ hp)
      refine ⟨s', ?_⟩
      simp [spliceFrom, copied, done, finished, bind, Except.bind, pure, Except.pure]
    · intro s' dependencies finished
      simp only [spliceFrom, copied] at finished
      cases done : placeBlock b r s₁ with
      | mk s₂ failed =>
        cases failed with
        | some e => simp [done] at finished
        | none =>
          simp only [done] at finished
          cases hrest : spliceFrom source b.stop pairs s₂ with
          | error e => simp [hrest, bind, Except.bind] at finished
          | ok result =>
            obtain ⟨s₃, others⟩ := result
            simp only [hrest, bind, Except.bind, pure, Except.pure, Except.ok.injEq,
              Prod.mk.injEq] at finished
            obtain ⟨out', tracks⟩ := (rest done).2 s₃ others hrest
            refine ⟨out', finished.1 ▸ ?_⟩
            rw [List.filterMap_cons]
            cases hr : replacement? (b, r) <;> simpa [hr] using tracks

/-! ## Stripped styles -/

/-- The spans of extracted styles, which are taken out of a markup. -/
def removals (markup : Text) : List Change :=
  (Text.scan extracted? markup).map fun f => ⟨f.start, f.stop, none⟩

/-- **All spans**, by the list of them. -/
theorem stripSpans_tracks {founds : List (Text.Found Unit)}
    (h : Tracks filename source changes offset out s)
    (hs : ∀ f ∈ founds, offset ≤ f.start ∧ f.stop ≤ source.length)
    (ordered : founds.Pairwise fun f f' => f.stop ≤ f'.start) :
    ∃ s' out', stripSpans source offset founds s = (s', none) ∧
      Tracks filename source (changes ++ founds.map fun f => ⟨f.start, f.stop, none⟩) source.length
        out' s' := by
  induction founds generalizing changes offset out s with
  | nil =>
    obtain ⟨s', copied, h'⟩ := h.copy h.bound (Nat.le_refl _)
    have whole : Text.slice source offset source.length = source.drop offset := by
      simp [Text.slice, List.take_of_length_le]
    rw [whole] at copied h'
    exact ⟨s', _, copied, by simpa using h'⟩
  | cons f founds ih =>
    obtain ⟨behind, ordered⟩ := List.pairwise_cons.mp ordered
    obtain ⟨before, bound⟩ := hs f (List.mem_cons_self ..)
    have le : f.start ≤ f.stop := Nat.le_add_right ..
    obtain ⟨s₁, copied, h₁⟩ := h.copy before (Nat.le_trans le bound)
    have dropped := h₁.drop le bound
    obtain ⟨s', out', done, tracks⟩ := ih dropped
      (fun g hg => ⟨behind g hg, (hs g (List.mem_cons_of_mem _ hg)).2⟩) ordered
    refine ⟨s', out', ?_, by simpa using tracks⟩
    rw [stripSpans, copied]
    exact done

/-- Stripping never fails, and tracks what it takes out. -/
theorem stripMapped_tracks (markup filename : Text) :
    ∃ s stripped, stripMapped markup filename = .ok (stripped, s.map?) ∧
      Tracks filename markup (removals markup) markup.length stripped s := by
  have bound : ∀ f ∈ Text.scan extracted? markup, 0 ≤ f.start ∧ f.stop ≤ markup.length := by
    intro f hf
    obtain ⟨start, found⟩ := Text.mem_scan hf
    have := local_extracted?.le_length found
    rw [List.length_drop] at this
    rw [Text.Found.stop]
    omega
  obtain ⟨s, stripped, done, tracks⟩ := stripSpans_tracks (Tracks.start markup filename) bound
    (Text.pairwise_scan markup)
  refine ⟨s, stripped, ?_, by simpa [removals] using tracks⟩
  simp [stripMapped, done, tracks.code_eq, bind, Except.bind, pure, Except.pure]

end Splice

/-! ## Two maps in a row -/

section Composed

variable {filename source mid out : Text} {changes removed : List Change} {first second : Splice}

theorem SourceMap.Tracks.inRange {s : Splice} {offset : Nat}
    (h : Tracks filename source changes offset out s) : ∀ m ∈ s.draft.mappings.toList, m.InRange := by
  intro m hm
  obtain ⟨g, q, rfl, hg, hq, -⟩ := h.leads m hm
  exact ⟨hg, by rintro o ⟨⟩; exact hq⟩

theorem SourceMap.Tracks.eq_copyMapping {s : Splice} {offset i : Nat}
    (h : Tracks filename source changes offset out s) (only : ∀ c ∈ changes, c.text = none)
    (hi : i < offset) (hout : Outside changes i) {m : Mapping} (hm : m ∈ s.draft.mappings.toList)
    (at_ : m.generated = out.place (moved changes i)) : m = copyMapping filename source out changes i := by
  obtain ⟨g, q, rfl, -, -, -, ⟨j, hj, hj', heq⟩ | ⟨⟨c, hc, htext⟩, -⟩⟩ := h.leads m hm
  · rw [heq] at at_ ⊢
    rw [h.copy_inj hj hi hj' hout at_]
  · exact absurd (only c hc) htext

/-- **Two splices**: the second takes spans out of what the first has rebuilt. A token that both copy
is looked up in the composed map as its own place in the source. -/
theorem compose_tracks (h : Tracks filename source changes source.length mid first)
    (h' : Tracks filename mid removed mid.length out second) (only : ∀ c ∈ removed, c.text = none) :
    ∃ composed, compose second.map? first.map? = .ok composed ∧
      (composed = none ↔ changes = [] ∧ removed = []) ∧
      ∀ raw ∈ composed, ∃ d, Decoded.ofJson raw = .ok d ∧
        ∀ i < source.length, Outside changes i → TokenAt source i →
          TokenAt mid (moved changes i) → Outside removed (moved changes i) →
            d.locate (out.place (moved removed (moved changes i))) =
              .ok (some (⟨filename, source.place i⟩, none)) := by
  rw [h.map?_eq, h'.map?_eq]
  by_cases hc : changes = [] <;> by_cases hr : removed = []
  · exact ⟨none, by simp [hc, hr, compose, pure, Except.pure], by simp [hc, hr], by simp⟩
  · -- Nothing was replaced: the second map alone is left.
    subst hc
    have same : mid = source := by simpa using h.toRebuilt.eq_take
    subst same
    refine ⟨some second.draft.toJson, ?_, by simp [hr], ?_⟩
    · simp [hr, compose, Draft.load_toJson, bind, Except.bind, pure, Except.pure]
      rfl
    · rintro raw ⟨⟩
      exact ⟨_, Draft.ofJson_toJson h'.lines, fun i hi _ token _ hout => h'.locate hi hout token⟩
  · -- Nothing was taken out: the first map alone is left.
    subst hr
    have same : out = mid := by simpa using h'.toRebuilt.eq_take
    subst same
    refine ⟨some first.draft.toJson, ?_, by simp [hc], ?_⟩
    · simp [hc, compose, Draft.load_toJson, bind, Except.bind, pure, Except.pure]
      rfl
    · rintro raw ⟨⟩
      exact ⟨_, Draft.ofJson_toJson h.lines, fun i hi hout token _ _ => h.locate hi hout token⟩
  · obtain ⟨d, composed, mappings⟩ := Draft.compose_toJson h'.inRange h.inRange
    refine ⟨some d.toJson, by simpa [hc, hr] using composed, by simp [hc], ?_⟩
    rintro raw ⟨⟩
    have lines : ∀ m ∈ d.mappings.toList, 1 ≤ m.generated.line := by
      intro m hm
      rw [mappings] at hm
      obtain ⟨m', hm', led⟩ := List.mem_filterMap.mp hm
      rw [Mapping.generated_of_led led]
      have := (Draft.inRange_decoded h'.inRange m' hm').1
      exact of_decide_eq_true (Bool.and_eq_true_iff.mp this).1
    refine ⟨_, Draft.ofJson_toJson lines, fun i hi hout token token' hout' => ?_⟩
    have hj := (h.copied i hi hout).1
    have answer := h.locate hi hout token
    have led : (copyMapping filename mid out removed (moved changes i)).led first.draft.decoded =
        some ⟨out.place (moved removed (moved changes i)), some ⟨filename, source.place i⟩, none⟩ := by
      simp [Mapping.led, copyMapping, answer]
    have mem : ⟨out.place (moved removed (moved changes i)), some ⟨filename, source.place i⟩, none⟩ ∈
        d.mappings.toList := by
      rw [mappings]
      exact List.mem_filterMap.mpr
        ⟨_, Draft.mem_decoded.mpr ⟨_, h'.anchored _ hj hout' token', rfl⟩, led⟩
    refine Draft.locate_decoded mem (Text.valid_place ..) fun m hm at_ => .inl ?_
    -- No other mapping of the second map stands where this one does.
    rw [mappings] at hm
    obtain ⟨x, hx, hled⟩ := List.mem_filterMap.mp hm
    obtain ⟨y, hy, rfl⟩ := Draft.mem_decoded.mp hx
    have own := h'.eq_copyMapping only hj hout' hy ((Mapping.generated_of_led hled).symm.trans at_)
    rw [own] at hled
    exact (Option.some.inj (led.symm.trans hled)).symm

end Composed

/-! ## Preprocessing and stripping -/

theorem map_fst_set (key value : Json) (acc : Json.Entries) :
    (Json.Entries.set key value acc).map Prod.fst =
      if (acc.map Prod.fst).any (Json.sameKey · key) then acc.map Prod.fst
      else acc.map Prod.fst ++ [key] := by
  induction acc with
  | nil => rfl
  | cons entry acc ih =>
    obtain ⟨k, v⟩ := entry
    by_cases same : Json.sameKey k key
    · simp [Json.Entries.set, same]
    · rw [Json.Entries.set, if_neg same, List.map_cons, ih, List.map_cons, List.any_cons]
      cases (acc.map Prod.fst).any (Json.sameKey · key) <;> simp [same]

/-- Every key is kept where it is first used. -/
theorem distinctKeys_eq {keys : List Json} (h : ∀ k ∈ keys, k.isKey) (acc : Json.Entries) :
    Json.distinctKeys acc keys = .ok (List.eraseDupsBy.loop (fun k earlier => Json.sameKey earlier k)
      keys (acc.map Prod.fst).reverse) := by
  induction keys generalizing acc with
  | nil => simp [Json.distinctKeys, List.eraseDupsBy.loop]
  | cons k keys ih =>
    rw [Json.distinctKeys, if_pos (h k (List.mem_cons_self ..)),
      ih (fun k hk => h k (List.mem_cons_of_mem _ hk)), map_fst_set, List.eraseDupsBy.loop,
      List.any_reverse]
    cases (acc.map Prod.fst).any (Json.sameKey · k) <;> simp

theorem pairwise_zip {α β : Type} {R : α → α → Prop} {xs : List α} (h : xs.Pairwise R) (ys : List β) :
    (xs.zip ys).Pairwise fun p p' => R p.1 p'.1 := by
  induction xs generalizing ys with
  | nil => simp
  | cons x xs ih =>
    cases ys with
    | nil => simp
    | cons y ys =>
      obtain ⟨first, rest⟩ := List.pairwise_cons.mp h
      exact List.pairwise_cons.mpr ⟨fun p hp => first p.1 (List.of_mem_zip hp).1, ih rest ys⟩

/-- The document is rebuilt from its blocks' results. -/
theorem spliceBlocks_tracks {source filename : Text} {results : List Processed}
    (fits : ∀ r ∈ results, r.Fits filename) :
    ((∀ r ∈ results, MapInRange r.map ∧ ∀ d ∈ r.dependencies, d.isKey) →
      ∃ spliced, spliceBlocks source filename (blocks source) results = .ok spliced) ∧
    ∀ spliced, spliceBlocks source filename (blocks source) results = .ok spliced →
      ∃ s, Tracks filename source (replacements source results) source.length spliced.code s ∧
        spliced.map = s.map? := by
  have member : ∀ p ∈ (blocks source).zip results, p.1 ∈ blocks source ∧ p.2 ∈ results :=
    fun p hp => List.of_mem_zip hp
  obtain ⟨total, tracked⟩ := spliceFrom_tracks (Tracks.start source filename)
    (fun p hp => (member p hp).1) (fun p _ => Nat.zero_le _)
    (pairwise_zip ((pairwise_blocks source).imp Nat.le_of_lt) results) (fun p hp => fits p.2 (member p hp).2)
  constructor
  · intro range
    obtain ⟨s, done⟩ := total fun p hp => (range p.2 (member p hp).2).1
    obtain ⟨out, tracks⟩ := tracked s _ done
    obtain ⟨distinct, keys⟩ : ∃ distinct, Json.distinctKeys []
        (((blocks source).zip results).flatMap fun p => p.2.dependencies) = .ok distinct := by
      refine ⟨_, distinctKeys_eq (fun k hk => ?_) []⟩
      obtain ⟨p, hp, hk⟩ := List.mem_flatMap.mp hk
      exact (range p.2 (member p hp).2).2 k hk
    simp only [spliceBlocks, done, tracks.code_eq, keys, Except.mapError, bind, Except.bind, pure,
      Except.pure]
    exact ⟨_, rfl⟩
  · intro spliced finished
    rw [spliceBlocks] at finished
    cases done : spliceFrom source 0 ((blocks source).zip results) (.start source filename) with
    | error e => simp [done, bind, Except.bind] at finished
    | ok result =>
      obtain ⟨s, dependencies⟩ := result
      obtain ⟨out, tracks⟩ := tracked s dependencies done
      simp only [done, tracks.code_eq, bind, Except.bind, pure, Except.pure] at finished
      cases keys : Json.distinctKeys [] dependencies with
      | error e => simp [keys, Except.mapError] at finished
      | ok distinct =>
        simp only [keys, Except.mapError, Except.ok.injEq] at finished
        subst finished
        exact ⟨s, tracks, rfl⟩

/-- A character that follows a replaced content begins the closing tag. -/
theorem not_word_of_replacement {source : Text} {results : List Processed} {c : Change}
    (hc : c ∈ replacements source results) {x : CodePoint} (hx : source[c.stop]? = some x) :
    ¬ SourceMap.isWordChar x := by
  obtain ⟨⟨b, r⟩, hp, hchange⟩ := List.mem_filterMap.mp hc
  have closed := (standsIn_of_mem_blocks (List.of_mem_zip hp).1).closed
  have stop : c.stop = b.stop := by
    simp only [replacement?] at hchange
    split at hchange
    · split at hchange
      · cases hchange
      · obtain rfl := Option.some.inj hchange
        rfl
    · cases hchange
  obtain ⟨rest, closing⟩ : ∃ rest, b.kind.closing = .char '<' :: rest := ⟨_, rfl⟩
  obtain ⟨after, behind⟩ := closed
  rw [stop, ← List.head?_drop, ← behind, closing] at hx
  obtain rfl := Option.some.inj hx
  decide

/-- **Positions survive preprocessing and stripping.** The blocks of a document are replaced by their
results, and extracted styles are stripped from that. Composing the maps of both steps succeeds. A
token of the document that is in no replaced content and no stripped style has a copy in the stripped
markup, and looking the copy up gives the token's own line and column in the document. -/
theorem locate_spliced_stripped {source filename : Text} {results : List Processed}
    (fits : ∀ r ∈ results, r.Fits filename) :
    ((∀ r ∈ results, MapInRange r.map ∧ ∀ d ∈ r.dependencies, d.isKey) →
      ∃ spliced, spliceBlocks source filename (blocks source) results = .ok spliced) ∧
    ∀ spliced, spliceBlocks source filename (blocks source) results = .ok spliced →
      ∃ stripped map composed, stripMapped spliced.code filename = .ok (stripped, map) ∧
        compose map spliced.map = .ok composed ∧
        (map = none → spliced.map = none → stripped = source) ∧
        (composed = none → map = none ∧ spliced.map = none) ∧
        ∀ raw ∈ composed, ∃ d, Decoded.ofJson raw = .ok d ∧
          ∀ i ∈ tokenOffsets source, Outside (replacements source results) i →
            let j := moved (replacements source results) i
            Outside (removals spliced.code) j →
              let k := moved (removals spliced.code) j
              stripped[k]? = source[i]? ∧
                d.locate (stripped.place k) = .ok (some (⟨filename, source.place i⟩, none)) := by
  refine ⟨(spliceBlocks_tracks fits).1, fun spliced done => ?_⟩
  obtain ⟨first, h, hmap⟩ := (spliceBlocks_tracks fits).2 spliced done
  obtain ⟨second, stripped, strippedDone, h'⟩ := stripMapped_tracks spliced.code filename
  have only : ∀ c ∈ removals spliced.code, c.text = none := by
    intro c hc
    obtain ⟨f, -, rfl⟩ := List.mem_map.mp hc
    rfl
  obtain ⟨composed, hcomposed, hnone, found⟩ := compose_tracks h h' only
  rw [← hmap] at hcomposed
  refine ⟨stripped, second.map?, composed, strippedDone, hcomposed, ?_, ?_, ?_⟩
  · intro noMap noMap'
    rw [h'.map?_eq, ite_eq_left_iff] at noMap
    rw [hmap, h.map?_eq, ite_eq_left_iff] at noMap'
    have second := h'.toRebuilt
    have first := h.toRebuilt
    rw [show removals spliced.code = [] by simpa using noMap] at second
    rw [show replacements source results = [] by simpa using noMap'] at first
    rw [second.eq_take, List.take_length, first.eq_take, List.take_length]
  · intro noMap
    obtain ⟨noChange, noRemoval⟩ := hnone.mp noMap
    rw [hmap, h.map?_eq, h'.map?_eq, if_pos noChange, if_pos noRemoval]
    exact ⟨rfl, rfl⟩
  · intro raw hraw
    obtain ⟨d, hd, locate⟩ := found raw hraw
    refine ⟨d, hd, fun i hi hout hout' => ?_⟩
    have token := tokenAt_of_mem hi
    have bound : i < source.length := by
      obtain ⟨c, hc, -⟩ := token
      exact (List.getElem?_eq_some_iff.mp hc).1
    have token' := tokenAt_moved h.toRebuilt bound hout
      (fun c hc stop x hx => not_word_of_replacement hc (stop ▸ hx)) token
    obtain ⟨hj, copied⟩ := h.copied i bound hout
    exact ⟨(h'.copied _ hj hout').2.trans copied, locate i bound hout token token' hout'⟩

/-- A global style with a token on either side. -/
def globalStyle : Text := "x<style global>b</style>y"

/-- The style is replaced by the placeholder and then taken out, and the token behind it is found where
it was. -/
theorem locate_globalStyle : ∃ spliced stripped map composed d,
    spliceBlocks globalStyle "a" (blocks globalStyle) [{ code := .str placeholder }] = .ok spliced ∧
      stripMapped spliced.code "a" = .ok (stripped, map) ∧
      compose map spliced.map = .ok (some composed) ∧ Decoded.ofJson composed = .ok d ∧
      d.locate ⟨1, 1⟩ = .ok (some (⟨"a", ⟨1, 24⟩⟩, none)) := by
  have fits : ∀ r ∈ [({ code := .str placeholder } : Processed)], r.Fits "a" := by
    intro r hr
    obtain rfl := List.mem_singleton.mp hr
    exact ⟨_, rfl, by simp [MapFits]⟩
  obtain ⟨total, found⟩ := @locate_spliced_stripped globalStyle _ _ fits
  obtain ⟨spliced, done⟩ := total (by simp [MapInRange])
  obtain ⟨stripped, map, composed, hstripped, hcomposed, -, hnone, hfound⟩ := found spliced done
  have rebuilt : (spliceBlocks globalStyle "a" (blocks globalStyle) [{ code := .str placeholder }]).map
      (fun r => (r.code, r.map.isSome)) =
        .ok ("x<style global>" ++ placeholder ++ "</style>y", true) := by rfl
  obtain ⟨code, hmap⟩ := Prod.mk.inj (Except.ok.inj ((congrArg _ done).symm.trans rebuilt))
  have spans : replacements globalStyle [{ code := .str placeholder }] =
      [⟨15, 16, some placeholder⟩] := by rfl
  have removed : removals spliced.code = [⟨1, 57, none⟩] := by
    rw [code]
    rfl
  have out : (stripMapped spliced.code "a").map Prod.fst = .ok "xy" := by
    rw [code]
    rfl
  rw [hstripped] at out
  obtain rfl := Except.ok.inj out
  cases composed with
  | none => simp [(hnone rfl).2] at hmap
  | some raw =>
    obtain ⟨d, hd, locate⟩ := hfound raw rfl
    refine ⟨spliced, _, map, raw, d, done, hstripped, hcomposed, hd, ?_⟩
    rw [spans, removed] at locate
    exact (locate 24 (by decide) (by decide) (by decide)).2

end Componentry
