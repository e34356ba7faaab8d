import Componentry.Proofs.Markup.Filling
import Componentry.Proofs.Pipeline.Positions
import Componentry.Proofs.SourceMap.Lifting
import Componentry.Proofs.SourceMap.Spans

/-!
# Documents with processed blocks

The results of a document's blocks are put in the places of the blocks' contents, and nothing else of
the document changes. If no closing tag starts in a result and no comment ends in it, the document
still has the same blocks.
-/

namespace Componentry

open SourceMap Markup

/-- The text that a block has become. -/
def Processed.text (r : Processed) : Text := r.code.asText?.getD []

/-- A block's result: its code is a text, its map, if it has one, can be read and is in range, and
the files that it depends on can be told apart. -/
structure Processed.Proper (r : Processed) : Prop where
  code : r.code = .str r.text
  map : ∀ raw ∈ r.map, ∃ d, Decoded.ofJson raw = .ok d ∧ ∀ m ∈ d.mappings.toList, m.InRange
  dependencies : ∀ k ∈ r.dependencies, k.isKey

section Splice

variable {source before : Text} {offset : Nat} {s : Splice}

theorem exists_copy (index : s.index = .ofText source) (here : s.here = before.place before.length)
    (start stop : Nat) :
    ∃ s' ms, s.copy (Text.slice source start stop) start = (s', none) ∧
      s.Adds ms (Text.slice source start stop) s' ∧ s'.changed = s.changed := by
  obtain ⟨s', ms, copied, adds, -⟩ :=
    @Splice.Span.exists_apply source before s index here (.copied start stop) trivial
  have same := Splice.changed_place s
    (s.copyMappings s.here start (Text.splitOn '\n' (Text.slice source start stop)))
    (Text.slice source start stop)
  exact ⟨s', ms, copied, adds, by rw [← same]; exact congrArg (·.1.changed) copied.symm⟩

/-- **One block**: its result is added, and a change is noted unless it is the block's own text. -/
theorem exists_placeBlock {b : Block} {r : Processed} (index : s.index = .ofText source)
    (here : s.here = before.place before.length) (stands : b.StandsIn source) (proper : r.Proper) :
    ∃ s' ms, placeBlock b r s = (s', none) ∧ s.Adds ms r.text s' ∧
      (s'.changed ↔ s.changed ∨ r.text ≠ b.content) := by
  by_cases own : r.text = b.content
  · obtain ⟨s', ms, copied, adds, same⟩ := exists_copy index here b.start b.stop
    rw [stands.content, ← own] at adds
    refine ⟨s', ms, ?_, adds, by simp [same, own]⟩
    rw [placeBlock, proper.code, Json.asText?, if_pos (congrArg some own), ← copied, stands.content]
  · have placed : placeBlock b r s = s.replace r.text b.start r.map := by
      rw [placeBlock, proper.code, Json.asText?, if_neg fun h => own (Option.some.inj h),
        Splice.replaceBy]
    have bound : b.start ≤ source.length := Nat.le_trans stands.le stands.bound
    obtain ⟨s', ms, replaced, adds⟩ : ∃ s' ms, s.replace r.text b.start r.map = (s', none) ∧
        s.Adds ms r.text s' := by
      cases hmap : r.map with
      | none =>
        obtain ⟨s', ms, replaced, adds, -⟩ :=
          @Splice.Span.exists_apply source before s index here (.replaced r.text b.start) bound
        exact ⟨s', ms, replaced, adds⟩
      | some raw =>
        obtain ⟨d, read, inRange⟩ := proper.map raw hmap
        obtain ⟨s', ms, replaced, adds, -⟩ :=
          Splice.exists_adds_replace read inRange index here bound r.text
        exact ⟨s', ms, replaced, adds⟩
    have changed : s'.changed = true := by
      rw [← Splice.changed_replace s r.text b.start r.map, replaced]
    exact ⟨s', ms, placed.trans replaced, adds, by simp [changed, own]⟩

/-- Putting a text in a block's place goes on from what is put behind the block. -/
theorem putAll_cons {b : Block} {text out : Text} {pairs : List (Block × Text)}
    (stands : b.StandsIn source) (behind : offset ≤ b.start)
    (rest : putAll source pairs = source.take b.stop ++ out) :
    putAll source ((b, text) :: pairs) =
      source.take offset ++ (Text.slice source offset b.start ++ text ++ out) := by
  have upto : source.take b.start = source.take offset ++ Text.slice source offset b.start := by
    rw [Text.slice, ← List.take_add, Nat.add_sub_cancel' behind]
  have length : (source.take b.stop).length = b.stop := List.length_take_of_le stands.bound
  show b.put (putAll source pairs) text = _
  rw [rest, Block.put, List.drop_left' length,
    List.take_append_of_le_length (by rw [length]; exact stands.le), List.take_take,
    Nat.min_eq_left stands.le, upto]
  simp only [List.append_assoc]

/-- **All blocks**, by the list of them. -/
theorem exists_spliceFrom {pairs : List (Block × Processed)} (index : s.index = .ofText source)
    (here : s.here = before.place before.length) (bound : offset ≤ source.length)
    (stands : ∀ p ∈ pairs, p.1.StandsIn source) (behind : ∀ p ∈ pairs, offset ≤ p.1.start)
    (ordered : pairs.Pairwise fun p p' => p.1.stop ≤ p'.1.start)
    (proper : ∀ p ∈ pairs, p.2.Proper) :
    ∃ s' ms out, spliceFrom source offset pairs s =
        .ok (s', pairs.flatMap fun p => p.2.dependencies) ∧
      s.Adds ms out s' ∧
      putAll source (pairs.map (Prod.map id Processed.text)) = source.take offset ++ out ∧
      (s'.changed ↔ s.changed ∨ ∃ p ∈ pairs, p.2.text ≠ p.1.content) := by
  induction pairs generalizing offset before s with
  | nil =>
    obtain ⟨s', ms, copied, adds, same⟩ := exists_copy index here offset source.length
    have whole : Text.slice source offset source.length = source.drop offset := by
      simp [Text.slice, List.take_of_length_le]
    rw [whole] at copied adds
    refine ⟨s', ms, source.drop offset, ?_, adds, (List.take_append_drop ..).symm, by simp [same]⟩
    rw [spliceFrom, copied]
    rfl
  | cons p pairs ih =>
    obtain ⟨b, r⟩ := p
    obtain ⟨later, ordered⟩ := List.pairwise_cons.mp ordered
    have hb := stands _ (List.mem_cons_self ..)
    obtain ⟨s₁, ms₁, copied, adds₁, same⟩ := exists_copy index here offset b.start
    obtain ⟨s₂, ms₂, placed, adds₂, changed₂⟩ := exists_placeBlock (adds₁.index.trans index)
      (adds₁.here_eq_place here) hb (proper _ (List.mem_cons_self ..))
    obtain ⟨s₃, ms₃, out, finished, adds₃, rest, changed₃⟩ :=
      ih (adds₂.index.trans (adds₁.index.trans index))
        (adds₂.here_eq_place (adds₁.here_eq_place here)) hb.bound
        (fun p hp => stands p (List.mem_cons_of_mem _ hp)) later ordered
        (fun p hp => proper p (List.mem_cons_of_mem _ hp))
    refine ⟨s₃, _, _, ?_, (adds₁.trans adds₂).trans adds₃, ?_, ?_⟩
    · simp [spliceFrom, copied, placed, finished, bind, Except.bind, pure, Except.pure]
    · exact putAll_cons hb (behind _ (List.mem_cons_self ..)) rest
    · rw [changed₃, changed₂, same]
      simp [or_assoc]

theorem parts_of_placeBlock {b : Block} {r : Processed} {s' : Splice}
    (h : placeBlock b r s = (s', none)) : s'.parts = s.parts ++ [r.code] := by
  rw [placeBlock] at h
  split at h
  · rename_i own
    have same : r.code = .str b.content := by
      cases hcode : r.code <;> simp [hcode, Json.asText?] at own
      rw [own]
    have added := Splice.parts_of_place h
    rw [same, added]
  · exact Splice.parts_of_replaceBy h

/-- What is added when blocks are put in their places. If these are texts, they are the document from
`offset` on, with the results in the places of the blocks' contents. -/
theorem parts_of_spliceFrom {pairs : List (Block × Processed)} {s' : Splice}
    {dependencies : List Json} (stands : ∀ p ∈ pairs, p.1.StandsIn source)
    (behind : ∀ p ∈ pairs, offset ≤ p.1.start)
    (ordered : pairs.Pairwise fun p p' => p.1.stop ≤ p'.1.start)
    (done : spliceFrom source offset pairs s = .ok (s', dependencies)) :
    ∃ more, s'.parts = s.parts ++ more ∧ ∀ texts : List Text, more = texts.map .str →
      putAll source (pairs.map (Prod.map id Processed.text)) = source.take offset ++ texts.flatten := by
  induction pairs generalizing offset s dependencies with
  | nil =>
    rw [spliceFrom] at done
    split at done
    · rename_i s₁ copied
      obtain ⟨rfl, -⟩ := Prod.mk.inj (Except.ok.inj done)
      refine ⟨_, Splice.parts_of_place copied, fun texts eq => ?_⟩
      have flat : texts = [source.drop offset] := by
        refine List.map_injective_iff.mpr (fun _ _ => Json.str.inj) ?_
        rw [← eq]
        rfl
      rw [flat, List.flatten_singleton, List.take_append_drop]
      rfl
    · cases done
  | cons p pairs ih =>
    obtain ⟨b, r⟩ := p
    obtain ⟨later, ordered⟩ := List.pairwise_cons.mp ordered
    rw [spliceFrom] at done
    split at done
    · cases done
    · rename_i s₁ copied
      split at done
      · cases done
      · rename_i s₂ placed
        cases finished : spliceFrom source b.stop pairs s₂ with
        | error e =>
          rw [finished] at done
          cases done
        | ok found =>
          obtain ⟨s₃, others⟩ := found
          rw [finished] at done
          obtain ⟨rfl, -⟩ := Prod.mk.inj (Except.ok.inj done)
          obtain ⟨more, parts, put⟩ := ih (fun p hp => stands p (List.mem_cons_of_mem _ hp)) later
            ordered finished
          have added := Splice.parts_of_place copied
          refine ⟨.str (Text.slice source offset b.start) :: r.code :: more, ?_, fun texts eq => ?_⟩
          · rw [parts, parts_of_placeBlock placed, added]
            simp
          · obtain ⟨front, texts, rfl, hfront, behind_⟩ := List.map_eq_cons_iff.mp eq.symm
            obtain ⟨text, texts, rfl, htext, rest⟩ := List.map_eq_cons_iff.mp behind_
            obtain rfl := Json.str.inj hfront
            have own : r.text = text := by rw [Processed.text, ← htext]; rfl
            have step := @putAll_cons source offset b r.text texts.flatten _
              (stands _ (List.mem_cons_self ..)) (behind _ (List.mem_cons_self ..)) (put texts rest.symm)
            rw [List.map_cons, Prod.map, id, step, own, List.flatten_cons, List.flatten_cons,
              List.append_assoc]

end Splice

/-- The document is put together from its blocks' results. -/
theorem exists_spliceBlocks {source : Text} (filename : Text) {results : List Processed}
    (length : results.length = (blocks source).length) (proper : ∀ r ∈ results, r.Proper) :
    ∃ s : Splice, spliceBlocks source filename (blocks source) results = .ok {
        code := fill source (results.map Processed.text)
        map := s.map?
        dependencies := (results.flatMap Processed.dependencies).eraseDupsBy
          fun k earlier => Json.sameKey earlier k
        stylesheets := results.flatMap Processed.stylesheets } ∧
      (s.changed ↔ ∃ p ∈ (blocks source).zip results, p.2.text ≠ p.1.content) := by
  obtain ⟨s, ms, out, done, adds, code, changed⟩ := @exists_spliceFrom source [] 0
    (.start source filename) ((blocks source).zip results) rfl rfl (Nat.zero_le _)
    (fun p hp => standsIn_of_mem_blocks (List.of_mem_zip hp).1) (fun p _ => Nat.zero_le _)
    (pairwise_zip ((pairwise_blocks source).imp Nat.le_of_lt) results)
    (fun p hp => proper p.2 (List.of_mem_zip hp).2)
  have dependencies : (((blocks source).zip results).flatMap fun p => p.2.dependencies) =
      results.flatMap Processed.dependencies := by
    have seconds := List.map_snd_zip (Nat.le_of_eq length)
    rw [← congrArg (List.flatMap Processed.dependencies) seconds, List.flatMap_map]
  have keys : ∀ k ∈ results.flatMap Processed.dependencies, k.isKey := by
    intro k hk
    obtain ⟨r, hr, hk⟩ := List.mem_flatMap.mp hk
    exact (proper r hr).dependencies k hk
  have filled : fill source (results.map Processed.text) = out := by
    rw [fill, List.zip_map_right, code, List.take_zero, List.nil_append]
  refine ⟨s, ?_, by simpa [Splice.start] using changed⟩
  rw [dependencies] at done
  simp only [spliceBlocks, done, adds.code_eq rfl, distinctKeys_eq keys, filled, Except.mapError, bind,
    Except.bind, pure, Except.pure]
  rfl

/-- A document that was put together is the document with the texts of its blocks' results. -/
theorem code_of_spliceBlocks {source filename : Text} {results : List Processed} {spliced : Spliced}
    (done : spliceBlocks source filename (blocks source) results = .ok spliced) :
    spliced.code = fill source (results.map Processed.text) := by
  rw [spliceBlocks] at done
  cases finished : spliceFrom source 0 ((blocks source).zip results) (.start source filename) with
  | error e => simp [finished, bind, Except.bind] at done
  | ok found =>
    obtain ⟨s, dependencies⟩ := found
    obtain ⟨more, parts, put⟩ := parts_of_spliceFrom
      (fun p hp => standsIn_of_mem_blocks (List.of_mem_zip hp).1) (fun p _ => Nat.zero_le _)
      (pairwise_zip ((pairwise_blocks source).imp Nat.le_of_lt) results) finished
    cases hcode : s.code with
    | error e => simp [finished, hcode, bind, Except.bind] at done
    | ok code =>
      have same : spliced.code = code := by
        simp only [finished, hcode, bind, Except.bind, pure, Except.pure] at done
        split at done
        · cases done
        · rw [← Except.ok.inj done]
      obtain ⟨texts, eq, rfl⟩ := Splice.exists_of_code hcode
      rw [same, fill, List.zip_map_right, put texts (parts.symm.trans eq), List.take_zero,
        List.nil_append]

/-- **Only the contents of blocks change.** The blocks of a document stand apart and in order, each
between the end of its tag and the first closing tag of its kind. The document with processed blocks
is the document with their texts in the places of the contents. It has no map exactly if each text is
the content that was there. The stylesheets are in the order of the blocks, and of the files that the
blocks depend on each is listed once, where it is first named. -/
theorem spliceBlocks_fills {source filename : Text} {results : List Processed}
    (length : results.length = (blocks source).length) (proper : ∀ r ∈ results, r.Proper) :
    (∀ b ∈ blocks source, b.StandsIn source) ∧
    (blocks source).Pairwise (fun b b' => b.stop < b'.start) ∧
    ∃ spliced, spliceBlocks source filename (blocks source) results = .ok spliced ∧
      spliced.code = fill source (results.map Processed.text) ∧
      (spliced.map = none ↔ results.map Processed.text = (blocks source).map Block.content) ∧
      spliced.stylesheets = results.flatMap Processed.stylesheets ∧
      spliced.dependencies = (results.flatMap Processed.dependencies).eraseDupsBy
        fun k earlier => Json.sameKey earlier k := by
  obtain ⟨s, done, changed⟩ := exists_spliceBlocks filename length proper
  refine ⟨fun b hb => standsIn_of_mem_blocks hb, pairwise_blocks source, _, done, rfl, ?_, rfl, rfl⟩
  have same : results.map Processed.text = (blocks source).map Block.content ↔
      ∀ p ∈ (blocks source).zip results, p.2.text = p.1.content := by
    have firsts := List.map_fst_zip (Nat.le_of_eq length.symm)
    have seconds := List.map_snd_zip (Nat.le_of_eq length)
    rw [← congrArg (List.map Processed.text) seconds, ← congrArg (List.map Block.content) firsts,
      List.map_map, List.map_map, List.map_inj_left]
    rfl
  rw [same, Splice.map?]
  simp [changed]

/-- The start of a style in a comment, a script and a style. -/
def mixedBlocks : Text := "<!--<style>--><script>a</script><style>b</style>y"

/-- The script stays as it is, and the style is lowered. -/
def loweredResults : List Processed :=
  [{ code := .str "a", dependencies := [.str "p", .str "q"]
     stylesheets := [{ path := "z.css", data := .null }] },
    { code := .str "c\nd", map := some Splice.twoSources, dependencies := [.str "r", .str "p"]
      stylesheets := [{ path := "b.css", data := .null }] }]

/-- Only the content of the style changes, and the file that both blocks depend on is listed once. -/
theorem splice_mixedBlocks : (∀ r ∈ loweredResults, r.Proper) ∧ ∃ spliced,
    spliceBlocks mixedBlocks "a.js" (blocks mixedBlocks) loweredResults = .ok spliced ∧
      spliced.code = "<!--<style>--><script>a</script><style>c\nd</style>y" ∧
      spliced.map ≠ none ∧ spliced.stylesheets.map Stylesheet.path = ["z.css", "b.css"] ∧
      spliced.dependencies = [.str "p", .str "q", .str "r"] := by
  have proper : ∀ r ∈ loweredResults, r.Proper := by
    intro r hr
    simp only [loweredResults, List.mem_cons, List.not_mem_nil, or_false] at hr
    obtain rfl | rfl := hr
    · exact ⟨rfl, by simp, by simp [Json.isKey]⟩
    · refine ⟨rfl, ?_, by simp [Json.isKey]⟩
      rintro raw ⟨⟩
      exact ⟨_, Splice.ofJson_twoSources, by decide⟩
  have found : blocks mixedBlocks = [⟨.script, "a", [], 22, 23⟩, ⟨.style, "b", [], 39, 40⟩] := by
    rfl
  obtain ⟨-, -, spliced, done, code, map, stylesheets, dependencies⟩ :=
    @spliceBlocks_fills mixedBlocks "a.js" loweredResults (by rw [found]; rfl) proper
  refine ⟨proper, spliced, done, ?_, ?_, congrArg _ stylesheets, dependencies.trans (by rfl)⟩
  · rw [code, fill, found]
    decide +kernel
  · rw [Ne, map, found]
    decide

/-- **The blocks stay.** If no closing tag starts in the texts of the results and no comment ends in
them, the document with processed blocks has blocks of the same kinds with the same attributes, and
the texts are their contents. -/
theorem blocks_spliced {source filename : Text} {results : List Processed}
    (length : results.length = (blocks source).length) (proper : ∀ r ∈ results, r.Proper)
    (inner : ∀ r ∈ results, IsInner r.text) :
    ∃ spliced, spliceBlocks source filename (blocks source) results = .ok spliced ∧
      (blocks spliced.code).map (fun b => (b.kind, b.attributes)) =
        (blocks source).map (fun b => (b.kind, b.attributes)) ∧
      (blocks spliced.code).map Block.content = results.map Processed.text := by
  obtain ⟨s, done, -⟩ := exists_spliceBlocks filename length proper
  have length' : (results.map Processed.text).length = (blocks source).length := by
    rw [List.length_map, length]
  have inner' : ∀ t ∈ results.map Processed.text, IsInner t := by
    intro t ht
    obtain ⟨r, hr, rfl⟩ := List.mem_map.mp ht
    exact inner r hr
  exact ⟨_, done, (blocks_fill length' inner').2⟩

/-- A comment that nothing ends, and a closing tag without a block. -/
def openComment : Text := "<!--<script>a</script></style>"

/-- The text opens a style, which the closing tag behind the script does not end, and does not end the
comment. -/
theorem blocks_spliced_openComment : IsInner "<style>--" ∧ ∃ spliced,
    spliceBlocks openComment "a" (blocks openComment) [{ code := .str "<style>--" }] = .ok spliced ∧
      (blocks spliced.code).map Block.content = ["<style>--"] := by
  have inner : IsInner "<style>--" := ⟨by decide +kernel, by decide +kernel⟩
  obtain ⟨spliced, done, -, contents⟩ := @blocks_spliced openComment "a" [{ code := .str "<style>--" }]
    (by rfl) (List.forall_mem_singleton.mpr ⟨rfl, by simp, by simp⟩)
    (List.forall_mem_singleton.mpr inner)
  exact ⟨inner, spliced, done, contents⟩

end Componentry
