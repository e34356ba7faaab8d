import Componentry.Proofs.Pipeline.Positions
import Componentry.Proofs.SourceMap.Spans
import Componentry.Proofs.SourceMap.TwoSteps

/-!
# Stripping with a map

Stripping with a map leaves the same text as stripping without one, and there is a map exactly if
something was stripped. Every mapping leads from a character of the stripped markup to the character
that it was copied from, and both ends of the mappings go on from left to right.
-/

namespace Componentry

open SourceMap Markup
open Change (Outside moved)

/-! ## The stripped text -/

/-- Copying what is between the matches puts just that together. -/
theorem parts_of_stripSpans {markup : Text} {offset : Nat} {founds : List (Text.Found Unit)}
    {s s' : Splice} (h : stripSpans markup offset founds s = (s', none)) :
    ∃ texts : List Text, s'.parts = s.parts ++ texts.map .str ∧
      texts.flatten = Text.between markup offset founds := by
  induction founds generalizing offset s with
  | nil =>
    rw [stripSpans] at h
    exact ⟨[markup.drop offset], Splice.parts_of_place h, by simp [Text.between]⟩
  | cons f rest ih =>
    rw [stripSpans] at h
    split at h
    · rename_i s₁ copied
      obtain ⟨texts, parts, left⟩ := ih h
      refine ⟨Text.slice markup offset f.start :: texts, ?_, ?_⟩
      · have first := Splice.parts_of_place copied
        rw [parts, Splice.drop, first]
        simp
      · rw [List.flatten_cons, left, Text.between]
    · rename_i failed
      exact absurd h (failed s')

theorem strip_eq_between (markup : Text) :
    strip markup = Text.between markup 0 (Text.scan extracted? markup) :=
  local_extracted?.remove_eq_between markup

/-- Stripping with a map never fails, leaves what stripping leaves, and tracks what it takes out. -/
theorem exists_stripMapped (markup filename : Text) :
    ∃ s, stripMapped markup filename = .ok (strip markup, s.map?) ∧
      Tracks filename markup (removals markup) markup.length (strip markup) s := by
  obtain ⟨s, stripped, done, tracks⟩ := stripMapped_tracks markup filename
  have same : stripped = strip markup := by
    rw [stripMapped] at done
    split at done
    · rename_i s' spans
      obtain ⟨texts, parts, left⟩ := parts_of_stripSpans spans
      have code : s'.code = .ok (strip markup) := by
        rw [Splice.code, parts, Splice.start, List.nil_append, Splice.joined_str, left,
          ← strip_eq_between]
        rfl
      simp only [code, bind, Except.bind, pure, Except.pure, Except.ok.injEq, Prod.mk.injEq] at done
      exact done.1.symm
    · cases done
  subst same
  exact ⟨s, done, tracks⟩

theorem removals_eq_nil_iff {markup : Text} : removals markup = [] ↔ strip markup = markup := by
  rw [removals, List.map_eq_nil_iff]
  constructor
  · intro none_
    rw [strip_eq_between, none_, Text.between, List.drop_zero]
  · intro same
    exact Text.scan_of_clear (local_extracted?.clear_of_remove_eq same)

/-! ## The mappings -/

theorem text_of_mem_removals {markup : Text} : ∀ c ∈ removals markup, c.text = none := by
  intro c hc
  obtain ⟨f, -, rfl⟩ := List.mem_map.mp hc
  rfl

theorem exists_map_eq {α β : Type} {f : α → β} {p : α → Prop} {ys : List β}
    (h : ∀ y ∈ ys, ∃ x, p x ∧ y = f x) : ∃ xs : List α, ys = xs.map f ∧ ∀ x ∈ xs, p x := by
  induction ys with
  | nil => exact ⟨[], rfl, by simp⟩
  | cons y ys ih =>
    obtain ⟨x, hx, rfl⟩ := h y (List.mem_cons_self ..)
    obtain ⟨xs, rfl, hxs⟩ := ih fun y hy => h y (List.mem_cons_of_mem _ hy)
    exact ⟨x :: xs, rfl, List.forall_mem_cons.mpr ⟨hx, hxs⟩⟩

section Copies

variable {filename source out : Text} {changes : List Change} {offset : Nat} {s : Splice}

theorem SourceMap.Tracks.isPlain (h : Tracks filename source changes offset out s) :
    ∀ m ∈ s.draft.mappings.toList, m.IsPlain := by
  intro m hm
  obtain ⟨g, q, rfl, -⟩ := h.leads m hm
  exact ⟨rfl, rfl⟩

/-- **Copies in order**: if nothing was replaced, the mappings of a splice are those of copied
characters, each one once and from left to right. -/
theorem SourceMap.Tracks.exists_copies (h : Tracks filename source changes offset out s)
    (only : ∀ c ∈ changes, c.text = none) :
    ∃ copies : List Nat,
      s.draft.decoded.mappings.toList = copies.map (copyMapping filename source out changes) ∧
      copies.Pairwise (· < ·) ∧ (∀ i ∈ copies, i < offset ∧ Outside changes i) ∧
      ∀ i < offset, Outside changes i → TokenAt source i → i ∈ copies := by
  have mem : ∀ {m}, m ∈ s.draft.decoded.mappings.toList ↔ m ∈ s.draft.mappings.toList := by
    intro m
    rw [Draft.toList_decoded_of_plain h.isPlain, mem_destutter_ne, Draft.mem_sortedMappings]
  have own : ∀ m ∈ s.draft.decoded.mappings.toList, ∃ i, (i < offset ∧ Outside changes i) ∧
      m = copyMapping filename source out changes i := by
    intro m hm
    obtain ⟨g, q, rfl, -, -, -, ⟨i, hi, hout, eq⟩ | ⟨⟨c, hc, text⟩, -⟩⟩ := h.leads m (mem.mp hm)
    · exact ⟨i, ⟨hi, hout⟩, eq⟩
    · exact absurd (only c hc) text
  obtain ⟨copies, eq, copied⟩ := exists_map_eq own
  refine ⟨copies, eq, ?_, copied, ?_⟩
  · -- The places are sorted and no mapping comes twice, so the copies go on.
    have sorted := s.draft.ordered_decoded
    have once := Draft.nodup_decoded h.isPlain
    rw [Decoded.Ordered, eq, List.pairwise_map] at sorted
    rw [eq] at once
    have both := sorted.and (List.pairwise_map.mp once)
    refine both.imp_of_mem fun {i j} hi hj le => ?_
    obtain ⟨hi, hi'⟩ := copied i hi
    obtain ⟨hj, hj'⟩ := copied j hj
    have moved_le := (atOrBefore_place_iff (Nat.le_of_lt (h.copied i hi hi').1)
      (Nat.le_of_lt (h.copied j hj hj').1)).mp le.1
    rcases Nat.lt_trichotomy i j with lt | rfl | gt
    · exact lt
    · exact absurd rfl le.2
    · have := h.mono j i gt hi hj' hi'
      omega
  · intro i hi hout token
    have anchored := mem.mpr (h.anchored i hi hout token)
    rw [eq] at anchored
    obtain ⟨j, hj, same⟩ := List.mem_map.mp anchored
    have place := congrArg Mapping.generated same
    obtain ⟨hj', hout'⟩ := copied j hj
    rwa [h.copy_inj hj' hi hout' hout place] at hj

end Copies

/-- **Stripping with a map**: it leaves what stripping leaves, and there is a map exactly if that is not
the markup itself. The map leads from characters of the stripped markup to the same characters of the
markup, from left to right in both, and every token that is left is among them. -/
theorem stripMapped_eq_strip (markup filename : Text) :
    ∃ map, stripMapped markup filename = .ok (strip markup, map) ∧
      (map = none ↔ strip markup = markup) ∧
      ∀ raw ∈ map, ∃ (d : Decoded) (copies : List (Nat × Nat)), Decoded.ofJson raw = .ok d ∧
        d.mappings.toList = copies.map (fun p =>
          ⟨(strip markup).place p.1, some ⟨filename, markup.place p.2⟩, none⟩) ∧
        d.mappings.toList.Pairwise (fun m m' => m.generated.Before m'.generated) ∧
        copies.Pairwise (fun p q => p.1 < q.1 ∧ p.2 < q.2) ∧
        (∀ p ∈ copies, ∃ c, (strip markup)[p.1]? = some c ∧ markup[p.2]? = some c) ∧
        ∀ i, Outside (removals markup) i → TokenAt markup i →
          (moved (removals markup) i, i) ∈ copies := by
  obtain ⟨s, done, tracks⟩ := exists_stripMapped markup filename
  refine ⟨s.map?, done, ?_, ?_⟩
  · rw [tracks.map?_eq, ← removals_eq_nil_iff]
    by_cases empty : removals markup = [] <;> simp [empty]
  · intro raw hraw
    rw [tracks.map?_eq] at hraw
    split at hraw
    · cases hraw
    · cases hraw
      obtain ⟨kept, eq, sorted, copied, tokens⟩ := tracks.exists_copies text_of_mem_removals
      have ordered : (kept.map fun i => (moved (removals markup) i, i)).Pairwise
          fun p q => p.1 < q.1 ∧ p.2 < q.2 := by
        rw [List.pairwise_map]
        refine sorted.imp_of_mem fun {i j} hi hj lt => ⟨?_, lt⟩
        exact tracks.mono i j lt (copied j hj).1 (copied i hi).2 (copied j hj).2
      refine ⟨_, kept.map fun i => (moved (removals markup) i, i), Draft.ofJson_toJson tracks.lines,
        ?_, ?_, ordered, ?_, ?_⟩
      · rw [eq, List.map_map]
        rfl
      · rw [eq, List.pairwise_map]
        refine (List.pairwise_map.mp ordered).imp_of_mem fun {i j} _ hj lt => ?_
        exact Text.place_before lt.1 (Nat.le_of_lt (tracks.copied j (copied j hj).1 (copied j hj).2).1)
      · intro p hp
        obtain ⟨i, hi, rfl⟩ := List.mem_map.mp hp
        obtain ⟨hi', hout⟩ := copied i hi
        have here : markup[i]? = some markup[i] := List.getElem?_eq_getElem hi'
        exact ⟨markup[i], (tracks.copied i hi' hout).2.trans here, here⟩
      · intro i hout token
        have bound : i < markup.length := by
          obtain ⟨c, hc, -⟩ := token
          exact (List.getElem?_eq_some_iff.mp hc).1
        exact List.mem_map.mpr ⟨i, tokens i bound hout token, rfl⟩

/-- A letter, an extracted style and another letter. -/
def strippedBetween : Text := "a<style global>/** extracted into global style */</style>b"

/-- The letters are left side by side, and each is led to where it stood. -/
theorem stripMapped_strippedBetween :
    ∃ raw d, stripMapped strippedBetween "A" = .ok ("ab", some raw) ∧ Decoded.ofJson raw = .ok d ∧
      ∀ m, m ∈ d.mappings.toList ↔ m = ⟨⟨1, 0⟩, some ⟨"A", ⟨1, 0⟩⟩, none⟩ ∨
        m = ⟨⟨1, 1⟩, some ⟨"A", ⟨1, 57⟩⟩, none⟩ := by
  have code : strip strippedBetween = "ab" := by decide +kernel
  have spans : removals strippedBetween = [⟨1, 57, none⟩] := by decide +kernel
  obtain ⟨map, done, unmapped, reads⟩ := stripMapped_eq_strip strippedBetween "A"
  rw [code] at done unmapped reads
  cases map with
  | none => exact absurd (unmapped.mp rfl) (by decide)
  | some raw =>
    obtain ⟨d, copies, read, mappings, -, ordered, same, tokens⟩ := reads raw rfl
    rw [spans] at tokens
    have first : (0, 0) ∈ copies := by
      refine tokens 0 (by decide) ⟨'a', rfl, ?_⟩
      rw [if_pos (by decide)]
      exact fun _ before => absurd before (Nat.lt_irrefl 0)
    have last : (1, 57) ∈ copies := by
      refine tokens 57 (by decide) ⟨'b', rfl, ?_⟩
      rw [if_pos (by decide)]
      rintro _ - ⟨⟩
      decide
    have distinct : (copies.map Prod.fst).Nodup :=
      List.pairwise_map.mpr (ordered.imp fun lt => Nat.ne_of_lt lt.1)
    refine ⟨raw, d, done, read, fun m => ?_⟩
    rw [mappings]
    constructor
    · intro hm
      obtain ⟨p, hp, rfl⟩ := List.mem_map.mp hm
      obtain ⟨c, here, -⟩ := same p hp
      have bound : p.1 < 2 := (List.getElem?_eq_some_iff.mp here).1
      have either : p.1 = 0 ∨ p.1 = 1 := by omega
      rcases either with zero | one
      · obtain rfl := List.inj_on_of_nodup_map distinct hp first zero
        exact .inl rfl
      · obtain rfl := List.inj_on_of_nodup_map distinct hp last one
        exact .inr rfl
    · rintro (rfl | rfl)
      · exact List.mem_map.mpr ⟨_, first, rfl⟩
      · exact List.mem_map.mpr ⟨_, last, rfl⟩

end Componentry
