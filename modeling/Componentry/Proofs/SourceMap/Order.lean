import Componentry.Proofs.Text.Order
import Componentry.SourceMap.Decoded
import Componentry.SourceMap.Draft

/-!
# The order of mappings

Texts are ordered by their code points, mappings by their parts, one after the other. Both orders
are total and transitive, so sorting by them puts every mapping at its place; mappings sorted by all
parts are sorted by their generated positions in particular.
-/

namespace Componentry

open Std

namespace SourceMap

namespace Draft

instance : TransCmp compareMappings :=
  inferInstanceAs (TransCmp
    (compareLex (compareOn fun m : Mapping => m.generated.line) <|
      compareLex (compareOn fun m : Mapping => m.generated.column) <|
      compareLex (compareOn fun m : Mapping => (m.origin.map Origin.source).getD "") <|
      compareLex (compareOn fun m : Mapping => ((m.origin.map Origin.position).getD ⟨0, 0⟩).line) <|
      compareLex
        (compareOn fun m : Mapping => ((m.origin.map Origin.position).getD ⟨0, 0⟩).column) <|
      compareOn fun m : Mapping => m.name.getD ""))

theorem isLE_trans {a b c : Mapping} (hab : (compareMappings a b).isLE)
    (hbc : (compareMappings b c).isLE) : (compareMappings a c).isLE :=
  TransCmp.isLE_trans hab hbc

theorem isLE_total (a b : Mapping) :
    ((compareMappings a b).isLE || (compareMappings b a).isLE) = true := by
  have swap : compareMappings b a = (compareMappings a b).swap := OrientedCmp.eq_swap
  rw [swap]
  cases compareMappings a b <;> rfl

/-- The order of mappings refines the order of their generated positions. -/
theorem atOrBefore_of_isLE {a b : Mapping} (h : (compareMappings a b).isLE) :
    atOrBefore a.generated b.generated := by
  simp only [compareMappings, Ordering.isLE_then_iff_or, Int.compare_eq_lt,
    Int.compare_eq_eq] at h
  simp only [atOrBefore, Bool.or_eq_true, decide_eq_true_eq, Bool.and_eq_true, beq_iff_eq]
  omega

theorem pairwise_sortedMappings (d : Draft) :
    d.sortedMappings.Pairwise fun a b => (compareMappings a b).isLE := by
  rw [sortedMappings]
  apply List.pairwise_mergeSort
  · intro a b c hab hbc
    exact isLE_trans hab hbc
  · exact isLE_total

theorem mem_sortedMappings {d : Draft} {m : Mapping} :
    m ∈ d.sortedMappings ↔ m ∈ d.mappings.toList :=
  List.mem_mergeSort

end Draft

end SourceMap

end Componentry
