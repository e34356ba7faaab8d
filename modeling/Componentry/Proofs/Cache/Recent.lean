import Componentry.Cache.Recent

/-!
# Recent results are right

The memory is sound when each result in it is right for its digest, whatever that means. Looking a
result up and letting results go keep it sound, and so does holding a result that is right.
-/

namespace Componentry.Recent

/-- Is every result that is held right for its digest? -/
def Sound (Right : Text → Result → Prop) (m : Recent) : Prop :=
  ∀ h ∈ m.held, Right h.digest h.result

variable {Right : Text → Result → Prop} {m m' : Recent} {digest : Text} {result : Result}

/-- What is let go are the oldest results. -/
theorem evict_suffix (limit : Int) (held : List Held) (size : Int) :
    (evict limit held size).1 <:+ held := by
  induction held generalizing size with
  | nil => exact List.suffix_rfl
  | cons h rest ih =>
    rw [evict]
    split
    · exact (ih _).trans (List.suffix_cons ..)
    · exact List.suffix_rfl

theorem Sound.fetch? (h : Sound Right m) (found : m.fetch? digest = some (result, m')) :
    Right digest result ∧ Sound Right m' := by
  rw [Recent.fetch?] at found
  cases look : m.held.find? fun h => h.digest == digest with
  | none => simp [look] at found
  | some entry =>
    have member := List.mem_of_find?_eq_some look
    have name : entry.digest = digest := by simpa using List.find?_some look
    simp only [look, Option.some.injEq, Prod.mk.injEq] at found
    obtain ⟨rfl, rfl⟩ := found
    refine ⟨name ▸ h entry member, fun other hother => ?_⟩
    rcases List.mem_append.mp hother with kept | last
    · exact h other (List.mem_filter.mp kept).1
    · rw [List.mem_singleton.mp last]
      exact h entry member

theorem Sound.remember (h : Sound Right m) (right : Right digest result) (size : Nat) :
    Sound Right (m.remember digest result size) := by
  rw [Recent.remember]
  split
  · exact h
  · intro other hother
    have kept := (evict_suffix ..).mem hother
    rcases List.mem_append.mp kept with kept | last
    · exact h other (List.mem_filter.mp kept).1
    · rw [List.mem_singleton.mp last]
      exact right

end Componentry.Recent
