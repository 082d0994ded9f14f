import Mathlib

/-! Streams that merge several lanes: every item is tagged with the lane it is of. -/

namespace Stdplus.Base

variable {τ α : Type} [DecidableEq τ]

def lane (tag : τ) (merged : List (τ × α)) : List α := (merged.filter (·.1 = tag)).map Prod.snd

theorem lane_append (tag : τ) (first second : List (τ × α)) :
    lane tag (first ++ second) = lane tag first ++ lane tag second := by
  rw [lane, List.filter_append, List.map_append]
  rfl

theorem lane_own (tag : τ) (items : List α) : lane tag (items.map (tag, ·)) = items := by
  induction items with
  | nil => rfl
  | cons item items ih =>
    rw [List.map_cons, lane, List.filter_cons_of_pos (by simp), List.map_cons]
    exact congrArg (item :: ·) ih

theorem lane_empty {tag : τ} {merged : List (τ × α)} (elsewhere : ∀ entry ∈ merged, entry.1 ≠ tag) :
    lane tag merged = [] := by
  rw [lane, List.filter_eq_nil_iff.mpr, List.map_nil]
  intro entry there
  simpa using elsewhere entry there

theorem lane_other {tag other : τ} (differ : other ≠ tag) (items : List α) :
    lane tag (items.map (other, ·)) = [] := by
  apply lane_empty
  intro entry there
  obtain ⟨item, _, rfl⟩ := List.mem_map.mp there
  exact differ

end Stdplus.Base
