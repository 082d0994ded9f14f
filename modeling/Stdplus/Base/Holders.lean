import Mathlib

namespace Stdplus.Base

variable {ι γ : Type} {held : ι → Option γ} {i j k : ι} {item old : γ}

theorem holders_differ (empty : held i = none) (holds : held k = some old) : k ≠ i := by
  rintro rfl
  rw [empty] at holds
  cases holds

variable [DecidableEq ι]

/-- Once `i` is given an item, whatever is held is that or was held before. -/
theorem given_cases (holds : Function.update held i (some item) k = some old) :
    (k = i ∧ old = item) ∨ (k ≠ i ∧ held k = some old) := by
  by_cases same : k = i
  · rw [same, Function.update_self] at holds
    exact .inl ⟨same, (Option.some.inj holds).symm⟩
  · rw [Function.update_of_ne same] at holds
    exact .inr ⟨same, holds⟩

theorem given_keeps (empty : held i = none) (holds : held k = some old) :
    Function.update held i (some item) k = some old :=
  (Function.update_of_ne (holders_differ empty holds) _ _).trans holds

/-- Once `i` lets go, whatever is held was held by another. -/
theorem released_holds (holds : Function.update held i none k = some old) : k ≠ i ∧ held k = some old := by
  by_cases same : k = i
  · rw [same, Function.update_self] at holds
    cases holds
  · rw [Function.update_of_ne same] at holds
    exact ⟨same, holds⟩

theorem released_free (empty : held i = none) : Function.update held i none = held := by
  have same := Function.update_eq_self i held
  rwa [empty] at same

/-- Once `i` hands what it has to `j`, `j` holds that and the others what they held. -/
theorem passed_cases (holds : Function.update (Function.update held i none) j (held i) k = some old) :
    (k = j ∧ held i = some old) ∨ (k ≠ i ∧ held k = some old) := by
  by_cases here : k = j
  · rw [here, Function.update_self] at holds
    exact .inl ⟨here, holds⟩
  · rw [Function.update_of_ne here] at holds
    exact .inr (released_holds holds)

theorem passed_was_held (holds : Function.update (Function.update held i none) j (held i) k = some old) :
    ∃ m, held m = some old := by
  rcases passed_cases holds with ⟨-, holds⟩ | ⟨-, holds⟩ <;> exact ⟨_, holds⟩

theorem passed_keeps (empty : held j = none) (holds : held k = some old) :
    ∃ m, Function.update (Function.update held i none) j (held i) m = some old := by
  by_cases same : k = i
  · exact ⟨j, by rw [Function.update_self, ← same, holds]⟩
  · have other := holders_differ empty holds
    exact ⟨k, by rw [Function.update_of_ne other, Function.update_of_ne same, holds]⟩

end Stdplus.Base
