import Mathlib

namespace Stdplus.Base

variable {σ : Type} {n p q : Nat} {one two : Fin n → σ}

/-- The strings that begin with the first `p` letters of one. -/
def Cylinder (p : Nat) (word : Fin n → σ) : Set (Fin n → σ) := {other | ∀ k : Fin n, k.val < p → word k = other k}

theorem mem_cylinder_self (p : Nat) (word : Fin n → σ) : word ∈ Cylinder p word := fun _ _ => rfl

theorem cylinder_of_mem (inside : two ∈ Cylinder p one) : Cylinder p one = Cylinder p two := by
  ext other
  constructor
  · intro among k below
    exact (inside k below).symm.trans (among k below)
  · intro among k below
    exact (inside k below).trans (among k below)

theorem cylinder_antitone (fewer : p ≤ q) (word : Fin n → σ) : Cylinder q word ⊆ Cylinder p word :=
  fun _ inside k below => inside k (below.trans_le fewer)

/-- Two cylinders with a string in common: the longer prefix has the smaller one. -/
theorem cylinder_nested (fewer : p ≤ q) (one two : Fin n → σ) :
    Disjoint (Cylinder p one) (Cylinder q two) ∨ Cylinder q two ⊆ Cylinder p one := by
  by_cases apart : Disjoint (Cylinder p one) (Cylinder q two)
  · exact .inl apart
  · obtain ⟨common, mine, theirs⟩ := Set.not_disjoint_iff.mp apart
    rw [cylinder_of_mem mine, cylinder_of_mem theirs]
    exact .inr (cylinder_antitone fewer common)

theorem cylinder_subset_iff [Nontrivial σ] (within : p ≤ n) :
    Cylinder q two ⊆ Cylinder p one ↔ p ≤ q ∧ two ∈ Cylinder p one := by
  constructor
  · intro inside
    refine ⟨?_, inside (mem_cylinder_self q two)⟩
    by_contra shorter
    have below : q < n := (Nat.lt_of_not_le shorter).trans_le within
    obtain ⟨letter, differ⟩ := exists_ne (two ⟨q, below⟩)
    have changed : Function.update two ⟨q, below⟩ letter ∈ Cylinder q two := by
      intro k early
      refine (Function.update_of_ne ?_ _ _).symm
      rintro rfl
      exact Nat.lt_irrefl q early
    have kept := inside (mem_cylinder_self q two) ⟨q, below⟩ (Nat.lt_of_not_le shorter)
    have lost := inside changed ⟨q, below⟩ (Nat.lt_of_not_le shorter)
    rw [Function.update_self] at lost
    exact differ (lost.symm.trans kept)
  · rintro ⟨fewer, inside⟩
    rw [cylinder_of_mem inside]
    exact cylinder_antitone fewer two

theorem cylinder_eq_iff [Nontrivial σ] (left : p ≤ n) (right : q ≤ n) :
    Cylinder p one = Cylinder q two ↔ p = q ∧ two ∈ Cylinder p one := by
  rw [Set.Subset.antisymm_iff, cylinder_subset_iff right, cylinder_subset_iff left]
  constructor
  · rintro ⟨⟨more, _⟩, fewer, inside⟩
    exact ⟨Nat.le_antisymm fewer more, inside⟩
  · rintro ⟨rfl, inside⟩
    exact ⟨⟨Nat.le_refl p, cylinder_of_mem inside ▸ mem_cylinder_self p one⟩, Nat.le_refl p, inside⟩

theorem cylinder_ncard [Fintype σ] (within : p ≤ n) (word : Fin n → σ) :
    (Cylinder p word).ncard = Fintype.card σ ^ (n - p) := by
  classical
  have places : Cylinder p word =
      Fintype.piFinset fun k : Fin n => if k.val < p then {word k} else Finset.univ := by
    ext other
    rw [Finset.mem_coe, Fintype.mem_piFinset]
    refine forall_congr' fun k => ?_
    by_cases below : k.val < p
    · simp [below, eq_comm]
    · simp [below]
  have size (k : Fin n) : (if k.val < p then {word k} else Finset.univ : Finset σ).card =
      if k.val < p then 1 else Fintype.card σ := by
    split <;> rfl
  rw [places, Set.ncard_coe_finset, Fintype.card_piFinset, Finset.prod_congr rfl fun k _ => size k,
    Finset.prod_ite, Finset.prod_const_one, Finset.prod_const, one_mul]
  congr 1
  have front : (Finset.univ.filter fun k : Fin n => k.val < p).card = p := by
    rw [Fin.card_filter_val_lt, Nat.min_eq_right within]
  rw [Finset.filter_not, Finset.card_sdiff_of_subset (Finset.filter_subset _ _), front, Finset.card_univ,
    Fintype.card_fin]

end Stdplus.Base
