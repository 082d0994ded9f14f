import Mathlib

/-! Blocks of places at which a predicate holds. One pass over the places finds the first of
the longest blocks, with the block in front of it and the best of the earlier ones. -/

namespace Stdplus.Base

section

variable (p : Nat → Prop)

def Block (first count : Nat) : Prop := ∀ k, first ≤ k → k < first + count → p k

/-- The first of the longest blocks below a limit. -/
structure FirstLongest (limit first count : Nat) : Prop where
  inside : first + count ≤ limit
  block : Block p first count
  best : ∀ other size, 0 < size → other + size ≤ limit → Block p other size →
    size < count ∨ size = count ∧ first ≤ other

/-- What is known after `i` places: the best block that is over, and the last block seen,
which is not over where it ends at `i`. -/
structure Scanned (i bestFirst bestCount first count : Nat) : Prop where
  block : Block p first count
  bestBlock : Block p bestFirst bestCount
  below : first + count ≤ i
  bestBelow : bestFirst + bestCount ≤ i
  empty : bestCount = 0 → bestFirst = 0
  order : bestFirst ≤ first
  touching : ∀ other, other < i → Block p other (i - other) → first + count = i ∧ first ≤ other
  best : ∀ other size, 0 < size → other + size ≤ i → Block p other size →
    (size < bestCount ∨ size = bestCount ∧ bestFirst ≤ other) ∨ first + count = i ∧ first ≤ other

end

variable {p : Nat → Prop} {i bestFirst bestCount first count : Nat}

theorem Block.nothing (first : Nat) : Block p first 0 := fun _ low high => absurd high (Nat.not_lt.mpr low)

theorem Block.part {other size : Nat} (block : Block p first count) (low : first ≤ other)
    (high : other + size ≤ first + count) : Block p other size :=
  fun k above below => block k (Nat.le_trans low above) (Nat.lt_of_lt_of_le below high)

theorem Block.extend (block : Block p first count) (here : p (first + count)) : Block p first (count + 1) := by
  intro k low high
  by_cases last : k = first + count
  · exact last ▸ here
  · exact block k low (by omega)

theorem FirstLongest.unique {limit other size : Nat} (one : FirstLongest p limit first count)
    (two : FirstLongest p limit other size) (some_place : 0 < count) : other = first ∧ size = count := by
  have forward := two.best first count some_place one.inside one.block
  have backward := one.best other size (by omega) two.inside two.block
  omega

namespace Scanned

theorem start : Scanned p 0 0 0 0 0 where
  block := Block.nothing 0
  bestBlock := Block.nothing 0
  below := Nat.le_refl 0
  bestBelow := Nat.le_refl 0
  empty _ := rfl
  order := Nat.le_refl 0
  touching other below := absurd below (Nat.not_lt_zero other)
  best other size positive below := absurd below (by omega)

theorem extend (scanned : Scanned p i bestFirst bestCount first count) (here : p i) (adjacent : first + count = i) :
    Scanned p (i + 1) bestFirst bestCount first (count + 1) := by
  have touching : ∀ other, other < i + 1 → Block p other (i + 1 - other) →
      first + (count + 1) = i + 1 ∧ first ≤ other := by
    intro other below block
    refine ⟨by omega, ?_⟩
    by_cases last : other = i
    · omega
    · exact (scanned.touching other (by omega) (block.part (Nat.le_refl _) (by omega))).2
  refine ⟨scanned.block.extend (adjacent ▸ here), scanned.bestBlock, by omega, Nat.le_succ_of_le scanned.bestBelow,
    scanned.empty, scanned.order, touching, ?_⟩
  intro other size positive below block
  by_cases ends : other + size = i + 1
  · exact .inr (touching other (by omega) (block.part (Nat.le_refl _) (by omega)))
  · rcases scanned.best other size positive (by omega) block with better | inside
    · exact .inl better
    · exact .inr ⟨by omega, inside.2⟩

theorem restart (scanned : Scanned p i bestFirst bestCount first count) (here : p i) (apart : first + count ≠ i) :
    Scanned p (i + 1) bestFirst bestCount i 1 := by
  have below := scanned.below
  have order := scanned.order
  have touching : ∀ other, other < i + 1 → Block p other (i + 1 - other) → i + 1 = i + 1 ∧ i ≤ other := by
    intro other below block
    refine ⟨rfl, ?_⟩
    by_contra earlier
    exact apart (scanned.touching other (by omega) (block.part (Nat.le_refl _) (by omega))).1
  refine ⟨(Block.nothing i).extend here, scanned.bestBlock, Nat.le_refl _, Nat.le_succ_of_le scanned.bestBelow,
    scanned.empty, by omega, touching, ?_⟩
  intro other size positive below block
  by_cases ends : other + size = i + 1
  · exact .inr (touching other (by omega) (block.part (Nat.le_refl _) (by omega)))
  · rcases scanned.best other size positive (by omega) block with better | inside
    · exact .inl better
    · exact absurd inside.1 apart

/-- A place that does not hold ends the last block, which becomes the best or stays behind. -/
theorem close {nextFirst nextCount : Nat} (scanned : Scanned p i bestFirst bestCount first count) (absent : ¬ p i)
    (next : (nextFirst = first ∧ nextCount = count ∧ first + count = i ∧ bestCount < count) ∨
      (nextFirst = bestFirst ∧ nextCount = bestCount ∧ (first + count = i → count ≤ bestCount))) :
    Scanned p (i + 1) nextFirst nextCount first count := by
  have below := scanned.below
  have bestBelow := scanned.bestBelow
  have order := scanned.order
  have ended (other size : Nat) (some_place : other ≤ i) (block : Block p other size) : other + size ≤ i := by
    by_contra beyond
    exact absent (block i some_place (by omega))
  refine ⟨scanned.block, ?_, by omega, by omega, ?_, by omega, ?_, ?_⟩
  · rcases next with ⟨rfl, rfl, _⟩ | ⟨rfl, rfl, _⟩
    · exact scanned.block
    · exact scanned.bestBlock
  · intro nothing
    rcases next with ⟨rfl, rfl, _⟩ | ⟨rfl, rfl, _⟩
    · omega
    · exact scanned.empty nothing
  · intro other below block
    have ends := ended other (i + 1 - other) (by omega) block
    omega
  · intro other size positive below block
    have ends := ended other size (by omega) block
    rcases scanned.best other size positive ends block with better | inside <;> omega

/-- Past the limit, where nothing holds, the best block is the first of the longest. -/
theorem finish {limit : Nat} (scanned : Scanned p (limit + 1) bestFirst bestCount first count) (absent : ¬ p limit) :
    FirstLongest p limit bestFirst bestCount := by
  have ended (other size : Nat) (positive : 0 < size) (below : other + size ≤ limit + 1)
      (block : Block p other size) :
      other + size ≤ limit := by
    by_contra beyond
    exact absent (block limit (by omega) (by omega))
  refine ⟨?_, scanned.bestBlock, ?_⟩
  · by_cases nothing : bestCount = 0
    · have first := scanned.empty nothing
      omega
    · exact ended bestFirst bestCount (by omega) scanned.bestBelow scanned.bestBlock
  · intro other size positive below block
    rcases scanned.best other size positive (by omega) block with better | inside
    · exact better
    · have last := ended first count (by omega) scanned.below scanned.block
      omega

end Scanned

end Stdplus.Base
