import Mathlib

namespace Stdplus

/-- A `Traits` class: `eq` says which characters count as the same, `lt` orders the others. -/
structure CharTraits (CharT : Type) where
  eq : CharT → CharT → Bool
  lt : CharT → CharT → Bool
  eq_refl : ∀ c, eq c c = true
  eq_comm : ∀ c d, eq c d = eq d c
  lt_total : ∀ c d, eq c d = false → lt c d = !lt d c
  le_trans : ∀ c d e, (eq c d || lt c d) = true → (eq d e || lt d e) = true → (eq c e || lt c e) = true

/-- Characters compared by their codes, as `std::char_traits` does: those of a `char` are
unsigned here. -/
def CharTraits.byCode {CharT : Type} (code : CharT → Nat) : CharTraits CharT where
  eq c d := code c = code d
  lt c d := code c < code d
  eq_refl := by simp
  eq_comm c d := decide_eq_decide.mpr ⟨Eq.symm, Eq.symm⟩
  lt_total c d other := by
    rw [← decide_not, decide_eq_decide]
    have apart : code c ≠ code d := of_decide_eq_false other
    omega
  le_trans c d e := by
    simp only [Bool.or_eq_true, decide_eq_true_eq]
    omega

namespace CharTraits

variable {CharT : Type} (traits : CharTraits CharT)

def order (c d : CharT) : Ordering :=
  if traits.eq c d then .eq else if traits.lt c d then .lt else .gt

theorem order_eq_iff {c d : CharT} : traits.order c d = .eq ↔ traits.eq c d = true := by
  unfold order
  split
  · simp [*]
  · split <;> simp [*]

theorem order_isLE_iff {c d : CharT} :
    (traits.order c d).isLE = true ↔ (traits.eq c d || traits.lt c d) = true := by
  unfold order
  split
  · simp [*]
  · split <;> simp [*]

instance : Std.TransCmp traits.order where
  eq_swap {c d} := by
    unfold order
    rw [traits.eq_comm d c]
    cases same : traits.eq c d with
    | true => rfl
    | false =>
      have one := traits.lt_total c d same
      cases below : traits.lt d c <;> simp [one, below]
  isLE_trans {c d e} first second := by
    rw [order_isLE_iff] at *
    exact traits.le_trans c d e first second

/-- The lexicographic order on strings: a proper prefix is smaller. -/
def lexicographic : List CharT → List CharT → Ordering := List.compareLex traits.order

instance : Std.TransCmp traits.lexicographic := inferInstanceAs (Std.TransCmp (List.compareLex traits.order))

theorem lexicographic_cons_eq {c d : CharT} (same : traits.eq c d = true) (text other : List CharT) :
    traits.lexicographic (c :: text) (d :: other) = traits.lexicographic text other := by
  rw [lexicographic, List.compareLex_cons_cons, (traits.order_eq_iff).mpr same, Ordering.eq_then]

theorem lexicographic_cons_other {c d : CharT} (other : traits.eq d c = false) (text rest : List CharT) :
    traits.lexicographic (c :: text) (d :: rest) = if traits.lt d c then .gt else .lt := by
  have swapped : traits.order c d = (traits.order d c).swap := Std.OrientedCmp.eq_swap
  rw [lexicographic, List.compareLex_cons_cons, swapped, order, if_neg (by simp [other])]
  split <;> rfl

theorem lexicographic_eq_iff {text other : List CharT} :
    traits.lexicographic text other = .eq ↔ List.Forall₂ (fun c d => traits.eq c d = true) text other := by
  unfold lexicographic
  induction text generalizing other with
  | nil => cases other <;> simp [List.compareLex_nil_nil, List.compareLex_nil_cons, List.forall₂_nil_left_iff]
  | cons c text ih =>
    cases other with
    | nil => simp [List.compareLex_cons_nil, List.forall₂_nil_right_iff]
    | cons d other =>
      rw [List.compareLex_cons_cons, Ordering.then_eq_eq, ih, order_eq_iff, List.forall₂_cons]

end CharTraits

end Stdplus
