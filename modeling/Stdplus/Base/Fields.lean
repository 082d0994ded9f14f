import Stdplus.Base.Bytes

namespace Stdplus.Base

/-- The number in the `width` bytes at an offset. -/
def getField (order : ByteOrder) (offset width : Nat) (object : Nat → UInt8) : Nat :=
  decode order ((List.range' offset width).map object)

def setField (order : ByteOrder) (offset width value : Nat) (object : Nat → UInt8) : Nat → UInt8 :=
  fun k =>
    if offset ≤ k ∧ k < offset + width then (encode order width value).getD (k - offset) 0 else object k

theorem getField_lt (order : ByteOrder) (offset width : Nat) (object : Nat → UInt8) :
    getField order offset width object < 256 ^ width := by
  have bound := decode_lt order ((List.range' offset width).map object)
  rwa [List.length_map, List.length_range'] at bound

theorem getField_setField (order : ByteOrder) (offset width value : Nat) (object : Nat → UInt8) :
    getField order offset width (setField order offset width value object) = value % 256 ^ width := by
  have bytes : (List.range' offset width).map (setField order offset width value object) =
      encode order width value := by
    apply List.ext_getElem
    · simp
    · intro k inside _
      have low : k < width := by simpa using inside
      simp [setField, low]
  rw [getField, bytes, decode_encode]

theorem getField_congr (order : ByteOrder) {offset width : Nat} {object other : Nat → UInt8}
    (same : ∀ k, offset ≤ k → k < offset + width → object k = other k) :
    getField order offset width object = getField order offset width other := by
  rw [getField, getField]
  congr 1
  refine List.map_congr_left fun k member => ?_
  rw [List.mem_range'_1] at member
  exact same k member.1 member.2

theorem getField_inj (order : ByteOrder) {offset width : Nat} {object other : Nat → UInt8}
    (same : getField order offset width object = getField order offset width other) {k : Nat}
    (low : offset ≤ k) (high : k < offset + width) : object k = other k := by
  have bytes := decode_inj order (by simp) same
  exact List.map_inj_left.mp bytes k (List.mem_range'_1.mpr ⟨low, high⟩)

theorem getField_setField_apart (order : ByteOrder) {offset width offset' width' : Nat} (value : Nat)
    (object : Nat → UInt8) (apart : offset + width ≤ offset' ∨ offset' + width' ≤ offset) :
    getField order offset width (setField order offset' width' value object) =
      getField order offset width object := by
  refine getField_congr order fun k low high => ?_
  rw [setField, if_neg (by omega)]

private theorem valueLE_append (front back : List UInt8) :
    valueLE (front ++ back) = valueLE front + 256 ^ front.length * valueLE back := by
  induction front with
  | nil => simp [valueLE]
  | cons byte front ih =>
    rw [List.cons_append, valueLE, valueLE, ih, List.length_cons, Nat.pow_succ']
    ring

/-- The bytes of a number without its `low` least significant ones are the number
divided by `256 ^ low`. -/
theorem getField_high (order : ByteOrder) (offset low high : Nat) (object : Nat → UInt8) :
    getField order (match order with | .little => offset + low | .big => offset) high object =
      getField order offset (low + high) object / 256 ^ low := by
  cases order with
  | little =>
    have split : List.range' offset (low + high) =
        List.range' offset low ++ List.range' (offset + low) high := by
      rw [← List.range'_append, Nat.one_mul]
    have bound := valueLE_lt ((List.range' offset low).map object)
    rw [List.length_map, List.length_range'] at bound
    simp only [getField, decode]
    rw [split, List.map_append, valueLE_append, List.length_map, List.length_range',
      Nat.add_mul_div_left _ _ (by positivity), Nat.div_eq_of_lt bound, Nat.zero_add]
  | big =>
    have split : List.range' offset (low + high) =
        List.range' offset high ++ List.range' (offset + high) low := by
      rw [Nat.add_comm low, ← List.range'_append, Nat.one_mul]
    have bound := valueLE_lt ((List.range' (offset + high) low).map object).reverse
    rw [List.length_reverse, List.length_map, List.length_range'] at bound
    simp only [getField, decode]
    rw [split, List.map_append, List.reverse_append, valueLE_append, List.length_reverse,
      List.length_map, List.length_range', Nat.add_mul_div_left _ _ (by positivity),
      Nat.div_eq_of_lt bound, Nat.zero_add]

end Stdplus.Base
