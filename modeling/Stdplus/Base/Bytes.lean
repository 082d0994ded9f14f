import Mathlib

namespace Stdplus.Base

/-- The order in which a host keeps the bytes of a number. -/
inductive ByteOrder where
  | little
  | big
deriving DecidableEq

/-- The `width` lowest bytes of a value, least significant first. -/
def bytesLE : Nat → Nat → List UInt8
  | 0, _ => []
  | width + 1, value => UInt8.ofNat value :: bytesLE width (value / 256)

def valueLE : List UInt8 → Nat
  | [] => 0
  | byte :: rest => byte.toNat + 256 * valueLE rest

def encode (order : ByteOrder) (width value : Nat) : List UInt8 :=
  match order with
  | .little => bytesLE width value
  | .big => (bytesLE width value).reverse

def decode (order : ByteOrder) (bytes : List UInt8) : Nat :=
  match order with
  | .little => valueLE bytes
  | .big => valueLE bytes.reverse

@[simp] theorem bytesLE_length (width value : Nat) : (bytesLE width value).length = width := by
  induction width generalizing value with
  | zero => rfl
  | succ width ih => simp [bytesLE, ih]

@[simp] theorem encode_length (order : ByteOrder) (width value : Nat) :
    (encode order width value).length = width := by
  cases order <;> simp [encode]

theorem valueLE_bytesLE (width value : Nat) : valueLE (bytesLE width value) = value % 256 ^ width := by
  induction width generalizing value with
  | zero => simp [bytesLE, valueLE, Nat.mod_one]
  | succ width ih =>
    rw [bytesLE, valueLE, ih, Nat.pow_succ', Nat.mod_mul]
    simp

theorem bytesLE_valueLE (bytes : List UInt8) : bytesLE bytes.length (valueLE bytes) = bytes := by
  induction bytes with
  | nil => rfl
  | cons byte bytes ih =>
    have bound := byte.toNat_lt
    have low : UInt8.ofNat (byte.toNat + 256 * valueLE bytes) = byte := by
      apply UInt8.toNat_inj.mp
      simp
    have high : (byte.toNat + 256 * valueLE bytes) / 256 = valueLE bytes := by omega
    rw [List.length_cons, bytesLE, valueLE, low, high, ih]

theorem valueLE_lt (bytes : List UInt8) : valueLE bytes < 256 ^ bytes.length := by
  induction bytes with
  | nil => simp [valueLE]
  | cons byte bytes ih =>
    have bound := byte.toNat_lt
    rw [valueLE, List.length_cons, Nat.pow_succ']
    omega

theorem decode_lt (order : ByteOrder) (bytes : List UInt8) : decode order bytes < 256 ^ bytes.length := by
  cases order
  · exact valueLE_lt bytes
  · simpa [decode] using valueLE_lt bytes.reverse

theorem decode_encode (order : ByteOrder) (width value : Nat) :
    decode order (encode order width value) = value % 256 ^ width := by
  cases order <;> simp [decode, encode, valueLE_bytesLE]

theorem encode_decode (order : ByteOrder) (bytes : List UInt8) :
    encode order bytes.length (decode order bytes) = bytes := by
  cases order
  · exact bytesLE_valueLE bytes
  · have turned := bytesLE_valueLE bytes.reverse
    rw [List.length_reverse] at turned
    simp [encode, decode, turned]

theorem decode_inj (order : ByteOrder) {first second : List UInt8}
    (length : first.length = second.length) (same : decode order first = decode order second) :
    first = second := by
  rw [← encode_decode order first, ← encode_decode order second, length, same]

theorem decode_zeros (order : ByteOrder) (length : Nat) : decode order (List.replicate length 0) = 0 := by
  have zeros : valueLE (List.replicate length 0) = 0 := by
    induction length with
    | zero => rfl
    | succ length ih => simp [List.replicate_succ, valueLE, ih]
  cases order <;> simp [decode, zeros]

theorem decode_eq_zero {order : ByteOrder} {bytes : List UInt8} (zero : decode order bytes = 0) :
    bytes = List.replicate bytes.length 0 := by
  apply decode_inj order (by simp)
  rw [zero, decode_zeros]

variable {α : Type}

/-- Write the values over the items from `offset` on; what does not fit is dropped. -/
def overwrite (items : List α) (offset : Nat) (values : List α) : List α :=
  (items.take offset ++ values ++ items.drop (offset + values.length)).take items.length

@[simp] theorem overwrite_length (items : List α) (offset : Nat) (values : List α) :
    (overwrite items offset values).length = items.length := by
  simp only [overwrite, List.length_take, List.length_append, List.length_drop]
  omega

theorem take_overwrite (items : List α) (offset : Nat) (values : List α)
    (fits : offset + values.length ≤ items.length) :
    (overwrite items offset values).take (offset + values.length) = items.take offset ++ values := by
  rw [overwrite, List.take_take, Nat.min_eq_left fits]
  exact List.take_left' (by simp; omega)

theorem overwrite_append (items : List α) (offset : Nat) (first second : List α)
    (fits : offset + (first ++ second).length ≤ items.length) :
    overwrite (overwrite items offset first) (offset + first.length) second =
      overwrite items offset (first ++ second) := by
  rw [List.length_append] at fits
  have front : (overwrite items offset first).take (offset + first.length) = items.take offset ++ first :=
    take_overwrite items offset first (by omega)
  have behind : (overwrite items offset first).drop (offset + first.length + second.length) =
      items.drop (offset + (first.length + second.length)) := by
    have whole : overwrite items offset first =
        items.take offset ++ first ++ items.drop (offset + first.length) :=
      List.take_of_length_le (by simp only [List.length_append, List.length_take, List.length_drop]; omega)
    have place : (items.take offset ++ first).length = offset + first.length := by
      rw [List.length_append, List.length_take]
      omega
    rw [whole, ← place, List.drop_append, place, List.drop_eq_nil_of_le (by omega), List.nil_append, List.drop_drop]
    congr 1
    omega
  rw [overwrite, front, behind, overwrite_length, overwrite, List.length_append, List.append_assoc (items.take offset)]

theorem overwrite_part (front part rest values : List α) (length : values.length = part.length) :
    overwrite (front ++ part ++ rest) front.length values = front ++ values ++ rest := by
  have dropped : (front ++ part ++ rest).drop (front.length + values.length) = rest := by
    rw [length, ← List.length_append]
    exact List.drop_left
  have taken : (front ++ part ++ rest).take front.length = front := by
    rw [List.append_assoc]
    exact List.take_left
  rw [overwrite, dropped, taken]
  exact List.take_of_length_le (by simp; omega)

end Stdplus.Base
