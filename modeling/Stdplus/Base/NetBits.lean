import Stdplus.Base.Bytes

namespace Stdplus.Base

/-- Bit `k`, the first bit of a byte being its greatest one. -/
def netBit (bytes : List UInt8) (k : Nat) : Bool := (bytes.getD (k / 8) 0).toNat.testBit (7 - k % 8)

/-- Only the first `count` bits are kept. -/
def keep (count : Nat) (bits : Nat → Bool) : Nat → Bool := fun k => decide (k < count) && bits k

/-- The same first `count` bits. -/
def Agree (count : Nat) (one two : Nat → Bool) : Prop := ∀ k, k < count → one k = two k

theorem keep_eq_iff {count : Nat} {one two : Nat → Bool} :
    keep count one = keep count two ↔ Agree count one two := by
  constructor
  · intro same k below
    have at_k := congrFun same k
    simpa [keep, below] using at_k
  · intro agree
    funext k
    by_cases below : k < count
    · simp [keep, below, agree k below]
    · simp [keep, below]

theorem Agree.equivalence (count : Nat) : Equivalence (Agree count) where
  refl _ _ _ := rfl
  symm agree k below := (agree k below).symm
  trans agree other k below := (agree k below).trans (other k below)

theorem Agree.mono {fewer count : Nat} {one two : Nat → Bool} (agree : Agree count one two)
    (smaller : fewer ≤ count) : Agree fewer one two :=
  fun k below => agree k (Nat.lt_of_lt_of_le below smaller)

theorem agree_keep (count : Nat) (bits : Nat → Bool) : Agree count (keep count bits) bits := by
  intro k below
  simp [keep, below]

theorem netBit_outside {bytes : List UInt8} {k : Nat} (outside : 8 * bytes.length ≤ k) : netBit bytes k = false := by
  rw [netBit, List.getD_eq_default _ _ (by omega)]
  simp

theorem netBit_zeros (count k : Nat) : netBit (List.replicate count 0) k = false := by
  by_cases inside : k / 8 < count <;> simp [netBit, inside]

theorem netBit_injective {one two : List UInt8} (length : one.length = two.length)
    (same : netBit one = netBit two) : one = two := by
  apply List.ext_getElem length
  intro i left right
  apply UInt8.toNat_inj.mp
  apply Nat.eq_of_testBit_eq
  intro place
  by_cases low : place < 8
  · have at_place := congrFun same (8 * i + (7 - place))
    have byte : (8 * i + (7 - place)) / 8 = i := by omega
    have offset : 7 - (8 * i + (7 - place)) % 8 = place := by omega
    rw [netBit, netBit, byte, offset] at at_place
    simpa [left, right] using at_place
  · have high (byte : UInt8) : byte.toNat.testBit place = false := by
      have bound := byte.toNat_lt
      have power : 2 ^ 8 ≤ 2 ^ place := Nat.pow_le_pow_right (by decide) (by omega)
      exact Nat.testBit_lt_two_pow (by omega)
    rw [high, high]

theorem encode_and (order : ByteOrder) (bytes : List UInt8) (mask : Nat) :
    encode order bytes.length (decode order bytes &&& mask) =
      List.zipWith (· &&& ·) bytes (encode order bytes.length mask) := by
  have little (bytes : List UInt8) (mask : Nat) : bytesLE bytes.length (valueLE bytes &&& mask) =
      List.zipWith (· &&& ·) bytes (bytesLE bytes.length mask) := by
    induction bytes generalizing mask with
    | nil => rfl
    | cons byte bytes ih =>
      have bound := byte.toNat_lt
      have low : UInt8.ofNat (byte.toNat + 256 * valueLE bytes &&& mask) = byte &&& UInt8.ofNat mask := by
        apply UInt8.toNat_inj.mp
        have split := Nat.and_mod_two_pow (a := byte.toNat + 256 * valueLE bytes) (b := mask) (n := 8)
        simp only [UInt8.toNat_ofNat', UInt8.toNat_and]
        rw [split]
        congr 1
        omega
      have high : (byte.toNat + 256 * valueLE bytes &&& mask) / 256 = valueLE bytes &&& mask / 256 := by
        have split := Nat.and_div_two_pow (a := byte.toNat + 256 * valueLE bytes) (b := mask) (n := 8)
        rw [show 2 ^ 8 = 256 by rfl] at split
        rw [split]
        congr 1
        omega
      rw [List.length_cons, bytesLE, valueLE, low, high, ih]
      rfl
  cases order with
  | little => exact little bytes mask
  | big =>
    have turned := little bytes.reverse mask
    rw [List.length_reverse] at turned
    rw [encode, decode, turned, List.reverse_zipWith (by simp), List.reverse_reverse]
    rfl

theorem netBit_zipWith_and {one two : List UInt8} (length : one.length = two.length) (k : Nat) :
    netBit (List.zipWith (· &&& ·) one two) k = (netBit one k && netBit two k) := by
  by_cases inside : k / 8 < one.length
  · have other : k / 8 < two.length := length ▸ inside
    simp [netBit, inside, other, UInt8.toNat_and, Nat.testBit_and]
  · rw [netBit_outside (by simp; omega), netBit_outside (by omega)]
    rfl

theorem bytesLE_getElem? {width value place : Nat} (inside : place < width) :
    (bytesLE width value)[place]? = some (UInt8.ofNat (value / 256 ^ place)) := by
  induction width generalizing value place with
  | zero => omega
  | succ width ih =>
    cases place with
    | zero => simp [bytesLE]
    | succ place =>
      rw [bytesLE, List.getElem?_cons_succ, ih (by omega), Nat.div_div_eq_div_mul, Nat.pow_succ']

theorem netBit_encode_big {width k : Nat} (value : Nat) (inside : k < 8 * width) :
    netBit (encode .big width value) k = value.testBit (8 * width - 1 - k) := by
  have byte : (encode .big width value)[k / 8]? = some (UInt8.ofNat (value / 256 ^ (width - 1 - k / 8))) := by
    rw [encode, List.getElem?_reverse (by rw [bytesLE_length]; omega), bytesLE_length]
    exact bytesLE_getElem? (by omega)
  have power : 256 ^ (width - 1 - k / 8) = 2 ^ (8 * (width - 1 - k / 8)) := by rw [Nat.pow_mul]
  rw [netBit, List.getD_eq_getElem?_getD, byte, Option.getD_some, UInt8.toNat_ofNat', Nat.testBit_mod_two_pow,
    power, Nat.testBit_div_two_pow]
  simp only [show 7 - k % 8 < 8 by omega, decide_true, Bool.true_and]
  congr 1
  omega

theorem netBit_surjective {width : Nat} (bits : Fin (8 * width) → Bool) :
    ∃ bytes : List UInt8, bytes.length = width ∧ ∀ k : Fin (8 * width), netBit bytes k = bits k := by
  refine ⟨encode .big width (Nat.ofBits fun k => bits k.rev), encode_length _ _ _, fun k => ?_⟩
  have place : 8 * width - 1 - k.val < 8 * width := by omega
  rw [netBit_encode_big _ k.isLt, Nat.testBit_ofBits_lt _ _ place]
  refine congrArg bits (Fin.ext ?_)
  rw [Fin.val_rev]
  show 8 * width - (8 * width - 1 - k.val + 1) = k.val
  omega

theorem netBit_part (bytes : List UInt8) (offset : Nat) {count k : Nat} (inside : k < 8 * count) :
    netBit ((bytes.drop offset).take count) k = netBit bytes (8 * offset + k) := by
  have byte : (8 * offset + k) / 8 = offset + k / 8 := by omega
  have place : (8 * offset + k) % 8 = k % 8 := by omega
  simp only [netBit, List.getD_eq_getElem?_getD, byte, place]
  rw [List.getElem?_take_of_lt (by omega), List.getElem?_drop]

/-- Bits of what is written over a part of the bytes are those bits, the others stay. -/
theorem netBit_overwrite {items values : List UInt8} {offset : Nat} (fits : offset + values.length ≤ items.length)
    (k : Nat) : netBit (overwrite items offset values) k =
      if 8 * offset ≤ k ∧ k < 8 * (offset + values.length) then netBit values (k - 8 * offset)
      else netBit items k := by
  have whole : overwrite items offset values =
      items.take offset ++ (values ++ items.drop (offset + values.length)) := by
    rw [overwrite, List.append_assoc]
    exact List.take_of_length_le (by simp; omega)
  have front : (items.take offset).length = offset := by simp; omega
  rw [whole]
  simp only [netBit, List.getD_eq_getElem?_getD]
  by_cases before : k < 8 * offset
  · rw [if_neg (by omega), List.getElem?_append_left (by omega), List.getElem?_take_of_lt (by omega)]
  · rw [List.getElem?_append_right (by omega), front]
    by_cases within : k < 8 * (offset + values.length)
    · have byte : (k - 8 * offset) / 8 = k / 8 - offset := by omega
      have place : (k - 8 * offset) % 8 = k % 8 := by omega
      rw [if_pos ⟨by omega, within⟩, List.getElem?_append_left (by omega), byte, place]
    · rw [if_neg (by omega), List.getElem?_append_right (by omega), List.getElem?_drop]
      congr 4
      omega

end Stdplus.Base
