import Stdplus.Base.Fields

/-! The storage of a string buffer: one union of inline characters with their
length, and of the pointer, capacity and tagged length of a dynamic block. -/

namespace Stdplus.Str

open Stdplus.Base

/-- `buf_len` of `StrBufAS`, with an allocator of `allocSize` bytes. -/
def bufLen (charSize objSize allocSize : Nat) : Nat := (objSize - charSize - allocSize) / charSize

/-- `rsvd` of the little-endian `Dyn`. -/
def rsvdSize (charSize bufLen : Nat) : Nat := bufLen * charSize + 1 - 8 - 8 * 2

/-- What the templates are instantiated with, where their `static_assert`s hold. -/
structure Layout where
  order : ByteOrder
  charSize : Nat
  objSize : Nat
  allocSize : Nat
  charSize_pos : 0 < charSize
  charSize_le : charSize ≤ 8
  buf_len_half : bufLen charSize objSize allocSize ≤ (256 ^ charSize - 1) / 2
  little_rsvd : order = .little → 8 + 8 * 2 ≤ bufLen charSize objSize allocSize * charSize + 1
  little_ends : order = .little →
    bufLen charSize objSize allocSize * charSize + charSize =
      (rsvdSize charSize (bufLen charSize objSize allocSize) + 7) / 8 * 8 + 24
  big_size : order = .big → 24 ≤ charSize + bufLen charSize objSize allocSize * charSize

/-- The bytes of the union. -/
abbrev Store := Nat → UInt8

inductive DynField where
  | ptr
  | cap
  | len
deriving DecidableEq

namespace Layout

variable (l : Layout)

/-- `CharT`. -/
abbrev Char := BitVec (8 * l.charSize)

abbrev buf_len : Nat := bufLen l.charSize l.objSize l.allocSize

/-- `offsetof(Inl, len)`. -/
def inlLenAt : Nat :=
  match l.order with
  | .little => l.buf_len * l.charSize
  | .big => 0

/-- `offsetof(Inl, ptr)`. -/
def inlPtrAt : Nat :=
  match l.order with
  | .little => 0
  | .big => l.charSize

/-- Where the pointer-sized fields of the little-endian `Dyn` start. -/
def rsvdEnd : Nat := (rsvdSize l.charSize l.buf_len + 7) / 8 * 8

def dynAt (field : DynField) : Nat :=
  match l.order, field with
  | .little, .ptr => l.rsvdEnd
  | .little, .cap => l.rsvdEnd + 8
  | .little, .len => l.rsvdEnd + 16
  | .big, .len => 0
  | .big, .cap => 8
  | .big, .ptr => 16

def dyn_mask : Nat := 1 <<< (8 * 8 - 1)

def inl_mask : Nat := 1 <<< (8 * l.charSize - 1)

end Layout

namespace Store

variable (l : Layout)

def getDyn (field : DynField) (store : Store) : Nat := getField l.order (l.dynAt field) 8 store

def setDyn (field : DynField) (value : Nat) (store : Store) : Store :=
  setField l.order (l.dynAt field) 8 value store

/-- `store.dyn = other.dyn`; the reserved bytes go with it. -/
def copyDyn (other store : Store) : Store :=
  let rsvd : Store := fun k =>
    if l.order = .little ∧ k < rsvdSize l.charSize l.buf_len then other k else store k
  setDyn l .len (getDyn l .len other) (setDyn l .cap (getDyn l .cap other)
    (setDyn l .ptr (getDyn l .ptr other) rsvd))

def getInlChar (index : Nat) (store : Store) : l.Char :=
  BitVec.ofNat _ (getField l.order (l.inlPtrAt + index * l.charSize) l.charSize store)

def setInlChar (index : Nat) (char : l.Char) (store : Store) : Store :=
  setField l.order (l.inlPtrAt + index * l.charSize) l.charSize char.toNat store

def inlLen (store : Store) : Nat := getField l.order l.inlLenAt l.charSize store

/-- Assigning to the narrow `inl.len` keeps the low bits. -/
def setInlLen (len : Nat) (store : Store) : Store := setField l.order l.inlLenAt l.charSize len store

def isDyn (store : Store) : Bool := inlLen l store &&& l.inl_mask ≠ 0

/-- `dyn.len & ~dyn_mask`. -/
def dynLen (store : Store) : Nat := getDyn l .len store &&& (2 ^ 64 - 1 - Layout.dyn_mask)

def setDynLen (len : Nat) (store : Store) : Store := setDyn l .len (len ||| Layout.dyn_mask) store

def zeroInit (store : Store) : Store := setInlLen l 0 store

variable {l}

theorem getDyn_lt (field : DynField) (store : Store) : getDyn l field store < 2 ^ 64 :=
  getField_lt l.order (l.dynAt field) 8 store

private theorem dynAt_apart {field other : DynField} (differ : field ≠ other) :
    l.dynAt field + 8 ≤ l.dynAt other ∨ l.dynAt other + 8 ≤ l.dynAt field := by
  unfold Layout.dynAt
  cases l.order <;> cases field <;> cases other <;> simp_all

@[simp] theorem getDyn_setDyn (field : DynField) (value : Nat) (store : Store) :
    getDyn l field (setDyn l field value store) = value % 2 ^ 64 :=
  getField_setField l.order (l.dynAt field) 8 value store

theorem getDyn_setDyn_other {field other : DynField} (differ : field ≠ other) (value : Nat) (store : Store) :
    getDyn l field (setDyn l other value store) = getDyn l field store :=
  getField_setField_apart l.order value store (dynAt_apart differ)

@[simp] theorem getDyn_copyDyn (field : DynField) (other store : Store) :
    getDyn l field (copyDyn l other store) = getDyn l field other := by
  have fits := getDyn_lt (l := l) field other
  cases field <;> simpa [copyDyn, getDyn_setDyn_other] using fits

theorem inlLen_eq (store : Store) : inlLen l store = getDyn l .len store / 256 ^ (8 - l.charSize) := by
  have wide : 8 - l.charSize + l.charSize = 8 := by have := l.charSize_le; omega
  have high := getField_high l.order (l.dynAt .len) (8 - l.charSize) l.charSize store
  rw [wide] at high
  rw [getDyn, ← high, inlLen]
  congr 1
  unfold Layout.inlLenAt Layout.dynAt
  cases order : l.order with
  | little =>
    have ends := l.little_ends order
    have small := l.charSize_le
    simp only [Layout.rsvdEnd, Layout.buf_len]
    omega
  | big => rfl

theorem inlLen_lt (store : Store) : inlLen l store < 2 ^ (8 * l.charSize) := by
  have bound := getField_lt l.order l.inlLenAt l.charSize store
  rwa [show (256 : Nat) = 2 ^ 8 from rfl, ← Nat.pow_mul] at bound

private theorem isDyn_top (store : Store) : isDyn l store = true ↔ 2 ^ (8 * l.charSize - 1) ≤ inlLen l store := by
  have small := inlLen_lt (l := l) store
  have width : 8 * l.charSize = 8 * l.charSize - 1 + 1 := by have := l.charSize_pos; omega
  rw [width, Nat.pow_succ] at small
  have bit : (inlLen l store).testBit (8 * l.charSize - 1) = decide (2 ^ (8 * l.charSize - 1) ≤ inlLen l store) := by
    rw [Nat.testBit_eq_decide_div_mod_eq]
    by_cases high : 2 ^ (8 * l.charSize - 1) ≤ inlLen l store
    · have one : inlLen l store / 2 ^ (8 * l.charSize - 1) = 1 :=
        Nat.div_eq_of_lt_le (by omega) (by omega)
      simp [one, high]
    · rw [Nat.div_eq_of_lt (by omega)]
      simp [high]
  rw [isDyn, Layout.inl_mask, Nat.one_shiftLeft, Nat.and_two_pow, bit]
  by_cases high : 2 ^ (8 * l.charSize - 1) ≤ inlLen l store <;> simp [high]

theorem isDyn_iff (store : Store) : isDyn l store = true ↔ 2 ^ 63 ≤ getDyn l .len store := by
  have pos := l.charSize_pos
  have small := l.charSize_le
  have split : (2 : Nat) ^ 63 = 2 ^ (8 * l.charSize - 1) * 256 ^ (8 - l.charSize) := by
    rw [show (256 : Nat) = 2 ^ 8 from rfl, ← Nat.pow_mul, ← Nat.pow_add]
    congr 1
    omega
  rw [isDyn_top, inlLen_eq, Nat.le_div_iff_mul_le (by positivity), ← split]

theorem dynLen_eq (store : Store) : dynLen l store = getDyn l .len store % 2 ^ 63 := by
  rw [dynLen, show 2 ^ 64 - 1 - Layout.dyn_mask = 2 ^ 63 - 1 from rfl, Nat.and_two_pow_sub_one_eq_mod]

theorem dynLen_lt (store : Store) : dynLen l store < 2 ^ 63 := by
  rw [dynLen_eq]
  exact Nat.mod_lt _ (by decide)

theorem setDynLen_eq {len : Nat} (small : len < 2 ^ 63) (store : Store) :
    setDynLen l len store = setDyn l .len (2 ^ 63 + len) store := by
  have tagged : len ||| Layout.dyn_mask = 2 ^ 63 + len := by
    have disjoint := Nat.two_pow_add_eq_or_of_lt small 1
    rw [Nat.or_comm]
    exact disjoint.symm
  rw [setDynLen, tagged]

theorem getDyn_setDynLen {len : Nat} (small : len < 2 ^ 63) (store : Store) :
    getDyn l .len (setDynLen l len store) = 2 ^ 63 + len := by
  rw [setDynLen_eq small, getDyn_setDyn, Nat.mod_eq_of_lt (by omega)]

theorem getDyn_ptr_setDynLen (len : Nat) (store : Store) :
    getDyn l .ptr (setDynLen l len store) = getDyn l .ptr store := by
  rw [setDynLen, getDyn_setDyn_other (by decide)]

theorem getDyn_cap_setDynLen (len : Nat) (store : Store) :
    getDyn l .cap (setDynLen l len store) = getDyn l .cap store := by
  rw [setDynLen, getDyn_setDyn_other (by decide)]

theorem getDyn_len {store : Store} (tagged : isDyn l store = true) :
    getDyn l .len store = 2 ^ 63 + dynLen l store := by
  have top := (isDyn_iff store).mp tagged
  have bound := getDyn_lt (l := l) .len store
  rw [dynLen_eq]
  omega

@[simp] theorem isDyn_setDynLen {len : Nat} (small : len < 2 ^ 63) (store : Store) :
    isDyn l (setDynLen l len store) = true := by
  rw [isDyn_iff, getDyn_setDynLen small]
  exact Nat.le_add_right _ _

@[simp] theorem dynLen_setDynLen {len : Nat} (small : len < 2 ^ 63) (store : Store) :
    dynLen l (setDynLen l len store) = len := by
  rw [dynLen_eq, getDyn_setDynLen small, Nat.add_mod_left, Nat.mod_eq_of_lt small]

theorem buf_len_lt (l : Layout) : l.buf_len < 2 ^ 63 := by
  have half : l.buf_len ≤ (256 ^ l.charSize - 1) / 2 := l.buf_len_half
  have wide : 256 ^ l.charSize ≤ 256 ^ 8 := Nat.pow_le_pow_right (by decide) l.charSize_le
  omega

theorem inlLen_setInlLen {len : Nat} (fits : len ≤ l.buf_len) (store : Store) :
    inlLen l (setInlLen l len store) = len ∧ isDyn l (setInlLen l len store) = false := by
  have half : l.buf_len ≤ (256 ^ l.charSize - 1) / 2 := l.buf_len_half
  have pos : 0 < 256 ^ l.charSize := by positivity
  have same : inlLen l (setInlLen l len store) = len := by
    rw [inlLen, setInlLen, getField_setField, Nat.mod_eq_of_lt (by omega)]
  refine ⟨same, ?_⟩
  have clear : ¬ isDyn l (setInlLen l len store) = true := by
    rw [isDyn_top, same]
    have double : 256 ^ l.charSize = 2 * 2 ^ (8 * l.charSize - 1) := by
      have width : 8 * l.charSize = 8 * l.charSize - 1 + 1 := by have := l.charSize_pos; omega
      rw [show (256 : Nat) = 2 ^ 8 from rfl, ← Nat.pow_mul, width, Nat.pow_succ']
      rfl
    omega
  simpa using clear

private theorem inlChar_apart {index : Nat} (inside : index < l.buf_len) :
    l.inlPtrAt + index * l.charSize + l.charSize ≤ l.inlLenAt ∨
      l.inlLenAt + l.charSize ≤ l.inlPtrAt + index * l.charSize := by
  unfold Layout.inlPtrAt Layout.inlLenAt
  have below : (index + 1) * l.charSize ≤ l.buf_len * l.charSize := Nat.mul_le_mul_right _ inside
  rw [Nat.succ_mul] at below
  cases l.order
  · left
    simpa using below
  · right
    simp

theorem inlLen_setInlChar {index : Nat} (inside : index < l.buf_len) (char : l.Char) (store : Store) :
    inlLen l (setInlChar l index char store) = inlLen l store :=
  getField_setField_apart l.order char.toNat store (inlChar_apart inside).symm

theorem getInlChar_setInlLen {index : Nat} (inside : index < l.buf_len) (len : Nat) (store : Store) :
    getInlChar l index (setInlLen l len store) = getInlChar l index store := by
  rw [getInlChar, setInlLen, getField_setField_apart l.order len store (inlChar_apart inside), getInlChar]

theorem getInlChar_setInlChar (index : Nat) (char : l.Char) (store : Store) :
    getInlChar l index (setInlChar l index char store) = char := by
  have small : char.toNat < 256 ^ l.charSize := by
    rw [show (256 : Nat) = 2 ^ 8 from rfl, ← Nat.pow_mul]
    exact char.isLt
  rw [getInlChar, setInlChar, getField_setField, Nat.mod_eq_of_lt small, BitVec.ofNat_toNat,
    BitVec.setWidth_eq]

theorem getInlChar_setInlChar_other {index other : Nat} (differ : index ≠ other) (char : l.Char)
    (store : Store) : getInlChar l index (setInlChar l other char store) = getInlChar l index store := by
  have apart : l.inlPtrAt + index * l.charSize + l.charSize ≤ l.inlPtrAt + other * l.charSize ∨
      l.inlPtrAt + other * l.charSize + l.charSize ≤ l.inlPtrAt + index * l.charSize := by
    rcases Nat.lt_or_gt_of_ne differ with less | more
    · have below : (index + 1) * l.charSize ≤ other * l.charSize := Nat.mul_le_mul_right _ less
      rw [Nat.succ_mul] at below
      omega
    · have below : (other + 1) * l.charSize ≤ index * l.charSize := Nat.mul_le_mul_right _ more
      rw [Nat.succ_mul] at below
      omega
  rw [getInlChar, setInlChar, getField_setField_apart l.order char.toNat store apart, getInlChar]

end Store

end Stdplus.Str
