import Stdplus.Net.Addr.Subnet

namespace Stdplus.Net

open Stdplus.Base Stdplus.Numeric

/-- `pfxToMask<In4Addr>`. -/
def pfxToMask (machine : Machine) (pfx : UInt8) : In4Addr :=
  In4Addr.ofWord machine.native (addr32Mask machine pfx.toNat)

/-- `std::countr_zero` of a `uint32_t`. -/
def countrZero32 (value : Nat) : Nat := (List.range 32).findIdx value.testBit

def maskToPfx (native : ByteOrder) (mask : In4Addr) : Except Fault UInt8 :=
  let x := ntoh native 4 (mask.word native)
  let complement := 2 ^ 32 - 1 - x
  if complement &&& (complement + 1) % 2 ^ 32 ≠ 0 then .error (.invalidArgument "Invalid netmask")
  else .ok (UInt8.ofNat (32 - countrZero32 x))

/-- The bits in front of the prefix length are ones, the others zeros. -/
def IsMask (mask : In4Addr) (pfx : Nat) : Prop := ∀ k, k < 32 → netBit mask.s4_addr k = decide (k < pfx)

theorem pfxToMask_eq_iff (machine : Machine) {pfx : UInt8} (within : pfx.toNat ≤ 32) (mask : In4Addr) :
    pfxToMask machine pfx = mask ↔ IsMask mask pfx.toNat := by
  have own : IsMask (pfxToMask machine pfx) pfx.toNat := fun k inside =>
    addr32Mask_netBit machine within inside
  constructor
  · rintro rfl
    exact own
  · intro bits
    have bytes : (pfxToMask machine pfx).s4_addr = mask.s4_addr := by
      refine netBit_injective ((pfxToMask machine pfx).size.trans mask.size.symm) (funext fun k => ?_)
      by_cases inside : k < 32
      · rw [own k inside, bits k inside]
      · rw [netBit_outside (by rw [In4Addr.size]; omega), netBit_outside (by rw [In4Addr.size]; omega)]
    cases mask
    exact (In4Addr.mk.injEq ..).mpr bytes

/-- In host order on every host the word of an address is that of its bits in network order. -/
theorem ntoh_word_testBit (native : ByteOrder) (mask : In4Addr) {k : Nat} (inside : k < 32) :
    netBit mask.s4_addr k = (ntoh native 4 (mask.word native)).testBit (31 - k) := by
  have back := encode_decode .big mask.s4_addr
  rw [mask.size] at back
  rw [In4Addr.word, ntoh_decode native (by decide) mask.size]
  calc netBit mask.s4_addr k = netBit (encode .big 4 (decode .big mask.s4_addr)) k := by rw [back]
    _ = _ := netBit_encode_big _ (by omega)

theorem ntoh_word_lt (native : ByteOrder) (mask : In4Addr) : ntoh native 4 (mask.word native) < 2 ^ 32 := by
  have below := decode_lt .big mask.s4_addr
  rw [mask.size] at below
  rwa [In4Addr.word, ntoh_decode native (by decide) mask.size]

theorem isMask_iff (native : ByteOrder) (mask : In4Addr) {pfx : Nat} (within : pfx ≤ 32) :
    IsMask mask pfx ↔ ntoh native 4 (mask.word native) = 2 ^ 32 - 2 ^ (32 - pfx) := by
  have small := ntoh_word_lt native mask
  have power : 2 ^ (32 - pfx) ≤ 2 ^ 32 := Nat.pow_le_pow_right (by decide) (by omega)
  have positive : 0 < 2 ^ (32 - pfx) := Nat.pow_pos (by decide)
  have ones (place : Nat) :
      (2 ^ 32 - 2 ^ (32 - pfx)).testBit place = decide (place < 32 ∧ ¬ place < 32 - pfx) := by
    have bit := Nat.testBit_two_pow_sub_succ (x := 2 ^ (32 - pfx) - 1) (n := 32) (by omega) place
    rwa [Nat.sub_add_cancel positive, Nat.testBit_two_pow_sub_one, ← decide_not, ← Bool.decide_and] at bit
  constructor
  · intro bits
    apply Nat.eq_of_testBit_eq
    intro place
    rw [ones]
    by_cases low : place < 32
    · have bit := bits (31 - place) (by omega)
      rw [ntoh_word_testBit native mask (by omega), show 31 - (31 - place) = place by omega] at bit
      rw [bit, decide_eq_decide]
      omega
    · have power : 2 ^ 32 ≤ 2 ^ place := Nat.pow_le_pow_right (by decide) (by omega)
      rw [Nat.testBit_lt_two_pow (by omega)]
      simp [low]
  · intro word k inside
    rw [ntoh_word_testBit native mask inside, word, ones, decide_eq_decide]
    omega

/-- The carry through the ones of the complement leaves none of them exactly where they are
all at the end. -/
theorem complement_carry {x : Nat} (small : x < 2 ^ 32) :
    (2 ^ 32 - 1 - x) &&& (2 ^ 32 - 1 - x + 1) % 2 ^ 32 = 0 ↔ ∃ count, count ≤ 32 ∧ x = 2 ^ 32 - 2 ^ count := by
  have next : 2 ^ 32 - 1 - x + 1 = 2 ^ 32 - x := by omega
  rw [next]
  by_cases zero : x = 0
  · subst zero
    exact iff_of_true (by decide) ⟨32, by decide, by decide⟩
  · have power := Nat.and_sub_one_eq_zero_iff_isPowerOfTwo (n := 2 ^ 32 - x) (by omega)
    rw [Nat.mod_eq_of_lt (by omega), Nat.and_comm, show 2 ^ 32 - 1 - x = 2 ^ 32 - x - 1 by omega, power]
    constructor
    · rintro ⟨count, same⟩
      have few : count < 32 := (Nat.pow_lt_pow_iff_right (by decide : 1 < 2)).mp (by omega)
      exact ⟨count, by omega, by omega⟩
    · rintro ⟨count, few, rfl⟩
      have power : 2 ^ count ≤ 2 ^ 32 := Nat.pow_le_pow_right (by decide) few
      exact ⟨count, by omega⟩

private theorem countrZero32_ones : ∀ count, count < 33 → countrZero32 (2 ^ 32 - 2 ^ count) = count := by
  decide +kernel

/-- The prefix length is read off a mask, and nothing but a mask is taken for one. -/
theorem maskToPfx_ok_iff (native : ByteOrder) (mask : In4Addr) (pfx : UInt8) :
    maskToPfx native mask = .ok pfx ↔ pfx.toNat ≤ 32 ∧ IsMask mask pfx.toNat := by
  have carry := complement_carry (ntoh_word_lt native mask)
  rw [maskToPfx]
  constructor
  · intro read
    split at read
    · cases read
    · rename_i clear
      obtain ⟨count, few, word⟩ := carry.mp (not_not.mp clear)
      have length : pfx.toNat = 32 - count := by
        rw [word, countrZero32_ones count (by omega), Except.ok.injEq] at read
        rw [← read, UInt8.toNat_ofNat', Nat.mod_eq_of_lt (by omega)]
      refine ⟨by omega, (isMask_iff native mask (by omega)).mpr ?_⟩
      rw [word, length]
      congr 2
      omega
  · rintro ⟨within, bits⟩
    have word := (isMask_iff native mask within).mp bits
    have clear := carry.mpr ⟨32 - pfx.toNat, by omega, word⟩
    rw [if_neg (not_not.mpr clear), word, countrZero32_ones _ (by omega), Nat.sub_sub_self within, UInt8.ofNat_toNat]

/-- A netmask and its prefix length are inverse to each other, and what is no mask is
refused, on every machine. -/
theorem masks_inverse (machine : Machine) (mask : In4Addr) :
    (∀ pfx : UInt8, maskToPfx machine.native mask = .ok pfx ↔ pfx.toNat ≤ 32 ∧ pfxToMask machine pfx = mask) ∧
      ((∃ pfx, maskToPfx machine.native mask = .ok pfx) ↔ ∃ pfx ≤ 32, IsMask mask pfx) ∧
      ((¬ ∃ pfx ≤ 32, IsMask mask pfx) →
        maskToPfx machine.native mask = .error (.invalidArgument "Invalid netmask")) := by
  have returns : (∃ pfx, maskToPfx machine.native mask = .ok pfx) ↔ ∃ pfx ≤ 32, IsMask mask pfx := by
    constructor
    · rintro ⟨pfx, read⟩
      exact ⟨pfx.toNat, (maskToPfx_ok_iff machine.native mask pfx).mp read⟩
    · rintro ⟨pfx, within, bits⟩
      have byte : (UInt8.ofNat pfx).toNat = pfx := by
        rw [UInt8.toNat_ofNat', Nat.mod_eq_of_lt (by omega)]
      exact ⟨UInt8.ofNat pfx, (maskToPfx_ok_iff machine.native mask _).mpr (by rw [byte]; exact ⟨within, bits⟩)⟩
  refine ⟨fun pfx => ?_, returns, fun scattered => ?_⟩
  · rw [maskToPfx_ok_iff]
    exact and_congr_right fun within => (pfxToMask_eq_iff machine within mask).symm
  · rw [← returns] at scattered
    rw [maskToPfx] at scattered ⊢
    split
    · rfl
    · rename_i clear
      exact absurd ⟨_, if_neg clear⟩ scattered

end Stdplus.Net
