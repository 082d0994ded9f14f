import Stdplus.Net.Addr.Ether
import Stdplus.Net.Addr.SubnetText

namespace Stdplus.Net

open Stdplus.Base Stdplus.Numeric

theorem byte_confined {v : Nat} (small : v < 256) : Confined (uintToStr decimal v 0) 3 4 := by
  have digits := numeral_length_le decimal 3 (by decide) (show v < 10 ^ 3 by omega)
  have stored := decimalReach_le 2 (by decide) (show v < 100 ^ 2 by omega)
  have length := blockDigits_length 10 2 v (by decide)
  have confined := uintToStr_confined decimal v 0
  change Confined _ _ (max (blockDigits 10 2 v).length 0) at confined
  unfold decimalReach at stored
  exact confined.mono digits (by omega)

theorem hextet_confined {v : Nat} (small : v < 2 ^ 16) : Confined (uintToStr hexadecimal v 0) 4 4 := by
  have digits := numeral_length_le hexadecimal 4 (by decide) (show v < 16 ^ 4 by omega)
  have length := blockDigits_length 16 1 v (by decide)
  have short := (Nat.digits_length_le_iff (b := 16) (k := 4) (by decide) v).mpr (by omega)
  have confined := uintToStr_confined hexadecimal v 0
  change Confined _ _ (max (blockDigits 16 1 v).length 0) at confined
  exact confined.mono digits (by omega)

theorem In4Addr.toStrLoop_confined (turns n : Nat) :
    Confined (In4Addr.toStrLoop turns n) (4 * turns + 3) (4 * turns + 4) := by
  have octet : Confined (uintToStr decimal (n &&& 0xff) 0) 3 4 := byte_confined (by
    have low := Nat.and_le_right (n := n) (m := 0xff)
    omega)
  induction turns generalizing n with
  | zero => exact octet
  | succ turns ih =>
    have rest := ih (n >>> 8) (byte_confined (by
      have low := Nat.and_le_right (n := n >>> 8) (m := 0xff)
      omega))
    exact (octet.seq ((Confined.put (ch '.')).seq rest)).mono (by omega) (by omega)

theorem In4Addr.toStr_confined (native : ByteOrder) (v : In4Addr) :
    Confined (v.toStr native) 15 16 := In4Addr.toStrLoop_confined 3 _

namespace In6Addr

/-- Every group left takes four digits and a separator at most, the last one no separator. -/
theorem toStrLoop_confined (native : ByteOrder) (v : In6Addr) (skip : Run) (i : Nat) :
    Confined (toStrLoop native v skip i) (5 * (8 - i) - 1) (5 * (8 - i) - 1) := by
  rw [toStrLoop]
  split
  · rename_i inside
    split
    · have rest := toStrLoop_confined native v skip (i + (skip.size - 1) + 1)
      have gap := (Confined.put (ch ':')).seq rest
      by_cases first : i = 0
      · rw [if_pos first]
        exact ((Confined.put (ch ':')).seq gap).mono (by omega) (by omega)
      · rw [if_neg first]
        exact (Confined.skip.seq gap).mono (by omega) (by omega)
    · have rest := toStrLoop_confined native v skip (i + 1)
      have small : ntoh native 2 (v.hextet native ⟨i, inside⟩) < 2 ^ 16 := by
        have length := v.pair_length inside
        have below := decode_lt .big (v.pair i)
        rw [length] at below
        exact (ntoh_decode native (by decide) length).symm ▸ below
      have digits := hextet_confined small
      by_cases last : i < 7
      · rw [if_pos last]
        exact (digits.seq ((Confined.put (ch ':')).seq rest)).mono (by omega) (by omega)
      · rw [if_neg last]
        exact (digits.seq (Confined.skip.seq rest)).mono (by omega) (by omega)
  · exact Confined.skip.mono (Nat.zero_le _) (Nat.zero_le _)
termination_by 8 - i

theorem toStr_confined (native : ByteOrder) (v : In6Addr) : Confined (v.toStr native) 39 39 := by
  rw [toStr]
  split
  · have dotted := (v.mappedAddr native).toStr_confined native
    exact ((Confined.copy _).seq dotted).mono (by decide) (by decide)
  · exact toStrLoop_confined native v _ 0

end In6Addr

theorem InAnyAddr.toStr_confined (native : ByteOrder) (v : InAnyAddr) : Confined (v.toStr native) 39 39 := by
  cases v with
  | in4 addr => exact (addr.toStr_confined native).mono (by decide) (by decide)
  | in6 addr => exact addr.toStr_confined native

theorem InAnyAddr.bufSize_eq : InAnyAddr.bufSize = 39 := by
  rw [InAnyAddr.bufSize, In4Addr.bufSize_eq, In6Addr.bufSize_eq]
  rfl

theorem EtherAddr.toStrOctets_high_le (octets : List UInt8) (ptr : Nat) (buffer : OutBuffer CharT) :
    (toStrOctets octets ptr buffer).high ≤ max buffer.high (ptr + 3 * octets.length - 1) := by
  induction octets generalizing ptr buffer with
  | nil => exact Nat.le_max_left _ _
  | cons octet octets ih =>
    have own := (toHex_confined octet).high ptr buffer
    have rest := ih (ptr + 3) (toHex octet ptr buffer).2
    rw [toStrOctets, List.length_cons]
    omega

theorem EtherAddr.toStr_confined (v : EtherAddr) : Confined v.toStr 17 17 where
  forward _ _ := Nat.le_add_right _ _
  stop cell buffer := Nat.le_of_eq (by rw [toStr, bufSize_eq])
  outside cell buffer other away := by
    rw [toStr, toStrOctets_other _ _ _ (by rw [v.size]; omega), toStrSeps_mem, bufSize_eq, if_neg (by omega)]
  high cell buffer := by
    have octets := toStrOctets_high_le v.ether_addr_octet cell (toStrSeps (cell + 17) (cell + 2) buffer)
    rw [toStrSeps_high, v.size] at octets
    rw [toStr, bufSize_eq]
    exact octets.trans (by omega)

theorem Subnet.toStr_confined {Sub Addr : Type} [TextAddr Addr] [Subnet Sub Addr] (native : ByteOrder) {size : Nat}
    (addr : ∀ a : Addr, Confined (TextAddr.toStr native a) size size) (v : Sub) :
    Confined (toStr native v) (size + 5) (size + 5) :=
  ((addr _).seq ((Confined.put (ch '/')).seq (byte_confined (getPfx v).toNat_lt))).mono (by omega) (by omega)

/-- Every address printer stores into the cells of its buffer size only, below and above
which nothing changes, and returns a pointer into them or to their end. -/
theorem printers_confined (native : ByteOrder) :
    (∀ v : In4Addr, Confined (v.toStr native) In4Addr.bufSize In4Addr.bufSize) ∧
      (∀ v : In6Addr, Confined (v.toStr native) In6Addr.bufSize In6Addr.bufSize) ∧
      (∀ v : InAnyAddr, Confined (v.toStr native) InAnyAddr.bufSize InAnyAddr.bufSize) ∧
      (∀ v : EtherAddr, Confined v.toStr EtherAddr.bufSize EtherAddr.bufSize) ∧
      (∀ v : Subnet4, Confined (Subnet.toStr native v) (Subnet.bufSize Subnet4) (Subnet.bufSize Subnet4)) ∧
      (∀ v : Subnet6, Confined (Subnet.toStr native v) (Subnet.bufSize Subnet6) (Subnet.bufSize Subnet6)) ∧
      ∀ v : SubnetAny, Confined (Subnet.toStr native v) (Subnet.bufSize SubnetAny) (Subnet.bufSize SubnetAny) := by
  have subnet4 : Subnet.bufSize Subnet4 = 16 + 5 := by decide +kernel
  have subnet6 : Subnet.bufSize Subnet6 = 39 + 5 := by decide +kernel
  have subnetAny : Subnet.bufSize SubnetAny = 39 + 5 := by decide +kernel
  rw [In4Addr.bufSize_eq, In6Addr.bufSize_eq, InAnyAddr.bufSize_eq, EtherAddr.bufSize_eq, subnet4, subnet6, subnetAny]
  have four (v : In4Addr) : Confined (v.toStr native) 16 16 := (v.toStr_confined native).mono (by decide) (by decide)
  exact ⟨four, In6Addr.toStr_confined native, InAnyAddr.toStr_confined native, EtherAddr.toStr_confined,
    Subnet.toStr_confined native four, Subnet.toStr_confined native (In6Addr.toStr_confined native),
    Subnet.toStr_confined native (InAnyAddr.toStr_confined native)⟩

end Stdplus.Net
