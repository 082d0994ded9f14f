import Stdplus.Net.Addr.Literals
import Stdplus.Net.Addr.Nesting

/-! The loopback and unicast addresses: the tests of the bytes are containment in the
subnets that the comments beside them name. -/

namespace Stdplus.Net

open Stdplus.Base Stdplus.Numeric

def Literal.value {X : Type} (literal : Literal X) (native : ByteOrder) (text : String) : Option X :=
  match literal.compile native (text.toList.map ch) with
  | .ok state => (literal.operator state).bind Except.toOption
  | .error _ => none

namespace In4Addr

def byte (addr : In4Addr) (i : Nat) : UInt8 := addr.s4_addr.getD i 0

def isLoopback (addr : In4Addr) : Bool := addr.byte 0 == 127

def isUnicast (native : ByteOrder) (addr : In4Addr) : Bool :=
  addr.byte 0 != 0 && (addr.byte 0 &&& 0xf0) != 224 && addr.word native != 0xffffffff

end In4Addr

namespace In6Addr

def byte (addr : In6Addr) (i : Nat) : UInt8 := addr.s6_addr.getD i 0

def isLoopback (native : ByteOrder) (addr : In6Addr) : Bool := some addr == Literal.ip6.value native "::1"

def isUnicast (native : ByteOrder) (addr : In6Addr) : Bool :=
  some addr != Literal.ip6.value native "::" && addr.byte 0 != 0xff

end In6Addr

def covered (machine : Machine) (text : String) : Set InAnyAddr :=
  {x | ∃ subnet : SubnetAny, Subnet.fromStr machine.native (text.toList.map ch) = .ok subnet ∧
    x ∈ subnet.members machine}

def Reads (native : ByteOrder) (text : String) (addr : InAnyAddr) (pfx : UInt8) : Prop :=
  (Subnet.fromStr native (text.toList.map ch)).map (fun subnet : SubnetAny => (subnet.addr, subnet.pfx)) =
    .ok (addr, pfx)

instance (native : ByteOrder) (text : String) (addr : InAnyAddr) (pfx : UInt8) :
    Decidable (Reads native text addr pfx) :=
  inferInstanceAs (Decidable (_ = _))

section

variable {machine : Machine} {text : String} {pfx : UInt8}

theorem Reads.members {addr : InAnyAddr} (reads : Reads machine.native text addr pfx) :
    ∃ valid, covered machine text = SubnetAny.members machine ⟨addr, pfx, valid⟩ := by
  rw [Reads] at reads
  cases parsed : (Subnet.fromStr machine.native (text.toList.map ch) : Except Fault SubnetAny) with
  | error fault =>
    rw [parsed] at reads
    cases reads
  | ok subnet =>
    rw [parsed] at reads
    cases reads
    refine ⟨subnet.valid, Set.ext fun x => ?_⟩
    constructor
    · rintro ⟨other, same, inside⟩
      rwa [← Except.ok.inj (parsed.symm.trans same)] at inside
    · exact fun inside => ⟨subnet, parsed, inside⟩

theorem Reads.in4 {own : In4Addr} (reads : Reads machine.native text (.in4 own) pfx) (addr : In4Addr) :
    .in4 addr ∈ covered machine text ↔ Agree pfx.toNat (InAddr.bits own) (InAddr.bits addr) := by
  obtain ⟨valid, same⟩ := reads.members
  obtain ⟨answer, contains, agree⟩ := (Subnet46.sound4 machine).contains ⟨own, pfx, valid⟩ addr
  rw [same, ← agree]
  exact (congrArg (· = some true) contains).to_iff.trans Option.some_inj

theorem Reads.in6 {own : In6Addr} (reads : Reads machine.native text (.in6 own) pfx) (addr : In6Addr) :
    .in6 addr ∈ covered machine text ↔ Agree pfx.toNat (InAddr.bits own) (InAddr.bits addr) := by
  obtain ⟨valid, same⟩ := reads.members
  obtain ⟨answer, contains, agree⟩ := (Subnet46.sound6 machine).contains ⟨own, pfx, valid⟩ addr
  rw [same, ← agree]
  exact (congrArg (· = some true) contains).to_iff.trans Option.some_inj

theorem agree_front (one two : List UInt8) {count : Nat} (few : count ≤ 8) :
    Agree count (netBit one) (netBit two) ↔
      (one.getD 0 0).toNat / 2 ^ (8 - count) = (two.getD 0 0).toNat / 2 ^ (8 - count) := by
  have first (bytes : List UInt8) {k : Nat} (below : k < 8) :
      netBit bytes k = (bytes.getD 0 0).toNat.testBit (7 - k) := by
    rw [netBit, Nat.div_eq_of_lt below, Nat.mod_eq_of_lt below]
  constructor
  · intro agree
    refine Nat.eq_of_testBit_eq fun place => ?_
    rw [Nat.testBit_div_two_pow, Nat.testBit_div_two_pow]
    by_cases low : place < count
    · have at_place := agree (count - 1 - place) (by omega)
      rw [first one (by omega), first two (by omega)] at at_place
      rwa [show 7 - (count - 1 - place) = place + (8 - count) by omega] at at_place
    · have high (byte : UInt8) : byte.toNat.testBit (place + (8 - count)) = false :=
        Nat.testBit_lt_two_pow (byte.toNat_lt.trans_le (Nat.pow_le_pow_right (by decide) (by omega)))
      rw [high, high]
  · intro same k below
    have at_place := congrArg (Nat.testBit · (count - 1 - k)) same
    simp only [Nat.testBit_div_two_pow] at at_place
    rw [first one (by omega), first two (by omega)]
    rwa [show count - 1 - k + (8 - count) = 7 - k by omega] at at_place

theorem In4Addr.agree_all {one two : In4Addr} : Agree 32 (InAddr.bits one) (InAddr.bits two) ↔ one = two := by
  refine ⟨fun agree => ?_, fun same _ _ => by rw [same]⟩
  exact In4Addr.word_bijective.injective (funext fun k => agree k k.isLt)

theorem In6Addr.agree_all {one two : In6Addr} : Agree 128 (InAddr.bits one) (InAddr.bits two) ↔ one = two := by
  refine ⟨fun agree => ?_, fun same _ _ => by rw [same]⟩
  exact In6Addr.word_bijective.injective (funext fun k => agree k k.isLt)

theorem Reads.whole4 {own : In4Addr} (reads : Reads machine.native text (.in4 own) 32) (addr : In4Addr) :
    .in4 addr ∈ covered machine text ↔ addr = own :=
  (reads.in4 addr).trans (In4Addr.agree_all.trans eq_comm)

theorem Reads.whole6 {own : In6Addr} (reads : Reads machine.native text (.in6 own) 128) (addr : In6Addr) :
    .in6 addr ∈ covered machine text ↔ addr = own :=
  (reads.in6 addr).trans (In6Addr.agree_all.trans eq_comm)

theorem Reads.front4 {own : In4Addr} (reads : Reads machine.native text (.in4 own) pfx) (few : pfx.toNat ≤ 8)
    (addr : In4Addr) : .in4 addr ∈ covered machine text ↔
      (addr.byte 0).toNat / 2 ^ (8 - pfx.toNat) = (own.byte 0).toNat / 2 ^ (8 - pfx.toNat) :=
  (reads.in4 addr).trans ((agree_front _ _ few).trans eq_comm)

theorem Reads.front6 {own : In6Addr} (reads : Reads machine.native text (.in6 own) pfx) (few : pfx.toNat ≤ 8)
    (addr : In6Addr) : .in6 addr ∈ covered machine text ↔
      (addr.byte 0).toNat / 2 ^ (8 - pfx.toNat) = (own.byte 0).toNat / 2 ^ (8 - pfx.toNat) :=
  (reads.in6 addr).trans ((agree_front _ _ few).trans eq_comm)

end

/-- The tests of the bytes and the subnets that are meant. -/
structure Classes (machine : Machine) : Prop where
  loopback4 (addr : In4Addr) : addr.isLoopback = true ↔ .in4 addr ∈ covered machine "127.0.0.0/8"
  unicast4 (addr : In4Addr) : addr.isUnicast machine.native = true ↔ .in4 addr ∉ covered machine "0.0.0.0/8" ∧
    .in4 addr ∉ covered machine "224.0.0.0/4" ∧ .in4 addr ∉ covered machine "255.255.255.255/32"
  loopback6 (addr : In6Addr) : addr.isLoopback machine.native = true ↔ .in6 addr ∈ covered machine "::1/128"
  unicast6 (addr : In6Addr) : addr.isUnicast machine.native = true ↔ .in6 addr ∉ covered machine "::/128" ∧
    .in6 addr ∉ covered machine "ff00::/8"

theorem byte_eq_iff (byte other : UInt8) : byte.toNat / 2 ^ 0 = other.toNat / 2 ^ 0 ↔ byte = other := by
  rw [Nat.pow_zero, Nat.div_one, Nat.div_one, UInt8.toNat_inj]

theorem masked_iff (byte : UInt8) : byte.toNat / 2 ^ 4 = 224 / 2 ^ 4 ↔ byte &&& 0xf0 = 224 := by
  have every : ∀ value : Fin 256, value.val / 2 ^ 4 = 224 / 2 ^ 4 ↔ UInt8.ofNat value &&& 0xf0 = 224 := by
    decide +kernel
  have here := every ⟨byte.toNat, byte.toNat_lt⟩
  rwa [UInt8.ofNat_toNat] at here

theorem In4Addr.word_ones (native : ByteOrder) (addr : In4Addr) :
    addr.word native = 0xffffffff ↔ addr = ⟨[255, 255, 255, 255], rfl⟩ := by
  have ones : decode native [255, 255, 255, 255] = 0xffffffff := by cases native <;> decide
  constructor
  · intro same
    have bytes := decode_inj native addr.size (same.trans ones.symm)
    cases addr
    exact (In4Addr.mk.injEq ..).mpr bytes
  · rintro rfl
    exact ones

/-- The classes of addresses are the subnets that the comments name. -/
theorem classes_subnets (machine : Machine) : Classes machine := by
  refine ⟨fun addr => ?_, fun addr => ?_, fun addr => ?_, fun addr => ?_⟩
  · have loopback : Reads machine.native "127.0.0.0/8" (.in4 ⟨[127, 0, 0, 0], rfl⟩) 8 := by
      cases machine.native <;> decide +kernel
    rw [loopback.front4 (by decide), In4Addr.isLoopback, beq_iff_eq]
    exact (byte_eq_iff _ 127).symm
  · have unspecified : Reads machine.native "0.0.0.0/8" (.in4 ⟨[0, 0, 0, 0], rfl⟩) 8 := by
      cases machine.native <;> decide +kernel
    have multicast : Reads machine.native "224.0.0.0/4" (.in4 ⟨[224, 0, 0, 0], rfl⟩) 4 := by
      cases machine.native <;> decide +kernel
    have broadcast : Reads machine.native "255.255.255.255/32" (.in4 ⟨[255, 255, 255, 255], rfl⟩) 32 := by
      cases machine.native <;> decide +kernel
    rw [unspecified.front4 (by decide), multicast.front4 (by decide), broadcast.whole4, In4Addr.isUnicast,
      Bool.and_eq_true, Bool.and_eq_true, bne_iff_ne, bne_iff_ne, bne_iff_ne, and_assoc]
    refine and_congr (not_congr (byte_eq_iff _ 0).symm) (and_congr (not_congr (masked_iff _).symm) ?_)
    exact not_congr (addr.word_ones machine.native)
  · have loopback : Reads machine.native "::1/128" (.in6 ⟨List.replicate 15 0 ++ [1], rfl⟩) 128 := by
      cases machine.native <;> decide +kernel
    have literal : Literal.ip6.value machine.native "::1" = some ⟨List.replicate 15 0 ++ [1], rfl⟩ := by
      cases machine.native <;> decide +kernel
    rw [loopback.whole6, In6Addr.isLoopback, literal, beq_iff_eq, Option.some_inj]
  · have unspecified : Reads machine.native "::/128" (.in6 In6Addr.zero) 128 := by
      cases machine.native <;> decide +kernel
    have multicast : Reads machine.native "ff00::/8" (.in6 ⟨255 :: List.replicate 15 0, rfl⟩) 8 := by
      cases machine.native <;> decide +kernel
    have literal : Literal.ip6.value machine.native "::" = some In6Addr.zero := by
      cases machine.native <;> decide +kernel
    rw [unspecified.whole6, multicast.front6 (by decide), In6Addr.isUnicast, literal, Bool.and_eq_true, bne_iff_ne,
      bne_iff_ne, Ne, Option.some_inj]
    exact and_congr_right fun _ => not_congr (byte_eq_iff _ 255).symm

end Stdplus.Net
