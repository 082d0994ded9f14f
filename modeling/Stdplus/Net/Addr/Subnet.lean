import Stdplus.Base.NetBits
import Stdplus.Net.Addr.In6Print

namespace Stdplus.Net

open Stdplus.Base Stdplus.Numeric

/-- A machine by its byte order and by what it makes of `v << count` on a `uint32_t`, which
the language leaves open for counts outside of 0 to 31. -/
structure Machine where
  native : ByteOrder
  shl : Nat → Int → Nat
  exact : ∀ (v count : Nat), count < 32 → shl v count = (v <<< count) % 2 ^ 32

/-- A machine that takes the count modulo 32. -/
def Machine.modular (native : ByteOrder) : Machine where
  native := native
  shl v count := v <<< (count % 32).toNat % 2 ^ 32
  exact v count small := by
    have same : ((count : Int) % 32).toNat = count := by omega
    rw [same]

def addr32Mask (machine : Machine) (pfx : Int) : Nat :=
  let v := machine.shl (2 ^ 32 - 1) (32 - pfx)
  hton machine.native 4 ((if 0 < pfx then 2 ^ 32 - 1 else 0) &&& v)

def In4Addr.addrToSubnet (machine : Machine) (a : In4Addr) (pfx : Nat) : In4Addr :=
  In4Addr.ofWord machine.native (a.word machine.native &&& addr32Mask machine pfx)

/-- The recursion over the words; `none` where it would index outside of the address. -/
def In6Addr.addrToSubnet (machine : Machine) (a : In6Addr) (pfx i s : Nat) (ret : In6Addr) : Option In6Addr :=
  if inside : i < 4 then
    if s + 32 < pfx then
      addrToSubnet machine a pfx (i + 1) (s + 32)
        (ret.setWord machine.native ⟨i, inside⟩ (a.word machine.native ⟨i, inside⟩))
    else
      some (ret.setWord machine.native ⟨i, inside⟩
        (a.word machine.native ⟨i, inside⟩ &&& addr32Mask machine ((pfx : Int) - s)))
  else
    none
termination_by 4 - i

/-- An address that subnets are made of. -/
class InAddr (Addr : Type) where
  bytes : Addr → List UInt8
  addrBits : Nat
  addrToSubnet : Machine → Addr → Nat → Option Addr

instance : InAddr In4Addr where
  bytes := In4Addr.s4_addr
  addrBits := 32
  addrToSubnet machine a pfx := some (a.addrToSubnet machine pfx)

instance : InAddr In6Addr where
  bytes := In6Addr.s6_addr
  addrBits := 128
  addrToSubnet machine a pfx := a.addrToSubnet machine pfx 0 0 In6Addr.zero

/-- `throw std::invalid_argument(...)` of `invalidSubnetPfx`. -/
def invalidSubnetPfx (pfx : Nat) : Fault := .invalidArgument s!"Invalid subnet prefix {pfx}"

structure Subnet46 (Addr : Type) [InAddr Addr] where
  addr : Addr
  pfx : UInt8
  valid : pfx.toNat ≤ InAddr.addrBits Addr

abbrev Subnet4 := Subnet46 In4Addr
abbrev Subnet6 := Subnet46 In6Addr

namespace Subnet46

variable {Addr : Type} [InAddr Addr]

def make (addr : Addr) (pfx : UInt8) : Except Fault (Subnet46 Addr) :=
  if valid : pfx.toNat ≤ InAddr.addrBits Addr then .ok ⟨addr, pfx, valid⟩ else .error (invalidSubnetPfx pfx.toNat)

def network (machine : Machine) (subnet : Subnet46 Addr) : Option Addr :=
  InAddr.addrToSubnet machine subnet.addr subnet.pfx.toNat

def contains [DecidableEq Addr] (machine : Machine) (subnet : Subnet46 Addr) (addr : Addr) : Option Bool := do
  let own ← InAddr.addrToSubnet machine subnet.addr subnet.pfx.toNat
  let other ← InAddr.addrToSubnet machine addr subnet.pfx.toNat
  some (own = other)

end Subnet46

namespace InAnyAddr

/-- `addrBits` of the address inside. -/
def addrBits : InAnyAddr → Nat
  | .in4 _ => InAddr.addrBits In4Addr
  | .in6 _ => InAddr.addrBits In6Addr

def addrToSubnet (machine : Machine) (a : InAnyAddr) (pfx : Nat) : Option InAnyAddr :=
  match a with
  | .in4 av => (InAddr.addrToSubnet machine av pfx).map .in4
  | .in6 av => (InAddr.addrToSubnet machine av pfx).map .in6

end InAnyAddr

/-- The overload for two addresses of any types. -/
def subnetContainsOther {Left Right : Type} (_ : Left) (_ : Right) (_ : Nat) : Option Bool := some false

/-- The overload for two addresses of one type. -/
def subnetContainsSame {Addr : Type} [InAddr Addr] [DecidableEq Addr] (machine : Machine) (l r : Addr) (pfx : Nat) :
    Option Bool := do
  let own ← InAddr.addrToSubnet machine l pfx
  let other ← InAddr.addrToSubnet machine r pfx
  some (own = other)

/-- The overload for an `InAnyAddr`, with an `In4Addr`. -/
def subnetContains4 (machine : Machine) (l : InAnyAddr) (r : In4Addr) (pfx : Nat) : Option Bool :=
  match l with
  | .in4 v => subnetContainsSame machine v r pfx
  | .in6 v => subnetContainsOther v r pfx

/-- The overload for an `InAnyAddr`, with an `In6Addr`. -/
def subnetContains6 (machine : Machine) (l : InAnyAddr) (r : In6Addr) (pfx : Nat) : Option Bool :=
  match l with
  | .in4 v => subnetContainsOther v r pfx
  | .in6 v => subnetContainsSame machine v r pfx

structure SubnetAny where
  addr : InAnyAddr
  pfx : UInt8
  valid : pfx.toNat ≤ addr.addrBits

namespace SubnetAny

def make (addr : InAnyAddr) (pfx : UInt8) : Except Fault SubnetAny :=
  if valid : pfx.toNat ≤ addr.addrBits then .ok ⟨addr, pfx, valid⟩ else .error (invalidSubnetPfx pfx.toNat)

def of4 (o : Subnet4) : SubnetAny := ⟨.in4 o.addr, o.pfx, o.valid⟩
def of6 (o : Subnet6) : SubnetAny := ⟨.in6 o.addr, o.pfx, o.valid⟩

def network (machine : Machine) (subnet : SubnetAny) : Option InAnyAddr :=
  subnet.addr.addrToSubnet machine subnet.pfx.toNat

def contains4 (machine : Machine) (subnet : SubnetAny) (addr : In4Addr) : Option Bool :=
  subnetContains4 machine subnet.addr addr subnet.pfx.toNat

def contains6 (machine : Machine) (subnet : SubnetAny) (addr : In6Addr) : Option Bool :=
  subnetContains6 machine subnet.addr addr subnet.pfx.toNat

def contains (machine : Machine) (subnet : SubnetAny) (addr : InAnyAddr) : Option Bool :=
  match addr with
  | .in4 v => subnet.contains4 machine v
  | .in6 v => subnet.contains6 machine v

end SubnetAny

def InAddr.bits {Addr : Type} [InAddr Addr] (addr : Addr) : Nat → Bool := netBit (InAddr.bytes addr)

/-- What subnets of one kind of address do on a machine, in terms of the bits. -/
structure Subnet46.Sound (machine : Machine) (Addr : Type) [InAddr Addr] [DecidableEq Addr] : Prop where
  network (subnet : Subnet46 Addr) : ∃ addr, subnet.network machine = some addr ∧
    ∀ k, InAddr.bits addr k = if k < subnet.pfx.toNat then InAddr.bits subnet.addr k else false
  contains (subnet : Subnet46 Addr) (x : Addr) : ∃ answer, subnet.contains machine x = some answer ∧
    (answer = true ↔ Agree subnet.pfx.toNat (InAddr.bits subnet.addr) (InAddr.bits x))
  equivalence (pfx : UInt8) (valid : pfx.toNat ≤ InAddr.addrBits Addr) :
    Equivalence fun a x : Addr => Subnet46.contains machine ⟨a, pfx, valid⟩ x = some true
  unchanged (subnet : Subnet46 Addr) (addr : Addr) : subnet.network machine = some addr →
    ∀ x, Subnet46.contains machine ⟨addr, subnet.pfx, subnet.valid⟩ x = subnet.contains machine x
  smaller (subnet : Subnet46 Addr) (pfx : UInt8) (fewer : pfx.toNat ≤ subnet.pfx.toNat) (x : Addr) :
    subnet.contains machine x = some true →
      Subnet46.contains machine ⟨subnet.addr, pfx, Nat.le_trans fewer subnet.valid⟩ x = some true

/-- Subnets of either family are those of the family of their address, and hold no address
of the other one. -/
structure SubnetAny.Sound (machine : Machine) : Prop where
  made4 (addr : In4Addr) (pfx : UInt8) : SubnetAny.make (.in4 addr) pfx = (Subnet46.make addr pfx).map of4
  made6 (addr : In6Addr) (pfx : UInt8) : SubnetAny.make (.in6 addr) pfx = (Subnet46.make addr pfx).map of6
  families (subnet : SubnetAny) : (∃ o : Subnet4, subnet = of4 o) ∨ ∃ o : Subnet6, subnet = of6 o
  network4 (o : Subnet4) : (of4 o).network machine = (o.network machine).map .in4
  network6 (o : Subnet6) : (of6 o).network machine = (o.network machine).map .in6
  contains4 (o : Subnet4) (x : In4Addr) :
    (of4 o).contains machine (.in4 x) = o.contains machine x ∧ (of4 o).contains4 machine x = o.contains machine x
  contains6 (o : Subnet6) (x : In6Addr) :
    (of6 o).contains machine (.in6 x) = o.contains machine x ∧ (of6 o).contains6 machine x = o.contains machine x
  across4 (o : Subnet4) (x : In6Addr) :
    (of4 o).contains machine (.in6 x) = some false ∧ (of4 o).contains6 machine x = some false
  across6 (o : Subnet6) (x : In4Addr) :
    (of6 o).contains machine (.in4 x) = some false ∧ (of6 o).contains4 machine x = some false

/-- Whatever the shift by 32 yields, the mask of a prefix has ones exactly in front. -/
theorem addr32Mask_netBit (machine : Machine) {pfx k : Nat} (within : pfx ≤ 32) (inside : k < 32) :
    netBit (encode machine.native 4 (addr32Mask machine pfx)) k = decide (k < pfx) := by
  rw [addr32Mask, encode_hton machine.native (by decide), netBit_encode_big _ (by omega)]
  by_cases positive : 0 < pfx
  · have count : (32 : Int) - pfx = (32 - pfx : Nat) := by omega
    rw [if_pos (by omega), count, machine.exact _ _ (by omega), Nat.testBit_and, Nat.testBit_two_pow_sub_one,
      Nat.testBit_mod_two_pow, Nat.testBit_shiftLeft, Nat.testBit_two_pow_sub_one]
    by_cases early : k < pfx
    · simp [early]
      omega
    · simp [early]
      omega
  · rw [if_neg (by omega), Nat.zero_and, Nat.zero_testBit]
    simp
    omega

theorem masked_netBit (machine : Machine) {part : List UInt8} (length : part.length = 4) {pfx : Nat}
    (within : pfx ≤ 32) : netBit (encode machine.native 4 (decode machine.native part &&& addr32Mask machine pfx)) =
      keep pfx (netBit part) := by
  funext k
  have bytes := encode_and machine.native part (addr32Mask machine pfx)
  rw [length] at bytes
  rw [bytes, netBit_zipWith_and (by simp [length])]
  by_cases inside : k < 32
  · rw [addr32Mask_netBit machine within inside, keep, Bool.and_comm]
  · have outside : netBit part k = false := netBit_outside (by omega)
    rw [keep, outside, Bool.false_and, Bool.and_false]

theorem In4Addr.addrToSubnet_netBit (machine : Machine) (a : In4Addr) {pfx : Nat} (within : pfx ≤ 32) :
    netBit (a.addrToSubnet machine pfx).s4_addr = keep pfx (netBit a.s4_addr) :=
  masked_netBit machine a.size within

namespace In6Addr

private theorem setWord_netBit (native : ByteOrder) {a ret : In6Addr} {i : Fin 4} {v count : Nat} (few : count ≤ 32)
    (before : netBit ret.s6_addr = keep (32 * i) (netBit a.s6_addr))
    (word : netBit (encode native 4 v) = keep count (netBit ((a.s6_addr.drop (4 * i)).take 4))) :
    netBit (ret.setWord native i v).s6_addr = keep (32 * i + count) (netBit a.s6_addr) := by
  have place := i.isLt
  funext k
  rw [setWord, netBit_overwrite (by rw [ret.size, encode_length]; omega), encode_length, before, word]
  by_cases here : 8 * (4 * i.val) ≤ k ∧ k < 8 * (4 * i.val + 4)
  · have part := netBit_part a.s6_addr (4 * i) (show k - 8 * (4 * i.val) < 8 * 4 by omega)
    rw [if_pos here, keep, part, Nat.add_sub_cancel' here.1, keep]
    congr 1
    simp only [decide_eq_decide]
    omega
  · rw [if_neg here, keep, keep]
    congr 1
    simp only [decide_eq_decide]
    omega

/-- The recursion over the words keeps the bits of the words in front and those of the last
word that are left of the prefix. -/
theorem addrToSubnet_netBit (machine : Machine) (a : In6Addr) {pfx i : Nat} {ret : In6Addr} (inside : i < 4)
    (within : pfx ≤ 128) (reached : 32 * i ≤ pfx) (before : netBit ret.s6_addr = keep (32 * i) (netBit a.s6_addr)) :
    ∃ n, a.addrToSubnet machine pfx i (32 * i) ret = some n ∧ netBit n.s6_addr = keep pfx (netBit a.s6_addr) := by
  have length : ((a.s6_addr.drop (4 * i)).take 4).length = 4 := by
    rw [List.length_take, List.length_drop, a.size]
    omega
  rw [addrToSubnet, dif_pos inside]
  split
  · rename_i more
    have whole : netBit (encode machine.native 4 (a.word machine.native ⟨i, inside⟩)) =
        keep 32 (netBit ((a.s6_addr.drop (4 * i)).take 4)) := by
      have back := encode_decode machine.native ((a.s6_addr.drop (4 * i)).take 4)
      rw [length] at back
      rw [word, back]
      funext k
      by_cases early : k < 32
      · simp [keep, early]
      · simp [keep, early, netBit_outside (show 8 * ((a.s6_addr.drop (4 * i)).take 4).length ≤ k by omega)]
    have next := setWord_netBit machine.native (i := ⟨i, inside⟩) (Nat.le_refl 32) before whole
    have turn : 32 * i + 32 = 32 * (i + 1) := by omega
    rw [turn]
    refine addrToSubnet_netBit machine a (by omega) within (by omega) ?_
    rw [← turn]
    exact next
  · rename_i last
    refine ⟨_, rfl, ?_⟩
    have rest : (pfx : Int) - (32 * i : Nat) = (pfx - 32 * i : Nat) := by omega
    have masked := masked_netBit machine length (show pfx - 32 * i ≤ 32 by omega)
    rw [← rest] at masked
    have next := setWord_netBit machine.native (i := ⟨i, inside⟩) (show pfx - 32 * i ≤ 32 by omega) before masked
    rwa [show 32 * i + (pfx - 32 * i) = pfx by omega] at next
termination_by 4 - i

end In6Addr

namespace Subnet46

section

variable {machine : Machine} {Addr : Type} [InAddr Addr] [DecidableEq Addr]
  (injective : ∀ one two : Addr, InAddr.bits one = InAddr.bits two → one = two)
  (masks : ∀ (a : Addr) (pfx : Nat), pfx ≤ InAddr.addrBits Addr →
    ∃ addr, InAddr.addrToSubnet machine a pfx = some addr ∧ InAddr.bits addr = keep pfx (InAddr.bits a))

include injective masks

private theorem contains_eq (subnet : Subnet46 Addr) (x : Addr) : ∃ answer, subnet.contains machine x = some answer ∧
    (answer = true ↔ Agree subnet.pfx.toNat (InAddr.bits subnet.addr) (InAddr.bits x)) := by
  obtain ⟨own, ownMasked, ownBits⟩ := masks subnet.addr subnet.pfx.toNat subnet.valid
  obtain ⟨other, otherMasked, otherBits⟩ := masks x subnet.pfx.toNat subnet.valid
  refine ⟨decide (own = other), ?_, ?_⟩
  · rw [contains, ownMasked, otherMasked]
    rfl
  · rw [decide_eq_true_iff, ← keep_eq_iff, ← ownBits, ← otherBits]
    exact ⟨congrArg InAddr.bits, injective own other⟩

private theorem contains_iff (subnet : Subnet46 Addr) (x : Addr) : subnet.contains machine x = some true ↔
    Agree subnet.pfx.toNat (InAddr.bits subnet.addr) (InAddr.bits x) := by
  obtain ⟨answer, same, agree⟩ := contains_eq injective masks subnet x
  rw [same, Option.some.injEq, agree]

private theorem contains_congr {one two : Subnet46 Addr} {x : Addr}
    (same : one.contains machine x = some true ↔ two.contains machine x = some true) :
    one.contains machine x = two.contains machine x := by
  obtain ⟨first, own, _⟩ := contains_eq injective masks one x
  obtain ⟨second, other, _⟩ := contains_eq injective masks two x
  rw [own, other, Option.some.injEq, Option.some.injEq] at same
  rw [own, other, Bool.eq_iff_iff.mpr same]

theorem Sound.of_masks : Sound machine Addr where
  network subnet := by
    obtain ⟨addr, masked, bits⟩ := masks subnet.addr subnet.pfx.toNat subnet.valid
    refine ⟨addr, masked, fun k => ?_⟩
    rw [bits, keep]
    by_cases below : k < subnet.pfx.toNat <;> simp [below]
  contains := contains_eq injective masks
  equivalence pfx valid := by
    have agree := Agree.equivalence pfx.toNat
    have contained (a x : Addr) := contains_iff injective masks ⟨a, pfx, valid⟩ x
    refine ⟨fun a => ?_, fun {a x} => ?_, fun {a x y} => ?_⟩
    · exact (contained a a).mpr (agree.refl _)
    · rw [contained, contained]
      exact agree.symm
    · rw [contained, contained, contained]
      exact agree.trans
  unchanged subnet addr masked x := by
    obtain ⟨same, network, bits⟩ := masks subnet.addr subnet.pfx.toNat subnet.valid
    obtain rfl : same = addr := Option.some.inj (network.symm.trans masked)
    apply contains_congr injective masks
    rw [contains_iff injective masks, contains_iff injective masks, bits]
    have kept := agree_keep subnet.pfx.toNat (InAddr.bits subnet.addr)
    have agree := Agree.equivalence subnet.pfx.toNat
    exact ⟨fun contained => agree.trans (agree.symm kept) contained, fun contained => agree.trans kept contained⟩
  smaller subnet pfx fewer x contained := by
    rw [contains_iff injective masks] at contained ⊢
    exact contained.mono fewer

end

theorem sound4 (machine : Machine) : Sound machine In4Addr := by
  apply Sound.of_masks
  · intro one two same
    have bytes := netBit_injective (one.size.trans two.size.symm) same
    cases one
    exact (In4Addr.mk.injEq ..).mpr bytes
  · intro a pfx within
    exact ⟨_, rfl, a.addrToSubnet_netBit machine within⟩

theorem sound6 (machine : Machine) : Sound machine In6Addr := by
  apply Sound.of_masks
  · intro one two same
    have bytes := netBit_injective (one.size.trans two.size.symm) same
    cases one
    exact (In6Addr.mk.injEq ..).mpr bytes
  · intro a pfx within
    refine a.addrToSubnet_netBit machine (by decide) within (by omega) ?_
    funext k
    rw [In6Addr.zero, netBit_zeros]
    simp [keep]

end Subnet46

theorem SubnetAny.sound (machine : Machine) : Sound machine where
  made4 addr pfx := by
    by_cases valid : pfx.toNat ≤ InAddr.addrBits In4Addr
    · rw [Subnet46.make, dif_pos valid]
      exact dif_pos valid
    · rw [Subnet46.make, dif_neg valid]
      exact dif_neg valid
  made6 addr pfx := by
    by_cases valid : pfx.toNat ≤ InAddr.addrBits In6Addr
    · rw [Subnet46.make, dif_pos valid]
      exact dif_pos valid
    · rw [Subnet46.make, dif_neg valid]
      exact dif_neg valid
  families subnet := by
    obtain ⟨addr, pfx, valid⟩ := subnet
    cases addr with
    | in4 v => exact .inl ⟨⟨v, pfx, valid⟩, rfl⟩
    | in6 v => exact .inr ⟨⟨v, pfx, valid⟩, rfl⟩
  network4 _ := rfl
  network6 _ := rfl
  contains4 _ _ := ⟨rfl, rfl⟩
  contains6 _ _ := ⟨rfl, rfl⟩
  across4 _ _ := ⟨rfl, rfl⟩
  across6 _ _ := ⟨rfl, rfl⟩

/-- The arithmetic of subnets of both families, and that of either agrees with it. -/
theorem subnets_sound (machine : Machine) : Subnet46.Sound machine In4Addr ∧ Subnet46.Sound machine In6Addr ∧
    SubnetAny.Sound machine :=
  ⟨Subnet46.sound4 machine, Subnet46.sound6 machine, SubnetAny.sound machine⟩

example : (In4Addr.addrToSubnet (Machine.modular .little) ⟨[255, 255, 255, 255], rfl⟩ 17).s4_addr =
    [255, 255, 128, 0] := by decide +kernel

end Stdplus.Net
