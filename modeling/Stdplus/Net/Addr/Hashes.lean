import Stdplus.Hash.Multi
import Stdplus.Net.Addr.Ether
import Stdplus.Net.Addr.Nesting
import Stdplus.Net.Addr.SubnetText

namespace Stdplus.Net

open Stdplus.Base Stdplus.Hash

/-- `std::hash` of the integral types and of the variant of addresses, on a `std::size_t` of
`w` bits. -/
structure StdHash (w : Nat) where
  u32 : UInt32 → BitVec w
  u8 : UInt8 → BitVec w
  inAny : InAnyAddr → BitVec w

variable {w : Nat} (std : StdHash w) (native : ByteOrder)

def In4Addr.hash (addr : In4Addr) : BitVec w := hashMulti [std.u32 (UInt32.ofNat (addr.word native))]

namespace In6Addr

/-- `s6_addr32`. -/
def s6_addr32 (addr : In6Addr) : List UInt32 := (List.finRange 4).map fun i => UInt32.ofNat (addr.word native i)

/-- The bytes are hashed where the call is constant evaluated, and the words elsewhere. -/
def hash (constantEvaluated : Bool) (addr : In6Addr) : BitVec w :=
  if constantEvaluated then hashMulti [hashArr std.u8 addr.s6_addr]
  else hashMulti [hashArr std.u32 (addr.s6_addr32 native)]

end In6Addr

def EtherAddr.hash (addr : EtherAddr) : BitVec w := hashMulti [hashArr std.u8 addr.ether_addr_octet]

/-- That of any type of subnets, with the hash of its addresses. -/
def Subnet.hash {Sub Addr : Type} [TextAddr Addr] [Subnet Sub Addr] (hash : Addr → BitVec w) (addr : Sub) : BitVec w :=
  hashMulti [hash (Subnet.getAddr addr), std.u8 (Subnet.getPfx addr)]

theorem Subnet.hash_injective {Sub Addr : Type} [TextAddr Addr] [Subnet Sub Addr]
    (bytes : Function.Injective std.u8) (hash : Addr → BitVec w) {s t : Sub}
    (front : Subnet.getAddr s = Subnet.getAddr t) (same : Subnet.hash std hash s = Subnet.hash std hash t) :
    s = t := by
  rw [Subnet.hash, Subnet.hash, front] at same
  have prefixes := bytes ((hashMulti_last [hash (Subnet.getAddr t)]).injective same)
  have first := (Subnet.made (Subnet.getAddr t) (Subnet.getPfx t) s).mpr ⟨front, prefixes⟩
  have second := (Subnet.made (Subnet.getAddr t) (Subnet.getPfx t) t).mpr ⟨rfl, rfl⟩
  exact Except.ok.inj (first.symm.trans second)

theorem surjective_of_injective {hash : UInt32 → BitVec 32} (injective : Function.Injective hash) :
    Function.Surjective hash := by
  have finite : Finite (BitVec 32) := Finite.of_injective BitVec.toFin fun _ _ => BitVec.eq_of_toFin_eq
  have onto : Function.Surjective (hash ∘ UInt32.ofBitVec) :=
    Finite.surjective_of_injective (injective.comp fun _ _ => UInt32.ofBitVec.inj)
  exact onto.of_comp

namespace In6Addr

def stem (bytes : List UInt8) : List (BitVec w) :=
  [0, 4, 8].map fun offset => std.u32 (UInt32.ofNat (decode native ((bytes.drop offset).take 4)))

theorem hash_eq (addr : In6Addr) : addr.hash std native false =
    hashMulti (stem std native (addr.s6_addr.take 12) ++ [std.u32 (UInt32.ofNat (addr.word native 3))]) := by
  have part (offset : Nat) (inside : offset + 4 ≤ 12) :
      ((addr.s6_addr.take 12).drop offset).take 4 = (addr.s6_addr.drop offset).take 4 := by
    rw [List.drop_take, List.take_take, Nat.min_eq_left (by omega)]
  rw [hash, if_neg Bool.false_ne_true, hashArr_eq]
  simp only [stem, List.map_cons, List.map_nil, part 0 (by decide), part 4 (by decide), part 8 (by decide)]
  rfl

def front (addr : In6Addr) : Fin 96 → Bool := fun k => InAddr.bits addr k

theorem front_eq (addr : In6Addr) (k : Fin 96) : addr.front k = netBit (addr.s6_addr.take 12) k := by
  have part := netBit_part addr.s6_addr 0 (show k.val < 8 * 12 from k.isLt)
  rw [List.drop_zero, Nat.mul_zero, Nat.zero_add] at part
  exact part.symm

theorem take_of_front {x y : In6Addr} (same : x.front = y.front) : x.s6_addr.take 12 = y.s6_addr.take 12 := by
  have length (addr : In6Addr) : (addr.s6_addr.take 12).length = 12 := by rw [List.length_take, addr.size]; rfl
  refine netBit_injective ((length x).trans (length y).symm) (funext fun k => ?_)
  by_cases inside : k < 96
  · have bit := congrFun same ⟨k, inside⟩
    rwa [front_eq, front_eq] at bit
  · rw [netBit_outside (by rw [length]; omega), netBit_outside (by rw [length]; omega)]

theorem eq_of_front {x y : In6Addr} (same : x.front = y.front) (last : x.word native 3 = y.word native 3) :
    x = y := by
  have length (addr : In6Addr) : (addr.s6_addr.drop 12).length = 4 := by rw [List.length_drop, addr.size]
  have whole (addr : In6Addr) : (addr.s6_addr.drop 12).take 4 = addr.s6_addr.drop 12 :=
    List.take_of_length_le (length addr).le
  have back : x.s6_addr.drop 12 = y.s6_addr.drop 12 := by
    rw [← whole x, ← whole y]
    exact decode_inj native (by rw [whole, whole, length, length]) last
  have bytes : x.s6_addr = y.s6_addr := by
    rw [← List.take_append_drop 12 x.s6_addr, take_of_front same, back, List.take_append_drop]
  cases x
  exact (In6Addr.mk.injEq ..).mpr bytes

theorem word_lt (addr : In6Addr) (i : Fin 4) : addr.word native i < 2 ^ 32 := by
  have bound := decode_lt native ((addr.s6_addr.drop (4 * i)).take 4)
  have length := List.length_take_le 4 (addr.s6_addr.drop (4 * i))
  exact bound.trans_le (Nat.pow_le_pow_right (by decide) length)

theorem hash_injective (injective : Function.Injective std.u32) {x y : In6Addr} (same : x.front = y.front)
    (hashes : x.hash std native false = y.hash std native false) : x = y := by
  rw [hash_eq, hash_eq, take_of_front same] at hashes
  have last := congrArg UInt32.toNat (injective ((hashMulti_last _).injective hashes))
  rw [UInt32.toNat_ofNat', UInt32.toNat_ofNat', Nat.mod_eq_of_lt (word_lt native x 3),
    Nat.mod_eq_of_lt (word_lt native y 3)] at last
  exact eq_of_front native same last

theorem hash_surjective (surjective : Function.Surjective std.u32) (bits : Fin 96 → Bool) (value : BitVec w) :
    ∃ x : In6Addr, x.front = bits ∧ x.hash std native false = value := by
  obtain ⟨bytes, length, same⟩ := @netBit_surjective 12 bits
  obtain ⟨v, hashed⟩ := (hashMulti_last (stem std native bytes)).surjective value
  obtain ⟨word, rfl⟩ := surjective v
  let x : In6Addr := ⟨bytes ++ encode native 4 word.toNat, by rw [List.length_append, length, encode_length]⟩
  have early : x.s6_addr.take 12 = bytes := List.take_left' length
  have late : x.word native 3 = word.toNat := by
    have part : (x.s6_addr.drop 12).take 4 = encode native 4 word.toNat := by
      rw [List.drop_left' length, List.take_of_length_le (encode_length native 4 _).le]
    show decode native ((x.s6_addr.drop 12).take 4) = _
    have small := word.toNat_lt
    rw [part, decode_encode, Nat.mod_eq_of_lt (by omega)]
  refine ⟨x, funext fun k => ?_, ?_⟩
  · rw [front_eq, early]
    exact same k
  · rw [hash_eq, early, late, UInt32.ofNat_toNat]
    exact hashed

end In6Addr

section

variable {std native} {machine : Machine}

theorem mem_iff_front {s : Subnet6} (short : s.pfx.toNat ≤ 96) (x : In6Addr) :
    x ∈ s.members machine ↔ x.front ∈ Cylinder s.pfx.toNat s.addr.front := by
  rw [Subnet46.members_eq (Subnet46.sound6 machine)]
  constructor
  · intro inside k below
    exact inside (k.castLE (by decide)) below
  · intro inside k below
    exact inside ⟨k, by omega⟩ below

theorem front_of_mem {s : Subnet6} (long : 96 ≤ s.pfx.toNat) {x : In6Addr} (inside : x ∈ s.members machine) :
    x.front = s.addr.front := by
  rw [Subnet46.members_eq (Subnet46.sound6 machine)] at inside
  exact funext fun k => (inside (k.castLE (by decide)) (k.isLt.trans_le long)).symm

theorem hash_ncard (bijective : Function.Bijective std.u32) {s : Subnet6} (short : s.pfx.toNat ≤ 96)
    (value : BitVec w) :
    {x ∈ s.members machine | x.hash std native false = value}.ncard = 2 ^ (96 - s.pfx.toNat) := by
  have fronts : Set.image In6Addr.front {x ∈ s.members machine | x.hash std native false = value} =
      Cylinder s.pfx.toNat s.addr.front := by
    ext bits
    constructor
    · rintro ⟨x, ⟨inside, _⟩, rfl⟩
      exact (mem_iff_front short x).mp inside
    · intro inside
      obtain ⟨x, rfl, hashed⟩ := In6Addr.hash_surjective std native bijective.surjective bits value
      exact ⟨x, ⟨(mem_iff_front short x).mpr inside, hashed⟩, rfl⟩
  have apart : Set.InjOn In6Addr.front {x ∈ s.members machine | x.hash std native false = value} := by
    rintro x ⟨_, one⟩ y ⟨_, two⟩ same
    exact In6Addr.hash_injective std native bijective.injective same (one.trans two.symm)
  rw [← apart.ncard_image, fronts, cylinder_ncard short, Fintype.card_bool]

end

/-- How the hashes of addresses and subnets are spread. -/
structure Spread (machine : Machine) : Prop where
  in4 : Function.Injective (In4Addr.hash std machine.native)
  /-- A small IPv6 subnet has no collisions. -/
  apart (s : Subnet6) : 96 ≤ s.pfx.toNat →
    Set.InjOn (In6Addr.hash std machine.native false) (s.members machine)
  /-- In a large one, all hashes are as frequent where a hash is as wide as a word. -/
  even (s : Subnet6) (value : BitVec w) : w = 32 → s.pfx.toNat ≤ 96 →
    {x ∈ s.members machine | x.hash std machine.native false = value}.ncard = 2 ^ (96 - s.pfx.toNat)
  ether (x y : EtherAddr) : x.ether_addr_octet.take 5 = y.ether_addr_octet.take 5 → x.hash std = y.hash std → x = y
  subnet4 (s t : Subnet4) : s.addr = t.addr → Subnet.hash std (In4Addr.hash std machine.native) s =
    Subnet.hash std (In4Addr.hash std machine.native) t → s = t
  subnet6 (constantEvaluated : Bool) (s t : Subnet6) : s.addr = t.addr →
    Subnet.hash std (In6Addr.hash std machine.native constantEvaluated) s =
      Subnet.hash std (In6Addr.hash std machine.native constantEvaluated) t → s = t
  subnetAny (s t : SubnetAny) : s.addr = t.addr → Subnet.hash std std.inAny s = Subnet.hash std std.inAny t → s = t

/-- Where the hashes of words and bytes do not collide, neither do those of addresses and
subnets that differ in what is hashed last. -/
theorem hashes_spread (words : Function.Injective std.u32) (bytes : Function.Injective std.u8)
    (machine : Machine) : Spread std machine where
  in4 x y same := by
    have word := congrArg UInt32.toNat (words ((hashMulti_last []).injective same))
    have bound (addr : In4Addr) : addr.word machine.native < 2 ^ 32 := by
      have lt := decode_lt machine.native addr.s4_addr
      rwa [addr.size] at lt
    rw [UInt32.toNat_ofNat', UInt32.toNat_ofNat', Nat.mod_eq_of_lt (bound x), Nat.mod_eq_of_lt (bound y)] at word
    have same_bytes := decode_inj machine.native (x.size.trans y.size.symm) word
    cases x
    exact (In4Addr.mk.injEq ..).mpr same_bytes
  apart s long x inside y among same := by
    have front : x.front = y.front := (front_of_mem long inside).trans (front_of_mem long among).symm
    exact In6Addr.hash_injective std machine.native words front same
  even s value wide short := by
    subst wide
    exact hash_ncard ⟨words, surjective_of_injective words⟩ short value
  ether x y front same := by
    have last (addr : EtherAddr) : ∃ octet, addr.ether_addr_octet = addr.ether_addr_octet.take 5 ++ [octet] := by
      have length : (addr.ether_addr_octet.drop 5).length = 1 := by rw [List.length_drop, addr.size]
      obtain ⟨octet, alone⟩ := List.length_eq_one_iff.mp length
      exact ⟨octet, by rw [← alone, List.take_append_drop]⟩
    obtain ⟨octet, mine⟩ := last x
    obtain ⟨other, theirs⟩ := last y
    have hashed (addr : EtherAddr) : addr.hash std = hashMulti (addr.ether_addr_octet.map std.u8) :=
      hashArr_eq std.u8 addr.ether_addr_octet
    rw [hashed, hashed, mine, theirs, front, List.map_append, List.map_append] at same
    have octets := bytes ((hashMulti_last _).injective same)
    have whole : x.ether_addr_octet = y.ether_addr_octet := by rw [mine, theirs, front, octets]
    cases x
    exact (EtherAddr.mk.injEq ..).mpr whole
  subnet4 _ _ front same := Subnet.hash_injective std bytes _ front same
  subnet6 _ _ _ front same := Subnet.hash_injective std bytes _ front same
  subnetAny _ _ front same := Subnet.hash_injective std bytes _ front same

/-- Hashes of integral types that are their values, and of a variant that count in its index,
where a `std::size_t` has 32 bits. -/
def identity : StdHash 32 where
  u32 v := v.toBitVec
  u8 v := v.toBitVec.setWidth 32
  inAny
    | .in4 addr => BitVec.ofNat 32 (addr.word .little)
    | .in6 addr => hashArr UInt32.toBitVec (addr.s6_addr32 .little) + 1

/-- An address has another hash in a constant than it has elsewhere. -/
example : In6Addr.zero.hash identity .little true ≠ In6Addr.zero.hash identity .little false := by decide

theorem hashes_spread_identity : Spread identity (.modular .little) :=
  hashes_spread identity (fun _ _ same => UInt32.toBitVec_inj.mp same)
    (fun one two same => by
      have values := congrArg BitVec.toNat same
      have small (v : UInt8) : v.toBitVec.toNat < 2 ^ 32 := v.toBitVec.isLt.trans (by decide)
      simp only [identity, BitVec.toNat_setWidth, Nat.mod_eq_of_lt (small _)] at values
      exact UInt8.toNat_inj.mp values)
    (.modular .little)

end Stdplus.Net
