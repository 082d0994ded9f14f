import Stdplus.Base.Cylinders
import Stdplus.Net.Addr.Subnet

namespace Stdplus.Net

open Stdplus.Base

def InAddr.word {Addr : Type} [InAddr Addr] (addr : Addr) : Fin (InAddr.addrBits Addr) → Bool :=
  fun k => InAddr.bits addr k

private theorem bits_injective {width : Nat} {one two : List UInt8} (left : one.length = width)
    (right : two.length = width) (same : ∀ k : Fin (8 * width), netBit one k = netBit two k) : one = two := by
  refine netBit_injective (left.trans right.symm) (funext fun k => ?_)
  by_cases inside : k < 8 * width
  · exact same ⟨k, inside⟩
  · rw [netBit_outside (by omega), netBit_outside (by omega)]

theorem In4Addr.word_bijective : Function.Bijective (InAddr.word : In4Addr → Fin 32 → Bool) := by
  constructor
  · intro one two same
    have bytes : one.s4_addr = two.s4_addr := bits_injective one.size two.size (congrFun same)
    cases one
    exact (In4Addr.mk.injEq ..).mpr bytes
  · intro bits
    obtain ⟨bytes, size, same⟩ := @netBit_surjective 4 bits
    exact ⟨⟨bytes, size⟩, funext same⟩

theorem In6Addr.word_bijective : Function.Bijective (InAddr.word : In6Addr → Fin 128 → Bool) := by
  constructor
  · intro one two same
    have bytes : one.s6_addr = two.s6_addr := bits_injective one.size two.size (congrFun same)
    cases one
    exact (In6Addr.mk.injEq ..).mpr bytes
  · intro bits
    obtain ⟨bytes, size, same⟩ := @netBit_surjective 16 bits
    exact ⟨⟨bytes, size⟩, funext same⟩

namespace Subnet46

variable {machine : Machine} {Addr : Type} [InAddr Addr] [DecidableEq Addr]

def members (machine : Machine) (subnet : Subnet46 Addr) : Set Addr := {x | subnet.contains machine x = some true}

/-- What the sets of addresses of subnets are like. -/
structure Nest (machine : Machine) (Addr : Type) [InAddr Addr] [DecidableEq Addr] : Prop where
  nested (s t : Subnet46 Addr) : Disjoint (s.members machine) (t.members machine) ∨
    s.members machine ⊆ t.members machine ∨ t.members machine ⊆ s.members machine
  subset (s t : Subnet46 Addr) : t.members machine ⊆ s.members machine ↔
    s.pfx ≤ t.pfx ∧ s.contains machine t.addr = some true
  equal (s t : Subnet46 Addr) : s.members machine = t.members machine ↔
    s.pfx = t.pfx ∧ s.network machine = t.network machine
  size (s : Subnet46 Addr) : (s.members machine).ncard = 2 ^ (InAddr.addrBits Addr - s.pfx.toNat)

section

variable (sound : Sound machine Addr)
  (bijective : Function.Bijective (InAddr.word : Addr → Fin (InAddr.addrBits Addr) → Bool))

include sound in
theorem members_eq (s : Subnet46 Addr) :
    s.members machine = Set.preimage InAddr.word (Cylinder s.pfx.toNat (InAddr.word s.addr)) := by
  ext x
  obtain ⟨answer, same, agree⟩ := sound.contains s x
  rw [members, Set.mem_ofPred_eq, same, Option.some.injEq, agree]
  constructor
  · intro agree k below
    exact agree k below
  · intro inside k below
    exact inside ⟨k, below.trans_le s.valid⟩ below

include sound bijective

theorem network_iff {s t : Subnet46 Addr} (same : s.pfx = t.pfx) : s.network machine = t.network machine ↔
    InAddr.word t.addr ∈ Cylinder s.pfx.toNat (InAddr.word s.addr) := by
  obtain ⟨own, ownNetwork, ownBits⟩ := sound.network s
  obtain ⟨other, otherNetwork, otherBits⟩ := sound.network t
  rw [ownNetwork, otherNetwork, Option.some.injEq]
  constructor
  · rintro rfl k below
    have bits := (ownBits k).symm.trans (otherBits k)
    rwa [if_pos below, if_pos (same ▸ below)] at bits
  · intro inside
    refine bijective.injective (funext fun k => ?_)
    rw [InAddr.word, InAddr.word, ownBits, otherBits, ← same]
    by_cases below : k.val < s.pfx.toNat
    · rw [if_pos below, if_pos below]
      exact inside k below
    · rw [if_neg below, if_neg below]

theorem nest : Nest machine Addr where
  nested s t := by
    simp only [members_eq sound]
    rcases Nat.le_total s.pfx.toNat t.pfx.toNat with fewer | fewer
    · exact (cylinder_nested fewer _ _).imp (Disjoint.preimage _) fun inside => .inr (Set.preimage_mono inside)
    · refine (cylinder_nested fewer _ _).imp (fun apart => (apart.preimage _).symm) ?_
      exact fun inside => .inl (Set.preimage_mono inside)
  subset s t := by
    have inside : t.addr ∈ s.members machine ↔ s.contains machine t.addr = some true := Iff.rfl
    rw [← inside, members_eq sound, members_eq sound, bijective.surjective.preimage_subset_preimage_iff,
      cylinder_subset_iff s.valid]
    rfl
  equal s t := by
    rw [members_eq sound, members_eq sound, bijective.surjective.preimage_injective.eq_iff,
      cylinder_eq_iff s.valid t.valid, UInt8.toNat_inj]
    exact and_congr_right fun same => (network_iff sound bijective same).symm
  size s := by
    rw [members_eq sound, Set.ncard_preimage_of_injective_subset_range bijective.injective, cylinder_ncard s.valid]
    · rfl
    · rw [bijective.surjective.range_eq]
      exact Set.subset_univ _

end

end Subnet46

namespace SubnetAny

variable {machine : Machine}

def members (machine : Machine) (subnet : SubnetAny) : Set InAnyAddr := {x | subnet.contains machine x = some true}

/-- What the sets of addresses of subnets of either family are like. -/
structure Nest (machine : Machine) : Prop where
  nested (s t : SubnetAny) : Disjoint (s.members machine) (t.members machine) ∨
    s.members machine ⊆ t.members machine ∨ t.members machine ⊆ s.members machine
  subset (s t : SubnetAny) : t.members machine ⊆ s.members machine ↔
    s.pfx ≤ t.pfx ∧ s.contains machine t.addr = some true
  equal (s t : SubnetAny) : s.members machine = t.members machine ↔
    s.pfx = t.pfx ∧ s.network machine = t.network machine
  size (s : SubnetAny) : (s.members machine).ncard = 2 ^ (s.addr.addrBits - s.pfx.toNat)

theorem members_of4 (o : Subnet4) : (of4 o).members machine = Set.image .in4 (o.members machine) := by
  ext x
  cases x with
  | in4 x => exact ⟨fun inside => ⟨x, inside, rfl⟩, fun ⟨_, inside, same⟩ => InAnyAddr.in4.inj same ▸ inside⟩
  | in6 x => exact ⟨nofun, fun ⟨_, _, same⟩ => nomatch same⟩

theorem members_of6 (o : Subnet6) : (of6 o).members machine = Set.image .in6 (o.members machine) := by
  ext x
  cases x with
  | in4 x => exact ⟨nofun, fun ⟨_, _, same⟩ => nomatch same⟩
  | in6 x => exact ⟨fun inside => ⟨x, inside, rfl⟩, fun ⟨_, inside, same⟩ => InAnyAddr.in6.inj same ▸ inside⟩

theorem in4_injective : Function.Injective InAnyAddr.in4 := fun _ _ => InAnyAddr.in4.inj

theorem in6_injective : Function.Injective InAnyAddr.in6 := fun _ _ => InAnyAddr.in6.inj

theorem families_apart (o : Subnet4) (p : Subnet6) :
    Disjoint ((of4 o).members machine) ((of6 p).members machine) := by
  rw [members_of4, members_of6, Set.disjoint_left]
  rintro _ ⟨_, _, rfl⟩ ⟨_, _, same⟩
  cases same

theorem addr_mem (s : SubnetAny) : s.addr ∈ s.members machine := by
  rcases (sound machine).families s with ⟨o, rfl⟩ | ⟨o, rfl⟩
  · exact ((Subnet46.sound4 machine).equivalence o.pfx o.valid).refl o.addr
  · exact ((Subnet46.sound6 machine).equivalence o.pfx o.valid).refl o.addr

theorem apart_not_subset {s t : SubnetAny} (apart : Disjoint (s.members machine) (t.members machine)) :
    ¬ t.members machine ⊆ s.members machine :=
  fun inside => Set.disjoint_left.mp apart (inside (addr_mem t)) (addr_mem t)

theorem networks_apart (o : Subnet4) (p : Subnet6) : (of4 o).network machine ≠ (of6 p).network machine := by
  obtain ⟨own, found, _⟩ := (Subnet46.sound4 machine).network o
  obtain ⟨other, elsewhere, _⟩ := (Subnet46.sound6 machine).network p
  rw [(sound machine).network4, (sound machine).network6, found, elsewhere]
  exact fun same => nomatch Option.some.inj same

theorem nest (machine : Machine) : Nest machine := by
  have nest4 := Subnet46.nest (Subnet46.sound4 machine) In4Addr.word_bijective
  have nest6 := Subnet46.nest (Subnet46.sound6 machine) In6Addr.word_bijective
  have either := sound machine
  refine ⟨fun s t => ?_, fun s t => ?_, fun s t => ?_, fun s => ?_⟩
  · rcases either.families s with ⟨o, rfl⟩ | ⟨o, rfl⟩ <;> rcases either.families t with ⟨p, rfl⟩ | ⟨p, rfl⟩
    · simp only [members_of4, Set.disjoint_image_iff in4_injective,
        Set.image_subset_image_iff in4_injective]
      exact nest4.nested o p
    · exact .inl (families_apart o p)
    · exact .inl (families_apart p o).symm
    · simp only [members_of6, Set.disjoint_image_iff in6_injective,
        Set.image_subset_image_iff in6_injective]
      exact nest6.nested o p
  · rcases either.families s with ⟨o, rfl⟩ | ⟨o, rfl⟩ <;> rcases either.families t with ⟨p, rfl⟩ | ⟨p, rfl⟩
    · rw [members_of4, members_of4, Set.image_subset_image_iff in4_injective]
      exact nest4.subset o p
    · refine iff_of_false (apart_not_subset (families_apart o p)) fun both => ?_
      exact nomatch (either.across4 o p.addr).1.symm.trans both.2
    · refine iff_of_false (apart_not_subset (families_apart p o).symm) fun both => ?_
      exact nomatch (either.across6 o p.addr).1.symm.trans both.2
    · rw [members_of6, members_of6, Set.image_subset_image_iff in6_injective]
      exact nest6.subset o p
  · rcases either.families s with ⟨o, rfl⟩ | ⟨o, rfl⟩ <;> rcases either.families t with ⟨p, rfl⟩ | ⟨p, rfl⟩
    · rw [members_of4, members_of4, in4_injective.image_injective.eq_iff,
        either.network4, either.network4, (Option.map_injective in4_injective).eq_iff]
      exact nest4.equal o p
    · refine iff_of_false (fun same => ?_) fun both => networks_apart o p both.2
      exact apart_not_subset (families_apart o p) same.ge
    · refine iff_of_false (fun same => ?_) fun both => networks_apart p o both.2.symm
      exact apart_not_subset (families_apart p o).symm same.ge
    · rw [members_of6, members_of6, in6_injective.image_injective.eq_iff,
        either.network6, either.network6, (Option.map_injective in6_injective).eq_iff]
      exact nest6.equal o p
  · rcases either.families s with ⟨o, rfl⟩ | ⟨o, rfl⟩
    · rw [members_of4, Set.ncard_image_of_injective _ in4_injective]
      exact nest4.size o
    · rw [members_of6, Set.ncard_image_of_injective _ in6_injective]
      exact nest6.size o

end SubnetAny

/-- Any two subnets are disjoint or nested, and one is a set of addresses of its own. -/
theorem subnets_nest (machine : Machine) :
    Subnet46.Nest machine In4Addr ∧ Subnet46.Nest machine In6Addr ∧ SubnetAny.Nest machine :=
  ⟨Subnet46.nest (Subnet46.sound4 machine) In4Addr.word_bijective,
    Subnet46.nest (Subnet46.sound6 machine) In6Addr.word_bijective, SubnetAny.nest machine⟩

end Stdplus.Net
