import Mathlib

namespace Stdplus.Hash

variable {w : Nat} {T : Type}

/-- On a `std::size_t` of `w` bits. -/
def updateSeed (seed v : BitVec w) : BitVec w :=
  seed ^^^ (v + BitVec.ofNat w 0x9e3779b9 + (seed <<< 6) + (seed >>> 2))

/-- `detail::hashMultiS` of the hashes of the values. -/
def hashMultiS (seed : BitVec w) : List (BitVec w) → BitVec w
  | [] => seed
  | v :: vs => hashMultiS (updateSeed seed v) vs

def hashMulti : List (BitVec w) → BitVec w
  | [] => 0
  | v :: vs => hashMultiS v vs

/-- `detail::hashArr` with a seed, which at least one value is left for. -/
def hashArrS (hash : T → BitVec w) (seed : BitVec w) : List T → BitVec w
  | [] => seed
  | [t] => updateSeed seed (hash t)
  | t :: ts => hashArrS hash (updateSeed seed (hash t)) ts

/-- `detail::hashArr`, the hash of an array. -/
def hashArr (hash : T → BitVec w) : List T → BitVec w
  | [] => 0
  | [t] => hash t
  | t :: ts => hashArrS hash (hash t) ts

theorem hashMultiS_append (seed : BitVec w) (front rest : List (BitVec w)) :
    hashMultiS seed (front ++ rest) = hashMultiS (hashMultiS seed front) rest := by
  induction front generalizing seed with
  | nil => rfl
  | cons v front ih => exact ih _

theorem hashArrS_eq (hash : T → BitVec w) (seed : BitVec w) (ts : List T) :
    hashArrS hash seed ts = hashMultiS seed (ts.map hash) := by
  induction ts generalizing seed with
  | nil => rfl
  | cons t ts ih =>
    cases ts with
    | nil => rfl
    | cons next ts => exact ih _

theorem hashArr_eq (hash : T → BitVec w) (ts : List T) : hashArr hash ts = hashMulti (ts.map hash) := by
  cases ts with
  | nil => rfl
  | cons t ts =>
    cases ts with
    | nil => rfl
    | cons next ts => exact hashArrS_eq hash (hash t) (next :: ts)

theorem updateSeed_bijective (seed : BitVec w) : Function.Bijective (updateSeed seed) := by
  let salt := BitVec.ofNat w 0x9e3779b9 + (seed <<< 6) + (seed >>> 2)
  have undo (v : BitVec w) : seed ^^^ (seed ^^^ v) = v := by
    rw [← BitVec.xor_assoc, BitVec.xor_self, BitVec.zero_xor]
  have stirred : updateSeed seed = (seed ^^^ ·) ∘ (· + salt) := by
    funext v
    simp only [updateSeed, Function.comp_apply, salt, BitVec.add_assoc]
  have shifted : Function.Bijective fun v : BitVec w => v + salt :=
    ⟨fun _ _ same => (BitVec.add_left_inj salt).mp same, fun value => ⟨value - salt, BitVec.sub_add_cancel value salt⟩⟩
  rw [stirred]
  exact (Function.Involutive.bijective undo).comp shifted

theorem hashMulti_last (front : List (BitVec w)) :
    Function.Bijective fun v => hashMulti (front ++ [v]) := by
  cases front with
  | nil => exact Function.bijective_id
  | cons first front =>
    have last : (fun v => hashMulti (first :: front ++ [v])) = updateSeed (hashMultiS first front) := by
      funext v
      exact hashMultiS_append first front [v]
    rw [last]
    exact updateSeed_bijective _

end Stdplus.Hash
