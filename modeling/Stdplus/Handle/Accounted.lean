import Stdplus.Base.Transition
import Stdplus.Handle.Linear

namespace Stdplus.Handle

open Stdplus.Base

variable {T As E : Type}

def Pool.holds (pool : Pool T As) (k : Nat) : Option T := (pool.handles k).bind HandleF.maybeT

/-- Where a resource can be found, and nowhere else; `t` is with the handle `k`
where `pool.holds k = some t`. -/
structure Accounted (f : Functors T As E) (pool : Pool T As) (custody : Custody T As) : Prop where
  linear : Linear pool custody
  somewhere : ∀ t ∈ pool.calls.entered,
    (∃ k, pool.holds k = some t) ∨ t ∈ pool.calls.released ∨ t ∈ pool.calls.dropped.map (·.1)
  once : pool.calls.entered.Nodup → (pool.calls.released ++ pool.calls.dropped.map (·.1)).Nodup
  alone : pool.calls.entered.Nodup → ∀ k t, pool.holds k = some t →
    t ∉ pool.calls.released ++ pool.calls.dropped.map (·.1) ∧ ∀ other, pool.holds other = some t → other = k
  itself : ∀ this, (pool.handles this).isSome →
    pool.next f (.moveAssign this this) = some pool ∧ pool.next f (.copyAssign this this) = some pool

namespace Linear

variable {pool : Pool T As} {custody : Custody T As} {f : Functors T As E}

private theorem apart_nodup {resources : List (Resource T As)} (first second : Resource T As → Option T)
    (nodup : (resources.map Resource.value).Nodup)
    (mine : ∀ resource t, first resource = some t → resource.value = t)
    (other : ∀ resource t, second resource = some t → resource.value = t)
    (apart : ∀ resource, (second resource).isSome → first resource = none) :
    (resources.filterMap first ++ resources.filterMap second).Nodup := by
  let either (resource : Resource T As) : Option T := (first resource).or (second resource)
  have chosen : (resources.filterMap either).Perm (resources.filterMap first ++ resources.filterMap second) :=
    filterMap_or (fun _ => rfl) resources (fun resource _ => apart resource)
  refine chosen.nodup_iff.mp (List.Nodup.sublist ?_ nodup)
  clear nodup chosen
  induction resources with
  | nil => exact List.Sublist.refl _
  | cons resource resources ih =>
    rw [List.filterMap_cons, List.map_cons]
    cases given : either resource with
    | none => exact ih.cons _
    | some t =>
      have value : resource.value = t := by
        rcases Option.or_eq_some_iff.mp given with one | ⟨_, two⟩
        · exact mine resource t one
        · exact other resource t two
      rw [value]
      exact ih.cons_cons t

private theorem gone_eq (resources : List (Resource T As)) :
    (releasedOf resources ++ (droppedOf resources).map (·.1)).Perm
      (resources.filterMap fun resource => resource.released.or (resource.dropped.map (·.1))) := by
  rw [releasedOf, droppedOf, List.map_filterMap]
  refine (filterMap_or (fun _ => rfl) resources fun resource _ => ?_).symm
  obtain ⟨value, holder | _ | as⟩ := resource <;> simp [Resource.dropped, Resource.released]

theorem accounted (linear : Linear pool custody) : Accounted f pool custody := by
  have gone : (pool.calls.released ++ pool.calls.dropped.map (·.1)).Perm
      (custody.resources.filterMap fun resource => resource.released.or (resource.dropped.map (·.1))) :=
    (linear.released.append (linear.dropped.map _)).trans (gone_eq _)
  have one (resource : Resource T As) (t : T)
      (given : resource.released.or (resource.dropped.map (·.1)) = some t) : resource.value = t := by
    obtain ⟨value, holder | _ | as⟩ := resource
    · simp [Resource.released, Resource.dropped] at given
    · simpa [Resource.released, Resource.dropped] using given
    · simpa [Resource.released, Resource.dropped] using given
  have two (k : Nat) (resource : Resource T As) (t : T) (given : resource.heldBy k = some t) :
      resource.value = t := by
    obtain ⟨value, holder | _ | as⟩ := resource
    · simp only [Resource.heldBy, Option.ite_none_right_eq_some, Option.some.injEq] at given
      exact given.2
    · cases given
    · cases given
  have held (k : Nat) (t : T) (holds : pool.holds k = some t) : t ∈ heldBy custody.resources k := by
    rw [linear.held]
    exact Option.mem_toList.mpr holds
  refine ⟨linear, ?_, ?_, ?_, ?_⟩
  · intro t member
    rw [← linear.entered] at member
    obtain ⟨⟨value, fate⟩, among, rfl⟩ := List.mem_map.mp member
    cases fate with
    | held k =>
      left
      refine ⟨k, ?_⟩
      have there : value ∈ heldBy custody.resources k :=
        List.mem_filterMap.mpr ⟨_, among, by simp [Resource.heldBy]⟩
      rw [linear.held] at there
      exact Option.mem_toList.mp there
    | released =>
      right
      left
      exact linear.released.mem_iff.mpr (List.mem_filterMap.mpr ⟨_, among, rfl⟩)
    | dropped as =>
      right
      right
      have there : (value, as) ∈ pool.calls.dropped :=
        linear.dropped.mem_iff.mpr (List.mem_filterMap.mpr ⟨_, among, rfl⟩)
      exact List.mem_map_of_mem there
  · intro nodup
    rw [← linear.entered] at nodup
    have both := apart_nodup _ (fun _ => none) nodup one (fun _ _ none => by cases none) (by simp)
    exact gone.nodup_iff.mpr (by simpa using both)
  · intro nodup k t holds
    rw [← linear.entered] at nodup
    have here := held k t holds
    constructor
    · intro elsewhere
      have apart := apart_nodup _ _ nodup one (two k) (fun resource => by
        obtain ⟨value, holder | _ | as⟩ := resource <;>
          simp [Resource.released, Resource.dropped, Resource.heldBy])
      exact List.disjoint_of_nodup_append apart (gone.mem_iff.mp elsewhere) here
    · intro other also
      by_contra differ
      have apart := apart_nodup _ _ nodup (two other) (two k) (fun resource => by
        obtain ⟨value, holder | _ | as⟩ := resource
        · simp only [Resource.heldBy]
          grind
        · simp [Resource.heldBy]
        · simp [Resource.heldBy])
      exact List.disjoint_of_nodup_append apart (held other t also) here
  · intro this present
    obtain ⟨handle, there⟩ := Option.isSome_iff_exists.mp present
    constructor
    · simp only [Pool.next, Pool.step, Pool.get, there, ne_eq, not_true_eq_false, if_false, bind, Except.bind]
    · simp only [Pool.next, Pool.step, Pool.get, there, ne_eq, not_true_eq_false, if_false, bind, Except.bind]

end Linear

/-- In every run each resource that entered is at exactly one place, and is dropped
with the data of the handle that held it. -/
theorem run_accounted {f : Functors T As E} (quiet : Quiet f) {actions : List (Action T As)}
    {custody : Custody T As} (means : Custody.run f actions = some custody) :
    ∃ pool, Pool.run f actions = some pool ∧ Accounted f pool custody := by
  rcases foldlM_follows (fun _ => False) (fun _ _ stopped => stopped)
    (fun _ _ _ _ linear meaning => .inl (linear.step quiet meaning)) actions Linear.empty means with
    ⟨pool, ran, linear⟩ | impossible
  · exact ⟨pool, ran, linear.accounted⟩
  · exact impossible.elim

/-- `Ref` makes the next number, and both functors count their calls in the data. -/
def counting : Functors Nat Nat Empty where
  drop _ _ as := (as + 1, none)
  ref _ v as := (as + 1, .ok (v + 1))
  moved as := as

/-- A handle is copied, assigned, moved, released twice and destroyed. -/
def passes : List (Action Nat Nat) :=
  [.construct 0 (some 3) 10, .copyConstruct 1 0, .copyAssign 0 1, .construct 2 none 20, .moveAssign 2 0,
    .release 1, .release 1, .destroy 2]

theorem run_accounted_passes :
    ∃ pool custody, Pool.run counting passes = some pool ∧ Accounted counting pool custody ∧
      pool.calls =
        { count := 4, entered := [3, 4, 5], released := [4], dropped := [(3, 10), (5, 12)] } := by
  have used : (Custody.run counting passes).isSome = true := by decide
  obtain ⟨custody, means⟩ := Option.isSome_iff_exists.mp used
  obtain ⟨pool, ran, accounted⟩ := run_accounted
    ⟨fun _ _ _ => rfl, fun _ v _ => ⟨v + 1, rfl⟩⟩ means
  have called : (Pool.run counting passes).map Pool.calls =
      some { count := 4, entered := [3, 4, 5], released := [4], dropped := [(3, 10), (5, 12)] } := by decide
  rw [ran, Option.map_some, Option.some.injEq] at called
  exact ⟨pool, custody, ran, accounted, called⟩

end Stdplus.Handle
