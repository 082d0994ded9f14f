import Stdplus.Handle.Managed

/-! Where each resource is: with one handle, given back, or dropped. The handles are
seen here only as holders, each with its associated data. -/

namespace Stdplus.Handle

variable {T As E : Type}

inductive Fate (As : Type) where
  | held (by_handle : Nat)
  | released
  | dropped (as : As)
deriving DecidableEq

/-- A resource that entered, with the one place it is at. -/
structure Resource (T As : Type) where
  value : T
  fate : Fate As
deriving DecidableEq

/-- All resources, the data of every handle, and how many functors ran. -/
structure Custody (T As : Type) where
  resources : List (Resource T As)
  data : Nat → Option As
  count : Nat

namespace Resource

def heldBy (this : Nat) (resource : Resource T As) : Option T :=
  match resource.fate with
  | .held holder => if holder = this then some resource.value else none
  | _ => none

def released (resource : Resource T As) : Option T :=
  match resource.fate with
  | .released => some resource.value
  | _ => none

def dropped (resource : Resource T As) : Option (T × As) :=
  match resource.fate with
  | .dropped as => some (resource.value, as)
  | _ => none

def settle (this : Nat) (fate : Fate As) (resource : Resource T As) : Resource T As :=
  if (resource.heldBy this).isSome then { resource with fate := fate } else resource

end Resource

def heldBy (resources : List (Resource T As)) (this : Nat) : List T :=
  resources.filterMap (Resource.heldBy this)

def releasedOf (resources : List (Resource T As)) : List T := resources.filterMap Resource.released

def droppedOf (resources : List (Resource T As)) : List (T × As) := resources.filterMap Resource.dropped

def settle (this : Nat) (fate : Fate As) (resources : List (Resource T As)) : List (Resource T As) :=
  resources.map (Resource.settle this fate)

namespace Custody

def empty : Custody T As where
  resources := []
  data := fun _ => none
  count := 0

def setData (this : Nat) (as : Option As) (custody : Custody T As) : Custody T As :=
  { custody with data := Function.update custody.data this as }

def enter (this : Nat) (maybeV : Option T) (custody : Custody T As) : Custody T As :=
  { custody with
    resources := custody.resources ++ (maybeV.map ({ value := ·, fate := .held this })).toList }

variable (f : Functors T As E)

/-- What the handle holds is dropped with the data of the handle. -/
def drop (this : Nat) (custody : Custody T As) : Custody T As :=
  match (heldBy custody.resources this).head?, custody.data this with
  | some t, some as => {
      resources := settle this (.dropped as) custody.resources
      data := Function.update custody.data this (some (f.drop custody.count t as).1)
      count := custody.count + 1 }
  | _, _ => custody

/-- What the other handle holds goes to this one together with its data. -/
def take (this other : Nat) (custody : Custody T As) : Custody T As where
  resources := settle other (.held this) custody.resources
  data := Function.update (Function.update custody.data this (custody.data other)) other
    ((custody.data other).map f.moved)
  count := custody.count

def release (this : Nat) (custody : Custody T As) : Custody T As :=
  { custody with resources := settle this .released custody.resources }

/-- A reference to a value becomes the handle's resource, after what it held is dropped. -/
def refer (this : Nat) (maybeV : Option T) (custody : Custody T As) : Custody T As :=
  match maybeV, custody.data this with
  | some v, some as =>
    let result := f.ref custody.count v as
    let custody := { custody.setData this (some result.1) with count := custody.count + 1 }
    match result.2 with
    | .ok t => (custody.drop f this).enter this (some t)
    | .error _ => custody
  | _, _ => custody.drop f this

/-- What each operation means; `none` where the program may not use it. -/
def step (action : Action T As) (custody : Custody T As) : Option (Custody T As) :=
  match action with
  | .construct this maybeV vs =>
    match custody.data this with
    | none => some ((custody.setData this (some vs)).enter this maybeV)
    | some _ => none
  | .constructRef this maybeV vs =>
    match custody.data this with
    | none => some ((custody.setData this (some vs)).refer f this maybeV)
    | some _ => none
  | .moveConstruct this other =>
    match custody.data this, custody.data other with
    | none, some _ => some (custody.take f this other)
    | _, _ => none
  | .copyConstruct this other =>
    match custody.data this, custody.data other with
    | none, some as => some ((custody.setData this (some as)).refer f this (heldBy custody.resources other).head?)
    | _, _ => none
  | .moveAssign this other =>
    match custody.data this, custody.data other with
    | some _, some _ =>
      if this = other then some custody else some ((custody.drop f this).take f this other)
    | _, _ => none
  | .copyAssign this other =>
    match custody.data this, custody.data other with
    | some _, some as =>
      if this = other then
        some custody
      else
        some (((custody.drop f this).setData this (some as)).refer f this
          (heldBy custody.resources other).head?)
    | _, _ => none
  | .reset this maybeV =>
    match custody.data this with
    | some _ => some ((custody.drop f this).enter this maybeV)
    | none => none
  | .resetRef this maybeV =>
    match custody.data this with
    | some _ => some (custody.refer f this maybeV)
    | none => none
  | .release this | .maybe_release this =>
    match custody.data this with
    | some _ => some (custody.release this)
    | none => none
  | .destroy this =>
    match custody.data this with
    | some _ => some ((custody.drop f this).setData this none)
    | none => none

def run (actions : List (Action T As)) : Option (Custody T As) :=
  actions.foldlM (fun custody action => custody.step f action) empty

end Custody

section Resources

variable {resources : List (Resource T As)}

theorem filterMap_or {α β : Type} {first second : α → Option β} {either : α → Option β}
    (or : ∀ item, either item = (first item).or (second item)) (items : List α)
    (apart : ∀ item ∈ items, (second item).isSome → first item = none) :
    (items.filterMap either).Perm (items.filterMap first ++ items.filterMap second) := by
  induction items with
  | nil => rfl
  | cons item items ih =>
    have rest := ih fun other member => apart other (List.mem_cons_of_mem _ member)
    have here := apart item List.mem_cons_self
    simp only [List.filterMap_cons, or item]
    cases one : first item with
    | some value =>
      cases two : second item with
      | some other =>
        rw [two] at here
        rw [here rfl] at one
        cases one
      | none => exact rest.cons value
    | none =>
      cases two : second item with
      | some value => exact (rest.cons value).trans List.perm_middle.symm
      | none => exact rest

theorem heldBy_append (first second : List (Resource T As)) (this : Nat) :
    heldBy (first ++ second) this = heldBy first this ++ heldBy second this :=
  List.filterMap_append

theorem heldBy_settle (this other : Nat) {fate : Fate As} (away : ∀ holder, fate ≠ .held holder) :
    heldBy (settle this fate resources) other = if other = this then [] else heldBy resources other := by
  have one (resource : Resource T As) : (resource.settle this fate).heldBy other =
      if other = this then none else resource.heldBy other := by
    obtain ⟨value, old⟩ := resource
    cases old <;> cases fate <;> simp_all [Resource.settle, Resource.heldBy] <;> grind
  rw [heldBy, settle, List.filterMap_map]
  split
  · rename_i same
    exact List.filterMap_eq_nil_iff.mpr fun resource _ => (one resource).trans (if_pos same)
  · rename_i differ
    exact List.filterMap_congr fun resource _ => (one resource).trans (if_neg differ)

theorem heldBy_pass {this other : Nat} (differ : this ≠ other) (nothing : heldBy resources this = [])
    (k : Nat) :
    heldBy (settle other (.held this) resources) k =
      if k = other then [] else if k = this then heldBy resources other else heldBy resources k := by
  have one (resource : Resource T As) : (resource.settle other (.held this)).heldBy k =
      if k = other then none else if k = this then (resource.heldBy this).or (resource.heldBy other)
        else resource.heldBy k := by
    obtain ⟨value, holder | _ | as⟩ := resource
    · by_cases theirs : holder = other <;> simp [Resource.settle, Resource.heldBy, theirs] <;> grind
    · simp [Resource.settle, Resource.heldBy]
    · simp [Resource.settle, Resource.heldBy]
  rw [heldBy, settle, List.filterMap_map]
  split
  · rename_i last
    exact List.filterMap_eq_nil_iff.mpr fun resource _ => (one resource).trans (if_pos last)
  · rename_i not_last
    split
    · rename_i first
      refine List.filterMap_congr fun resource member => ?_
      have none_held := List.filterMap_eq_nil_iff.mp nothing resource member
      rw [Function.comp, one resource, if_neg not_last, if_pos first, none_held, Option.none_or]
    · rename_i not_first
      exact List.filterMap_congr fun resource _ =>
        (one resource).trans (by rw [if_neg not_last, if_neg not_first])

theorem releasedOf_settle (resources : List (Resource T As)) (this : Nat) :
    (releasedOf (settle this .released resources)).Perm (releasedOf resources ++ heldBy resources this) := by
  have one (resource : Resource T As) : (resource.settle this .released).released =
      resource.released.or (resource.heldBy this) := by
    obtain ⟨value, holder | _ | as⟩ := resource
    · by_cases mine : holder = this <;> simp [Resource.settle, Resource.heldBy, Resource.released, mine]
    · simp [Resource.settle, Resource.heldBy, Resource.released]
    · simp [Resource.settle, Resource.heldBy, Resource.released]
  rw [releasedOf, settle, List.filterMap_map]
  refine filterMap_or one resources fun resource _ => ?_
  obtain ⟨value, holder | _ | as⟩ := resource <;> simp [Resource.heldBy, Resource.released]

theorem droppedOf_settle (resources : List (Resource T As)) (this : Nat) (as : As) :
    (droppedOf (settle this (.dropped as) resources)).Perm
      (droppedOf resources ++ (heldBy resources this).map (·, as)) := by
  have one (resource : Resource T As) : (resource.settle this (.dropped as)).dropped =
      resource.dropped.or ((resource.heldBy this).map (·, as)) := by
    obtain ⟨value, holder | _ | as⟩ := resource
    · by_cases mine : holder = this <;> simp [Resource.settle, Resource.heldBy, Resource.dropped, mine]
    · simp [Resource.settle, Resource.heldBy, Resource.dropped]
    · simp [Resource.settle, Resource.heldBy, Resource.dropped]
  rw [droppedOf, settle, List.filterMap_map, heldBy, List.map_filterMap]
  refine filterMap_or one resources fun resource _ => ?_
  obtain ⟨value, holder | _ | as⟩ := resource <;> simp [Resource.heldBy, Resource.dropped]

theorem releasedOf_settle_other (this : Nat) {fate : Fate As} (kept : fate ≠ .released) :
    releasedOf (settle this fate resources) = releasedOf resources := by
  rw [releasedOf, settle, List.filterMap_map]
  refine List.filterMap_congr fun resource _ => ?_
  obtain ⟨value, holder | _ | as⟩ := resource
  · by_cases mine : holder = this <;> cases fate <;>
      simp_all [Resource.settle, Resource.heldBy, Resource.released]
  · simp [Resource.settle, Resource.heldBy, Resource.released]
  · simp [Resource.settle, Resource.heldBy, Resource.released]

theorem droppedOf_settle_other (this : Nat) {fate : Fate As} (kept : ∀ as, fate ≠ .dropped as) :
    droppedOf (settle this fate resources) = droppedOf resources := by
  rw [droppedOf, settle, List.filterMap_map]
  refine List.filterMap_congr fun resource _ => ?_
  obtain ⟨value, holder | _ | as⟩ := resource
  · by_cases mine : holder = this <;> cases fate <;>
      simp_all [Resource.settle, Resource.heldBy, Resource.dropped]
  · simp [Resource.settle, Resource.heldBy, Resource.dropped]
  · simp [Resource.settle, Resource.heldBy, Resource.dropped]

theorem settle_values (this : Nat) (fate : Fate As) :
    (settle this fate resources).map Resource.value = resources.map Resource.value := by
  rw [settle, List.map_map]
  refine List.map_congr_left fun resource _ => ?_
  simp only [Function.comp, Resource.settle]
  split <;> rfl

end Resources

end Stdplus.Handle
