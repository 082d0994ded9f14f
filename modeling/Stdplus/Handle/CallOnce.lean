import Stdplus.Base.Tenure
import Stdplus.Base.Transition

/-! `AlwaysCallOnce`: a callable with default arguments that is called by its object at the
latest when that goes, and a flag that travels with it. -/

namespace Stdplus.Handle

open Stdplus.Base

/-- What is known of the types of a callable and of its arguments: the comparison with
`nullptr`, if there is one, what a move leaves, and what a move onto itself makes. -/
structure Callables (F D : Type) where
  equalsNull : Option (F → Bool)
  left : F → F
  leftArgs : D → D
  itself : F → F
  itselfArgs : D → D

structure AlwaysCallOnce (F D : Type) where
  f : F
  default_args : D
  called : Bool
deriving DecidableEq

/-- The objects, the calls with default arguments, the callables called through
`operator()`, all that were created, and the objects that hold one of these. -/
structure CallPool (F D : Type) where
  objs : Nat → Option (AlwaysCallOnce F D)
  finals : List (F × D)
  explicit : List F
  made : List (F × D)
  holds : Nat → Bool

inductive CallOp (F D : Type) where
  | construct (this : Nat) (f : F) (default_args : D)
  | moveConstruct (this other : Nat)
  | moveAssign (this other : Nat)
  | call (this : Nat)
  | destroy (this : Nat)

variable {F D : Type}

/-- The overload for what can be compared with `nullptr` goes first. -/
def fPop (types : Callables F D) (f : F) : Bool :=
  match types.equalsNull with
  | some equalsNull => !equalsNull f
  | none => true

namespace AlwaysCallOnce

/-- The call that `finalCall` makes, if any. -/
def finalCall (types : Callables F D) (this : AlwaysCallOnce F D) : Option (F × D) :=
  if !this.called && fPop types this.f then some (this.f, this.default_args) else none

/-- What is left of an object that is moved from; `called` is exchanged. -/
def moved (types : Callables F D) (this : AlwaysCallOnce F D) : AlwaysCallOnce F D where
  f := types.left this.f
  default_args := types.leftArgs this.default_args
  called := true

/-- After its final call an object is moved onto itself: `std::exchange` gives back the
flag it has just set. -/
def movedOnto (types : Callables F D) (this : AlwaysCallOnce F D) : AlwaysCallOnce F D where
  f := types.itself this.f
  default_args := types.itselfArgs this.default_args
  called := this.called

end AlwaysCallOnce

namespace CallPool

def empty : CallPool F D where
  objs := fun _ => none
  finals := []
  explicit := []
  made := []
  holds := fun _ => false

def finish (types : Callables F D) (this : AlwaysCallOnce F D) (pool : CallPool F D) : CallPool F D :=
  { pool with finals := pool.finals ++ (this.finalCall types).toList }

/-- All of `other` goes to `this`. -/
def move (types : Callables F D) (this other : Nat) (source : AlwaysCallOnce F D) (pool : CallPool F D) :
    CallPool F D :=
  { pool with
    objs := Function.update (Function.update pool.objs this (some source)) other (some (source.moved types))
    holds := Function.update (Function.update pool.holds this (pool.holds other)) other false }

variable [DecidableEq F]

/-- A step of the program: every callable is its own, and not null; `operator()` is for
objects that hold one. -/
def step (types : Callables F D) (op : CallOp F D) (pool : CallPool F D) : Option (CallPool F D) :=
  match op with
  | .construct this f default_args =>
    match pool.objs this with
    | none =>
      if fPop types f ∧ f ∉ pool.made.map Prod.fst then
        some { pool with
          objs := Function.update pool.objs this (some { f := f, default_args := default_args, called := false })
          made := pool.made ++ [(f, default_args)]
          holds := Function.update pool.holds this true }
      else
        none
    | some _ => none
  | .moveConstruct this other =>
    match pool.objs this, pool.objs other with
    | none, some source => some (pool.move types this other source)
    | _, _ => none
  | .moveAssign this other =>
    match pool.objs this, pool.objs other with
    | some object, some source =>
      let pool := pool.finish types object
      if this = other then
        some { pool with
          objs := Function.update pool.objs this (some (object.movedOnto types))
          holds := Function.update pool.holds this
            (pool.holds this && decide ((object.movedOnto types).f = object.f)) }
      else
        some (pool.move types this other source)
    | _, _ => none
  | .call this =>
    match pool.objs this with
    | none => none
    | some object =>
      if pool.holds this then
        some { pool with
          objs := Function.update pool.objs this (some { object with called := true })
          explicit := pool.explicit ++ [object.f] }
      else
        none
  | .destroy this =>
    match pool.objs this with
    | none => none
    | some object =>
      let pool := pool.finish types object
      some { pool with
        objs := Function.update pool.objs this none
        holds := Function.update pool.holds this false }

abbrev Runs (allowed : CallOp F D → CallPool F D → Prop) (types : Callables F D) : CallPool F D → Prop :=
  Reachable (· = empty) (fun pool next => ∃ op, allowed op pool ∧ pool.step types op = some next)

omit [DecidableEq F] in
/-- No object is moved onto itself whose callable has not been called, unless a null one is
left by that. -/
def Careful (types : Callables F D) (op : CallOp F D) (pool : CallPool F D) : Prop :=
  match op with
  | .moveAssign this other => this ≠ other ∨ ∀ object, pool.objs this = some object →
      object.called = true ∨ fPop types (types.itself object.f) = false
  | _ => True

def pending (types : Callables F D) (pool : CallPool F D) (k : Nat) : Option (F × D) :=
  (pool.objs k).bind (AlwaysCallOnce.finalCall types)

/-- The calls of one callable with default arguments. -/
def finalsOf (f : F) (pool : CallPool F D) : List (F × D) := pool.finals.filter (·.1 = f)

/-- A callable that was called explicitly has no final call; any other one has been called
once with its own arguments, or is pending in one object. -/
structure Once (types : Callables F D) (pool : CallPool F D) : Prop where
  explicit : ∀ item ∈ pool.made, item.1 ∈ pool.explicit → pool.finalsOf item.1 = []
  others : ∀ item ∈ pool.made, item.1 ∉ pool.explicit →
    (pool.finalsOf item.1 = [item] ∧ ∀ k, pool.pending types k ≠ some item) ∨
    (pool.finalsOf item.1 = [] ∧ ∃! k, pool.pending types k = some item)
  gone : (∀ k, pool.objs k = none) → ∀ item ∈ pool.made, item.1 ∉ pool.explicit →
    pool.finalsOf item.1 = [item]

omit [DecidableEq F] in
/-- What an object holds has been called, or is to be called. -/
def Holding (types : Callables F D) (objs : Nat → Option (AlwaysCallOnce F D)) (holds : Nat → Bool)
    (explicit : List F) : Prop :=
  ∀ k object, objs k = some object → holds k = true →
    (object.called = true → object.f ∈ explicit) ∧ (object.called = false → fPop types object.f = true)

/-- What the runs keep; the callables that were called explicitly are dropped from the books. -/
structure Kept (types : Callables F D) (pool : CallPool F D) (dropped : List F) : Prop where
  tenure : Tenure (pool.pending types) pool.made pool.finals dropped
  explicit : ∀ f, f ∈ pool.explicit ↔ f ∈ dropped
  holding : Holding types pool.objs pool.holds pool.explicit

variable {types : Callables F D} {pool next : CallPool F D} {dropped : List F} {this other : Nat}
  {object source : AlwaysCallOnce F D}

omit [DecidableEq F] in
theorem pending_found (found : pool.objs this = some object) : pool.pending types this = object.finalCall types := by
  rw [pending, found, Option.bind_some]

omit [DecidableEq F] in
theorem pending_free (free : pool.objs this = none) : pool.pending types this = none := by
  rw [pending, free, Option.bind_none]

omit [DecidableEq F] in
theorem pending_update (types : Callables F D) (pool later : CallPool F D) (this : Nat)
    (entry : Option (AlwaysCallOnce F D)) (objs : later.objs = Function.update pool.objs this entry) :
    later.pending types =
      Function.update (pool.pending types) this (entry.bind (AlwaysCallOnce.finalCall types)) := by
  funext k
  rw [pending, objs]
  by_cases here : k = this
  · rw [here, Function.update_self, Function.update_self]
  · rw [Function.update_of_ne here, Function.update_of_ne here, pending]

omit [DecidableEq F] in
theorem finalCall_called (called : object.called = true) : object.finalCall types = none := by
  rw [AlwaysCallOnce.finalCall, called]
  rfl

omit [DecidableEq F] in
theorem finalCall_due (called : object.called = false) (pop : fPop types object.f = true) :
    object.finalCall types = some (object.f, object.default_args) := by
  rw [AlwaysCallOnce.finalCall, called, pop]
  rfl

omit [DecidableEq F] in
theorem finished (tenure : Tenure (pool.pending types) pool.made pool.finals dropped)
    (found : pool.objs this = some object) :
    Tenure (Function.update (pool.pending types) this none) pool.made (pool.finish types object).finals dropped := by
  have here : pool.pending types this = object.finalCall types := pending_found found
  simp only [CallPool.finish]
  cases due : object.finalCall types with
  | none =>
    have same : Function.update (pool.pending types) this none = pool.pending types := by
      rw [← here.trans due, Function.update_eq_self]
    rw [same, Option.toList_none, List.append_nil]
    exact tenure
  | some item => exact tenure.place (here.trans due)

omit [DecidableEq F] in
private theorem Holding.update {objs : Nat → Option (AlwaysCallOnce F D)} {holds : Nat → Bool}
    {explicit more : List F} (holding : Holding types objs holds explicit) (this : Nat)
    (entry : Option (AlwaysCallOnce F D)) (held : Bool) (among : ∀ f, f ∈ explicit → f ∈ more)
    (here : ∀ object, entry = some object → held = true →
      (object.called = true → object.f ∈ more) ∧ (object.called = false → fPop types object.f = true)) :
    Holding types (Function.update objs this entry) (Function.update holds this held) more := by
  intro k found there holds_there
  by_cases same : k = this
  · rw [same, Function.update_self] at there holds_there
    exact here found there holds_there
  · rw [Function.update_of_ne same] at there holds_there
    obtain ⟨called, due⟩ := holding k found there holds_there
    exact ⟨fun was => among _ (called was), due⟩

omit [DecidableEq F] in
/-- What `other` has goes to a place where nothing is pending. -/
private theorem passed (tenure : Tenure (pool.pending types) pool.made pool.finals dropped)
    (explicit : ∀ f, f ∈ pool.explicit ↔ f ∈ dropped) (holding : Holding types pool.objs pool.holds pool.explicit)
    (differ : this ≠ other) (free : pool.pending types this = none) (found : pool.objs other = some source) :
    Kept types (pool.move types this other source) dropped where
  tenure := by
    have spent : (source.moved types).finalCall types = none := finalCall_called rfl
    have moved : (pool.move types this other source).pending types =
        Function.update (Function.update (pool.pending types) other none) this (pool.pending types other) := by
      rw [pending_update types { pool with objs := Function.update pool.objs this (some source) }
        (pool.move types this other source) other _ rfl, pending_update types pool _ this _ rfl,
        Option.bind_some, Option.bind_some, spent, pending_found found,
        Function.update_comm differ]
    rw [moved]
    exact tenure.pass free
  explicit := explicit
  holding := by
    refine Holding.update (holding.update this (some source) (pool.holds other) (fun _ inside => inside) ?_) other
      (some (source.moved types)) false (fun _ inside => inside) nofun
    rintro object ⟨⟩ held
    exact holding other source found held

omit [DecidableEq F] in
private theorem construct_kept (kept : Kept types pool dropped) (free : pool.objs this = none) {f : F}
    (default_args : D) (pop : fPop types f = true) (fresh : f ∉ pool.made.map Prod.fst) :
    Kept types { pool with
      objs := Function.update pool.objs this (some { f := f, default_args := default_args, called := false })
      made := pool.made ++ [(f, default_args)]
      holds := Function.update pool.holds this true } dropped where
  tenure := by
    rw [pending_update types pool _ this _ rfl, Option.bind_some, finalCall_due rfl pop]
    exact kept.tenure.take (pending_free free) fresh
  explicit := kept.explicit
  holding := by
    refine kept.holding.update this _ true (fun _ inside => inside) ?_
    rintro object ⟨⟩ -
    exact ⟨nofun, fun _ => pop⟩

private theorem moveOnto_kept (kept : Kept types pool dropped) (here : pool.objs this = some object)
    (careful : object.called = true ∨ fPop types (types.itself object.f) = false) :
    Kept types { pool.finish types object with
      objs := Function.update pool.objs this (some (object.movedOnto types))
      holds := Function.update pool.holds this (pool.holds this && decide ((object.movedOnto types).f = object.f)) }
      dropped where
  tenure := by
    have onto : (object.movedOnto types).finalCall types = none := by
      rcases careful with called | null
      · exact finalCall_called called
      · simp [AlwaysCallOnce.finalCall, AlwaysCallOnce.movedOnto, null]
    rw [pending_update types (pool.finish types object) _ this _ rfl, Option.bind_some, onto]
    exact finished kept.tenure here
  explicit := kept.explicit
  holding := by
    refine kept.holding.update this _ _ (fun _ inside => inside) ?_
    rintro left ⟨⟩ held
    obtain ⟨held, still⟩ := (Bool.and_eq_true _ _).mp held
    have facts := kept.holding this object here held
    rw [← of_decide_eq_true still] at facts
    exact facts

omit [DecidableEq F] in
private theorem moveAssign_kept (kept : Kept types pool dropped) (here : pool.objs this = some object)
    (found : pool.objs other = some source) (differ : this ≠ other) :
    Kept types ((pool.finish types object).move types this other source) dropped := by
  let cleared : CallPool F D :=
    { pool.finish types object with
      objs := Function.update pool.objs this none
      holds := Function.update pool.holds this false }
  have at_other : cleared.objs other = some source := (Function.update_of_ne (Ne.symm differ) _ _).trans found
  have tenure : Tenure (cleared.pending types) cleared.made cleared.finals dropped := by
    rw [pending_update types pool cleared this none rfl, Option.bind_none]
    exact finished kept.tenure here
  have passed := passed tenure kept.explicit (kept.holding.update this none false (fun _ inside => inside) nofun)
    differ (pending_free (Function.update_self _ _ _)) at_other
  have same : cleared.move types this other source = (pool.finish types object).move types this other source := by
    simp only [cleared, CallPool.move, CallPool.finish, Function.update_idem, Function.update_of_ne (Ne.symm differ)]
  rw [← same]
  exact passed

omit [DecidableEq F] in
private theorem call_kept (kept : Kept types pool dropped) (here : pool.objs this = some object)
    (held : pool.holds this = true) :
    ∃ dropped, Kept types { pool with
      objs := Function.update pool.objs this (some { object with called := true })
      explicit := pool.explicit ++ [object.f] } dropped := by
  obtain ⟨tenure, explicit, holding⟩ := kept
  obtain ⟨was, due⟩ := holding this object here held
  have spent : ({ object with called := true } : AlwaysCallOnce F D).finalCall types = none := finalCall_called rfl
  have holds_same : pool.holds = Function.update pool.holds this true := by
    rw [← held, Function.update_eq_self]
  have holds : Holding types (Function.update pool.objs this (some { object with called := true })) pool.holds
      (pool.explicit ++ [object.f]) := by
    rw [holds_same]
    refine holding.update this _ true (fun _ inside => List.mem_append_left _ inside) ?_
    rintro after ⟨⟩ -
    exact ⟨fun _ => List.mem_append_right _ (List.mem_singleton_self _), nofun⟩
  cases called : object.called with
  | true =>
    refine ⟨dropped, ?_, fun f => ?_, holds⟩
    · rw [pending_update types pool _ this _ rfl, Option.bind_some, spent,
        ← (pending_found here).trans (finalCall_called called), Function.update_eq_self]
      exact tenure
    · rw [List.mem_append, List.mem_singleton, explicit]
      refine or_iff_left_of_imp fun same => ?_
      rw [same, ← explicit]
      exact was called
  | false =>
    refine ⟨dropped ++ [object.f], ?_, fun f => ?_, holds⟩
    · rw [pending_update types pool _ this _ rfl, Option.bind_some, spent]
      exact tenure.drop ((pending_found here).trans (finalCall_due called (due called)))
    · rw [List.mem_append, List.mem_append, explicit]

omit [DecidableEq F] in
private theorem destroy_kept (kept : Kept types pool dropped) (here : pool.objs this = some object) :
    Kept types { pool.finish types object with
      objs := Function.update pool.objs this none
      holds := Function.update pool.holds this false } dropped where
  tenure := by
    rw [pending_update types (pool.finish types object) _ this _ rfl, Option.bind_none]
    exact finished kept.tenure here
  explicit := kept.explicit
  holding := kept.holding.update this none false (fun _ inside => inside) nofun

theorem step_kept (kept : Kept types pool dropped) {op : CallOp F D} (careful : Careful types op pool)
    (stepped : pool.step types op = some next) : ∃ dropped, Kept types next dropped := by
  cases op with
  | construct this f default_args =>
    simp only [step] at stepped
    split at stepped
    · rename_i free
      split at stepped
      · rename_i fresh
        cases stepped
        exact ⟨dropped, construct_kept kept free default_args fresh.1 fresh.2⟩
      · cases stepped
    · cases stepped
  | moveConstruct this other =>
    simp only [step] at stepped
    split at stepped
    · rename_i source free found
      cases stepped
      have differ := (holders_differ free found).symm
      exact ⟨dropped, passed kept.tenure kept.explicit kept.holding differ (pending_free free) found⟩
    · cases stepped
  | moveAssign this other =>
    simp only [step] at stepped
    split at stepped
    · rename_i object source here found
      split at stepped
      · rename_i same
        cases stepped
        exact ⟨dropped, moveOnto_kept kept here ((careful.resolve_left fun differ => differ same) object here)⟩
      · rename_i differ
        cases stepped
        exact ⟨dropped, moveAssign_kept kept here found differ⟩
    · cases stepped
  | call this =>
    simp only [step] at stepped
    split at stepped
    · cases stepped
    · rename_i object here
      split at stepped
      · rename_i held
        cases stepped
        exact call_kept kept here held
      · cases stepped
  | destroy this =>
    simp only [step] at stepped
    split at stepped
    · cases stepped
    · rename_i object here
      cases stepped
      exact ⟨dropped, destroy_kept kept here⟩

private theorem finalsOf_eq {finals : List (F × D)} (once : (finals.map Prod.fst).Nodup) {item : F × D}
    (inside : item ∈ finals) : finals.filter (·.1 = item.1) = [item] := by
  induction finals with
  | nil => cases inside
  | cons first finals ih =>
    obtain ⟨new, rest⟩ := List.nodup_cons.mp once
    have others {other : F × D} (there : other ∈ finals) : other.1 ≠ first.1 :=
      fun same => new (same ▸ List.mem_map_of_mem there)
    rcases List.mem_cons.mp inside with rfl | later
    · rw [List.filter_cons_of_pos (by simp), List.filter_eq_nil_iff.mpr]
      intro other there
      simpa using others there
    · rw [List.filter_cons_of_neg (by simpa using (others later).symm)]
      exact ih rest later

private theorem finalsOf_nil {finals : List (F × D)} {f : F} (absent : f ∉ finals.map Prod.fst) :
    finals.filter (·.1 = f) = [] := by
  rw [List.filter_eq_nil_iff]
  intro item there
  simp only [decide_eq_true_eq]
  rintro rfl
  exact absent (List.mem_map_of_mem there)

theorem Kept.once (kept : Kept types pool dropped) : Once types pool := by
  obtain ⟨tenure, explicit, _⟩ := kept
  obtain ⟨once, _, apart⟩ := List.nodup_append'.mp tenure.once
  have others (item : F × D) (made : item ∈ pool.made) (never : item.1 ∉ pool.explicit) :
      (pool.finalsOf item.1 = [item] ∧ ∀ k, pool.pending types k ≠ some item) ∨
      (pool.finalsOf item.1 = [] ∧ ∃! k, pool.pending types k = some item) := by
    rcases tenure.accounted item made with placed | gone | ⟨k, holds⟩
    · refine .inl ⟨finalsOf_eq once placed, fun k holds => ?_⟩
      exact tenure.unplaced k item holds (List.mem_map_of_mem placed)
    · exact absurd ((explicit _).mpr gone) never
    · exact .inr ⟨finalsOf_nil (tenure.unplaced k item holds), k, holds,
        fun m also => tenure.alone m k item.1 item.2 item.2 also holds⟩
  refine ⟨fun item made called => finalsOf_nil fun placed => ?_, others, fun gone item made never => ?_⟩
  · exact apart placed ((explicit _).mp called)
  · rcases others item made never with ⟨one, _⟩ | ⟨_, k, holds, _⟩
    · exact one
    · rw [pending_free (gone k)] at holds
      cases holds

/-- As long as no uncalled callable is moved onto itself, every callable that is never called
explicitly is called exactly once with its own arguments, and the others never. -/
theorem runs_once (runs : Runs (Careful types) types pool) : Once types pool := by
  have kept : ∃ dropped, Kept types pool dropped := by
    apply runs.invariant
    · rintro _ rfl
      exact ⟨[], .start, fun _ => Iff.rfl, nofun⟩
    · rintro state next ⟨dropped, kept⟩ ⟨op, careful, stepped⟩
      exact step_kept kept careful stepped
  obtain ⟨dropped, kept⟩ := kept
  exact kept.once

/-- Function pointers: a move is a copy. -/
def pointers : Callables Nat Nat where
  equalsNull := some (· == 0)
  left := id
  leftArgs := id
  itself := id
  itselfArgs := id

/-- One callable is called as its object is assigned to, the other one explicitly. -/
theorem runs_once_assigned : ∃ pool : CallPool Nat Nat, Runs (Careful pointers) pointers pool ∧
    pool.finals = [(5, 3)] ∧ pool.explicit = [7] ∧ Once pointers pool := by
  let first := ((empty : CallPool Nat Nat).step pointers (.construct 0 5 3)).get rfl
  let second := (first.step pointers (.construct 1 7 4)).get rfl
  let assigned := (second.step pointers (.moveAssign 0 1)).get rfl
  let called := (assigned.step pointers (.call 0)).get rfl
  let last := (called.step pointers (.destroy 0)).get rfl
  have runs : Runs (Careful pointers) pointers last :=
    .step (.step (.step (.step (.step (.start rfl) ⟨.construct 0 5 3, trivial, rfl⟩) ⟨.construct 1 7 4, trivial, rfl⟩)
      ⟨.moveAssign 0 1, .inl (by decide), rfl⟩) ⟨.call 0, trivial, rfl⟩) ⟨.destroy 0, trivial, rfl⟩
  exact ⟨last, runs, rfl, rfl, runs_once runs⟩

/-- An object that is moved onto itself calls its callable, and again when it goes. -/
theorem runs_twice : ∃ pool : CallPool Nat Nat, Runs (fun _ _ => True) pointers pool ∧
    pool.objs 0 = none ∧ pool.explicit = [] ∧ pool.finals = [(5, 3), (5, 3)] ∧ ¬ Once pointers pool := by
  let made := ((empty : CallPool Nat Nat).step pointers (.construct 0 5 3)).get rfl
  let assigned := (made.step pointers (.moveAssign 0 0)).get rfl
  let last := (assigned.step pointers (.destroy 0)).get rfl
  have runs : Runs (fun _ _ => True) pointers last :=
    .step (.step (.step (.start rfl) ⟨.construct 0 5 3, trivial, rfl⟩) ⟨.moveAssign 0 0, trivial, rfl⟩)
      ⟨.destroy 0, trivial, rfl⟩
  refine ⟨last, runs, rfl, rfl, rfl, fun once => ?_⟩
  have twice : last.finalsOf 5 = [(5, 3), (5, 3)] := by decide
  rcases once.others (5, 3) (by decide) (by decide) with ⟨one, _⟩ | ⟨none, _⟩
  · exact absurd (twice.symm.trans one) (by decide)
  · exact absurd (twice.symm.trans none) (by decide)

end CallPool

end Stdplus.Handle
