import Stdplus.Base.Noexcept
import Stdplus.Handle.Accounted

/-! The exception specifications of copyable handles, each computed from those below it, and
what they do to an exception of the reference functor. -/

namespace Stdplus.Handle

open Stdplus.Base

/-- What the specifications are computed from: the traits of `std::optional<T>` and of
`std::tuple<As...>`, and how the call operators of `Drop` and `Ref` are declared. -/
structure Specs where
  moveConstructs : Bool
  moveAssigns : Bool
  destroys : Bool
  dataFrom : Bool
  dataCopies : Bool
  dataDestroys : Bool
  dropCall : Bool
  refCall : Bool

namespace Specs

variable (specs : Specs)

/-- `Handle<drop, ref>`: the operators of `Dropper` and `Reffer` are declared by
`noexcept(drop)` and `noexcept(ref)`, where nothing is called. -/
def handle : Specs := { specs with dropCall := Operand.name.noexcept, refCall := Operand.name.noexcept }

def drop_noexcept : Bool := (Operand.call specs.dropCall).noexcept

/-- The value that `Ref` returns is destroyed in the operand. -/
def ref_noexcept : Bool := (Operand.call specs.refCall).noexcept && specs.destroys

/-- `reset(std::optional<T>&&)` and `reset(T&&)`. -/
def resetMove : Bool := specs.drop_noexcept && specs.moveAssigns

/-- `reset()`. -/
def resetNone : Bool := specs.drop_noexcept

/-- `reset(const std::optional<T>&)`. -/
def resetOptional : Bool := specs.ref_noexcept && specs.resetMove && specs.resetNone

/-- `reset(const T&)`. -/
def resetValue : Bool := specs.ref_noexcept && specs.resetMove

def destructor : Bool := specs.dataDestroys && specs.destroys && specs.resetNone

/-- `noexcept(MHandleF(std::nullopt, ...))`, with the data made as given. -/
def managed (data : Bool) : Bool := specs.moveConstructs && data && specs.destructor

def constructOptional : Bool := specs.managed specs.dataFrom && specs.resetOptional
def constructValue : Bool := specs.managed specs.dataFrom && specs.resetValue
def copyConstruct : Bool := specs.managed specs.dataCopies && specs.resetOptional
def copyAssign : Bool := specs.resetNone && specs.dataCopies && specs.resetOptional

end Specs

variable {T As E : Type}

namespace Specs

variable (specs : Specs) (f : Functors T As E)

def callDrop (here : Here T As) : Ending (Stop E × Here T As) (Here T As) :=
  ((Ending.plain (Managed.maybeDrop f here)).noexcept specs.dropCall).noexcept specs.drop_noexcept

def callResetMove (maybeV : Option T) (here : Here T As) : Ending (Stop E × Here T As) (Here T As) :=
  (specs.callDrop f here >>= fun here => .returned { here with maybeT := maybeV }).noexcept specs.resetMove

def callResetNone (here : Here T As) : Ending (Stop E × Here T As) (Here T As) :=
  (specs.callResetMove f none here).noexcept specs.resetNone

/-- The call of `Ref`, inside of `doRef`. -/
def doRef (v : T) (here : Here T As) : Ending (Stop E × Here T As) (T × Here T As) :=
  ((Ending.plain (Copyable.doRef f v here)).noexcept specs.refCall).noexcept specs.ref_noexcept

def callResetValue (v : T) (here : Here T As) : Ending (Stop E × Here T As) (Here T As) :=
  (specs.doRef f v here >>= fun (t, here) => specs.callResetMove f (some t) here).noexcept specs.resetValue

def callResetOptional (maybeV : Option T) (here : Here T As) : Ending (Stop E × Here T As) (Here T As) :=
  Ending.noexcept specs.resetOptional <| match maybeV with
    | some v => specs.doRef f v here >>= fun (t, here) => specs.callResetMove f (some t) here
    | none => specs.callResetNone f here

def callConstructOptional (maybeV : Option T) (as : As) (calls : Calls T As) :
    Ending (Stop E × Here T As) (Here T As) :=
  (specs.callResetOptional f maybeV { as := as, maybeT := none, calls := calls }).noexcept specs.constructOptional

def callConstructValue (v : T) (as : As) (calls : Calls T As) : Ending (Stop E × Here T As) (Here T As) :=
  (specs.callResetValue f v { as := as, maybeT := none, calls := calls }).noexcept specs.constructValue

def callCopyConstruct (other : HandleF T As) (calls : Calls T As) : Ending (Stop E × Here T As) (Here T As) :=
  (specs.callResetOptional f other.maybeT { as := other.as, maybeT := none, calls := calls }).noexcept
    specs.copyConstruct

/-- Past the test for self-assignment. -/
def callCopyAssign (other : HandleF T As) (here : Here T As) : Ending (Stop E × Here T As) (Here T As) :=
  (specs.callResetNone f here >>= fun here =>
    specs.callResetOptional f other.maybeT { here with as := other.as }).noexcept specs.copyAssign

end Specs

/-- What makes a handle refer to a value that is not its own. -/
inductive Copying (T As : Type) where
  | constructOptional (this : Nat) (maybeV : Option T) (vs : As)
  | constructValue (this : Nat) (v : T) (vs : As)
  | copyConstruct (this other : Nat)
  | copyAssign (this other : Nat)
  | resetOptional (this : Nat) (maybeV : Option T)
  | resetValue (this : Nat) (v : T)

namespace Copying

def action : Copying T As → Action T As
  | constructOptional this maybeV vs => .constructRef this maybeV vs
  | constructValue this v vs => .constructRef this (some v) vs
  | copyConstruct this other => .copyConstruct this other
  | copyAssign this other => .copyAssign this other
  | resetOptional this maybeV => .resetRef this maybeV
  | resetValue this v => .resetRef this (some v)

def step (specs : Specs) (f : Functors T As E) (copying : Copying T As) (pool : Pool T As) :
    Ending (Stop E × Pool T As) (Pool T As) :=
  match copying with
  | constructOptional this maybeV vs => do
    Ending.plain (pool.raw this)
    (specs.callConstructOptional f maybeV vs pool.calls).through (pool.made this)
  | constructValue this v vs => do
    Ending.plain (pool.raw this)
    (specs.callConstructValue f v vs pool.calls).through (pool.made this)
  | copyConstruct this other => do
    Ending.plain (pool.raw this)
    let source ← Ending.plain (pool.get other)
    (specs.callCopyConstruct f source.toHandleF pool.calls).through (pool.made this)
  | copyAssign this other => do
    let here ← Ending.plain (pool.get this)
    let source ← Ending.plain (pool.get other)
    if this ≠ other then
      (specs.callCopyAssign f source.toHandleF here).through (pool.within this)
    else
      .returned pool
  | resetOptional this maybeV => do
    let here ← Ending.plain (pool.get this)
    (specs.callResetOptional f maybeV here).through (pool.within this)
  | resetValue this v => do
    let here ← Ending.plain (pool.get this)
    (specs.callResetValue f v here).through (pool.within this)

/-- What `Ref` is called with: how many calls came before, the value and the data. -/
def refers (f : Functors T As E) (pool : Pool T As) : Copying T As → Option (Nat × T × As)
  | constructOptional this maybeV vs =>
    if (pool.handles this).isNone then maybeV.map fun v => (pool.calls.count, v, vs) else none
  | constructValue this v vs => if (pool.handles this).isNone then some (pool.calls.count, v, vs) else none
  | copyConstruct this other =>
    if (pool.handles this).isNone then do
      let source ← pool.handles other
      let v ← source.maybeT
      some (pool.calls.count, v, source.as)
    else
      none
  | copyAssign this other => do
    let handle ← pool.handles this
    let source ← pool.handles other
    let v ← source.maybeT
    if this = other then
      none
    else
      -- the old value is dropped first
      match Managed.reset f none { handle with calls := pool.calls } with
      | .ok here => some (here.calls.count, v, source.as)
      | .error _ => none
  | resetOptional this maybeV => do
    let handle ← pool.handles this
    let v ← maybeV
    some (pool.calls.count, v, handle.as)
  | resetValue this v => do
    let handle ← pool.handles this
    some (pool.calls.count, v, handle.as)

/-- `Ref` is called and throws. -/
def RefThrows (f : Functors T As E) (copying : Copying T As) (pool : Pool T As) (e : E) : Prop :=
  ∃ count v as, copying.refers f pool = some (count, v, as) ∧ (f.ref count v as).2 = .error e

def source : Copying T As → Option Nat
  | copyConstruct _ other | copyAssign _ other => some other
  | _ => none

/-- The handle that is to keep its value if the new one cannot be had. -/
def resets : Copying T As → Option Nat
  | resetOptional this _ | resetValue this _ => some this
  | _ => none

/-- What is thrown reaches the caller, who finds the source unchanged and the target of a
reset with its old value. -/
def Received (copying : Copying T As) (pool : Pool T As) (e : E)
    (ending : Ending (Stop E × Pool T As) (Pool T As)) : Prop :=
  ∃ left, ending = .thrown (.functor e, left) ∧
    (∀ other, copying.source = some other → left.handles other = pool.handles other) ∧
    ∀ this, copying.resets = some this → left.holds this = pool.holds this

/-- Whatever `Ref` throws is received. -/
def Reports (specs : Specs) (f : Functors T As E) (copying : Copying T As) (pool : Pool T As) : Prop :=
  ∀ e, copying.RefThrows f pool e → copying.Received pool e (copying.step specs f pool)

end Copying

namespace Specs

variable (specs : Specs) (f : Functors T As E)

theorem callResetMove_within (maybeV : Option T) (here : Here T As) :
    (specs.callResetMove f maybeV here).Within (Managed.reset f maybeV here) := by
  have dropped := ((Ending.Within.plain (Managed.maybeDrop f here)).noexcept specs.dropCall).noexcept
    specs.drop_noexcept
  apply Ending.Within.noexcept
  exact dropped.bind fun _ => .inl rfl

theorem callResetNone_within (here : Here T As) :
    (specs.callResetNone f here).Within (Managed.reset f none here) :=
  (specs.callResetMove_within f none here).noexcept specs.resetNone

private theorem referred_within (v : T) (here : Here T As) :
    (specs.doRef f v here >>= fun (t, here) => specs.callResetMove f (some t) here).Within
      (Copyable.reset f (some v) here) := by
  have referred := ((Ending.Within.plain (Copyable.doRef f v here)).noexcept specs.refCall).noexcept
    specs.ref_noexcept
  exact referred.bind fun (t, here) => specs.callResetMove_within f (some t) here

theorem callResetValue_within (v : T) (here : Here T As) :
    (specs.callResetValue f v here).Within (Copyable.reset f (some v) here) :=
  (specs.referred_within f v here).noexcept specs.resetValue

theorem callResetOptional_within (maybeV : Option T) (here : Here T As) :
    (specs.callResetOptional f maybeV here).Within (Copyable.reset f maybeV here) := by
  apply Ending.Within.noexcept
  cases maybeV with
  | none => exact specs.callResetNone_within f here
  | some v => exact specs.referred_within f v here

theorem callCopyAssign_within (other : HandleF T As) (here : Here T As) :
    (specs.callCopyAssign f other here).Within (Copyable.copyAssign f other here) := by
  apply Ending.Within.noexcept
  exact (specs.callResetNone_within f here).bind fun here =>
    specs.callResetOptional_within f other.maybeT { here with as := other.as }

end Specs

namespace Copying

variable (specs : Specs) (f : Functors T As E)

private theorem within_rethrows (pool : Pool T As) (this : Nat) (what : Stop E × Here T As) :
    ∃ other, pool.within this (.error what) = .error other := ⟨_, rfl⟩

private theorem made_rethrows (pool : Pool T As) (this : Nat) (what : Stop E × Here T As) :
    ∃ other, pool.made this (.error what) = .error other := ⟨_, rfl⟩

/-- Specifications change nothing but that a throw may be the end of the program. -/
theorem step_within (copying : Copying T As) (pool : Pool T As) :
    (copying.step specs f pool).Within (pool.step f copying.action) := by
  have raw (this : Nat) := Ending.Within.plain (pool.raw this : Except (Stop E × Pool T As) Unit)
  have get (this : Nat) := Ending.Within.plain (pool.get this : Except (Stop E × Pool T As) (Here T As))
  cases copying with
  | constructOptional this maybeV vs =>
    refine (raw this).bind fun _ => Ending.Within.through ?_ (made_rethrows pool this)
    exact (specs.callResetOptional_within f maybeV _).noexcept _
  | constructValue this v vs =>
    refine (raw this).bind fun _ => Ending.Within.through ?_ (made_rethrows pool this)
    exact (specs.callResetValue_within f v _).noexcept _
  | copyConstruct this other =>
    refine (raw this).bind fun _ => (get other).bind fun source =>
      Ending.Within.through ?_ (made_rethrows pool this)
    exact (specs.callResetOptional_within f source.maybeT _).noexcept _
  | copyAssign this other =>
    refine (get this).bind fun here => (get other).bind fun source => ?_
    split
    · exact (specs.callCopyAssign_within f source.toHandleF here).through (within_rethrows pool this)
    · exact .inl rfl
  | resetOptional this maybeV =>
    refine (get this).bind fun here => Ending.Within.through ?_ (within_rethrows pool this)
    exact specs.callResetOptional_within f maybeV here
  | resetValue this v =>
    refine (get this).bind fun here => Ending.Within.through ?_ (within_rethrows pool this)
    exact specs.callResetValue_within f v here

end Copying

namespace Specs

/-- Each of the five levels is declared only where the call of `Ref` is. -/
structure Computed (specs : Specs) : Prop where
  doRef : specs.ref_noexcept = true → specs.refCall = true
  resetOptional : specs.resetOptional = true → specs.refCall = true
  resetValue : specs.resetValue = true → specs.refCall = true
  constructOptional : specs.constructOptional = true → specs.refCall = true
  constructValue : specs.constructValue = true → specs.refCall = true
  copyConstruct : specs.copyConstruct = true → specs.refCall = true
  copyAssign : specs.copyAssign = true → specs.refCall = true

theorem computed (specs : Specs) : Computed specs := by
  have inner : specs.ref_noexcept = true → specs.refCall = true := by
    simp only [ref_noexcept, Operand.noexcept, Bool.and_eq_true]
    exact And.left
  have optional : specs.resetOptional = true → specs.refCall = true := by
    simp only [resetOptional, Bool.and_eq_true]
    exact fun declared => inner declared.1.1
  have value : specs.resetValue = true → specs.refCall = true := by
    simp only [resetValue, Bool.and_eq_true]
    exact fun declared => inner declared.1
  refine ⟨inner, optional, value, ?_, ?_, ?_, ?_⟩
  · simp only [constructOptional, Bool.and_eq_true]
    exact fun declared => optional declared.2
  · simp only [constructValue, Bool.and_eq_true]
    exact fun declared => value declared.2
  · simp only [copyConstruct, Bool.and_eq_true]
    exact fun declared => optional declared.2
  · simp only [copyAssign, Bool.and_eq_true]
    exact fun declared => optional declared.2

/-- What `Ref` leaves of the handle when it throws. -/
def spoilt (f : Functors T As E) (v : T) (here : Here T As) : Here T As :=
  { here with
    as := (f.ref here.calls.count v here.as).1
    calls := { here.calls with count := here.calls.count + 1 } }

variable (specs : Specs) {f : Functors T As E} {v : T} {here : Here T As} {e : E}
  (throws : (f.ref here.calls.count v here.as).2 = .error e)

include throws

theorem doRef_throws : specs.doRef f v here = .leaving specs.refCall (.functor e, spoilt f v here) := by
  have thrown : Copyable.doRef f v here = .error (.functor e, spoilt f v here) := by
    simp only [Copyable.doRef, throws]
    rfl
  rw [doRef, thrown]
  exact Ending.noexcept_leaving _ specs.computed.doRef

theorem callResetValue_throws :
    specs.callResetValue f v here = .leaving specs.refCall (.functor e, spoilt f v here) := by
  rw [callResetValue, doRef_throws specs throws, Ending.leaving_bind]
  exact Ending.noexcept_leaving _ specs.computed.resetValue

theorem callResetOptional_throws :
    specs.callResetOptional f (some v) here = .leaving specs.refCall (.functor e, spoilt f v here) := by
  rw [callResetOptional, doRef_throws specs throws, Ending.leaving_bind]
  exact Ending.noexcept_leaving _ specs.computed.resetOptional

omit throws

variable {as : As} {calls : Calls T As} {other : HandleF T As}

theorem callConstructOptional_throws (throws : (f.ref calls.count v as).2 = .error e) :
    specs.callConstructOptional f (some v) as calls = .leaving specs.refCall (.functor e,
      spoilt f v { as := as, maybeT := none, calls := calls }) := by
  have body : specs.callResetOptional f (some v) { as := as, maybeT := none, calls := calls } = _ :=
    callResetOptional_throws specs throws
  rw [callConstructOptional, body]
  exact Ending.noexcept_leaving _ specs.computed.constructOptional

theorem callConstructValue_throws (throws : (f.ref calls.count v as).2 = .error e) :
    specs.callConstructValue f v as calls = .leaving specs.refCall (.functor e,
      spoilt f v { as := as, maybeT := none, calls := calls }) := by
  have body : specs.callResetValue f v { as := as, maybeT := none, calls := calls } = _ :=
    callResetValue_throws specs throws
  rw [callConstructValue, body]
  exact Ending.noexcept_leaving _ specs.computed.constructValue

theorem callCopyConstruct_throws (holds : other.maybeT = some v)
    (throws : (f.ref calls.count v other.as).2 = .error e) :
    specs.callCopyConstruct f other calls = .leaving specs.refCall (.functor e,
      spoilt f v { as := other.as, maybeT := none, calls := calls }) := by
  have body : specs.callResetOptional f (some v) { as := other.as, maybeT := none, calls := calls } = _ :=
    callResetOptional_throws specs throws
  rw [callCopyConstruct, holds, body]
  exact Ending.noexcept_leaving _ specs.computed.copyConstruct

theorem callCopyAssign_throws {after : Here T As} (dropped : Managed.reset f none here = .ok after)
    (holds : other.maybeT = some v) (throws : (f.ref after.calls.count v other.as).2 = .error e) :
    specs.callCopyAssign f other here = .leaving specs.refCall (.functor e,
      spoilt f v { after with as := other.as }) := by
  have emptied : specs.callResetNone f here = .returned after :=
    (dropped ▸ specs.callResetNone_within f here).returned
  have body : specs.callResetOptional f (some v) { after with as := other.as } = _ :=
    callResetOptional_throws specs throws
  rw [callCopyAssign, emptied, Ending.returned_bind, holds, body]
  exact Ending.noexcept_leaving _ specs.computed.copyAssign

end Specs

namespace Copying

variable (specs : Specs) {f : Functors T As E} {pool : Pool T As} {e : E}

private theorem plain_raw {this : Nat} (free : pool.handles this = none) :
    Ending.plain (pool.raw this : Except (Stop E × Pool T As) Unit) = .returned () := by
  rw [Pool.raw, free]
  rfl

private theorem plain_get {this : Nat} {handle : HandleF T As} (there : pool.handles this = some handle) :
    Ending.plain (pool.get this : Except (Stop E × Pool T As) (Here T As)) =
      .returned { handle with calls := pool.calls } := by
  rw [Pool.get, there]
  rfl

private theorem made_leaving {this : Nat} (free : pool.handles this = none) {declared : Bool} {left : Here T As} :
    (Ending.plain (pool.raw this) >>= fun _ =>
        (Ending.leaving declared (.functor e, left)).through (pool.made this)) =
      Ending.leaving declared (.functor e, { pool with calls := left.calls }) := by
  rw [plain_raw free, Ending.returned_bind]
  exact Ending.leaving_through _ _ rfl

private theorem within_leaving {this : Nat} {handle : HandleF T As} (there : pool.handles this = some handle)
    {declared : Bool} {v : T} {body : Here T As → Ending (Stop E × Here T As) (Here T As)}
    (thrown : body { handle with calls := pool.calls } = .leaving declared (.functor e,
      Specs.spoilt f v { handle with calls := pool.calls })) :
    ∃ left, (Ending.plain (pool.get this) >>= fun here => (body here).through (pool.within this)) =
        Ending.leaving declared (.functor e, left) ∧ left.holds this = pool.holds this := by
  rw [plain_get there, Ending.returned_bind, thrown]
  refine ⟨_, Ending.leaving_through _ _ rfl, ?_⟩
  simp [Pool.holds, Pool.put, Specs.spoilt, there]

private theorem kept_handles (copying : Copying T As) {left : Pool T As} (same : left.handles = pool.handles) :
    (∀ other, copying.source = some other → left.handles other = pool.handles other) ∧
      ∀ this, copying.resets = some this → left.holds this = pool.holds this := by
  constructor
  · intro other _
    rw [same]
  · intro this _
    rw [Pool.holds, same, Pool.holds]

/-- What `Ref` throws leaves the operation, if it leaves the functor; and it leaves the
source and, from a reset, the value of the target. -/
theorem step_throws (copying : Copying T As) (throws : copying.RefThrows f pool e) :
    ∃ left, copying.step specs f pool = .leaving specs.refCall (.functor e, left) ∧
      (∀ other, copying.source = some other → left.handles other = pool.handles other) ∧
      ∀ this, copying.resets = some this → left.holds this = pool.holds this := by
  obtain ⟨count, v, as, refers, thrown⟩ := throws
  cases copying with
  | constructOptional this maybeV vs =>
    simp only [Copying.refers, Option.isNone_iff_eq_none, Option.ite_none_right_eq_some, Option.map_eq_some_iff,
      Prod.mk.injEq] at refers
    obtain ⟨free, value, rfl, rfl, rfl, rfl⟩ := refers
    rw [step, Specs.callConstructOptional_throws specs thrown]
    exact ⟨_, made_leaving free, kept_handles _ rfl⟩
  | constructValue this value vs =>
    simp only [Copying.refers, Option.isNone_iff_eq_none, Option.ite_none_right_eq_some, Option.some.injEq,
      Prod.mk.injEq] at refers
    obtain ⟨free, rfl, rfl, rfl⟩ := refers
    rw [step, Specs.callConstructValue_throws specs thrown]
    exact ⟨_, made_leaving free, kept_handles _ rfl⟩
  | copyConstruct this other =>
    simp only [Copying.refers, Option.isNone_iff_eq_none, Option.ite_none_right_eq_some, Option.bind_eq_bind,
      Option.bind_eq_some_iff, Option.some.injEq, Prod.mk.injEq] at refers
    obtain ⟨free, source, there, value, holds, rfl, rfl, rfl⟩ := refers
    rw [step, plain_get there]
    simp only [Ending.returned_bind, Specs.callCopyConstruct_throws specs holds thrown]
    exact ⟨_, made_leaving free, kept_handles _ rfl⟩
  | copyAssign this other =>
    simp only [Copying.refers, Option.bind_eq_bind, Option.bind_eq_some_iff,
      Option.ite_none_left_eq_some] at refers
    obtain ⟨handle, there, source, present, value, holds, differ, refers⟩ := refers
    split at refers
    · rename_i here dropped
      simp only [Option.some.injEq, Prod.mk.injEq] at refers
      obtain ⟨rfl, rfl, rfl⟩ := refers
      rw [step, plain_get there, plain_get present]
      simp only [Ending.returned_bind, ne_eq]
      rw [if_pos differ, Specs.callCopyAssign_throws specs dropped holds thrown]
      refine ⟨_, Ending.leaving_through _ _ rfl, ?_, ?_⟩
      · intro one same
        obtain rfl : other = one := Option.some.inj same
        exact Function.update_of_ne (Ne.symm differ) _ _
      · intro one absent
        cases absent
    · cases refers
  | resetOptional this maybeV =>
    simp only [Copying.refers, Option.bind_eq_bind, Option.bind_eq_some_iff, Option.some.injEq,
      Prod.mk.injEq] at refers
    obtain ⟨handle, there, value, rfl, rfl, rfl, rfl⟩ := refers
    have body : specs.callResetOptional f (some value) { handle with calls := pool.calls } = _ :=
      Specs.callResetOptional_throws specs thrown
    obtain ⟨left, leaves, kept⟩ := within_leaving there body
    refine ⟨left, leaves, ?_, ?_⟩
    · intro other absent
      cases absent
    · intro one same
      exact Option.some.inj same ▸ kept
  | resetValue this value =>
    simp only [Copying.refers, Option.bind_eq_bind, Option.bind_eq_some_iff, Option.some.injEq,
      Prod.mk.injEq] at refers
    obtain ⟨handle, there, rfl, rfl, rfl⟩ := refers
    have body : specs.callResetValue f value { handle with calls := pool.calls } = _ :=
      Specs.callResetValue_throws specs thrown
    obtain ⟨left, leaves, kept⟩ := within_leaving there body
    refine ⟨left, leaves, ?_, ?_⟩
    · intro other absent
      cases absent
    · intro one same
      exact Option.some.inj same ▸ kept

/-- The functor form is as good as its functor: what that throws is received, unless the
functor itself is declared not to throw. -/
theorem reports_iff (copying : Copying T As) (pool : Pool T As) : copying.Reports specs f pool ↔
    ∀ e, copying.RefThrows f pool e → specs.refCall = false := by
  constructor
  · intro reports e throws
    obtain ⟨left, ended, _⟩ := reports e throws
    obtain ⟨_, leaves, _⟩ := step_throws specs copying throws
    rw [leaves] at ended
    cases declared : specs.refCall with
    | false => rfl
    | true =>
      rw [declared] at ended
      cases ended
  · intro undeclared e throws
    obtain ⟨left, leaves, unchanged, kept⟩ := step_throws specs copying throws
    rw [undeclared e throws] at leaves
    exact ⟨left, leaves, unchanged, kept⟩

end Copying

/-- `std::system_error`. -/
structure SystemError where
  code : Nat
  what : String
deriving DecidableEq

/-- How the kernel answers the calls on descriptors: `fcntl` with `F_DUPFD_CLOEXEC`, with a new
descriptor or with `errno`, and `close`. -/
structure Kernel where
  fcntl : Nat → Int → Int → Except Nat Int
  close : Nat → Int → Option Nat

namespace DupableFd

/-- `detail::drop` and `detail::ref`. -/
def functors (kernel : Kernel) : Functors Int Unit SystemError where
  drop count fd as := (as, (kernel.close count fd).map fun code => { code, what := "close" })
  ref count fd as := (as, (kernel.fcntl count fd fd).mapError fun code => { code, what := "fcntl dupfd_cloexec" })
  moved as := as

/-- Integers and empty tuples do not throw. -/
def specs : Specs where
  moveConstructs := true
  moveAssigns := true
  destroys := true
  dataFrom := true
  dataCopies := true
  dataDestroys := true
  dropCall := true
  refCall := true

/-- `DupableFd(const int&)`. -/
def construct (kernel : Kernel) (fd : Int) (calls : Calls Int Unit) :
    Ending (Stop SystemError × Here Int Unit) (Here Int Unit) :=
  specs.handle.callConstructValue (functors kernel) fd () calls

theorem construct_terminated_iff (kernel : Kernel) (fd : Int) (calls : Calls Int Unit) :
    construct kernel fd calls = .terminated ↔ ∃ code, kernel.fcntl calls.count fd fd = .error code := by
  cases answer : kernel.fcntl calls.count fd fd with
  | error code =>
    have throws : ((functors kernel).ref calls.count fd ()).2 =
        .error { code, what := "fcntl dupfd_cloexec" } := by
      simp only [functors, answer]
      rfl
    have leaves : construct kernel fd calls = _ := Specs.callConstructValue_throws specs.handle throws
    exact iff_of_true leaves ⟨code, rfl⟩
  | ok new =>
    have referred : ((functors kernel).ref calls.count fd ()).2 = .ok new := by
      simp only [functors, answer]
      rfl
    obtain ⟨here, made⟩ : ∃ here, Copyable.construct (functors kernel) (some fd) () calls = .ok here := by
      simp only [Copyable.construct, Copyable.reset, Copyable.doRef, referred]
      exact ⟨_, rfl⟩
    have within := (specs.handle.callResetValue_within (functors kernel) fd
      { as := (), maybeT := none, calls := calls }).noexcept specs.handle.constructValue
    have returned : construct kernel fd calls = .returned here := Ending.Within.returned (made ▸ within)
    rw [returned]
    exact iff_of_false (by simp) (by simp)

end DupableFd

/-- The function pointer form never reports: its functors are declared by naming a function,
so whatever that throws terminates the program, be it a failing duplication. -/
theorem handle_reports_iff (specs : Specs) (f : Functors T As E) (copying : Copying T As) (pool : Pool T As) :
    (copying.Reports specs.handle f pool ↔ ¬ ∃ e, copying.RefThrows f pool e) ∧
      (∀ e, copying.RefThrows f pool e → copying.step specs.handle f pool = .terminated) ∧
      ∀ (kernel : Kernel) (fd : Int) (calls : Calls Int Unit),
        DupableFd.construct kernel fd calls = .terminated ↔
          ∃ code, kernel.fcntl calls.count fd fd = .error code := by
  refine ⟨?_, ?_, DupableFd.construct_terminated_iff⟩
  · rw [Copying.reports_iff]
    constructor
    · rintro undeclared ⟨e, throws⟩
      cases undeclared e throws
    · intro never e throws
      exact absurd ⟨e, throws⟩ never
  · intro e throws
    obtain ⟨_, leaves, _⟩ := Copying.step_throws specs.handle copying throws
    exact leaves

/-- A process that may not open any more descriptors (`EMFILE`). -/
def Kernel.exhausted : Kernel where
  fcntl _ _ _ := .error 24
  close _ _ := none

/-- Its `DupableFd(5)` terminates the program, though `detail::ref` throws the documented
exception, which an undeclared functor would let out. -/
theorem dupableFd_terminates :
    (Copying.constructValue 0 5 ()).RefThrows (DupableFd.functors Kernel.exhausted) Pool.empty
        { code := 24, what := "fcntl dupfd_cloexec" } ∧
      DupableFd.construct Kernel.exhausted 5 Pool.empty.calls = .terminated ∧
      ¬ (Copying.constructValue 0 5 ()).Reports DupableFd.specs.handle (DupableFd.functors Kernel.exhausted)
        Pool.empty ∧
      (Copying.constructValue 0 5 ()).Reports { DupableFd.specs with refCall := false }
        (DupableFd.functors Kernel.exhausted) Pool.empty := by
  have throws : (Copying.constructValue 0 5 ()).RefThrows (DupableFd.functors Kernel.exhausted) Pool.empty
      { code := 24, what := "fcntl dupfd_cloexec" } := ⟨0, 5, (), rfl, rfl⟩
  refine ⟨throws, (DupableFd.construct_terminated_iff _ _ _).mpr ⟨24, rfl⟩, fun reports => ?_, ?_⟩
  · cases (Copying.reports_iff DupableFd.specs.handle _ Pool.empty).mp reports _ throws
  · exact (Copying.reports_iff _ _ Pool.empty).mpr fun _ _ => rfl

end Stdplus.Handle
