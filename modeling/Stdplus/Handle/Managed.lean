import Mathlib

/-! `Managed::HandleF` and `Copyable::HandleF` over any drop and reference functors,
which may change the associated data and may throw. A managed handle is a copyable
one that nobody copies. -/

namespace Stdplus.Handle

/-- `Drop` and `Ref`, given how many of their calls came before, and what a move
leaves of the associated data. -/
structure Functors (T As E : Type) where
  drop : Nat → T → As → As × Option E
  ref : Nat → T → As → As × Except E T
  moved : As → As

structure HandleF (T As : Type) where
  as : As
  maybeT : Option T
deriving DecidableEq

/-- What happened so far: the resources that were adopted or made by `Ref`, those
given to the caller, and the calls of `Drop`. -/
structure Calls (T As : Type) where
  count : Nat
  entered : List T
  released : List T
  dropped : List (T × As)
deriving DecidableEq

structure Here (T As : Type) extends HandleF T As where
  calls : Calls T As

/-- An access to a handle that does not exist, or what is thrown. -/
inductive Stop (E : Type) where
  | bad
  | bad_optional_access
  | functor (thrown : E)
deriving DecidableEq

variable {T As E : Type}

namespace Managed

variable (f : Functors T As E)

def maybeDrop (here : Here T As) : Except (Stop E × Here T As) (Here T As) :=
  match here.maybeT with
  | none => .ok here
  | some t =>
    let result := f.drop here.calls.count t here.as
    let after : Here T As := { here with
      as := result.1
      calls := { here.calls with
        count := here.calls.count + 1
        dropped := here.calls.dropped ++ [(t, here.as)] } }
    match result.2 with
    | none => .ok after
    | some thrown => .error (.functor thrown, after)

/-- `reset(std::optional<T>&&)`; the overload for `T&&` does the same. -/
def reset (maybeV : Option T) (here : Here T As) : Except (Stop E × Here T As) (Here T As) := do
  let here ← maybeDrop f here
  .ok { here with maybeT := maybeV }

/-- The new handle, and what is left of the other one. -/
def moveConstruct (other : HandleF T As) (calls : Calls T As) : Here T As × HandleF T As :=
  ({ as := other.as, maybeT := other.maybeT, calls := calls }, { as := f.moved other.as, maybeT := none })

/-- Past the test for self-assignment. -/
def moveAssign (other : HandleF T As) (here : Here T As) :
    Except (Stop E × Here T As) (Here T As × HandleF T As) := do
  let here ← reset f other.maybeT here
  .ok ({ here with as := other.as }, { as := f.moved other.as, maybeT := none })

def release (here : Here T As) : Except (Stop E × Here T As) (T × Here T As) :=
  match here.maybeT with
  | none => .error (.bad_optional_access, here)
  | some ret => .ok (ret, { here with maybeT := none })

def maybe_release (here : Here T As) : Option T × Here T As := (here.maybeT, { here with maybeT := none })

end Managed

namespace Copyable

variable (f : Functors T As E)

def doRef (v : T) (here : Here T As) : Except (Stop E × Here T As) (T × Here T As) :=
  let result := f.ref here.calls.count v here.as
  let calls := { here.calls with count := here.calls.count + 1 }
  match result.2 with
  | .error thrown => .error (.functor thrown, { here with as := result.1, calls := calls })
  | .ok t => .ok (t, { here with
      as := result.1
      calls := { calls with entered := calls.entered ++ [t] } })

/-- `reset(const std::optional<T>&)`; the overload for `const T&` does the same. -/
def reset (maybeV : Option T) (here : Here T As) : Except (Stop E × Here T As) (Here T As) :=
  match maybeV with
  | some v => do
    let (t, here) ← doRef f v here
    Managed.reset f (some t) here
  | none => Managed.reset f none here

/-- Also the copy constructor, with the value and the data of the other handle. -/
def construct (maybeV : Option T) (as : As) (calls : Calls T As) :
    Except (Stop E × Here T As) (Here T As) :=
  reset f maybeV { as := as, maybeT := none, calls := calls }

/-- Past the test for self-assignment. -/
def copyAssign (other : HandleF T As) (here : Here T As) : Except (Stop E × Here T As) (Here T As) := do
  let here ← Managed.reset f none here
  reset f other.maybeT { here with as := other.as }

end Copyable

structure Pool (T As : Type) where
  handles : Nat → Option (HandleF T As)
  calls : Calls T As

/-- What a program does with its handles; `Ref` constructions and resets take the
value by reference. -/
inductive Action (T As : Type) where
  | construct (this : Nat) (maybeV : Option T) (vs : As)
  | constructRef (this : Nat) (maybeV : Option T) (vs : As)
  | moveConstruct (this other : Nat)
  | copyConstruct (this other : Nat)
  | moveAssign (this other : Nat)
  | copyAssign (this other : Nat)
  | reset (this : Nat) (maybeV : Option T)
  | resetRef (this : Nat) (maybeV : Option T)
  | release (this : Nat)
  | maybe_release (this : Nat)
  | destroy (this : Nat)

namespace Pool

def empty : Pool T As where
  handles := fun _ => none
  calls := { count := 0, entered := [], released := [], dropped := [] }

def get (this : Nat) (pool : Pool T As) : Except (Stop E × Pool T As) (Here T As) :=
  match pool.handles this with
  | none => .error (.bad, pool)
  | some handle => .ok { handle with calls := pool.calls }

def raw (this : Nat) (pool : Pool T As) : Except (Stop E × Pool T As) Unit :=
  match pool.handles this with
  | none => .ok ()
  | some _ => .error (.bad, pool)

def put (this : Nat) (here : Here T As) (pool : Pool T As) : Pool T As where
  handles := Function.update pool.handles this (some here.toHandleF)
  calls := here.calls

def clear (this : Nat) (calls : Calls T As) (pool : Pool T As) : Pool T As where
  handles := Function.update pool.handles this none
  calls := calls

/-- The caller hands over a value it owns. -/
def adopt (maybeV : Option T) (calls : Calls T As) : Calls T As :=
  { calls with entered := calls.entered ++ maybeV.toList }

/-- The caller owns the value again. -/
def give (ret : Option T) (here : Here T As) : Here T As :=
  { here with calls := { here.calls with released := here.calls.released ++ ret.toList } }

/-- An operation on one handle of the pool; an exception leaves what it found. -/
def within (this : Nat) (pool : Pool T As) (outcome : Except (Stop E × Here T As) (Here T As)) :
    Except (Stop E × Pool T As) (Pool T As) :=
  match outcome with
  | .ok here => .ok (pool.put this here)
  | .error (stop, here) => .error (stop, pool.put this here)

/-- A constructor that may throw; nothing is there to be dropped then. -/
def made (this : Nat) (pool : Pool T As) (outcome : Except (Stop E × Here T As) (Here T As)) :
    Except (Stop E × Pool T As) (Pool T As) :=
  match outcome with
  | .ok here => .ok (pool.put this here)
  | .error (stop, here) => .error (stop, { pool with calls := here.calls })

def step (f : Functors T As E) (action : Action T As) (pool : Pool T As) :
    Except (Stop E × Pool T As) (Pool T As) :=
  match action with
  | .construct this maybeV vs => do
    pool.raw this
    .ok (pool.put this { as := vs, maybeT := maybeV, calls := adopt maybeV pool.calls })
  | .constructRef this maybeV vs => do
    pool.raw this
    pool.made this (Copyable.construct f maybeV vs pool.calls)
  | .moveConstruct this other => do
    pool.raw this
    let source ← pool.get other
    let (here, rest) := Managed.moveConstruct f source.toHandleF pool.calls
    .ok { pool.put this here with handles := Function.update (pool.put this here).handles other (some rest) }
  | .copyConstruct this other => do
    pool.raw this
    let source ← pool.get other
    pool.made this (Copyable.construct f source.maybeT source.as pool.calls)
  | .moveAssign this other => do
    let here ← pool.get this
    let source ← pool.get other
    if this ≠ other then
      match Managed.moveAssign f source.toHandleF here with
      | .ok (here, rest) =>
        .ok { pool.put this here with handles := Function.update (pool.put this here).handles other (some rest) }
      | .error (stop, here) => .error (stop, pool.put this here)
    else
      .ok pool
  | .copyAssign this other => do
    let here ← pool.get this
    let source ← pool.get other
    if this ≠ other then
      pool.within this (Copyable.copyAssign f source.toHandleF here)
    else
      .ok pool
  | .reset this maybeV => do
    let here ← pool.get this
    pool.within this (Managed.reset f maybeV { here with calls := adopt maybeV here.calls })
  | .resetRef this maybeV => do
    let here ← pool.get this
    pool.within this (Copyable.reset f maybeV here)
  | .release this => do
    let here ← pool.get this
    match Managed.release here with
    | .ok (ret, here) => .ok (pool.put this (give (some ret) here))
    | .error (stop, here) => .error (stop, pool.put this here)
  | .maybe_release this => do
    let here ← pool.get this
    let (ret, here) := Managed.maybe_release here
    .ok (pool.put this (give ret here))
  | .destroy this => do
    let here ← pool.get this
    match Managed.reset f none here with
    | .ok here => .ok (pool.clear this here.calls)
    | .error (stop, here) => .error (stop, pool.clear this here.calls)

/-- The program goes on after an exception; only an access to a handle that does
not exist stops it. -/
def next (f : Functors T As E) (action : Action T As) (pool : Pool T As) : Option (Pool T As) :=
  match pool.step f action with
  | .ok after => some after
  | .error (.bad, _) => none
  | .error (_, after) => some after

def run (f : Functors T As E) (actions : List (Action T As)) : Option (Pool T As) :=
  actions.foldlM (fun pool action => pool.next f action) empty

end Pool

end Stdplus.Handle
