import Stdplus.Str.Operations

namespace Stdplus.Str

open Stdplus.Base Store

variable {l : Layout} {A σ : Type}

/-- The objects with the heap they share. -/
structure Pool (l : Layout) (A : Type) where
  objs : Nat → Option (StrBuf A)
  heap : Heap l A

/-- What a program does with its buffers: an object is made in raw storage, and the
allocator has an answer ready wherever it may be asked. -/
inductive Action (l : Layout) (A : Type) where
  | construct (this : Nat) (a : A) (raw : Store)
  | append (this : Nat) (chars : List l.Char) (grant : Option (Grant l))
  | push_back (this : Nat) (c : l.Char) (grant : Option (Grant l))
  | shrink (this amt : Nat)
  | clear (this : Nat)
  | moveConstruct (this other : Nat) (raw : Store)
  | copyConstruct (this other : Nat) (raw : Store) (grant : Option (Grant l))
  | moveAssign (this other : Nat)
  | copyAssign (this other : Nat) (grant : Option (Grant l))
  | destroy (this : Nat)

namespace Pool

def empty : Pool l A where
  objs := fun _ => none
  heap := fun _ => none

def get (this : Nat) (pool : Pool l A) : Except (Stop σ) (Here l A) :=
  match pool.objs this with
  | none => .error .bad
  | some buf => .ok { buf with heap := pool.heap }

def raw (this : Nat) (pool : Pool l A) : Except (Stop σ) Unit :=
  match pool.objs this with
  | none => .ok ()
  | some _ => .error .bad

def put (this : Nat) (here : Here l A) (pool : Pool l A) : Pool l A where
  objs := Function.update pool.objs this (some here.toStrBuf)
  heap := here.heap

/-- An operation on one object of the pool. -/
def within (this : Nat) (pool : Pool l A) (outcome : Except (Stop (Here l A)) (Here l A)) :
    Except (Stop (Pool l A)) (Pool l A) :=
  match outcome with
  | .ok here => .ok (pool.put this here)
  | .error .bad => .error .bad
  | .error (.thrown left) => .error (.thrown (pool.put this left))

variable [DecidableEq A]

def step (traits : Traits A) (action : Action l A) (pool : Pool l A) :
    Except (Stop (Pool l A)) (Pool l A) :=
  match action with
  | .construct this a raw => do
    pool.raw this
    .ok (pool.put this { StrBuf.init l a raw with heap := pool.heap })
  | .append this chars grant => do
    let here ← pool.get this
    pool.within this (here.appendRange chars grant)
  | .push_back this c grant => do
    let here ← pool.get this
    pool.within this (here.push_back c grant)
  | .shrink this amt => do
    let here ← pool.get this
    .ok (pool.put this (here.shrink amt))
  | .clear this => do
    let here ← pool.get this
    .ok (pool.put this here.clear)
  | .moveConstruct this other raw => do
    pool.raw this
    let source ← pool.get other
    let (here, rest) ← Here.move false source.toStrBuf
      { StrBuf.init l source.allocator raw with heap := pool.heap }
    .ok { pool.put this here with objs := Function.update (pool.put this here).objs other (some rest) }
  | .copyConstruct this other raw grant => do
    pool.raw this
    let source ← pool.get other
    let a := traits.select_on_container_copy_construction source.allocator
    match Here.copy false source.toStrBuf grant { StrBuf.init l a raw with heap := pool.heap } with
    | .ok here => .ok (pool.put this here)
    | .error .bad => .error .bad
    | .error (.thrown left) => .error (.thrown { pool with heap := left.heap })
  | .moveAssign this other => do
    let here ← pool.get this
    let source ← pool.get other
    if this ≠ other then
      let here := if traits.propagate_on_container_move_assignment then
        { here with allocator := source.allocator } else here
      let (here, rest) ← here.move true source.toStrBuf
      .ok { pool.put this here with objs := Function.update (pool.put this here).objs other (some rest) }
    else
      .ok pool
  | .copyAssign this other grant => do
    let here ← pool.get this
    let source ← pool.get other
    if this ≠ other then
      pool.within this (here.copy true source.toStrBuf grant)
    else
      .ok pool
  | .destroy this => do
    let here ← pool.get this
    let heap ← here.destroy
    .ok { objs := Function.update pool.objs this none, heap := heap }

def run (traits : Traits A) (actions : List (Action l A)) : Except (Stop (Pool l A)) (Pool l A) :=
  actions.foldlM (fun pool action => step traits action pool) empty

end Pool

/-- The buffers as lists of characters. -/
abbrev Strings (l : Layout) := Nat → Option (List l.Char)

namespace Strings

/-- The list each operation means; `none` where the program may not use it. -/
def step (action : Action l A) (strings : Strings l) : Option (Strings l) :=
  match action with
  | .construct this _ _ =>
    match strings this with
    | none => some (Function.update strings this (some []))
    | some _ => none
  | .append this more _ => do
    let chars ← strings this
    if chars.length + more.length < 2 ^ 63 then
      some (Function.update strings this (some (chars ++ more)))
    else
      none
  | .push_back this c _ => do
    let chars ← strings this
    if chars.length + 1 < 2 ^ 63 then
      some (Function.update strings this (some (chars ++ [c])))
    else
      none
  | .shrink this amt => do
    let chars ← strings this
    if amt ≤ chars.length then
      some (Function.update strings this (some (chars.take (chars.length - amt))))
    else
      none
  | .clear this => do
    let _ ← strings this
    some (Function.update strings this (some []))
  | .moveConstruct this other _ =>
    match strings this, strings other with
    | none, some chars =>
      some (Function.update (Function.update strings this (some chars)) other (some []))
    | _, _ => none
  | .copyConstruct this other _ _ =>
    match strings this, strings other with
    | none, some chars => some (Function.update strings this (some chars))
    | _, _ => none
  | .moveAssign this other =>
    match strings this, strings other with
    | some _, some chars =>
      if this = other then
        some strings
      else
        some (Function.update (Function.update strings this (some chars)) other (some []))
    | _, _ => none
  | .copyAssign this other _ =>
    match strings this, strings other with
    | some _, some chars =>
      if this = other then
        some strings
      else
        some (Function.update strings this (some chars))
    | _, _ => none
  | .destroy this => do
    let _ ← strings this
    some (Function.update strings this none)

def run (actions : List (Action l A)) : Option (Strings l) :=
  actions.foldlM (fun strings action => step action strings) (fun _ => none)

end Strings

end Stdplus.Str
