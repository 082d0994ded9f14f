import Mathlib.Logic.Basic

/-! Calls under exception specifications: an exception that leaves a function declared not to
throw ends the program. -/

namespace Stdplus.Base

/-- How a call ends: it returns, it throws, or the program is terminated in it. -/
inductive Ending (Thrown Value : Type) where
  | returned (value : Value)
  | thrown (what : Thrown)
  | terminated

/-- An operand of the operator `noexcept`: a name, or the call of a function by what that is
declared. -/
inductive Operand where
  | name
  | call (declared : Bool)

/-- Only calls can throw. -/
def Operand.noexcept : Operand → Bool
  | name => true
  | call declared => declared

namespace Ending

variable {Thrown Other Value Next : Type}

/-- The body of a function with its specification. -/
def noexcept (declared : Bool) : Ending Thrown Value → Ending Thrown Value
  | returned value => returned value
  | thrown what => if declared then terminated else thrown what
  | terminated => terminated

protected def bind (ending : Ending Thrown Value) (next : Value → Ending Thrown Next) : Ending Thrown Next :=
  match ending with
  | returned value => next value
  | thrown what => thrown what
  | terminated => terminated

instance : Monad (Ending Thrown) where
  pure := returned
  bind := Ending.bind

def plain : Except Thrown Value → Ending Thrown Value
  | .ok value => returned value
  | .error what => thrown what

/-- What the caller makes of a call that comes back to it. -/
def through (finish : Except Thrown Value → Except Other Next) : Ending Thrown Value → Ending Other Next
  | returned value => plain (finish (.ok value))
  | thrown what => plain (finish (.error what))
  | terminated => terminated

/-- An exception on its way out of functions that are declared. -/
def leaving (declared : Bool) (what : Thrown) : Ending Thrown Value :=
  if declared then terminated else thrown what

@[simp] theorem returned_bind (value : Value) (next : Value → Ending Thrown Next) :
    (returned value >>= next) = next value := rfl

@[simp] theorem leaving_bind (declared : Bool) (what : Thrown) (next : Value → Ending Thrown Next) :
    (leaving declared what >>= next) = leaving declared what := by
  cases declared <;> rfl

theorem leaving_through (declared : Bool) (what : Thrown) {other : Other}
    {finish : Except Thrown Value → Except Other Next} (rethrows : finish (.error what) = .error other) :
    through finish (leaving declared what) = leaving declared other := by
  cases declared with
  | true => rfl
  | false => exact congrArg plain rethrows

theorem noexcept_leaving {declared outer : Bool} (what : Thrown) (computed : outer = true → declared = true) :
    noexcept outer (leaving declared what : Ending Thrown Value) = leaving declared what := by
  cases declared with
  | true => rfl
  | false =>
    cases outer with
    | true => cases computed rfl
    | false => rfl

/-- It ends as it would without specifications, or the program ends where it would throw. -/
def Within (ending : Ending Thrown Value) (result : Except Thrown Value) : Prop :=
  ending = plain result ∨ ending = terminated ∧ ∃ what, result = .error what

namespace Within

theorem plain (result : Except Thrown Value) : Within (plain result) result := .inl rfl

theorem returned {ending : Ending Thrown Value} {value : Value} (within : Within ending (.ok value)) :
    ending = returned value := by
  rcases within with same | ⟨_, what, impossible⟩
  · exact same
  · cases impossible

theorem noexcept {ending : Ending Thrown Value} {result : Except Thrown Value} (within : Within ending result)
    (declared : Bool) : Within (noexcept declared ending) result := by
  rcases within with rfl | ⟨rfl, thrown⟩
  · cases result with
    | ok value => exact .inl rfl
    | error what =>
      cases declared with
      | true => exact .inr ⟨rfl, what, rfl⟩
      | false => exact .inl rfl
  · exact .inr ⟨rfl, thrown⟩

theorem bind {ending : Ending Thrown Value} {result : Except Thrown Value} (within : Within ending result)
    {next : Value → Ending Thrown Next} {after : Value → Except Thrown Next}
    (rest : ∀ value, Within (next value) (after value)) : Within (ending >>= next) (result >>= after) := by
  rcases within with rfl | ⟨rfl, what, rfl⟩
  · cases result with
    | ok value => exact rest value
    | error what => exact .inl rfl
  · exact .inr ⟨rfl, what, rfl⟩

theorem through {ending : Ending Thrown Value} {result : Except Thrown Value} (within : Within ending result)
    {finish : Except Thrown Value → Except Other Next}
    (rethrows : ∀ what, ∃ other, finish (.error what) = .error other) :
    Within (through finish ending) (finish result) := by
  rcases within with rfl | ⟨rfl, what, rfl⟩
  · cases result <;> exact .inl rfl
  · exact .inr ⟨rfl, rethrows what⟩

end Within

/-- What is known of each way in which a call may end. -/
def Ends (ending : Ending Thrown Value) (returns : Value → Prop) (throws : Thrown → Prop) (terminates : Prop) :
    Prop :=
  match ending with
  | returned value => returns value
  | thrown what => throws what
  | terminated => terminates

namespace Ends

variable {ending : Ending Thrown Value} {returns : Value → Prop} {throws : Thrown → Prop} {terminates : Prop}

theorem mono (ends : ending.Ends returns throws terminates) {weaker : Value → Prop} {other : Thrown → Prop}
    {also : Prop} (value : ∀ v, returns v → weaker v) (what : ∀ t, throws t → other t) (end_ : terminates → also) :
    ending.Ends weaker other also := by
  cases ending with
  | returned v => exact value v ends
  | thrown t => exact what t ends
  | terminated => exact end_ ends

theorem bind (ends : ending.Ends returns throws terminates) {next : Value → Ending Thrown Next}
    {after : Next → Prop} (rest : ∀ v, returns v → (next v).Ends after throws terminates) :
    (ending >>= next).Ends after throws terminates := by
  cases ending with
  | returned v => exact rest v ends
  | thrown t => exact ends
  | terminated => exact ends

theorem declared (ends : ending.Ends returns throws terminates) (fatal : ∀ t, throws t → terminates)
    (other : Thrown → Prop) : (ending.noexcept true).Ends returns other terminates := by
  cases ending with
  | returned v => exact ends
  | thrown t => exact fatal t ends
  | terminated => exact ends

end Ends

end Ending

end Stdplus.Base
