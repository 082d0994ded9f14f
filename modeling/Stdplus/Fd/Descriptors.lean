import Stdplus.Base.Transition
import Stdplus.Fd.Device
import Stdplus.Fd.Table

set_option linter.dupNamespace false

namespace Stdplus.Fd

open Stdplus.Base

inductive FdThrown where
  | system_error (code : Int) (what : String)
  | bad_optional_access
deriving DecidableEq

abbrev FdThrow := FdThrown × Process

/-- `CHECK_ERRNO`. -/
def checkErrno (what : String) : Except Int Nat × Process → Ending FdThrow (Nat × Process)
  | (.ok ret, process) => .returned (ret, process)
  | (.error errno, process) => .thrown (.system_error errno what, process)

namespace FdHandle

variable (fails : Failures)

/-- `detail::drop`. -/
def drop (fd : Nat) (process : Process) : Ending FdThrow (Nat × Process) := checkErrno "close" (process.close fails fd)

/-- `detail::ref`. -/
def ref (fd : Nat) (process : Process) : Ending FdThrow (Nat × Process) :=
  checkErrno "fcntl dupfd_cloexec" (process.dupfdCloexec fails fd fd)

/-- Also the destructor; `Dropper` is declared by the name of the function alone. -/
def maybeDrop (maybeT : Option Nat) (process : Process) : Ending FdThrow Process :=
  match maybeT with
  | none => .returned process
  | some fd => do
    let (_, process) ← (drop fails fd process).noexcept Operand.name.noexcept
    .returned process

/-- `Reffer` is declared likewise. -/
def doRef (fd : Nat) (process : Process) : Ending FdThrow (Nat × Process) :=
  (ref fails fd process).noexcept Operand.name.noexcept

/-- `reset(std::optional<T>&&)` of a handle with `maybeT`: the new value, with the process. -/
def reset (maybeT maybeV : Option Nat) (process : Process) : Ending FdThrow (Option Nat × Process) := do
  let process ← maybeDrop fails maybeT process
  .returned (maybeV, process)

/-- `reset(const std::optional<T>&)`. -/
def resetRef (maybeT maybeV : Option Nat) (process : Process) : Ending FdThrow (Option Nat × Process) :=
  match maybeV with
  | some v => do
    let (t, process) ← doRef fails v process
    reset fails maybeT (some t) process
  | none => reset fails maybeT none process

/-- The copy constructor, and the constructor from a `const T&`. -/
def copyConstruct (other : Option Nat) (process : Process) : Ending FdThrow (Option Nat × Process) :=
  resetRef fails none other process

/-- Past the test for self-assignment. -/
def copyAssign (maybeT other : Option Nat) (process : Process) : Ending FdThrow (Option Nat × Process) := do
  let (maybeT, process) ← reset fails maybeT none process
  resetRef fails maybeT other process

end FdHandle

/-- `setFdFlags(*this, getFdFlags(*this).set(FdFlag::CloseOnExec))`. -/
def setCloseOnExec (fails : Failures) (fd : Nat) (process : Process) : Ending FdThrow (Nat × Process) := do
  let (flags, process) ← checkErrno "fcntl getfd" (process.getfd fails fd)
  checkErrno "fcntl setfd" (process.setfd fails fd (flags ||| CloseOnExec))

/-- `ManagedFd(int&&)` and `DupableFd(int&&)`; where the body throws the handle is destroyed. -/
def adopt (fails : Failures) (fd : Nat) (process : Process) : Ending FdThrow (Option Nat × Process) :=
  match setCloseOnExec fails fd process with
  | .returned (_, process) => .returned (some fd, process)
  | .thrown (thrown, process) => do
    let process ← FdHandle.maybeDrop fails (some fd) process
    .thrown (thrown, process)
  | .terminated => .terminated

inductive FdKind where
  | managed
  | dupable
deriving DecidableEq

structure FdObject where
  kind : FdKind
  maybeT : Option Nat
deriving DecidableEq

/-- The objects, and the `int`s through which the program itself owns a descriptor. -/
structure Descriptors where
  process : Process
  objects : Nat → Option FdObject
  ints : Nat → Option Nat

/-- What a program does with its descriptors. -/
inductive FdAction where
  | openFile (this : Nat) (pathname : String) (flags : Nat)
  | socket (this : Nat) (flags : Nat)
  | accept (this listener : Nat)
  | empty (this : Nat) (kind : FdKind)
  | fromInt (this : Nat) (kind : FdKind) (var : Nat)
  | refInt (this : Nat) (var : Nat)
  | moveConstruct (this : Nat) (kind : FdKind) (other : Nat)
  | copyConstruct (this : Nat) (kind : FdKind) (other : Nat)
  | moveAssign (this other : Nat)
  | copyAssign (this other : Nat)
  | release (this var : Nat)
  | destroy (this : Nat)
  | setFdFlags (this flags : Nat)
  | sysOpen (var flags : Nat)
  | sysClose (var : Nat)
deriving DecidableEq

namespace Descriptors

abbrev Outcome := Ending (FdThrown × Descriptors) Descriptors

variable (fails : Failures)

def putObject (this : Nat) (object : Option FdObject) (process : Process) (state : Descriptors) : Descriptors :=
  { state with process := process, objects := Function.update state.objects this object }

def putInt (var : Nat) (fd : Option Nat) (process : Process) (state : Descriptors) : Descriptors :=
  { state with process := process, ints := Function.update state.ints var fd }

/-- What is done with the value, and what is left where there is an exception. -/
def finish {Value : Type} (done : Value → Process → Descriptors) (left : Process → Descriptors) :
    Ending FdThrow (Value × Process) → Outcome
  | .returned (value, process) => .returned (done value process)
  | .thrown (thrown, process) => .thrown (thrown, left process)
  | .terminated => .terminated

def construct (this : Nat) (kind : FdKind) (state : Descriptors) : Ending FdThrow (Option Nat × Process) → Outcome :=
  finish (fun maybeT process => state.putObject this (some ⟨kind, maybeT⟩) process) fun process =>
    { state with process := process }

/-- `open` and `socket`: a call that makes a descriptor, for a new `DupableFd`. -/
def create (what : String) (this flags : Nat) (state : Descriptors) : Outcome :=
  state.construct this .dupable do
    let (fd, process) ← checkErrno what (state.process.create fails flags)
    adopt fails fd process

/-- `fd::accept(Fd&)`; there is no new object where the call would block. -/
def accept (this : Nat) (listener : FdObject) (state : Descriptors) : Outcome :=
  match listener.maybeT with
  | none => .thrown (.bad_optional_access, state)
  | some fd =>
    match state.process.accept fails fd with
    | (.error errno, process) =>
      if errno = EAGAIN ∨ errno = EWOULDBLOCK then .returned { state with process := process }
      else .thrown (.system_error errno "accept", { state with process := process })
    | (.ok new, process) => state.construct this .dupable (adopt fails new process)

/-- `ManagedFd(DupableFd&&)` and the move constructors. -/
def moveConstruct (this : Nat) (kind : FdKind) (other : Nat) (source : FdObject) (state : Descriptors) : Descriptors :=
  (state.putObject this (some ⟨kind, source.maybeT⟩) state.process).putObject other
    (some { source with maybeT := none }) state.process

/-- The move assignments, past the test for self-assignment. -/
def moveAssign (this : Nat) (here : FdObject) (other : Nat) (source : FdObject) (state : Descriptors) : Outcome :=
  finish (fun maybeT process =>
      (state.putObject this (some { here with maybeT := maybeT }) process).putObject other
        (some { source with maybeT := none }) process)
    (fun process => { state with process := process })
    (FdHandle.reset fails here.maybeT source.maybeT state.process)

/-- The copy assignments: a `ManagedFd` is assigned a temporary copy. -/
def copyAssign (this : Nat) (here source : FdObject) (state : Descriptors) : Outcome :=
  finish (fun maybeT process => state.putObject this (some { here with maybeT := maybeT }) process)
    (fun process => { state with process := process })
    (match here.kind with
      | .dupable => FdHandle.copyAssign fails here.maybeT source.maybeT state.process
      | .managed => do
        let (copy, process) ← FdHandle.copyConstruct fails source.maybeT state.process
        FdHandle.reset fails here.maybeT copy process)

def release (this : Nat) (here : FdObject) (var : Nat) (state : Descriptors) : Outcome :=
  match here.maybeT with
  | none => .thrown (.bad_optional_access, state)
  | some fd =>
    .returned ((state.putObject this (some { here with maybeT := none }) state.process).putInt var (some fd)
      state.process)

def destroy (this : Nat) (here : FdObject) (state : Descriptors) : Outcome :=
  match FdHandle.maybeDrop fails here.maybeT state.process with
  | .returned process => .returned (state.putObject this none process)
  | .thrown (thrown, process) => .thrown (thrown, state.putObject this none process)
  | .terminated => .terminated

/-- `fd::setFdFlags`. -/
def setFdFlags (here : FdObject) (flags : Nat) (state : Descriptors) : Outcome :=
  match here.maybeT with
  | none => .thrown (.bad_optional_access, state)
  | some fd =>
    finish (fun (_ : Nat) process => { state with process := process })
      (fun process => { state with process := process })
      (checkErrno "fcntl setfd" (state.process.setfd fails fd flags))

/-- A step of the program; there is none where it has no object or no `int` where it takes one,
or has one already where it makes one. -/
def step (action : FdAction) (state : Descriptors) : Option Outcome :=
  match action with
  | .openFile this pathname flags =>
    match state.objects this with
    | none => some (state.create fails ("open `" ++ pathname ++ "`") this flags)
    | some _ => none
  | .socket this flags =>
    match state.objects this with
    | none => some (state.create fails "socket" this flags)
    | some _ => none
  | .accept this listener =>
    match state.objects this, state.objects listener with
    | none, some listener => some (state.accept fails this listener)
    | _, _ => none
  | .empty this kind =>
    match state.objects this with
    | none => some (.returned (state.putObject this (some ⟨kind, none⟩) state.process))
    | some _ => none
  | .fromInt this kind var =>
    match state.objects this, state.ints var with
    | none, some fd =>
      -- the program has handed it over, whatever becomes of the constructor
      some ((state.putInt var none state.process).construct this kind (adopt fails fd state.process))
    | _, _ => none
  | .refInt this var =>
    match state.objects this, state.ints var with
    | none, some fd => some (state.construct this .dupable (FdHandle.copyConstruct fails (some fd) state.process))
    | _, _ => none
  | .moveConstruct this kind other =>
    match state.objects this, state.objects other with
    | none, some source =>
      if kind = .dupable ∧ source.kind = .managed then none
      else some (.returned (state.moveConstruct this kind other source))
    | _, _ => none
  | .copyConstruct this kind other =>
    match state.objects this, state.objects other with
    | none, some source =>
      if source.kind = .managed then none
      else some (state.construct this kind (FdHandle.copyConstruct fails source.maybeT state.process))
    | _, _ => none
  | .moveAssign this other =>
    match state.objects this, state.objects other with
    | some here, some source =>
      if here.kind = .dupable ∧ source.kind = .managed then none
      else if this = other then some (.returned state)
      else some (state.moveAssign fails this here other source)
    | _, _ => none
  | .copyAssign this other =>
    match state.objects this, state.objects other with
    | some here, some source =>
      if source.kind = .managed then none
      else if this = other then some (.returned state)
      else some (state.copyAssign fails this here source)
    | _, _ => none
  | .release this var =>
    match state.objects this, state.ints var with
    | some here, none => some (state.release this here var)
    | _, _ => none
  | .destroy this =>
    match state.objects this with
    | some here => some (state.destroy fails this here)
    | none => none
  | .setFdFlags this flags =>
    match state.objects this with
    | some here => some (state.setFdFlags fails here flags)
    | none => none
  | .sysOpen var flags =>
    match state.ints var with
    | none =>
      match state.process.create fails flags with
      | (.ok fd, process) => some (.returned (state.putInt var (some fd) process))
      | (.error _, process) => some (.returned { state with process := process })
    | some _ => none
  | .sysClose var =>
    match state.ints var with
    | some fd => some (.returned (state.putInt var none (state.process.close fails fd).2))
    | none => none

/-- The state the program goes on in; an exception is caught by it. -/
def after : Outcome → Option Descriptors
  | .returned next => some next
  | .thrown (_, left) => some left
  | .terminated => none

def start : Descriptors where
  process := { table := [], files := 0, calls := 0, refused := 0 }
  objects := fun _ => none
  ints := fun _ => none

/-- The program goes on from one state in the other with one of the actions it is allowed. -/
def Steps (allowed : FdAction → Prop) (state next : Descriptors) : Prop :=
  ∃ action, allowed action ∧ (state.step fails action).bind after = some next

end Descriptors

end Stdplus.Fd
