import Stdplus.Base.SwapPop

/-! The handlers of `IoUring` with the rings they depend on: submission slots that
are handed out again and again, requests in flight, the completion ring, and
`process()` with the callbacks that run in the middle of it. -/

namespace Stdplus.Uring

open Stdplus.Base

variable {H : Type}

/-- What a callback is given; a null `user_data` is `none`. -/
structure Completion (H : Type) where
  user_data : Option H
  res : Int
deriving DecidableEq

/-- `io_uring_cqe cqe{}; cqe.res = -ECANCELED`. -/
def canceled : Completion H := { user_data := none, res := -125 }

/-- A submitted request; `sqe` counts the requests handed out before it. -/
structure Request (H : Type) where
  sqe : Nat
  user_data : Option H
deriving DecidableEq

/-- An entry of the completion ring with the request it answers. -/
structure Cqe (H : Type) where
  sqe : Nat
  completion : Completion H
deriving DecidableEq

/-- Where a running `process()` stands: before `io_uring_peek_cqe`, or in the
callback of the entry it peeked. -/
inductive Frame where
  | looping
  | calling
deriving DecidableEq

structure IoUring (H : Type) where
  entries : Nat
  /-- The `user_data` of every slot of the submission ring. -/
  sqes : Nat → Option H
  sqHead : Nat
  sqTail : Nat
  inflight : List (Request H)
  cq : List (Cqe H)
  handlers : List H
  /-- The calls of `handleCQE` so far. -/
  log : List (H × Completion H)
  frames : List Frame
  alive : Bool

/-- Why a step does not happen: not here, with an exception that changes nothing,
or because `std::find` finds no handler and what follows is undefined. -/
inductive Stop where
  | refused
  | thrown (what : String)
  | missed
deriving DecidableEq

inductive Action (H : Type) where
  | getSQE
  | setHandler (sqe : Nat) (h : Option H)
  | submit
  | cancelHandler (h : H)
  /-- The kernel completes one of the requests in flight. -/
  | complete (position : Nat) (res : Int)
  | process
  /-- The next turn of the innermost `process()` up to its callback. -/
  | peek
  /-- The callback returns. -/
  | returned
  | destroy
deriving DecidableEq

namespace IoUring

/-- A ring of some size, whatever its slots hold. -/
def fresh (entries : Nat) (sqes : Nat → Option H) : IoUring H where
  entries := entries
  sqes := sqes
  sqHead := 0
  sqTail := 0
  inflight := []
  cq := []
  handlers := []
  log := []
  frames := []
  alive := true

def slot (ring : IoUring H) (sqe : Nat) : Nat := sqe % ring.entries

/-- The request was handed out and not submitted yet. -/
def isPending (ring : IoUring H) (sqe : Nat) : Bool := ring.sqHead ≤ sqe ∧ sqe < ring.sqTail

/-- The requests handed out and not submitted, as the slots have them. -/
def pending (ring : IoUring H) : List (Request H) :=
  (List.range' ring.sqHead (ring.sqTail - ring.sqHead)).map
    (fun sqe => { sqe := sqe, user_data := ring.sqes (ring.slot sqe) })

/-- No `process()` is between two of its callbacks. -/
def userRuns (ring : IoUring H) : Bool := ring.frames.head? ≠ some .looping

/-- Whether the action takes a slot from the submission ring. -/
def handsOut : Action H → Bool
  | .getSQE | .cancelHandler _ => true
  | _ => false

variable [DecidableEq H]

def dropHandler (h : Option H) (cqe : Completion H) (ring : IoUring H) : Except Stop (IoUring H) :=
  match h with
  | none => .ok ring
  | some h =>
    match ring.handlers.findIdx? (· = h) with
    | none => .error .missed
    | some it => .ok { ring with handlers := swapPop ring.handlers it, log := ring.log ++ [(h, cqe)] }

/-- The library hands out the slot at the tail; `left` is what it leaves of the
`user_data` there. -/
def getSQE (left : Option H → Option H) (ring : IoUring H) : Except Stop (IoUring H) :=
  if ring.sqTail - ring.sqHead < ring.entries then
    .ok { ring with
      sqes := Function.update ring.sqes (ring.slot ring.sqTail) (left (ring.sqes (ring.slot ring.sqTail)))
      sqTail := ring.sqTail + 1 }
  else
    .error (.thrown "io_uring_get_sqe")

def setHandler (sqe : Nat) (h : Option H) (ring : IoUring H) : Except Stop (IoUring H) :=
  let oldh := ring.sqes (ring.slot sqe)
  if oldh = h then
    .ok ring
  else do
    let ring ← ring.dropHandler oldh canceled
    .ok { ring with
      handlers := ring.handlers ++ h.toList
      sqes := Function.update ring.sqes (ring.slot sqe) h }

def submit (ring : IoUring H) : IoUring H :=
  { ring with sqHead := ring.sqTail, inflight := ring.inflight ++ ring.pending }

/-- The cancel request names the handler as its target and has no handler set. -/
def cancelHandler (left : Option H → Option H) (ring : IoUring H) : Except Stop (IoUring H) := do
  let ring ← ring.getSQE left
  .ok ring.submit

def complete (position : Nat) (res : Int) (ring : IoUring H) : Except Stop (IoUring H) :=
  match ring.inflight[position]? with
  | none => .error .refused
  | some request =>
    .ok { ring with
      inflight := ring.inflight.eraseIdx position
      cq := ring.cq ++ [{ sqe := request.sqe
                          completion := { user_data := request.user_data, res := res } }] }

/-- One turn of `process()`: an empty completion ring ends it; a null handler is
marked as seen at once, any other one when its callback returns. -/
def peek (ring : IoUring H) : Except Stop (IoUring H) :=
  match ring.frames, ring.cq with
  | .looping :: frames, [] => .ok { ring with frames := frames }
  | .looping :: frames, cqe :: rest => do
    let ring ← ring.dropHandler cqe.completion.user_data cqe.completion
    match cqe.completion.user_data with
    | none => .ok { ring with cq := rest }
    | some _ => .ok { ring with frames := .calling :: frames }
  | _, _ => .error .refused

def returned (ring : IoUring H) : Except Stop (IoUring H) :=
  match ring.frames with
  | .calling :: frames => .ok { ring with cq := ring.cq.tail, frames := .looping :: frames }
  | _ => .error .refused

def destroy (ring : IoUring H) : IoUring H :=
  { ring with alive := false, handlers := [], log := ring.log ++ ring.handlers.map (·, canceled) }

def step (left : Option H → Option H) (ring : IoUring H) (action : Action H) : Except Stop (IoUring H) :=
  if ¬ ring.alive then
    .error .refused
  else
    match action with
    | .complete position res => ring.complete position res
    | .peek => ring.peek
    | .returned => ring.returned
    | .getSQE => if ring.userRuns then ring.getSQE left else .error .refused
    | .setHandler sqe h =>
      if ring.userRuns ∧ ring.isPending sqe then ring.setHandler sqe h else .error .refused
    | .submit => if ring.userRuns then .ok ring.submit else .error .refused
    | .cancelHandler _ => if ring.userRuns then ring.cancelHandler left else .error .refused
    | .process =>
      if ring.userRuns then .ok { ring with frames := .looping :: ring.frames } else .error .refused
    | .destroy => if ring.frames = [] then .ok ring.destroy else .error .refused

end IoUring

end Stdplus.Uring
