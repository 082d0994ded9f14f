import Stdplus.Uring.Ring

/-! What the handlers are for: a ledger of registrations, each with the one
completion its handler is owed. It looks at requests only, never at the slots or
the vector of handlers. -/

namespace Stdplus.Uring

variable {H : Type}

/-- A handler registered for a request, and the completion it was called with. -/
structure Registration (H : Type) where
  handler : H
  sqe : Nat
  fate : Option (Completion H)
deriving DecidableEq

abbrev Ledger (H : Type) := List (Registration H)

namespace Ledger

/-- The registrations that wait, with their requests. -/
def waiting (ledger : Ledger H) : List (Nat × H) :=
  ledger.filterMap (fun entry => if entry.fate.isNone then some (entry.sqe, entry.handler) else none)

def calls (ledger : Ledger H) : List (H × Completion H) :=
  ledger.filterMap (fun entry => entry.fate.map (entry.handler, ·))

def current (ledger : Ledger H) (sqe : Nat) : Option H :=
  (ledger.waiting.find? (·.1 = sqe)).map (·.2)

/-- The registration that waits for a request gets its completion. -/
def settle (sqe : Nat) (cqe : Completion H) (ledger : Ledger H) : Ledger H :=
  ledger.map (fun entry =>
    if entry.sqe = sqe ∧ entry.fate.isNone then { entry with fate := some cqe } else entry)

/-- Another handler for a request cancels the one before it; the same handler is
no new registration. -/
def register [DecidableEq H] (sqe : Nat) (h : Option H) (ledger : Ledger H) : Ledger H :=
  if ledger.current sqe = h then
    ledger
  else
    ledger.settle sqe canceled ++ (h.map ({ handler := ·, sqe := sqe, fate := none })).toList

/-- The end of the ring cancels what still waits. -/
def close (ledger : Ledger H) : Ledger H :=
  ledger.map (fun entry => if entry.fate.isNone then { entry with fate := some canceled } else entry)

/-- What an action means for the ledger; `process()` settles the request whose
completion it reaches. -/
def step [DecidableEq H] (ring : IoUring H) (action : Action H) (ledger : Ledger H) : Ledger H :=
  match action with
  | .setHandler sqe h => ledger.register sqe h
  | .peek =>
    match ring.cq with
    | [] => ledger
    | cqe :: _ => ledger.settle cqe.sqe cqe.completion
  | .destroy => ledger.close
  | _ => ledger

theorem waiting_settle (sqe : Nat) (cqe : Completion H) (ledger : Ledger H) :
    (ledger.settle sqe cqe).waiting = ledger.waiting.filter (·.1 ≠ sqe) := by
  induction ledger with
  | nil => rfl
  | cons entry ledger ih =>
    simp only [settle, waiting, List.map_cons, List.filterMap_cons] at ih ⊢
    rw [ih]
    by_cases open_entry : entry.fate.isNone
    · by_cases same : entry.sqe = sqe <;> simp [open_entry, same]
    · simp [open_entry]

theorem calls_settle (sqe : Nat) (cqe : Completion H) (ledger : Ledger H) :
    (ledger.settle sqe cqe).calls.Perm
      (ledger.calls ++ (ledger.waiting.filter (·.1 = sqe)).map (·.2, cqe)) := by
  induction ledger with
  | nil => rfl
  | cons entry ledger ih =>
    simp only [settle, calls, waiting, List.map_cons, List.filterMap_cons] at ih ⊢
    cases fate : entry.fate with
    | some reached =>
      simp only [fate, Option.isNone_some, Bool.false_eq_true, and_false, if_false, Option.map_some]
      exact ih.cons _
    | none =>
      by_cases same : entry.sqe = sqe
      · simp only [same, Option.isNone_none, and_self, if_true, Option.map_some, Option.map_none,
          List.filter_cons_of_pos, decide_true, List.map_cons]
        exact (ih.cons _).trans List.perm_middle.symm
      · simpa [fate, same] using ih

theorem waiting_close (ledger : Ledger H) : ledger.close.waiting = [] := by
  induction ledger with
  | nil => rfl
  | cons entry ledger ih =>
    simp only [close, waiting, List.map_cons, List.filterMap_cons] at ih ⊢
    rw [ih]
    cases fate : entry.fate <;> simp [fate]

theorem calls_close (ledger : Ledger H) :
    ledger.close.calls.Perm (ledger.calls ++ ledger.waiting.map (·.2, canceled)) := by
  induction ledger with
  | nil => rfl
  | cons entry ledger ih =>
    simp only [close, calls, waiting, List.map_cons, List.filterMap_cons] at ih ⊢
    cases fate : entry.fate with
    | some reached => simpa [fate] using ih
    | none =>
      simp only [Option.isNone_none, if_true, Option.map_some, Option.map_none, List.map_cons]
      exact (ih.cons _).trans List.perm_middle.symm

theorem waiting_eq_nil_iff (ledger : Ledger H) :
    ledger.waiting = [] ↔ ∀ entry ∈ ledger, entry.fate.isSome := by
  rw [waiting, List.filterMap_eq_nil_iff]
  refine forall₂_congr fun entry _ => ?_
  cases entry.fate <;> simp

end Ledger

end Stdplus.Uring
