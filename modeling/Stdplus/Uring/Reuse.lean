import Stdplus.Uring.Exactly

/-! Slots that come back with the `user_data` of the request before: where it is not
null, `setHandler` takes it for a handler of the new request. -/

namespace Stdplus.Uring

open Stdplus.Base

variable {H : Type} [DecidableEq H]

namespace IoUring

/-- What `getSQE` leaves in the slot does not show in what `setHandler` does. -/
def Afresh (left : Option H → Option H) (ring : IoUring H) : Prop :=
  ∀ handed, ring.getSQE left = .ok handed → ∀ h, ∃ next, handed.setHandler ring.sqTail h = .ok next ∧
    next.handlers = ring.handlers ++ h.toList ∧ next.log = ring.log

private theorem setHandler_null {ring : IoUring H} {sqe : Nat} (null : ring.sqes (ring.slot sqe) = none)
    (h : Option H) : ring.setHandler sqe h = .ok { ring with
      handlers := ring.handlers ++ h.toList
      sqes := Function.update ring.sqes (ring.slot sqe) h } := by
  cases h with
  | none =>
    have kept : Function.update ring.sqes (ring.slot sqe) none = ring.sqes := by
      rw [← null, Function.update_eq_self]
    simp only [setHandler, null, if_true, kept, Option.toList_none, List.append_nil]
  | some h => simp [setHandler, null, dropHandler, bind, Except.bind]

/-- With a null slot the handler is added; any other slot hides its own handler. -/
theorem afresh_iff {left : Option H → Option H} {ring : IoUring H}
    (room : ring.sqTail - ring.sqHead < ring.entries) :
    Afresh left ring ↔ left (ring.sqes (ring.slot ring.sqTail)) = none := by
  constructor
  · intro afresh
    cases stale : left (ring.sqes (ring.slot ring.sqTail)) with
    | none => rfl
    | some old =>
      have handed : ring.getSQE left = .ok { ring with
          sqes := Function.update ring.sqes (ring.slot ring.sqTail) (some old)
          sqTail := ring.sqTail + 1 } := by rw [getSQE, if_pos room, stale]
      obtain ⟨next, set, added, _⟩ := afresh _ handed (some old)
      simp only [setHandler, slot, Function.update_self, if_true, Except.ok.injEq] at set
      subst set
      simp at added
  · intro null handed got h
    rw [getSQE, if_pos room, null, Except.ok.injEq] at got
    subst got
    exact ⟨_, setHandler_null (Function.update_self ..) h, rfl, rfl⟩

/-- A request nobody registered for calls nobody, and setting its handler adds
that handler and does nothing else. -/
structure Unregistered (left : Option H → Option H) (state : IoUring H × Ledger H) : Prop where
  added : ∀ sqe h next, state.2.current sqe = none → step left state.1 (.setHandler sqe h) = .ok next →
    next.handlers = state.1.handlers ++ h.toList ∧ next.log = state.1.log
  silent : ∀ cqe rest next, state.1.cq = cqe :: rest → state.2.current cqe.sqe = none →
    step left state.1 .peek = .ok next → next.handlers = state.1.handlers ∧ next.log = state.1.log

theorem Balanced.unregistered (left : Option H → Option H) {state : IoUring H × Ledger H}
    (balanced : Balanced state) : Unregistered left state := by
  obtain ⟨ring, ledger⟩ := state
  rcases balanced with ⟨alive, working⟩ | ⟨dead, _⟩
  · constructor
    · intro sqe h next current stepped
      unfold step at stepped
      rw [if_neg (not_not.mpr alive)] at stepped
      simp only at stepped
      split at stepped
      · rename_i runs
        rw [working.current runs.2] at current
        have set := setHandler_null current h
        rw [stepped, Except.ok.injEq] at set
        subst set
        exact ⟨rfl, rfl⟩
      · cases stepped
    · intro cqe rest next first current stepped
      unfold step at stepped
      rw [if_neg (not_not.mpr alive)] at stepped
      simp only at stepped first current
      have looping := peek_looping .missed (.inl ⟨next, stepped⟩)
      rw [working.current_cqe looping first] at current
      obtain ⟨frames, stack⟩ := List.head?_eq_some_iff.mp looping
      simp only [peek, stack, first, current, dropHandler, bind, Except.bind, Except.ok.injEq] at stepped
      subst stepped
      exact ⟨rfl, rfl⟩
  · have stopped (action : Action H) : step left ring action = .error .refused := by
      unfold step
      rw [if_pos (by simp only at dead; simp [dead])]
    constructor
    · intro sqe h next _ stepped
      rw [stopped] at stepped
      cases stepped
    · intro cqe rest next _ _ stepped
      rw [stopped] at stepped
      cases stepped

/-- Slots that come back as they were left do no harm in a run that only hands out
null ones, and a slot with anything else in it does. -/
theorem runs_unregistered {state : IoUring H × Ledger H}
    (runs : Runs id (fun ring action => flat ring action && nullSlot id ring action) state) :
    Exactly id state ∧ Unregistered id state ∧
      (state.1.sqTail - state.1.sqHead < state.1.entries →
        (Afresh id state.1 ↔ state.1.sqes (state.1.slot state.1.sqTail) = none)) := by
  have balanced := runs_balanced (fun _ _ permitted => (Bool.and_eq_true_iff.mp permitted).1)
    (fun _ _ permitted => (Bool.and_eq_true_iff.mp permitted).2) runs
  exact ⟨balanced.exactly id, balanced.unregistered id, afresh_iff⟩

/-- A request with a handler, and the next request in the same slot. -/
def sharedSlot : List (Action Nat) :=
  [.getSQE, .setHandler 0 (some 7), .submit, .complete 0 5, .process, .peek, .returned, .peek, .getSQE]

/-- The handler of the second request is not added, and its completion looks for
it in vain. -/
theorem runs_sharedSlot :
    (∃ state : IoUring Nat × Ledger Nat, Runs id flat state ∧ ¬ Unregistered id state) ∧
      run id flat 1 (fun _ => none) (sharedSlot ++ [.setHandler 1 (some 7), .submit, .complete 0 5,
        .process, .peek]) = .error .missed := by
  constructor
  · have shown : (run id flat 1 (fun _ => none) sharedSlot).map (fun state =>
        ((step id state.1 (.setHandler 1 (some 7))).map handlers, state.1.handlers, state.2)) =
        .ok (.ok [], [], [{ handler := 7, sqe := 0, fate := some ⟨some 7, 5⟩ }]) := by decide
    obtain ⟨state, ran, same⟩ := map_ok shown
    simp only [Prod.mk.injEq] at same
    obtain ⟨set, empty, settled⟩ := same
    refine ⟨state, run_runs ran, fun unregistered => ?_⟩
    obtain ⟨next, stepped, dropped⟩ := map_ok set
    have added := (unregistered.added 1 (some 7) next (by rw [settled]; rfl) stepped).1
    rw [dropped, empty] at added
    cases added
  · rfl

/-- Slots that were cleared by hand keep the run going. -/
theorem runs_unregistered_cleared :
    ∃ state, run id (fun ring action => flat ring action && nullSlot id ring action) 1 (fun _ => none)
        [Action.getSQE, .setHandler 0 (some 7), .setHandler 0 none, .submit, .cancelHandler 7] = .ok state ∧
      state.1.log = [(7, canceled)] ∧ Exactly id state := by
  have shown : (run id (fun ring action => flat ring action && nullSlot id ring action) 1 (fun _ => none)
      [Action.getSQE, .setHandler 0 (some 7), .setHandler 0 none, .submit, .cancelHandler 7]).map
      (·.1.log) = .ok [(7, canceled)] := by decide
  obtain ⟨state, ran, log⟩ := map_ok shown
  exact ⟨state, ran, log, (runs_unregistered (run_runs ran)).1⟩

end IoUring

end Stdplus.Uring
