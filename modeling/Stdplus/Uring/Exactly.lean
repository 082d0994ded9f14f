import Stdplus.Uring.Handlers

namespace Stdplus.Uring

open Stdplus.Base

variable {H : Type} [DecidableEq H]

namespace IoUring

/-- Each registration leads to exactly one call, and nothing else does. -/
structure Exactly (left : Option H → Option H) (state : IoUring H × Ledger H) : Prop where
  /-- Between operations the vector holds the `user_data` of the unprocessed requests. -/
  quiet : state.1.alive = true → state.1.frames = [] →
    state.1.handlers.Perm (state.1.live.filterMap Request.user_data)
  held : state.1.alive = true → state.1.handlers.Perm (state.2.waiting.map (·.2))
  called : state.1.log.Perm state.2.calls
  found : ∀ action, step left state.1 action ≠ .error .missed
  settled : state.1.alive = false → ∀ entry ∈ state.2, entry.fate.isSome

theorem map_ok {ε α β : Type} {f : α → β} {computed : Except ε α} {value : β}
    (mapped : computed.map f = .ok value) : ∃ result, computed = .ok result ∧ f result = value := by
  cases computed with
  | error error => cases mapped
  | ok result => exact ⟨result, rfl, Except.ok.inj mapped⟩

/-- Only setting a handler and `process()` look for one, and they find it. -/
private theorem Working.found {left : Option H → Option H} {ring : IoUring H} {ledger : Ledger H}
    (working : Working ring ledger) (action : Action H) : step left ring action ≠ .error .missed := by
  intro missed
  unfold step at missed
  split at missed
  · cases missed
  · cases action with
    | complete position res =>
      simp only [IoUring.complete] at missed
      split at missed <;> cases missed
    | peek =>
      obtain ⟨next, peeked, _⟩ := working.peek (peek_looping _ (.inr ⟨missed, by decide⟩))
      rw [peeked] at missed
      cases missed
    | returned =>
      simp only [IoUring.returned] at missed
      split at missed <;> cases missed
    | getSQE =>
      simp only [IoUring.getSQE] at missed
      split at missed
      · split at missed <;> cases missed
      · cases missed
    | setHandler sqe h =>
      simp only at missed
      split at missed
      · rename_i runs
        obtain ⟨next, set, _⟩ := working.setHandler runs.2 h
        rw [set] at missed
        cases missed
      · cases missed
    | submit =>
      simp only at missed
      split at missed <;> cases missed
    | cancelHandler h =>
      simp only [IoUring.cancelHandler, IoUring.getSQE] at missed
      split at missed
      · split at missed <;> cases missed
      · cases missed
    | process =>
      simp only at missed
      split at missed <;> cases missed
    | destroy =>
      simp only at missed
      split at missed <;> cases missed

theorem Balanced.exactly (left : Option H → Option H) {state : IoUring H × Ledger H}
    (balanced : Balanced state) : Exactly left state := by
  obtain ⟨ring, ledger⟩ := state
  rcases balanced with ⟨alive, working⟩ | ⟨dead, nobody, called⟩
  · exact {
      quiet := fun _ _ => working.books.held
      held := fun _ => working.books.holders
      called := working.books.called
      found := working.found
      settled := fun dead => absurd (alive.symm.trans dead) (by decide) }
  · have stopped (action : Action H) : step left ring action = .error .refused := by
      unfold step
      rw [if_pos (by simp only at dead; simp [dead])]
    exact {
      quiet := fun alive => absurd (alive.symm.trans dead) (by decide)
      held := fun alive => absurd (alive.symm.trans dead) (by decide)
      called := called
      found := fun action missed => by rw [stopped] at missed; cases missed
      settled := fun _ => (Ledger.waiting_eq_nil_iff ledger).mp nobody }

theorem runs_balanced {left : Option H → Option H} {allowed : IoUring H → Action H → Bool}
    (plain : ∀ ring action, allowed ring action = true → flat ring action = true)
    (null : ∀ ring action, allowed ring action = true → nullSlot left ring action = true)
    {state : IoUring H × Ledger H} (runs : Runs left allowed state) : Balanced state := by
  refine runs.invariant ?_ ?_
  · rintro state ⟨entries, sqes, rfl⟩
    exact .inl ⟨rfl, fresh_working entries sqes⟩
  · rintro ⟨ring, ledger⟩ next balanced ⟨action, performed⟩
    rw [perform] at performed
    split at performed
    · rename_i permitted
      cases stepped : step left ring action with
      | error stop => simp [stepped, Except.map] at performed
      | ok after =>
        simp only [stepped, Except.map, Except.ok.injEq] at performed
        subst performed
        exact step_balanced balanced (plain _ _ permitted) (null _ _ permitted) stepped
    · cases performed

/-- On slots that come back cleared every registration leads to exactly one call. -/
theorem runs_exactly {state : IoUring H × Ledger H} (runs : Runs (fun _ => none) flat state) :
    Exactly (fun _ => none) state :=
  (runs_balanced (fun _ _ permitted => permitted) (fun _ _ _ => decide_eq_true fun _ => rfl) runs).exactly _

/-- One handler serves two requests; the second is answered when the ring ends. -/
def twoRequests : List (Action Nat) :=
  [.getSQE, .setHandler 0 (some 7), .setHandler 0 (some 7), .getSQE, .setHandler 1 (some 9),
    .setHandler 1 (some 7), .submit, .complete 1 5, .process, .peek, .getSQE, .returned, .peek, .destroy]

theorem runs_exactly_twoRequests :
    ∃ state, run (fun _ => none) flat 2 (fun _ => none) twoRequests = .ok state ∧
      state.1.log = [(9, canceled), (7, ⟨some 7, 5⟩), (7, canceled)] ∧ Exactly (fun _ => none) state := by
  have logged : (run (fun _ => none) flat 2 (fun _ => none) twoRequests).map (·.1.log) =
      .ok [(9, canceled), (7, ⟨some 7, 5⟩), (7, canceled)] := by decide
  obtain ⟨state, ran, log⟩ := map_ok logged
  exact ⟨state, ran, log, runs_exactly (run_runs ran)⟩

end IoUring

end Stdplus.Uring
