import Mathlib

namespace Stdplus.Base

variable {σ τ α ε : Type}

/-- The states of the runs from `start`. -/
inductive Reachable (start : σ → Prop) (step : σ → σ → Prop) : σ → Prop where
  | start {state : σ} : start state → Reachable start step state
  | step {state next : σ} : Reachable start step state → step state next → Reachable start step next

theorem Reachable.invariant {start : σ → Prop} {step : σ → σ → Prop} {holds : σ → Prop}
    (initial : ∀ state, start state → holds state)
    (kept : ∀ state next, holds state → step state next → holds next) {state : σ}
    (reached : Reachable start step state) : holds state := by
  induction reached with
  | start started => exact initial _ started
  | step _ stepped ih => exact kept _ _ ih stepped

theorem Reachable.head {step : σ → σ → Prop} {first last : σ} (reached : Reachable (· = first) step last) :
    last = first ∨ ∃ second, step first second ∧ Reachable (· = second) step last := by
  induction reached with
  | start started => exact .inl started
  | step _ stepped ih =>
    rcases ih with rfl | ⟨second, begun, rest⟩
    · exact .inr ⟨_, stepped, .start rfl⟩
    · exact .inr ⟨second, begun, .step rest stepped⟩

/-- Where every state has at most one step, all runs that are over end in the same state. -/
theorem Reachable.unique {step : σ → σ → Prop} {first last other : σ}
    (reached : Reachable (· = first) step last) (done : ∀ next, ¬ step last next)
    (comes : Reachable (· = first) step other) (ended : ∀ next, ¬ step other next)
    (single : ∀ state next later, step state next → step state later → next = later) : last = other := by
  have ahead : Reachable (· = other) step last := by
    clear ended
    induction comes with
    | start started => rwa [started]
    | step _ stepped ih =>
      rcases ih.head with rfl | ⟨next, begun, rest⟩
      · exact absurd stepped (done _)
      · rwa [single _ _ _ stepped begun]
  rcases ahead.head with same | ⟨next, stepped, _⟩
  · exact same
  · exact absurd stepped (ended next)

theorem Reachable.ends {start : σ → Prop} {step : σ → σ → Prop} (size : σ → Nat)
    (less : ∀ state next, step state next → size next < size state) {state : σ}
    (reached : Reachable start step state) :
    ∃ last, Reachable start step last ∧ ∀ next, ¬ step last next := by
  induction sized : size state using Nat.strong_induction_on generalizing state with
  | _ n ih =>
    by_cases goesOn : ∃ next, step state next
    · obtain ⟨next, stepped⟩ := goesOn
      exact ih (size next) (sized ▸ less state next stepped) (.step reached stepped) rfl
    · exact ⟨state, reached, not_exists.mp goesOn⟩

/-- What a run looks like to someone who sees a part of the state is a run as well. -/
theorem Reachable.map {start : σ → Prop} {step : σ → σ → Prop} {starts : τ → Prop} {steps : τ → τ → Prop}
    (view : σ → τ) (initial : ∀ state, start state → starts (view state))
    (seen : ∀ state next, step state next → steps (view state) (view next)) {state : σ}
    (reached : Reachable start step state) : Reachable starts steps (view state) := by
  induction reached with
  | start started => exact .start (initial _ started)
  | step _ stepped ih => exact .step ih (seen _ _ stepped)

theorem Reachable.mono {start : σ → Prop} {step steps : σ → σ → Prop}
    (among : ∀ state next, step state next → steps state next) {state : σ}
    (reached : Reachable start step state) : Reachable start steps state :=
  reached.map id (fun _ started => started) among

theorem Reachable.foldlM {start : σ → Prop} {works : σ → α → Except ε σ} {actions : List α}
    {state next : σ} (reached : Reachable start (fun state next => ∃ action, works state action = .ok next) state)
    (ran : actions.foldlM works state = .ok next) :
    Reachable start (fun state next => ∃ action, works state action = .ok next) next := by
  induction actions generalizing state with
  | nil =>
    cases ran
    exact reached
  | cons action actions ih =>
    rw [List.foldlM_cons] at ran
    cases worked : works state action with
    | error stop =>
      rw [worked] at ran
      cases ran
    | ok middle =>
      rw [worked] at ran
      exact ih (.step reached ⟨action, worked⟩) ran

theorem Reachable.foldlM_some {start : σ → Prop} {works : σ → α → Option σ} {actions : List α}
    {state next : σ} (reached : Reachable start (fun state next => ∃ action, works state action = some next) state)
    (ran : actions.foldlM works state = some next) :
    Reachable start (fun state next => ∃ action, works state action = some next) next := by
  induction actions generalizing state with
  | nil =>
    cases ran
    exact reached
  | cons action actions ih =>
    rw [List.foldlM_cons] at ran
    obtain ⟨middle, worked, rest⟩ := Option.bind_eq_some_iff.mp ran
    exact ih (.step reached ⟨action, worked⟩) rest

theorem Reachable.foldlM_allowed {start : σ → Prop} {works : σ → α → Option σ} {allowed : σ → α → Prop}
    {actions : List α} {state next : σ} (all : ∀ action ∈ actions, ∀ state, allowed state action)
    (reached : Reachable start
      (fun state next => ∃ action, allowed state action ∧ works state action = some next) state)
    (ran : actions.foldlM works state = some next) :
    Reachable start (fun state next => ∃ action, allowed state action ∧ works state action = some next) next := by
  induction actions generalizing state with
  | nil =>
    cases ran
    exact reached
  | cons action actions ih =>
    rw [List.foldlM_cons] at ran
    obtain ⟨middle, worked, rest⟩ := Option.bind_eq_some_iff.mp ran
    refine ih (fun later inside => all later (List.mem_cons_of_mem _ inside)) (.step reached ?_) rest
    exact ⟨action, all action List.mem_cons_self state, worked⟩

theorem foldlM_same {β : Type} {works : σ → α → Option σ} (view : σ → β) {actions : List α} {state next : σ}
    (ran : actions.foldlM works state = some next)
    (same : ∀ action ∈ actions, ∀ state next, works state action = some next → view next = view state) :
    view next = view state := by
  induction actions generalizing state with
  | nil =>
    cases ran
    rfl
  | cons action actions ih =>
    rw [List.foldlM_cons] at ran
    obtain ⟨middle, worked, rest⟩ := Option.bind_eq_some_iff.mp ran
    exact (ih rest fun later inside => same later (List.mem_cons_of_mem _ inside)).trans
      (same action List.mem_cons_self state middle worked)

/-- Actions that mean something work as they mean it, or stop where that is excused,
if each one does so. -/
theorem foldlM_follows {m : Type → Type} [Monad m] [LawfulMonad m] {means : τ → α → Option τ}
    {works : σ → α → m σ} {related : σ → τ → Prop} (stops : m σ → Prop)
    (stays : ∀ outcome rest, stops outcome → stops (outcome >>= rest))
    (followed : ∀ state meant action later, related state meant → means meant action = some later →
      (∃ next, works state action = pure next ∧ related next later) ∨ stops (works state action))
    (actions : List α) {state : σ} {meant later : τ} (here : related state meant)
    (meaning : actions.foldlM means meant = some later) :
    (∃ next, actions.foldlM works state = pure next ∧ related next later) ∨
      stops (actions.foldlM works state) := by
  induction actions generalizing state meant with
  | nil =>
    cases meaning
    exact .inl ⟨state, rfl, here⟩
  | cons action actions ih =>
    rw [List.foldlM_cons] at meaning ⊢
    obtain ⟨between, meaning, rest⟩ := Option.bind_eq_some_iff.mp meaning
    rcases followed state meant action between here meaning with ⟨next, worked, after⟩ | stopped
    · rw [worked, pure_bind]
      exact ih after rest
    · exact .inr (stays _ _ stopped)

end Stdplus.Base
