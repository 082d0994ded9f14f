import Stdplus.Uring.Exactly

/-! Which completions `process()` takes from the ring and marks as seen: each of them once,
unless a callback of `process()` enters it again. -/

namespace Stdplus.Uring

open Stdplus.Base

variable {H : Type}

/-- The call of the handler that a completion carries. -/
def Cqe.call (cqe : Cqe H) : Option (H × Completion H) := cqe.completion.user_data.map (·, cqe.completion)

/-- The completions so far: put in the ring, given out by `io_uring_peek_cqe`, and marked
by `io_uring_cqe_seen`. -/
structure History (H : Type) where
  delivered : List (Cqe H)
  taken : List (Cqe H)
  seen : List (Cqe H)

namespace IoUring

def watch (ring next : IoUring H) (action : Action H) (history : History H) : History H :=
  match action with
  | .complete _ _ => { history with delivered := history.delivered ++ next.cq.drop ring.cq.length }
  | .peek => { history with
      taken := history.taken ++ ring.cq.take 1
      seen := history.seen ++ ring.cq.take (ring.cq.length - next.cq.length) }
  | .returned => { history with seen := history.seen ++ ring.cq.take (ring.cq.length - next.cq.length) }
  | _ => history

/-- The completion that a callback of `process()` has. -/
def inHand (ring : IoUring H) : List (Cqe H) := if ring.frames.head? = some .calling then ring.cq.take 1 else []

/-- The completions leave the ring in order, each of them is taken once, and its handler is
called once. -/
structure Follows (ring : IoUring H) (history : History H) : Prop where
  delivered : history.delivered = history.seen ++ ring.cq
  taken : history.taken = history.seen ++ ring.inHand
  called : ring.log.filter (·.2.user_data.isSome) = history.taken.filterMap Cqe.call

namespace Follows

variable {ring next : IoUring H} {history : History H}

private theorem aside (follows : Follows ring history) (cq : next.cq = ring.cq)
    (inHand : next.inHand = ring.inHand) {calls : List (H × Completion H)} (log : next.log = ring.log ++ calls)
    (cancels : ∀ call ∈ calls, call.2 = canceled) : Follows next history where
  delivered := by rw [cq, follows.delivered]
  taken := by rw [inHand, follows.taken]
  called := by
    have none : calls.filter (·.2.user_data.isSome) = [] := by
      refine List.filter_eq_nil_iff.mpr fun call among => ?_
      rw [cancels call among]
      simp [canceled]
    rw [log, List.filter_append, none, List.append_nil, follows.called]

theorem complete (follows : Follows ring history) (shown : ring.frames.head? = some .calling → ring.cq ≠ [])
    {position : Nat} {res : Int} (completed : ring.complete position res = .ok next) :
    Follows next (watch ring next (.complete position res) history) := by
  rw [IoUring.complete] at completed
  split at completed
  · cases completed
  · cases completed
    refine ⟨?_, ?_, follows.called⟩
    · simp only [watch, List.drop_left]
      rw [follows.delivered, List.append_assoc]
    · simp only [watch]
      rw [follows.taken, inHand, inHand]
      by_cases calling : ring.frames.head? = some .calling
      · have nonempty := shown calling
        simp only [if_pos calling]
        rw [List.take_append_of_le_length (List.length_pos_iff.mpr nonempty)]
      · simp only [if_neg calling]

theorem returned (follows : Follows ring history) (shown : ring.frames.head? = some .calling → ring.cq ≠ [])
    (back : ring.returned = .ok next) : Follows next (watch ring next .returned history) := by
  rw [IoUring.returned] at back
  split at back
  · rename_i frames stack
    cases back
    have calling : ring.frames.head? = some .calling := by
      rw [stack]
      rfl
    obtain ⟨cqe, rest, first⟩ := List.exists_cons_of_ne_nil (shown calling)
    have delivered := follows.delivered
    have taken := follows.taken
    rw [inHand, if_pos calling, first] at taken
    rw [first] at delivered
    refine ⟨?_, ?_, follows.called⟩
    · simp [watch, first, delivered]
    · simp [watch, first, taken, inHand]
  · cases back

end Follows

variable [DecidableEq H]

def performs (left : Option H → Option H) (allowed : IoUring H → Action H → Bool)
    (state : IoUring H × History H) (action : Action H) : Except Stop (IoUring H × History H) :=
  if allowed state.1 action then
    (step left state.1 action).map fun next => (next, watch state.1 next action state.2)
  else
    .error .refused

/-- The states of the runs of a new ring, with their completions. -/
abbrev Watched (left : Option H → Option H) (allowed : IoUring H → Action H → Bool) :
    IoUring H × History H → Prop :=
  Reachable (fun state => ∃ entries sqes, state = (fresh entries sqes, ⟨[], [], []⟩))
    (fun state next => ∃ action, performs left allowed state action = .ok next)

/-- And no step looks for a handler that is gone. -/
structure Consumed (left : Option H → Option H) (state : IoUring H × History H) : Prop
    extends Follows state.1 state.2 where
  found : ∀ action, step left state.1 action ≠ .error .missed

theorem dropHandler_log {h : Option H} {cqe : Completion H} {ring next : IoUring H}
    (dropped : ring.dropHandler h cqe = .ok next) :
    ∃ handlers, next = { ring with handlers := handlers, log := ring.log ++ (h.map (·, cqe)).toList } := by
  cases h with
  | none =>
    cases dropped
    exact ⟨ring.handlers, by simp⟩
  | some h =>
    simp only [dropHandler] at dropped
    split at dropped
    · cases dropped
    · cases dropped
      exact ⟨_, rfl⟩

/-- A turn of `process()` ends it on an empty ring, or calls the handler of the oldest
completion, which stays in the ring unless it has none. -/
theorem peek_cases {ring next : IoUring H} (peeked : ring.peek = .ok next) :
    ∃ frames, ring.frames = .looping :: frames ∧
      (ring.cq = [] ∧ next = { ring with frames := frames } ∨
        ∃ cqe rest handlers, ring.cq = cqe :: rest ∧
          (cqe.completion.user_data = none ∧
              next = { ring with handlers := handlers, cq := rest, log := ring.log ++ cqe.call.toList } ∨
            cqe.completion.user_data.isSome ∧
              next = { ring with
                handlers := handlers, frames := .calling :: frames, log := ring.log ++ cqe.call.toList })) := by
  unfold peek at peeked
  split at peeked
  · rename_i frames stack empty
    cases peeked
    exact ⟨frames, stack, .inl ⟨empty, rfl⟩⟩
  · rename_i frames cqe rest stack first
    refine ⟨frames, stack, .inr ⟨cqe, rest, ?_⟩⟩
    cases dropped : ring.dropHandler cqe.completion.user_data cqe.completion with
    | error stop =>
      rw [dropped] at peeked
      cases peeked
    | ok after =>
      obtain ⟨handlers, same⟩ := dropHandler_log dropped
      simp only [dropped, same, bind, Except.bind] at peeked
      refine ⟨handlers, first, ?_⟩
      cases data : cqe.completion.user_data with
      | none =>
        rw [data] at peeked
        cases peeked
        refine .inl ⟨rfl, ?_⟩
        rw [Cqe.call, data]
      | some h =>
        rw [data] at peeked
        cases peeked
        refine .inr ⟨rfl, ?_⟩
        rw [Cqe.call, data]
  · cases peeked

theorem Follows.peek {ring next : IoUring H} {history : History H} (follows : Follows ring history)
    (single : ring.frames.length ≤ 1) (peeked : ring.peek = .ok next) :
    Follows next (watch ring next .peek history) := by
  obtain ⟨frames, stack, turn⟩ := peek_cases peeked
  obtain rfl : frames = [] := by
    rw [stack, List.length_cons] at single
    exact List.eq_nil_of_length_eq_zero (Nat.le_zero.mp (Nat.le_of_succ_le_succ single))
  have idle : ring.inHand = [] := by
    rw [inHand, stack]
    rfl
  have taken := follows.taken
  rw [idle, List.append_nil] at taken
  have delivered := follows.delivered
  have called := follows.called
  rcases turn with ⟨empty, rfl⟩ | ⟨cqe, rest, handlers, first, ⟨null, rfl⟩ | ⟨some, rfl⟩⟩
  · refine ⟨?_, ?_, ?_⟩
    · simpa [watch, empty] using delivered
    · simpa [watch, empty, inHand] using taken
    · simpa [watch, empty] using called
  · refine ⟨?_, ?_, ?_⟩
    · simp [watch, first, delivered]
    · simp [watch, first, taken, inHand, stack]
    · simp [watch, first, called, Cqe.call, null]
  · obtain ⟨h, data⟩ := Option.isSome_iff_exists.mp some
    refine ⟨?_, ?_, ?_⟩
    · simp [watch, delivered]
    · simp [watch, first, taken, inHand]
    · simp [watch, first, called, Cqe.call, data]

theorem Follows.setHandler {ring next : IoUring H} {history : History H} (follows : Follows ring history)
    {sqe : Nat} {h : Option H} (set : ring.setHandler sqe h = .ok next) : Follows next history := by
  simp only [IoUring.setHandler] at set
  split at set
  · cases set
    exact follows
  · cases dropped : ring.dropHandler (ring.sqes (ring.slot sqe)) canceled with
    | error stop =>
      rw [dropped] at set
      cases set
    | ok after =>
      obtain ⟨handlers, rfl⟩ := dropHandler_log dropped
      rw [dropped] at set
      cases set
      refine follows.aside rfl rfl rfl fun call among => ?_
      cases old : ring.sqes (ring.slot sqe) with
      | none => simp [old] at among
      | some h =>
        simp only [old, Option.map_some, Option.toList_some, List.mem_singleton] at among
        rw [among]

omit [DecidableEq H] in
theorem Follows.getSQE {ring next : IoUring H} {history : History H} (follows : Follows ring history)
    {left : Option H → Option H} (handed : ring.getSQE left = .ok next) : Follows next history := by
  rw [IoUring.getSQE] at handed
  split at handed
  · cases handed
    exact ⟨follows.delivered, follows.taken, follows.called⟩
  · cases handed

theorem Follows.step {left : Option H → Option H} {ring next : IoUring H} {ledger : Ledger H}
    {history : History H} (follows : Follows ring history) (working : Working ring ledger)
    {action : Action H} (plain : flat ring action = true) (stepped : step left ring action = .ok next) :
    Follows next (watch ring next action history) := by
  unfold IoUring.step at stepped
  split at stepped
  · cases stepped
  · cases action with
    | complete position res => exact follows.complete working.shown stepped
    | peek => exact follows.peek working.single stepped
    | returned => exact follows.returned working.shown stepped
    | getSQE =>
      simp only at stepped
      split at stepped
      · exact follows.getSQE stepped
      · cases stepped
    | setHandler sqe h =>
      simp only at stepped
      split at stepped
      · exact follows.setHandler stepped
      · cases stepped
    | submit =>
      simp only at stepped
      split at stepped
      · cases stepped
        exact ⟨follows.delivered, follows.taken, follows.called⟩
      · cases stepped
    | cancelHandler h =>
      simp only at stepped
      split at stepped
      · rw [IoUring.cancelHandler] at stepped
        cases handed : ring.getSQE left with
        | error stop =>
          rw [handed] at stepped
          cases stepped
        | ok middle =>
          rw [handed] at stepped
          cases stepped
          have after := follows.getSQE handed
          exact ⟨after.delivered, after.taken, after.called⟩
      · cases stepped
    | process =>
      simp only at stepped
      split at stepped
      · cases stepped
        refine follows.aside rfl ?_ (List.append_nil _).symm (by simp)
        rw [inHand, inHand, of_decide_eq_true plain]
        rfl
      · cases stepped
    | destroy =>
      simp only at stepped
      split at stepped
      · cases stepped
        refine follows.aside rfl rfl rfl fun call among => ?_
        obtain ⟨h, _, rfl⟩ := List.mem_map.mp among
        rfl
      · cases stepped

theorem watched_follows {state : IoUring H × History H} (watched : Watched (fun _ => none) flat state) :
    (∃ ledger, Balanced (state.1, ledger)) ∧ Follows state.1 state.2 := by
  induction watched with
  | start started =>
    obtain ⟨entries, sqes, rfl⟩ := started
    exact ⟨⟨[], .inl ⟨rfl, fresh_working entries sqes⟩⟩, rfl, rfl, rfl⟩
  | @step state next _ performed ih =>
    obtain ⟨ring, history⟩ := state
    obtain ⟨action, performed⟩ := performed
    obtain ⟨⟨ledger, balanced⟩, follows⟩ := ih
    rw [performs] at performed
    split at performed
    · rename_i plain
      obtain ⟨after, stepped, rfl⟩ := map_ok performed
      refine ⟨⟨_, step_balanced balanced plain (decide_eq_true fun _ => rfl) stepped⟩, ?_⟩
      rcases balanced with ⟨_, working⟩ | ⟨dead, _⟩
      · exact follows.step working plain stepped
      · simp only at dead
        simp [IoUring.step, dead] at stepped
    · cases performed

/-- Nothing but a handler that is gone stops a turn of `process()`. -/
theorem peek_missed {ring : IoUring H} {stop : Stop} (looping : ring.frames.head? = some .looping)
    (stopped : ring.peek = .error stop) : stop = .missed := by
  unfold peek at stopped
  split at stopped
  · cases stopped
  · rename_i cqe rest _ _
    cases data : cqe.completion.user_data with
    | none =>
      rw [data] at stopped
      cases stopped
    | some h =>
      simp only [data, dropHandler] at stopped
      split at stopped
      · cases stopped
        rfl
      · cases stopped
  · rename_i empty more
    obtain ⟨frames, stack⟩ := List.head?_eq_some_iff.mp looping
    cases cq : ring.cq with
    | nil => exact absurd cq (empty frames stack)
    | cons cqe rest => exact absurd cq (more frames cqe rest stack)

private theorem step_process {left : Option H → Option H} {ring next : IoUring H}
    (stepped : IoUring.step left ring .process = .ok next) :
    ring.alive = true ∧ ring.frames.head? ≠ some .looping ∧
      next = { ring with frames := .looping :: ring.frames } := by
  simp only [IoUring.step] at stepped
  split at stepped
  · cases stepped
  · rename_i living
    split at stepped
    · rename_i free
      cases stepped
      exact ⟨not_not.mp living, of_decide_eq_true free, rfl⟩
    · cases stepped

/-- A callback that enters `process()` has it take the completion that it has itself: the
next turn finds no handler for it, or takes it again. -/
theorem nested_takes_again {state entered : IoUring H × History H}
    (watched : Watched (fun _ => none) flat state) (nested : flat state.1 .process = false)
    (enters : performs (fun _ => none) (fun _ _ => true) state .process = .ok entered) :
    ¬ Consumed (fun _ => none) entered ∨
      ∃ next, performs (fun _ => none) (fun _ _ => true) entered .peek = .ok next ∧
        ¬ Consumed (fun _ => none) next := by
  obtain ⟨ring, history⟩ := state
  obtain ⟨⟨ledger, balanced⟩, follows⟩ := watched_follows watched
  rw [performs, if_pos rfl] at enters
  obtain ⟨after, stepped, rfl⟩ := map_ok enters
  obtain ⟨alive, free, rfl⟩ := step_process stepped
  simp only at alive free nested balanced follows
  have working : Working ring ledger := by
    rcases balanced with ⟨_, working⟩ | ⟨dead, _⟩
    · exact working
    · exact absurd (alive.symm.trans dead) (by decide)
  have calling : ring.frames.head? = some .calling := by
    have inside : ring.frames ≠ [] := of_decide_eq_false nested
    obtain ⟨frame, frames, stack⟩ := List.exists_cons_of_ne_nil inside
    cases frame with
    | looping => exact absurd (by rw [stack]; rfl) free
    | calling =>
      rw [stack]
      rfl
  obtain ⟨cqe, rest, first⟩ := List.exists_cons_of_ne_nil (working.shown calling)
  have taken : history.taken = history.seen ++ [cqe] := by
    have taken := follows.taken
    rwa [inHand, if_pos calling, first] at taken
  have turns : IoUring.step (fun _ => none) { ring with frames := .looping :: ring.frames } .peek =
      ({ ring with frames := .looping :: ring.frames } : IoUring H).peek := by
    simp [IoUring.step, alive]
  cases turn : ({ ring with frames := .looping :: ring.frames } : IoUring H).peek with
  | error stop =>
    refine .inl fun consumed => consumed.found .peek ?_
    rw [turns, turn, peek_missed rfl turn]
  | ok next =>
    refine .inr ⟨(next, watch { ring with frames := .looping :: ring.frames } next .peek history), ?_,
      fun consumed => ?_⟩
    · rw [performs, if_pos rfl, turns, turn]
      rfl
    · have again := consumed.taken
      obtain ⟨frames, stack, empty | ⟨_, _, handlers, same, ⟨_, rfl⟩ | ⟨_, rfl⟩⟩⟩ := peek_cases turn
      · exact absurd (first.symm.trans empty.1) (List.cons_ne_nil cqe rest)
      · cases first.symm.trans same
        simp [watch, first, taken, inHand] at again
      · cases first.symm.trans same
        simp [watch, first, taken, inHand] at again

/-- In every run in which no callback enters `process()` each completion is consumed once,
and a callback that enters it is the end of that. -/
theorem watched_consumed {state : IoUring H × History H} (watched : Watched (fun _ => none) flat state) :
    Consumed (fun _ => none) state ∧
      ∀ entered, flat state.1 .process = false →
        performs (fun _ => none) (fun _ _ => true) state .process = .ok entered →
          ¬ Consumed (fun _ => none) entered ∨
            ∃ next, performs (fun _ => none) (fun _ _ => true) entered .peek = .ok next ∧
              ¬ Consumed (fun _ => none) next := by
  obtain ⟨⟨ledger, balanced⟩, follows⟩ := watched_follows watched
  exact ⟨⟨follows, (balanced.exactly _).found⟩, fun _ => nested_takes_again watched⟩

/-- Two completions, the second one delivered while the callback of the first one runs. -/
def twoCompletions : List (Action Nat) :=
  [.getSQE, .setHandler 0 (some 7), .getSQE, .setHandler 1 (some 9), .submit, .complete 1 5, .process, .peek,
    .complete 0 3, .returned, .peek]

theorem watched_consumed_twoCompletions :
    ∃ state, twoCompletions.foldlM (performs (fun _ => none) flat) (fresh 2 fun _ => none, ⟨[], [], []⟩) =
        .ok state ∧ state.2.taken.map Cqe.sqe = [1, 0] ∧ Consumed (fun _ => none) state := by
  have taken : (twoCompletions.foldlM (performs (fun _ => none) flat)
      (fresh 2 fun _ => none, ⟨[], [], []⟩)).map (·.2.taken.map Cqe.sqe) = .ok [1, 0] := by decide
  obtain ⟨state, ran, sqes⟩ := map_ok taken
  exact ⟨state, ran, sqes, (watched_consumed (Reachable.foldlM (.start ⟨2, _, rfl⟩) ran)).1⟩

/-- The callback of a completion enters `process()`. -/
def nestedProcess : List (Action Nat) :=
  [.getSQE, .setHandler 0 (some 7), .submit, .complete 0 5, .process, .peek, .process]

/-- The inner `process()` looks for the handler that was called already. -/
theorem nestedProcess_missed :
    ∃ state, nestedProcess.foldlM (performs (fun _ => none) fun _ _ => true)
        (fresh 2 fun _ => none, ⟨[], [], []⟩) = .ok state ∧
      step (fun _ => none) state.1 .peek = .error .missed ∧ ¬ Consumed (fun _ => none) state := by
  have missed : (nestedProcess.foldlM (performs (fun _ => none) fun _ _ => true)
      (fresh 2 fun _ => none, ⟨[], [], []⟩)).map (fun state => step (fun _ => none) state.1 .peek |>.map (·.log)) =
        .ok (.error .missed) := by decide
  obtain ⟨state, ran, turn⟩ := map_ok missed
  have gone : step (fun _ => none) state.1 .peek = .error .missed := by
    cases turned : step (fun _ => none) state.1 .peek with
    | error stop =>
      rw [turned] at turn
      cases turn
      rfl
    | ok next =>
      rw [turned] at turn
      cases turn
  exact ⟨state, ran, gone, fun consumed => consumed.found .peek gone⟩

end IoUring

end Stdplus.Uring
