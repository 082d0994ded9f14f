import Stdplus.Base.Transition
import Stdplus.Uring.Nested

/-! The `eventfd` of a ring: `processEvents()` against a kernel that signals completions
some time after it has put them in the ring. -/

namespace Stdplus.Uring

open Stdplus.Base

variable {H : Type}

/-- A ring with the counter of its `eventfd`, if it has one. -/
structure Notified (H : Type) where
  ring : IoUring H
  event_fd : Option Nat
  /-- How many completions are still to be signalled. -/
  unsignalled : Nat
  /-- The running calls of `processEvents()`, the innermost first: how many frames of `process()`
  each has below its loop. -/
  loops : List Nat

inductive EventAction (H : Type) where
  | ring (action : Action H)
  /-- What the exception says where a call in it fails. -/
  | getEventFd (failure : Option String)
  | processEvents (failure : Option String)
  /-- The innermost `processEvents()` reads, and enters `process()` where there was something. -/
  | read
  /-- The kernel signals some of the completions with one increment. -/
  | signal (n : Nat)
deriving DecidableEq

namespace Notified

def fresh (entries : Nat) (sqes : Nat → Option H) : Notified H where
  ring := IoUring.fresh entries sqes
  event_fd := none
  unsignalled := 0
  loops := []

/-- The innermost call is at the `fd::read` of a `processEvents()`. -/
def reads (state : Notified H) : Bool := state.loops.head? = some state.ring.frames.length

/-- Callbacks and the code outside of `process()` run. -/
def userRuns (state : Notified H) : Bool := state.ring.alive ∧ state.ring.userRuns ∧ ¬ state.reads

variable [DecidableEq H]

/-- A descriptor that cannot be registered is closed again. -/
def getEventFd (failure : Option String) (state : Notified H) : Except Stop (Notified H) :=
  match state.event_fd, failure with
  | some _, _ => .ok state
  | none, some what => .error (.thrown what)
  | none, none => .ok { state with event_fd := some 0 }

/-- Whether a ring has an `eventfd` decides about the signal when the completion is put there. -/
def complete (left : Option H → Option H) (action : Action H) (state : Notified H) : Except Stop (Notified H) := do
  let ring ← state.ring.step left action
  .ok { state with ring := ring, unsignalled := state.unsignalled + if state.event_fd.isSome then 1 else 0 }

def read (left : Option H → Option H) (state : Notified H) : Except Stop (Notified H) :=
  match state.event_fd with
  | none => .error .refused
  | some 0 => .ok { state with loops := state.loops.tail }
  | some (_ + 1) => do
    let ring ← state.ring.step left .process
    .ok { state with ring := ring, event_fd := some 0 }

def step (left : Option H → Option H) (state : Notified H) (action : EventAction H) : Except Stop (Notified H) :=
  match action with
  | .ring (.complete position res) => state.complete left (.complete position res)
  | .ring action =>
    if state.reads then
      .error .refused
    else do
      let ring ← state.ring.step left action
      .ok { state with ring := ring }
  | .getEventFd failure => if state.userRuns then state.getEventFd failure else .error .refused
  | .processEvents failure =>
    if state.userRuns then do
      let state ← state.getEventFd failure
      .ok { state with loops := state.ring.frames.length :: state.loops }
    else
      .error .refused
  | .read => if state.reads then state.read left else .error .refused
  | .signal n =>
    match state.event_fd with
    | none => .error .refused
    | some counter =>
      if 0 < n ∧ n ≤ state.unsignalled then
        .ok { state with event_fd := some (counter + 1), unsignalled := state.unsignalled - n }
      else
        .error .refused

end Notified

/-- The completions so far, and how many there were when the ring got its `eventfd`. -/
structure Notices (H : Type) extends History H where
  early : Nat

namespace Notified

/-- The action of the ring that a step is, if it is one. -/
def ringAction (state : Notified H) : EventAction H → Option (Action H)
  | .ring action => some action
  | .read => if state.event_fd = some 0 then none else some .process
  | _ => none

def watch (state next : Notified H) (action : EventAction H) (notices : Notices H) : Notices H where
  toHistory :=
    match state.ringAction action with
    | none => notices.toHistory
    | some action => IoUring.watch state.ring next.ring action notices.toHistory
  early := if state.event_fd = none ∧ next.event_fd.isSome then notices.delivered.length else notices.early

variable [DecidableEq H]

def performs (left : Option H → Option H) (allowed : IoUring H → Action H → Bool) (state : Notified H × Notices H)
    (action : EventAction H) : Except Stop (Notified H × Notices H) :=
  if (state.1.ringAction action).all (allowed state.1.ring) then
    (step left state.1 action).map fun next => (next, watch state.1 next action state.2)
  else
    .error .refused

/-- The states of the runs of a new ring, with their completions. -/
abbrev Noticed (left : Option H → Option H) (allowed : IoUring H → Action H → Bool) :
    Notified H × Notices H → Prop :=
  Reachable (fun state => ∃ entries sqes, state = (fresh entries sqes, ⟨⟨[], [], []⟩, 0⟩))
    (fun state next => ∃ action, performs left allowed state action = .ok next)

/-- With nothing to read, nothing to be signalled and no `process()` running, the ring is empty, unless
no completion came after the `eventfd`. -/
structure Woken (state : Notified H × Notices H) : Prop where
  delivered : state.2.delivered = state.2.seen ++ state.1.ring.cq
  unregistered : state.1.event_fd = none → state.1.unsignalled = 0
  early : state.2.early ≤ state.2.delivered.length
  woken : state.1.event_fd = some 0 → state.1.unsignalled = 0 → state.1.ring.frames = [] →
    state.1.ring.cq = [] ∨ state.2.delivered.length = state.2.early

omit [DecidableEq H] in
private theorem aside_takes {ring next : IoUring H} {seen : List (Cqe H)} (cq : next.cq = ring.cq)
    (frames : next.frames = [] → ring.cq = [] ∨ ring.frames = []) :
    ∃ n, next.cq = ring.cq.drop n ∧ seen = seen ++ ring.cq.take n ∧
      (next.frames = [] → ring.cq = [] ∨ n = 0 ∧ ring.frames = []) :=
  ⟨0, cq, (List.append_nil _).symm, fun none => (frames none).imp_right fun idle => ⟨rfl, idle⟩⟩

/-- A step of the program takes some completions from the ring; it is in no `process()` after that
because it was in none before, or the ring is empty. -/
theorem step_takes {left : Option H → Option H} {ring next : IoUring H} {action : Action H} (history : History H)
    (program : ∀ position res, action ≠ .complete position res) (stepped : ring.step left action = .ok next) :
    (IoUring.watch ring next action history).delivered = history.delivered ∧
      ∃ n, next.cq = ring.cq.drop n ∧
        (IoUring.watch ring next action history).seen = history.seen ++ ring.cq.take n ∧
        (next.frames = [] → ring.cq = [] ∨ n = 0 ∧ ring.frames = []) := by
  unfold IoUring.step at stepped
  split at stepped
  · cases stepped
  cases action with
  | complete position res => exact absurd rfl (program position res)
  | peek =>
    refine ⟨rfl, ?_⟩
    obtain ⟨frames, stack, turn⟩ := IoUring.peek_cases stepped
    rcases turn with ⟨empty, rfl⟩ | ⟨cqe, rest, handlers, first, ⟨_, rfl⟩ | ⟨_, rfl⟩⟩
    · exact ⟨0, rfl, by simp [IoUring.watch], fun _ => .inl empty⟩
    · exact ⟨1, by simp [first], by simp [IoUring.watch, first], fun none => by simp [stack] at none⟩
    · exact ⟨0, rfl, by simp [IoUring.watch], fun none => absurd none (List.cons_ne_nil _ _)⟩
  | returned =>
    refine ⟨rfl, 1, ?_⟩
    simp only [IoUring.returned] at stepped
    split at stepped
    · cases stepped
      refine ⟨List.drop_one.symm, ?_, fun none => absurd none (List.cons_ne_nil _ _)⟩
      cases held : ring.cq <;> simp [IoUring.watch, held]
    · cases stepped
  | getSQE =>
    refine ⟨rfl, ?_⟩
    simp only [IoUring.getSQE] at stepped
    split at stepped
    · split at stepped
      · cases stepped
        exact aside_takes rfl .inr
      · cases stepped
    · cases stepped
  | setHandler sqe h =>
    refine ⟨rfl, ?_⟩
    simp only [IoUring.setHandler] at stepped
    split at stepped
    · split at stepped
      · cases stepped
        exact aside_takes rfl .inr
      · cases dropped : ring.dropHandler (ring.sqes (ring.slot sqe)) canceled with
        | error stop =>
          rw [dropped] at stepped
          cases stepped
        | ok after =>
          obtain ⟨handlers, rfl⟩ := IoUring.dropHandler_log dropped
          rw [dropped] at stepped
          cases stepped
          exact aside_takes rfl .inr
    · cases stepped
  | submit =>
    refine ⟨rfl, ?_⟩
    simp only at stepped
    split at stepped
    · cases stepped
      exact aside_takes rfl .inr
    · cases stepped
  | cancelHandler h =>
    refine ⟨rfl, ?_⟩
    simp only [IoUring.cancelHandler, IoUring.getSQE] at stepped
    split at stepped
    · split at stepped
      · cases stepped
        exact aside_takes rfl .inr
      · cases stepped
    · cases stepped
  | process =>
    refine ⟨rfl, ?_⟩
    simp only at stepped
    split at stepped
    · cases stepped
      exact aside_takes rfl fun none => absurd none (List.cons_ne_nil _ _)
    · cases stepped
  | destroy =>
    refine ⟨rfl, ?_⟩
    simp only at stepped
    split at stepped
    · cases stepped
      exact aside_takes rfl .inr
    · cases stepped

theorem bind_ok {ε α β : Type} {computed : Except ε α} {next : α → Except ε β} {value : β}
    (bound : computed >>= next = .ok value) : ∃ result, computed = .ok result ∧ next result = .ok value := by
  cases computed with
  | error error => cases bound
  | ok result => exact ⟨result, rfl, bound⟩

/-- What a step does to the `eventfd` and to the ring. -/
inductive Changes (left : Option H → Option H) (state : Notified H) : EventAction H → Notified H → Prop where
  | completed {position : Nat} {res : Int} {ring : IoUring H} :
      state.ring.step left (.complete position res) = .ok ring →
      Changes left state (.ring (.complete position res))
        { state with ring := ring, unsignalled := state.unsignalled + if state.event_fd.isSome then 1 else 0 }
  | stepped {action : Action H} {ring : IoUring H} :
      (∀ position res, action ≠ .complete position res) → state.reads = false →
      state.ring.step left action = .ok ring → Changes left state (.ring action) { state with ring := ring }
  | registered {action : EventAction H} (loops : List Nat) :
      state.ringAction action = none → state.event_fd = none →
      Changes left state action { state with event_fd := some 0, loops := loops }
  | found {action : EventAction H} (loops : List Nat) :
      state.ringAction action = none → state.event_fd.isSome → Changes left state action { state with loops := loops }
  | awoken {ring : IoUring H} {counter : Nat} :
      state.reads = true → state.event_fd = some (counter + 1) → state.ring.step left .process = .ok ring →
      Changes left state .read { state with ring := ring, event_fd := some 0 }
  | signalled {n counter : Nat} :
      0 < n → n ≤ state.unsignalled → state.event_fd = some counter →
      Changes left state (.signal n)
        { state with event_fd := some (counter + 1), unsignalled := state.unsignalled - n }

private theorem getEventFd_changes {left : Option H → Option H} {state next : Notified H} {failure : Option String}
    {action : EventAction H} (aside : state.ringAction action = none) (loops : List Nat)
    (got : state.getEventFd failure = .ok next) : Changes left state action { next with loops := loops } := by
  unfold getEventFd at got
  split at got
  · rename_i there
    cases got
    exact .found loops aside (by rw [there]; rfl)
  · cases got
  · rename_i absent
    cases got
    exact .registered loops aside absent

theorem step_changes {left : Option H → Option H} {state next : Notified H} {action : EventAction H}
    (stepped : state.step left action = .ok next) : Changes left state action next := by
  cases action with
  | ring action =>
    by_cases program : ∃ position res, action = .complete position res
    · obtain ⟨position, res, rfl⟩ := program
      obtain ⟨ring, worked, same⟩ := bind_ok stepped
      cases same
      exact .completed worked
    · have program (position : Nat) (res : Int) : action ≠ .complete position res :=
        fun same => program ⟨position, res, same⟩
      have plain : state.step left (.ring action) =
          if state.reads then .error .refused
          else state.ring.step left action >>= fun ring => .ok { state with ring := ring } := by
        cases action with
        | complete position res => exact absurd rfl (program position res)
        | _ => rfl
      rw [plain] at stepped
      split at stepped
      · cases stepped
      · rename_i running
        obtain ⟨ring, worked, same⟩ := bind_ok stepped
        cases same
        exact .stepped program (Bool.eq_false_iff.mpr running) worked
  | getEventFd failure =>
    rw [step] at stepped
    split at stepped
    · have same : { next with loops := next.loops } = next := rfl
      exact same ▸ getEventFd_changes rfl next.loops stepped
    · cases stepped
  | processEvents failure =>
    rw [step] at stepped
    split at stepped
    · obtain ⟨middle, got, same⟩ := bind_ok stepped
      cases same
      exact getEventFd_changes rfl _ got
    · cases stepped
  | read =>
    rw [step] at stepped
    split at stepped
    · rename_i reading
      rw [read] at stepped
      split at stepped
      · cases stepped
      · rename_i empty
        cases stepped
        refine .found _ ?_ (by rw [empty]; rfl)
        rw [ringAction, if_pos empty]
      · rename_i counter full
        obtain ⟨ring, worked, same⟩ := bind_ok stepped
        cases same
        exact .awoken reading full worked
    · cases stepped
  | signal n =>
    rw [step] at stepped
    split at stepped
    · cases stepped
    · rename_i counter there
      split at stepped
      · rename_i owed
        cases stepped
        exact .signalled owed.1 owed.2 there
      · cases stepped

omit [DecidableEq H] in
/-- The time at which a ring gets its `eventfd` is not changed by other steps. -/
private theorem watch_early {state next : Notified H} {action : EventAction H} {notices : Notices H}
    (there : state.event_fd = none → next.event_fd = none) :
    (watch state next action notices).early = notices.early := by
  refine if_neg ?_
  rintro ⟨absent, present⟩
  rw [there absent] at present
  cases present

omit [DecidableEq H] in
private theorem watch_history {state next : Notified H} {action : EventAction H} {notices : Notices H}
    (aside : state.ringAction action = none) : (watch state next action notices).toHistory = notices.toHistory := by
  simp only [watch, aside]

omit [DecidableEq H] in
private theorem watch_ring {state next : Notified H} {action : EventAction H} {notices : Notices H}
    {taken : Action H} (same : state.ringAction action = some taken) :
    (watch state next action notices).toHistory = IoUring.watch state.ring next.ring taken notices.toHistory := by
  simp only [watch, same]

theorem step_delivers {left : Option H → Option H} {ring next : IoUring H} {position : Nat} {res : Int}
    (stepped : ring.step left (.complete position res) = .ok next) :
    ∃ cqe, next = { ring with inflight := ring.inflight.eraseIdx position, cq := ring.cq ++ [cqe] } := by
  simp only [IoUring.step, IoUring.complete] at stepped
  split at stepped
  · cases stepped
  · split at stepped
    · cases stepped
    · cases stepped
      exact ⟨_, rfl⟩

private theorem entered {left : Option H → Option H} {ring next : IoUring H}
    (stepped : ring.step left .process = .ok next) : next.frames ≠ [] := by
  simp only [IoUring.step] at stepped
  split at stepped
  · cases stepped
  · split at stepped
    · cases stepped
      exact List.cons_ne_nil _ _
    · cases stepped

omit [DecidableEq H] in
private theorem Woken.of {next : Notified H} {after : Notices H} {history : History H} {early : Nat}
    (woken : Woken (next, ⟨history, early⟩)) (same : after.toHistory = history) (also : after.early = early) :
    Woken (next, after) := by
  obtain ⟨history, early⟩ := after
  obtain rfl : history = _ := same
  obtain rfl : early = _ := also
  exact woken

theorem Woken.step {left : Option H → Option H} {state next : Notified H} {notices : Notices H}
    {action : EventAction H} (woken : Woken (state, notices)) (stepped : state.step left action = .ok next) :
    Woken (next, watch state next action notices) := by
  obtain ⟨delivered, unregistered, early, empty⟩ := woken
  simp only at delivered unregistered early empty
  cases step_changes stepped with
  | @completed position res ring worked =>
    obtain ⟨cqe, rfl⟩ := step_delivers worked
    refine .of ?_ (watch_ring rfl) (watch_early id)
    refine ⟨?_, ?_, ?_, ?_⟩
    · simp [IoUring.watch, delivered]
    · intro absent
      simp only at absent
      simp [absent, unregistered absent]
    · simp only [IoUring.watch, List.drop_left, List.length_append]
      omega
    · intro there nothing
      simp only at there
      simp [there] at nothing
  | @stepped action ring program running worked =>
    obtain ⟨kept, n, cq, seen, idle⟩ := step_takes notices.toHistory program worked
    refine .of ?_ (watch_ring rfl) (watch_early id)
    refine ⟨?_, unregistered, ?_, ?_⟩
    · simp only [kept, seen, cq, delivered, List.append_assoc, List.take_append_drop]
    · simpa only [kept] using early
    · intro there nothing none
      rw [kept]
      rcases idle none with drained | ⟨rfl, before⟩
      · exact .inl (by simp only [cq, drained, List.drop_nil])
      · exact (empty there nothing before).imp_left fun drained => by simp only [cq, drained, List.drop_nil]
  | @registered _ loops aside absent =>
    have early : (watch state { state with event_fd := some 0, loops := loops } action notices).early =
        notices.delivered.length := if_pos ⟨absent, rfl⟩
    refine .of ?_ (watch_history aside) early
    exact ⟨delivered, fun absent => absurd absent (Option.some_ne_none _), Nat.le_refl _, fun _ _ _ => .inr rfl⟩
  | @found _ loops aside there =>
    refine .of ?_ (watch_history aside) (watch_early id)
    exact ⟨delivered, unregistered, early, empty⟩
  | @awoken ring counter reading full worked =>
    obtain ⟨kept, n, cq, seen, idle⟩ := step_takes notices.toHistory (fun _ _ same => by cases same) worked
    have process : state.ringAction .read = some .process := by
      rw [ringAction, if_neg (by simp [full])]
    refine .of ?_ (watch_ring process) (watch_early fun absent => by rw [full] at absent; cases absent)
    refine ⟨?_, fun absent => absurd absent (Option.some_ne_none _), ?_, ?_⟩
    · simp only [kept, seen, cq, delivered, List.append_assoc, List.take_append_drop]
    · simpa only [kept] using early
    · exact fun _ _ none => absurd none (entered worked)
  | @signalled n counter some_owed owed there =>
    refine .of ?_ (watch_history rfl) (watch_early fun absent => by rw [there] at absent; cases absent)
    exact ⟨delivered, fun absent => absurd absent (Option.some_ne_none _), early, fun there => by cases there⟩

theorem noticed_woken {left : Option H → Option H} {allowed : IoUring H → Action H → Bool}
    {state : Notified H × Notices H} (noticed : Noticed left allowed state) : Woken state := by
  refine Reachable.invariant ?_ ?_ noticed
  · rintro _ ⟨entries, sqes, rfl⟩
    exact ⟨rfl, fun _ => rfl, Nat.le_refl _, nofun⟩
  · rintro ⟨state, notices⟩ next woken ⟨action, performed⟩
    rw [performs] at performed
    split at performed
    · obtain ⟨after, stepped, rfl⟩ := IoUring.map_ok performed
      exact woken.step stepped
    · cases performed

/-- While a completion that came after the `eventfd` waits in the ring, there is something to read, the
kernel has yet to signal, or `process()` is running; with nested calls of `process()` as well. -/
theorem runs_woken {left : Option H → Option H} {allowed : IoUring H → Action H → Bool}
    {state : Notified H × Notices H} (noticed : Noticed left allowed state) {counter : Nat}
    (there : state.1.event_fd = some counter) (late : state.2.early < state.2.delivered.length)
    (waiting : state.1.ring.cq ≠ []) :
    0 < counter ∨ 0 < state.1.unsignalled ∨ state.1.ring.frames ≠ [] := by
  by_contra asleep
  simp only [not_or, Nat.not_lt, Nat.le_zero, not_not] at asleep
  obtain ⟨rfl, nothing, idle⟩ := asleep
  rcases (noticed_woken noticed).woken there nothing idle with empty | none
  · exact waiting empty
  · exact absurd none (Nat.ne_of_gt late)

/-- A request that is completed with an `eventfd` there. -/
def oneEvent : List (EventAction Nat) :=
  [.ring .getSQE, .ring (.setHandler 0 (some 7)), .ring .submit, .getEventFd none, .ring (.complete 0 5)]

theorem runs_woken_oneEvent :
    ∃ state, oneEvent.foldlM (performs (fun _ => none) IoUring.flat) (fresh 2 fun _ => none, ⟨⟨[], [], []⟩, 0⟩) =
        .ok state ∧ (0 < 0 ∨ 0 < state.1.unsignalled ∨ state.1.ring.frames ≠ []) := by
  have shown : (oneEvent.foldlM (performs (fun _ => none) IoUring.flat)
      (fresh 2 fun _ => none, ⟨⟨[], [], []⟩, 0⟩)).map
        (fun state => (state.1.event_fd, state.2.early, state.2.delivered.length, state.1.ring.cq.length)) =
          .ok (some 0, 0, 1, 1) := by decide
  obtain ⟨state, ran, same⟩ := IoUring.map_ok shown
  simp only [Prod.mk.injEq] at same
  obtain ⟨there, early, late, waiting⟩ := same
  refine ⟨state, ran, runs_woken (Reachable.foldlM (.start ⟨2, _, rfl⟩) ran) there ?_ ?_⟩
  · rw [early, late]
    exact Nat.one_pos
  · exact List.ne_nil_of_length_pos (waiting ▸ Nat.one_pos)

def earlyEvent : List (EventAction Nat) :=
  [.ring .getSQE, .ring (.setHandler 0 (some 7)), .ring .submit, .ring (.complete 0 5), .getEventFd none]

/-- It is never signalled. -/
example : (earlyEvent.foldlM (performs (fun _ => none) IoUring.flat) (fresh 2 fun _ => none, ⟨⟨[], [], []⟩, 0⟩)).map
    (fun state => (state.1.event_fd, state.1.unsignalled, state.1.ring.cq.length)) = .ok (some 0, 0, 1) := by decide

/-- The ring of a run with an `eventfd` is the ring of a run. -/
theorem noticed_watched {left : Option H → Option H} {allowed : IoUring H → Action H → Bool}
    {state : Notified H × Notices H} (noticed : Noticed left allowed state) :
    IoUring.Watched left allowed (state.1.ring, state.2.toHistory) := by
  induction noticed with
  | start started =>
    obtain ⟨entries, sqes, rfl⟩ := started
    exact .start ⟨entries, sqes, rfl⟩
  | @step state next _ performed ih =>
    obtain ⟨state, notices⟩ := state
    obtain ⟨action, performed⟩ := performed
    rw [performs] at performed
    split at performed
    · rename_i permitted
      obtain ⟨after, stepped, rfl⟩ := IoUring.map_ok performed
      have goesOn {taken : Action H} {ring : IoUring H} (same : state.ringAction action = some taken)
          (worked : state.ring.step left taken = .ok ring) :
          IoUring.Watched left allowed (ring, IoUring.watch state.ring ring taken notices.toHistory) := by
        simp only [same, Option.all_some] at permitted
        refine .step ih ⟨taken, ?_⟩
        rw [IoUring.performs, if_pos permitted, worked]
        rfl
      cases step_changes stepped with
      | completed worked => exact goesOn rfl worked
      | stepped program running worked => exact goesOn rfl worked
      | registered loops aside absent =>
        rw [watch_history aside]
        exact ih
      | found loops aside there =>
        rw [watch_history aside]
        exact ih
      | awoken reading full worked =>
        have process : state.ringAction .read = some .process := by
          rw [ringAction, if_neg (fun none => Nat.succ_ne_zero _ (Option.some.inj (full.symm.trans none)))]
        rw [watch_ring process]
        exact goesOn process worked
      | signalled some_owed owed there =>
        rw [watch_history rfl]
        exact ih
    · cases performed

/-- The handlers of all completions have been called once the ring is empty and no `process()` runs. -/
theorem all_called {state : Notified H × Notices H} (noticed : Noticed (fun _ => none) IoUring.flat state)
    (empty : state.1.ring.cq = []) (idle : state.1.ring.frames = []) :
    state.2.seen = state.2.delivered ∧
      state.1.ring.log.filter (·.2.user_data.isSome) = state.2.delivered.filterMap Cqe.call := by
  obtain ⟨_, follows⟩ := IoUring.watched_follows (noticed_watched noticed)
  have delivered : state.2.delivered = state.2.seen := by
    have delivered := follows.delivered
    rwa [empty, List.append_nil] at delivered
  have taken : state.2.taken = state.2.seen := by
    have taken := follows.taken
    rwa [IoUring.inHand, idle, if_neg (by simp), List.append_nil] at taken
  refine ⟨delivered.symm, ?_⟩
  rw [follows.called, taken, delivered]

/-- Once there is nothing to read or to signal and no `process()` runs, the handler of each completion has
been called, unless none came after the `eventfd`. -/
theorem runs_drained {state : Notified H × Notices H} (noticed : Noticed (fun _ => none) IoUring.flat state)
    (there : state.1.event_fd = some 0) (signalled : state.1.unsignalled = 0) (idle : state.1.ring.frames = [])
    (late : state.2.early < state.2.delivered.length) :
    state.2.seen = state.2.delivered ∧
      state.1.ring.log.filter (·.2.user_data.isSome) = state.2.delivered.filterMap Cqe.call :=
  all_called noticed (((noticed_woken noticed).woken there signalled idle).resolve_right (Nat.ne_of_gt late)) idle

def processedEvent : List (EventAction Nat) :=
  oneEvent ++ [.signal 1, .processEvents none, .read, .ring .peek, .ring .returned, .ring .peek]

theorem runs_drained_processedEvent :
    ∃ state, processedEvent.foldlM (performs (fun _ => none) IoUring.flat)
        (fresh 2 fun _ => none, ⟨⟨[], [], []⟩, 0⟩) = .ok state ∧
      state.2.seen = state.2.delivered ∧
      state.1.ring.log.filter (·.2.user_data.isSome) = state.2.delivered.filterMap Cqe.call := by
  have shown : (processedEvent.foldlM (performs (fun _ => none) IoUring.flat)
      (fresh 2 fun _ => none, ⟨⟨[], [], []⟩, 0⟩)).map
        (fun state => (state.1.event_fd, state.1.unsignalled, state.1.ring.frames, state.2.early,
          state.2.delivered.length)) = .ok (some 0, 0, [], 0, 1) := by decide
  obtain ⟨state, ran, same⟩ := IoUring.map_ok shown
  simp only [Prod.mk.injEq] at same
  obtain ⟨there, signalled, idle, early, late⟩ := same
  refine ⟨state, ran, runs_drained (Reachable.foldlM (.start ⟨2, _, rfl⟩) ran) there signalled idle ?_⟩
  rw [early, late]
  exact Nat.one_pos

/-- What `processEvents()` does by itself once it is called; its callbacks only return. -/
def own : EventAction H → Bool
  | .read | .ring .peek | .ring .returned => true
  | _ => false

/-- A loop of `process()` with a call of `processEvents()` around it. -/
structure Looping (state : Notified H × Notices H) : Prop where
  noticed : Noticed (fun _ => none) IoUring.flat state
  alive : state.1.ring.alive = true
  frames : state.1.ring.frames = [.looping]
  loops : state.1.loops = [0]
  event_fd : state.1.event_fd = some 0

/-- The states that a run of `processEvents()` by itself gets to. -/
def Goes (state next : Notified H × Notices H) : Prop :=
  ∃ actions : List (EventAction H), (∀ action ∈ actions, own action = true) ∧
    actions.foldlM (performs (fun _ => none) IoUring.flat) state = .ok next

theorem Goes.cons {state middle next : Notified H × Notices H} {action : EventAction H} (mine : own action = true)
    (performed : performs (fun _ => none) IoUring.flat state action = .ok middle) (goes : Goes middle next) :
    Goes state next := by
  obtain ⟨actions, all, ran⟩ := goes
  refine ⟨action :: actions, List.forall_mem_cons.mpr ⟨mine, all⟩, ?_⟩
  rw [List.foldlM_cons, performed]
  exact ran

theorem Goes.append {state middle next : Notified H × Notices H} {action : EventAction H} (goes : Goes state middle)
    (mine : own action = true) (performed : performs (fun _ => none) IoUring.flat middle action = .ok next) :
    Goes state next := by
  obtain ⟨actions, all, ran⟩ := goes
  refine ⟨actions ++ [action], ?_, ?_⟩
  · intro other among
    rcases List.mem_append.mp among with among | among
    · exact all other among
    · exact List.mem_singleton.mp among ▸ mine
  · rw [List.foldlM_append, ran]
    show performs _ _ middle action >>= pure = .ok next
    rw [performed]
    rfl

theorem performs_ok (left : Option H → Option H) (allowed : IoUring H → Action H → Bool) (notices : Notices H)
    {state next : Notified H} {action : EventAction H}
    (permitted : (state.ringAction action).all (allowed state.ring) = true)
    (stepped : state.step left action = .ok next) :
    performs left allowed (state, notices) action = .ok (next, watch state next action notices) := by
  rw [performs, if_pos permitted, stepped]
  rfl

/-- A step of `process()` is one of the state around it. -/
private theorem performs_ring (notices : Notices H) {state : Notified H} {ring : IoUring H} {action : Action H}
    (turn : action = .peek ∨ action = .returned) (running : state.reads = false)
    (stepped : state.ring.step (fun _ => none) action = .ok ring) :
    performs (fun _ => none) IoUring.flat (state, notices) (.ring action) =
      .ok ({ state with ring := ring }, watch state { state with ring := ring } (.ring action) notices) := by
  refine performs_ok _ _ notices ?_ ?_
  · rcases turn with rfl | rfl <;> rfl
  · rcases turn with rfl | rfl <;> simp only [step, running, Bool.false_eq_true, if_false, stepped] <;> rfl

/-- The loop is over, with all completions taken. -/
structure Over (state next : Notified H × Notices H) : Prop where
  noticed : Noticed (fun _ => none) IoUring.flat next
  cq : next.1.ring.cq = []
  frames : next.1.ring.frames = []
  loops : next.1.loops = [0]
  event_fd : next.1.event_fd = some 0
  delivered : next.2.delivered = state.2.delivered

theorem Looping.drains {state : Notified H × Notices H} (looping : Looping state) :
    ∃ next, Goes state next ∧ Over state next := by
  induction count : state.1.ring.cq.length using Nat.strong_induction_on generalizing state with
  | _ n ih =>
    obtain ⟨state, notices⟩ := state
    obtain ⟨noticed, alive, frames, loops, event_fd⟩ := looping
    simp only at alive frames loops event_fd count
    have working : ∃ ledger, IoUring.Working state.ring ledger := by
      obtain ⟨⟨ledger, balanced⟩, _⟩ := IoUring.watched_follows (noticed_watched noticed)
      rcases balanced with ⟨_, working⟩ | ⟨dead, _⟩
      · exact ⟨ledger, working⟩
      · exact absurd (alive.symm.trans dead) (by decide)
    have running : state.reads = false := by
      rw [reads, loops, frames]
      rfl
    obtain ⟨ledger, working⟩ := working
    obtain ⟨ring, peeked, _⟩ := working.peek (by rw [frames]; rfl)
    have stepped : state.ring.step (fun _ => none) .peek = .ok ring := by
      simp only [IoUring.step, alive, not_true_eq_false, if_false, peeked]
    have first := performs_ring notices (.inl rfl) running stepped
    have reached := Reachable.step noticed ⟨_, first⟩
    obtain ⟨below, stack, turn⟩ := IoUring.peek_cases peeked
    obtain rfl : below = [] := (List.cons.inj (stack.symm.trans frames)).2
    rcases turn with ⟨empty, rfl⟩ | ⟨cqe, rest, handlers, more, ⟨_, rfl⟩ | ⟨some, rfl⟩⟩
    · have nothing (same : Notified H × Notices H) : Goes same same :=
        ⟨[], fun _ none => absurd none List.not_mem_nil, rfl⟩
      exact ⟨_, .cons rfl first (nothing _), reached, empty, rfl, loops, event_fd, rfl⟩
    · have shorter : rest.length < n := by
        rw [← count, more, List.length_cons]
        exact Nat.lt_succ_self _
      obtain ⟨next, goes, ended⟩ := ih rest.length shorter ⟨reached, alive, frames, loops, event_fd⟩ rfl
      exact ⟨next, .cons rfl first goes, { ended with }⟩
    · have shorter : rest.length < n := by
        rw [← count, more, List.length_cons]
        exact Nat.lt_succ_self _
      let calling : IoUring H :=
        { state.ring with handlers := handlers, frames := [.calling], log := state.ring.log ++ cqe.call.toList }
      have back : calling.step (fun _ => none) .returned =
          .ok { calling with cq := rest, frames := [.looping] } := by
        simp only [calling, IoUring.step, IoUring.returned, alive, more, not_true_eq_false, if_false, List.tail_cons]
      have inside : ({ state with ring := calling } : Notified H).reads = false := by
        rw [reads, loops]
        rfl
      have second := performs_ring (watch state { state with ring := calling } (.ring .peek) notices) (.inr rfl) inside
        back
      obtain ⟨next, goes, ended⟩ := ih rest.length shorter
        ⟨.step reached ⟨_, second⟩, alive, rfl, loops, event_fd⟩ rfl
      exact ⟨next, .cons rfl first (.cons rfl second goes), { ended with }⟩

private theorem step_processEvents (left : Option H → Option H) {state : Notified H} (failure : Option String)
    {counter : Nat} (running : state.userRuns = true) (there : state.event_fd = some counter) :
    state.step left (.processEvents failure) =
      .ok { state with loops := state.ring.frames.length :: state.loops } := by
  have got : state.getEventFd failure = .ok state := by simp only [getEventFd, there]
  simp only [step, if_pos running, got]
  rfl

private theorem step_read (left : Option H → Option H) {state : Notified H} (reading : state.reads = true)
    (there : state.event_fd = some 0) : state.step left .read = .ok { state with loops := state.loops.tail } := by
  simp only [step, if_pos reading, read, there]

private theorem step_wakes {left : Option H → Option H} {state : Notified H} {ring : IoUring H} {counter : Nat}
    (reading : state.reads = true) (there : state.event_fd = some (counter + 1))
    (worked : state.ring.step left .process = .ok ring) :
    state.step left .read = .ok { state with ring := ring, event_fd := some 0 } := by
  simp only [step, if_pos reading, read, there, worked]
  rfl

/-- From wherever no call is running `processEvents()` comes to its end by itself, and where there was
something to read the handlers of all completions have been called. -/
theorem runs_processed {state : Notified H × Notices H} (noticed : Noticed (fun _ => none) IoUring.flat state)
    (alive : state.1.ring.alive = true) (idle : state.1.ring.frames = []) (loops : state.1.loops = [])
    {counter : Nat} (there : state.1.event_fd = some counter) :
    ∃ entered next, performs (fun _ => none) IoUring.flat state (.processEvents none) = .ok entered ∧
      Goes entered next ∧ next.1.ring.frames = [] ∧ next.1.loops = [] ∧ next.1.event_fd = some 0 ∧
      next.2.delivered = state.2.delivered ∧
      (0 < counter → next.2.seen = state.2.delivered ∧
        next.1.ring.log.filter (·.2.user_data.isSome) = state.2.delivered.filterMap Cqe.call) := by
  obtain ⟨⟨ring, event_fd, unsignalled, running⟩, notices⟩ := state
  simp only at alive idle loops there
  subst loops there
  have free : ({ ring, event_fd := some counter, unsignalled, loops := [] } : Notified H).userRuns = true := by
    simp [userRuns, IoUring.userRuns, reads, alive, idle]
  have called := performs_ok (fun _ => none) IoUring.flat notices rfl
    (step_processEvents (fun _ => none) none free rfl)
  have entered := Reachable.step noticed ⟨_, called⟩
  let calling : Notified H := { ring, event_fd := some counter, unsignalled, loops := [ring.frames.length] }
  have reading : calling.reads = true := decide_eq_true rfl
  cases counter with
  | zero =>
    have done := performs_ok (fun _ => none) IoUring.flat
      (watch { ring, event_fd := some 0, unsignalled, loops := [] } calling (.processEvents none) notices) rfl
      (step_read (fun _ => none) reading rfl)
    exact ⟨_, _, called, .cons rfl done ⟨[], nofun, rfl⟩, idle, rfl, rfl, rfl,
      fun none => absurd none (Nat.lt_irrefl 0)⟩
  | succ counter =>
    have worked : ring.step (fun _ => none) .process = .ok { ring with frames := .looping :: ring.frames } := by
      simp [IoUring.step, IoUring.userRuns, alive, idle]
    have permitted : (calling.ringAction (.read : EventAction H)).all (IoUring.flat calling.ring) = true := by
      simp [calling, ringAction, IoUring.flat, idle]
    have woken := performs_ok (fun _ => none) IoUring.flat
      (watch { ring, event_fd := some (counter + 1), unsignalled, loops := [] } calling (.processEvents none) notices)
      permitted (step_wakes reading rfl worked)
    obtain ⟨⟨last, lastNotices⟩, goes, ended⟩ := Looping.drains
      ⟨.step entered ⟨_, woken⟩, alive, by rw [idle], by simp only [calling, idle, List.length_nil], rfl⟩
    obtain ⟨reached, empty, idleAgain, lastLoops, event_fd, delivered⟩ := ended
    simp only at empty idleAgain lastLoops event_fd
    have again : last.reads = true := by
      rw [reads, lastLoops, idleAgain]
      rfl
    have aside : last.ringAction (.read : EventAction H) = none := if_pos event_fd
    have done := performs_ok (fun _ => none) IoUring.flat lastNotices (by rw [aside]; rfl)
      (step_read (fun _ => none) again event_fd)
    have same : (watch last { last with loops := last.loops.tail } .read lastNotices).delivered =
        notices.delivered := by
      rw [watch_history aside]
      exact delivered
    have calls := all_called (.step reached ⟨_, done⟩) empty idleAgain
    rw [same] at calls
    exact ⟨_, _, called, .cons rfl woken (goes.append rfl done), idleAgain, by simp only [lastLoops, List.tail_cons],
      event_fd, same, fun _ => calls⟩

def signalledEvent : List (EventAction Nat) := oneEvent ++ [.signal 1]

theorem runs_processed_signalledEvent :
    ∃ state entered next, signalledEvent.foldlM (performs (fun _ => none) IoUring.flat)
        (fresh 2 fun _ => none, ⟨⟨[], [], []⟩, 0⟩) = .ok state ∧
      performs (fun _ => none) IoUring.flat state (.processEvents none) = .ok entered ∧
      Goes entered next ∧ next.1.ring.frames = [] ∧ next.1.loops = [] ∧ next.1.event_fd = some 0 ∧
      next.2.delivered = state.2.delivered ∧
      (0 < 1 → next.2.seen = state.2.delivered ∧
        next.1.ring.log.filter (·.2.user_data.isSome) = state.2.delivered.filterMap Cqe.call) := by
  have shown : (signalledEvent.foldlM (performs (fun _ => none) IoUring.flat)
      (fresh 2 fun _ => none, ⟨⟨[], [], []⟩, 0⟩)).map
        (fun state => (state.1.ring.alive, state.1.ring.frames, state.1.loops, state.1.event_fd)) =
          .ok (true, [], [], some 1) := by decide
  obtain ⟨state, ran, same⟩ := IoUring.map_ok shown
  simp only [Prod.mk.injEq] at same
  obtain ⟨alive, idle, loops, there⟩ := same
  obtain ⟨entered, next, processed⟩ :=
    runs_processed (Reachable.foldlM (.start ⟨2, _, rfl⟩) ran) alive idle loops there
  exact ⟨state, entered, next, ran, processed⟩

end Notified

end Stdplus.Uring
