import Stdplus.Base.Transition
import Stdplus.Uring.Books

namespace Stdplus.Uring

open Stdplus.Base

variable {H : Type}

namespace IoUring

/-- The completions that no callback was started for. -/
def unread (ring : IoUring H) : List (Cqe H) :=
  if ring.frames.head? = some .calling then ring.cq.tail else ring.cq

/-- The requests whose completion is not processed. -/
def live (ring : IoUring H) : List (Request H) :=
  ring.pending ++ ring.inflight ++
    ring.unread.map (fun cqe => { sqe := cqe.sqe, user_data := cqe.completion.user_data })

private theorem slot_ne {ring : IoUring H} {first second : Nat} (earlier : first < second)
    (near : second - first < ring.entries) : ring.slot first ≠ ring.slot second := by
  intro same
  have divides : (second - first) % ring.entries = 0 :=
    Nat.sub_mod_eq_zero_of_mod_eq same.symm
  rw [Nat.mod_eq_of_lt near] at divides
  omega

private theorem pending_split {ring : IoUring H} {sqe : Nat} (inside : ring.isPending sqe = true)
    (room : ring.sqTail - ring.sqHead ≤ ring.entries) :
    ∃ front behind, ∀ data,
      ({ ring with sqes := Function.update ring.sqes (ring.slot sqe) data } : IoUring H).pending =
        front ++ { sqe := sqe, user_data := data } :: behind := by
  obtain ⟨low, high⟩ := of_decide_eq_true inside
  have split : List.range' ring.sqHead (ring.sqTail - ring.sqHead) =
      List.range' ring.sqHead (sqe - ring.sqHead) ++
        sqe :: List.range' (sqe + 1) (ring.sqTail - (sqe + 1)) := by
    have count : ring.sqTail - ring.sqHead =
        (sqe - ring.sqHead) + (ring.sqTail - (sqe + 1) + 1) := by omega
    have place : ring.sqHead + 1 * (sqe - ring.sqHead) = sqe := by omega
    rw [count, ← List.range'_append, place, List.range'_succ]
  let kept (other : Nat) : Request H := { sqe := other, user_data := ring.sqes (ring.slot other) }
  have other (data : Option H) (k : Nat) (away : ring.slot k ≠ ring.slot sqe) :
      ({ sqe := k, user_data :=
          Function.update ring.sqes (ring.slot sqe) data (ring.slot k) } : Request H) = kept k := by
    rw [Function.update_of_ne away]
  refine ⟨(List.range' ring.sqHead (sqe - ring.sqHead)).map kept,
    (List.range' (sqe + 1) (ring.sqTail - (sqe + 1))).map kept, fun data => ?_⟩
  simp only [pending, slot] at other ⊢
  rw [split, List.map_append, List.map_cons, Function.update_self]
  congr 1
  · refine List.map_congr_left fun k member => other data k ?_
    rw [List.mem_range'_1] at member
    exact slot_ne (by omega) (by omega)
  · congr 1
    refine List.map_congr_left fun k member => other data k ?_
    rw [List.mem_range'_1] at member
    exact (slot_ne (by omega) (by omega)).symm

private theorem live_split {ring : IoUring H} {sqe : Nat} (inside : ring.isPending sqe = true)
    (room : ring.sqTail - ring.sqHead ≤ ring.entries) :
    ∃ rest, ∀ data,
      ({ ring with sqes := Function.update ring.sqes (ring.slot sqe) data } : IoUring H).live.Perm
        ({ sqe := sqe, user_data := data } :: rest) := by
  obtain ⟨front, behind, split⟩ := pending_split inside room
  refine ⟨front ++ behind ++ ring.inflight ++
    ring.unread.map (fun cqe => { sqe := cqe.sqe, user_data := cqe.completion.user_data }), fun data => ?_⟩
  simp only [live]
  rw [split data]
  simp only [List.append_assoc, List.cons_append]
  exact List.perm_middle

private theorem live_getSQE {ring : IoUring H} (ordered : ring.sqHead ≤ ring.sqTail)
    (room : ring.sqTail - ring.sqHead < ring.entries) (data : Option H) :
    ({ ring with
      sqes := Function.update ring.sqes (ring.slot ring.sqTail) data
      sqTail := ring.sqTail + 1 } : IoUring H).live.Perm
      ({ sqe := ring.sqTail, user_data := data } :: ring.live) := by
  have count : ring.sqTail + 1 - ring.sqHead = (ring.sqTail - ring.sqHead) + 1 := by omega
  have place : ring.sqHead + 1 * (ring.sqTail - ring.sqHead) = ring.sqTail := by omega
  have before : (List.range' ring.sqHead (ring.sqTail - ring.sqHead)).map
      (fun sqe => ({ sqe := sqe, user_data :=
        Function.update ring.sqes (ring.slot ring.sqTail) data (ring.slot sqe) } : Request H)) =
      ring.pending := by
    refine List.map_congr_left fun sqe member => ?_
    rw [List.mem_range'_1] at member
    rw [Function.update_of_ne (slot_ne (by omega) (by omega))]
  have pended : ({ ring with
      sqes := Function.update ring.sqes (ring.slot ring.sqTail) data
      sqTail := ring.sqTail + 1 } : IoUring H).pending =
      ring.pending ++ [{ sqe := ring.sqTail, user_data := data }] := by
    rw [← before]
    simp only [pending, slot]
    rw [count, List.range'_concat, place, List.map_append, List.map_singleton, Function.update_self]
  simp only [live]
  rw [pended]
  simp only [List.append_assoc, List.singleton_append]
  exact List.perm_middle

private theorem live_submit (ring : IoUring H) : ring.submit.live.Perm ring.live := by
  have empty : ring.submit.pending = [] := by simp [pending, submit]
  have moved : ring.submit.inflight = ring.inflight ++ ring.pending := rfl
  simp only [live]
  rw [empty, moved, List.nil_append]
  exact List.perm_append_comm.append_right _

/-- What every state of a ring that is not destroyed keeps. -/
structure Working (ring : IoUring H) (ledger : Ledger H) : Prop where
  ordered : ring.sqHead ≤ ring.sqTail
  room : ring.sqTail - ring.sqHead ≤ ring.entries
  older : ∀ request ∈ ring.live, request.sqe < ring.sqTail
  single : ring.frames.length ≤ 1
  shown : ring.frames.head? = some .calling → ring.cq ≠ []
  books : Books ring.handlers ring.live ledger ring.log

theorem fresh_working (entries : Nat) (sqes : Nat → Option H) : Working (fresh entries sqes) [] where
  ordered := Nat.le_refl _
  room := by simp [fresh]
  older := by simp [fresh, live, pending, unread]
  single := by simp [fresh]
  shown := by simp [fresh]
  books := by
    have nothing : (fresh entries sqes).live = [] := by simp [fresh, live, pending, unread]
    rw [nothing]
    exact Books.empty

namespace Working

variable {ring next : IoUring H} {ledger : Ledger H}

private theorem rearrange (working : Working ring ledger) (same : ring.live.Perm next.live)
    (ordered : next.sqHead ≤ next.sqTail) (room : next.sqTail - next.sqHead ≤ next.entries)
    (tail : next.sqTail = ring.sqTail) (single : next.frames.length ≤ 1)
    (shown : next.frames.head? = some .calling → next.cq ≠ []) (handlers : next.handlers = ring.handlers)
    (log : next.log = ring.log) : Working next ledger where
  ordered := ordered
  room := room
  older request member := tail ▸ working.older request (same.mem_iff.mpr member)
  single := single
  shown := shown
  books := by
    rw [handlers, log]
    exact working.books.perm same

theorem submit (working : Working ring ledger) : Working ring.submit ledger :=
  working.rearrange (live_submit ring).symm (Nat.le_refl _) (by simp [IoUring.submit]) rfl working.single
    working.shown rfl rfl

theorem getSQE (working : Working ring ledger) {left : Option H → Option H}
    (null : left (ring.sqes (ring.slot ring.sqTail)) = none) (handed : ring.getSQE left = .ok next) :
    Working next ledger := by
  rw [IoUring.getSQE] at handed
  split at handed
  · rename_i room
    rw [null, Except.ok.injEq] at handed
    subst handed
    have grown := live_getSQE working.ordered room none
    have new : ring.sqTail ∉ ring.live.map Request.sqe := by
      intro member
      obtain ⟨request, among, same⟩ := List.mem_map.mp member
      have older := working.older request among
      omega
    have added := working.books.add new none
    refine ⟨by have := working.ordered; simp only; omega, by simp only; omega, ?_, working.single,
      working.shown, ?_⟩
    · intro request member
      rcases List.mem_cons.mp (grown.mem_iff.mp member) with rfl | among
      · exact Nat.lt_succ_self _
      · exact Nat.lt_succ_of_lt (working.older request among)
    · simp only [Option.toList_none, List.append_nil, Option.map_none] at added
      exact added.perm grown.symm
  · cases handed

theorem complete (working : Working ring ledger) {position : Nat} {res : Int}
    (completed : ring.complete position res = .ok next) :
    next.alive = ring.alive ∧ Working next ledger := by
  rw [IoUring.complete] at completed
  split at completed
  · cases completed
  · rename_i request found
    rw [Except.ok.injEq] at completed
    subst completed
    refine ⟨rfl, working.rearrange ?_ working.ordered working.room rfl working.single (by simp) rfl rfl⟩
    let cqe : Cqe H := ⟨request.sqe, ⟨request.user_data, res⟩⟩
    have read : ({ ring with inflight := ring.inflight.eraseIdx position, cq := ring.cq ++ [cqe] } :
        IoUring H).unread = ring.unread ++ [cqe] := by
      unfold unread
      split
      · rename_i calling
        exact List.tail_append_of_ne_nil (working.shown calling)
      · rfl
    obtain ⟨inside, same⟩ := List.getElem?_eq_some_iff.mp found
    have taken := List.getElem_cons_eraseIdx_perm inside
    rw [same] at taken
    simp only [live]
    rw [read, List.map_append, List.append_assoc, List.append_assoc]
    refine List.Perm.append_left _ ((taken.symm.append_right _).trans ?_)
    rw [List.cons_append, ← List.append_assoc]
    exact (List.perm_append_singleton request _).symm

theorem returned (working : Working ring ledger) (back : ring.returned = .ok next) :
    next.alive = ring.alive ∧ Working next ledger := by
  rw [IoUring.returned] at back
  split at back
  · rename_i frames calling
    rw [Except.ok.injEq] at back
    subst back
    have single := working.single
    rw [calling, List.length_cons] at single
    refine ⟨rfl, working.rearrange (.of_eq ?_) working.ordered working.room rfl (by simpa using single)
      (by simp) rfl rfl⟩
    simp [live, unread, calling, pending, slot]
  · cases back

theorem process (working : Working ring ledger) (flat : ring.frames = []) :
    Working { ring with frames := .looping :: ring.frames } ledger := by
  refine working.rearrange (.of_eq ?_) working.ordered working.room rfl (by simp [flat]) (by simp) rfl rfl
  simp [live, unread, flat, pending, slot]

theorem current (working : Working ring ledger) {sqe : Nat} (inside : ring.isPending sqe = true) :
    ledger.current sqe = ring.sqes (ring.slot sqe) := by
  obtain ⟨rest, split⟩ := live_split inside working.room
  have here := split (ring.sqes (ring.slot sqe))
  rw [Function.update_eq_self] at here
  exact (working.books.perm here).current

theorem current_cqe (working : Working ring ledger) {cqe : Cqe H} {rest : List (Cqe H)}
    (looping : ring.frames.head? = some .looping) (first : ring.cq = cqe :: rest) :
    ledger.current cqe.sqe = cqe.completion.user_data := by
  have read : ring.unread = ring.cq := by simp [unread, looping]
  have taken : ring.live.Perm (⟨cqe.sqe, cqe.completion.user_data⟩ :: (ring.pending ++ ring.inflight ++
      rest.map (fun cqe => { sqe := cqe.sqe, user_data := cqe.completion.user_data }))) := by
    simp only [live, read, first, List.map_cons]
    exact List.perm_middle
  exact (working.books.perm taken).current

variable [DecidableEq H]

/-- A turn of `process()` finds the handler of the completion it reaches. -/
theorem peek (working : Working ring ledger) (looping : ring.frames.head? = some .looping) :
    ∃ next, ring.peek = .ok next ∧ next.alive = ring.alive ∧
      Working next (Ledger.step ring .peek ledger) := by
  obtain ⟨frames, stack⟩ := List.head?_eq_some_iff.mp looping
  have single := working.single
  rw [stack, List.length_cons] at single
  obtain rfl : frames = [] := List.eq_nil_of_length_eq_zero (by omega)
  have read : ring.unread = ring.cq := by simp [unread, stack]
  cases ring_cq : ring.cq with
  | nil =>
    refine ⟨{ ring with frames := [] }, by simp only [IoUring.peek, stack, ring_cq], rfl, ?_⟩
    simp only [Ledger.step, ring_cq]
    refine working.rearrange (.of_eq ?_) working.ordered working.room rfl (by simp) (by simp) rfl rfl
    simp [live, unread, stack, pending, slot, ring_cq]
  | cons cqe rest =>
    let request : Request H := ⟨cqe.sqe, cqe.completion.user_data⟩
    let others : List (Request H) := ring.pending ++ ring.inflight ++
      rest.map (fun cqe => { sqe := cqe.sqe, user_data := cqe.completion.user_data })
    have taken : ring.live.Perm (request :: others) := by
      simp only [live, read, ring_cq, List.map_cons]
      exact List.perm_middle
    obtain ⟨handlers, log, dropped, books⟩ := (working.books.perm taken).remove cqe.completion
    have older : ∀ other ∈ others, other.sqe < ring.sqTail := fun other among =>
      working.older other (taken.mem_iff.mpr (List.mem_cons_of_mem _ among))
    simp only [Ledger.step, ring_cq]
    cases data : cqe.completion.user_data with
    | none =>
      refine ⟨{ ring with handlers := handlers, log := log, cq := rest }, ?_, rfl, ?_⟩
      · simp only [request, data] at dropped
        simp only [IoUring.peek, stack, ring_cq, data, dropped, bind, Except.bind]
      · have same : ({ ring with handlers := handlers, log := log, cq := rest } : IoUring H).live =
            others := by simp [live, unread, stack, pending, slot, others]
        refine ⟨working.ordered, working.room, by rwa [same], working.single, by simp [stack], ?_⟩
        rwa [same]
    | some h =>
      refine ⟨{ ring with handlers := handlers, log := log, frames := [.calling] }, ?_, rfl, ?_⟩
      · simp only [request, data] at dropped
        simp only [IoUring.peek, stack, ring_cq, data, dropped, bind, Except.bind]
      · have same : ({ ring with handlers := handlers, log := log, frames := [.calling] } :
            IoUring H).live = others := by
          simp [live, unread, pending, slot, others, ring_cq]
        refine ⟨working.ordered, working.room, by rwa [same], by simp, by simp [ring_cq], ?_⟩
        rwa [same]

theorem setHandler (working : Working ring ledger) {sqe : Nat} (inside : ring.isPending sqe = true)
    (h : Option H) :
    ∃ next, ring.setHandler sqe h = .ok next ∧ next.alive = ring.alive ∧
      Working next (ledger.register sqe h) := by
  obtain ⟨rest, split⟩ := live_split inside working.room
  have here := split (ring.sqes (ring.slot sqe))
  rw [Function.update_eq_self] at here
  have books := working.books.perm here
  have current := working.current inside
  by_cases same : ring.sqes (ring.slot sqe) = h
  · refine ⟨ring, ?_, rfl, ?_⟩
    · simp only [IoUring.setHandler, same, if_true]
    · rw [Ledger.register, current, if_pos same]
      exact working
  · obtain ⟨handlers, log, dropped, removed⟩ := books.remove canceled
    have absent : sqe ∉ rest.map Request.sqe := (List.nodup_cons.mp books.distinct).1
    refine ⟨{ ring with
      handlers := handlers ++ h.toList
      log := log
      sqes := Function.update ring.sqes (ring.slot sqe) h }, ?_, rfl, ?_⟩
    · simp only [IoUring.setHandler, if_neg same, dropped, bind, Except.bind]
      rfl
    · rw [Ledger.register, current, if_neg same]
      refine ⟨working.ordered, working.room, ?_, working.single, working.shown, ?_⟩
      · intro request member
        rcases List.mem_cons.mp ((split h).mem_iff.mp member) with rfl | among
        · exact (of_decide_eq_true inside).2
        · exact working.older request (here.mem_iff.mpr (List.mem_cons_of_mem _ among))
      · exact (removed.add absent h).perm (split h).symm

end Working

/-- What every reachable state keeps: a ring that works, or one that is destroyed
with nobody waiting. -/
def Balanced (state : IoUring H × Ledger H) : Prop :=
  (state.1.alive = true ∧ Working state.1 state.2) ∨
    (state.1.alive = false ∧ state.2.waiting = [] ∧ state.1.log.Perm state.2.calls)

private theorem getSQE_alive {left : Option H → Option H} {ring next : IoUring H}
    (handed : ring.getSQE left = .ok next) : next.alive = ring.alive := by
  rw [getSQE] at handed
  split at handed
  · cases handed
    rfl
  · cases handed

variable [DecidableEq H]

/-- Callbacks do not enter `process()`. -/
def flat (ring : IoUring H) (action : Action H) : Bool :=
  match action with
  | .process => ring.frames = []
  | _ => true

/-- The slot the step hands out holds no handler. -/
def nullSlot (left : Option H → Option H) (ring : IoUring H) (action : Action H) : Bool :=
  handsOut action → left (ring.sqes (ring.slot ring.sqTail)) = none

/-- A step of the ring, where it is allowed, and what it means for the ledger. -/
def perform (left : Option H → Option H) (allowed : IoUring H → Action H → Bool)
    (state : IoUring H × Ledger H) (action : Action H) : Except Stop (IoUring H × Ledger H) :=
  if allowed state.1 action then
    (step left state.1 action).map (·, Ledger.step state.1 action state.2)
  else
    .error .refused

abbrev Runs (left : Option H → Option H) (allowed : IoUring H → Action H → Bool) :
    IoUring H × Ledger H → Prop :=
  Reachable (fun state => ∃ entries sqes, state = (fresh entries sqes, []))
    (fun state next => ∃ action, perform left allowed state action = .ok next)

def run (left : Option H → Option H) (allowed : IoUring H → Action H → Bool) (entries : Nat)
    (sqes : Nat → Option H) (actions : List (Action H)) : Except Stop (IoUring H × Ledger H) :=
  actions.foldlM (perform left allowed) (fresh entries sqes, [])

theorem run_runs {left : Option H → Option H} {allowed : IoUring H → Action H → Bool} {entries : Nat}
    {sqes : Nat → Option H} {actions : List (Action H)} {state : IoUring H × Ledger H}
    (ran : run left allowed entries sqes actions = .ok state) : Runs left allowed state :=
  Reachable.foldlM (.start ⟨entries, sqes, rfl⟩) ran

theorem peek_looping {ring : IoUring H} (stop : Stop) :
    (∃ next, ring.peek = .ok next) ∨ ring.peek = .error stop ∧ stop ≠ .refused →
      ring.frames.head? = some .looping := by
  intro outcome
  unfold peek at outcome
  split at outcome
  · rename_i stack _
    rw [stack]
    rfl
  · rename_i stack _
    rw [stack]
    rfl
  · rcases outcome with ⟨next, impossible⟩ | ⟨impossible, other⟩
    · cases impossible
    · cases impossible
      exact absurd rfl other

theorem step_balanced {left : Option H → Option H} {ring next : IoUring H} {ledger : Ledger H}
    {action : Action H} (balanced : Balanced (ring, ledger)) (plain : flat ring action = true)
    (null : nullSlot left ring action = true) (stepped : step left ring action = .ok next) :
    Balanced (next, Ledger.step ring action ledger) := by
  rcases balanced with ⟨alive, working⟩ | ⟨dead, _⟩
  swap
  · simp only at dead
    simp [step, dead] at stepped
  simp only at alive working
  unfold step at stepped
  rw [if_neg (not_not.mpr alive)] at stepped
  cases action with
  | complete position res =>
    obtain ⟨same, after⟩ := working.complete stepped
    exact .inl ⟨same.trans alive, after⟩
  | peek =>
    obtain ⟨after, peeked, same, works⟩ := working.peek (peek_looping .missed (.inl ⟨next, stepped⟩))
    rw [peeked, Except.ok.injEq] at stepped
    subst stepped
    exact .inl ⟨same.trans alive, works⟩
  | returned =>
    obtain ⟨same, after⟩ := working.returned stepped
    exact .inl ⟨same.trans alive, after⟩
  | getSQE =>
    simp only at stepped
    split at stepped
    · exact .inl ⟨(getSQE_alive stepped).trans alive, working.getSQE (of_decide_eq_true null rfl) stepped⟩
    · cases stepped
  | setHandler sqe h =>
    simp only at stepped
    split at stepped
    · rename_i runs
      obtain ⟨after, set, same, works⟩ := working.setHandler runs.2 h
      rw [set, Except.ok.injEq] at stepped
      subst stepped
      exact .inl ⟨same.trans alive, works⟩
    · cases stepped
  | submit =>
    simp only at stepped
    split at stepped
    · cases stepped
      exact .inl ⟨alive, working.submit⟩
    · cases stepped
  | cancelHandler h =>
    simp only at stepped
    split at stepped
    · rw [cancelHandler] at stepped
      cases handed : ring.getSQE left with
      | error stop => simp [handed, bind, Except.bind] at stepped
      | ok middle =>
        simp only [handed, bind, Except.bind, Except.ok.injEq] at stepped
        subst stepped
        have works := working.getSQE (of_decide_eq_true null rfl) handed
        exact .inl ⟨(getSQE_alive handed).trans alive, works.submit⟩
    · cases stepped
  | process =>
    simp only at stepped
    split at stepped
    · rw [Except.ok.injEq] at stepped
      subst stepped
      exact .inl ⟨alive, working.process (of_decide_eq_true plain)⟩
    · cases stepped
  | destroy =>
    simp only at stepped
    split at stepped
    · cases stepped
      refine .inr ⟨rfl, Ledger.waiting_close ledger, ?_⟩
      have books := working.books
      have owed := books.holders.map (·, (canceled : Completion H))
      rw [List.map_map] at owed
      exact (books.called.append owed).trans (Ledger.calls_close ledger).symm
    · cases stepped

end IoUring

end Stdplus.Uring
