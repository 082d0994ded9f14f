import Stdplus.Fd.Format

/-! When the bytes a `FormatBuffer` hands over and those it still holds are the texts
it was given: a write that fails half-way is the one thing that repeats bytes. -/

set_option linter.dupNamespace false

namespace Stdplus.Fd

open Stdplus.Base

variable {E : Type}

namespace Sink

/-- How many bytes the descriptor is ready to take in some later write. -/
def count (fd : Sink E) (k : Nat) : Nat := (fd.reply (fd.writes + k)).count

def given (fd : Sink E) (k : Nat) : Nat := ∑ j ∈ Finset.range k, fd.count j

/-- The first of the next writes that blocks or throws. -/
def Fails (fd : Sink E) (k : Nat) : Prop := (∀ j < k, 0 < fd.count j) ∧ fd.count k = 0

/-- A write of so many bytes would stop half-way. -/
def Torn (fd : Sink E) (size : Nat) : Prop := ∃ k, fd.Fails k ∧ 0 < k ∧ fd.given k < size

theorem Fails.unique {fd : Sink E} {first second : Nat} (fails : fd.Fails first) (also : fd.Fails second) :
    first = second := by
  rcases Nat.lt_trichotomy first second with less | same | more
  · exact absurd fails.2 (also.1 first less).ne'
  · exact same
  · exact absurd also.2 (fails.1 second more).ne'

/-- What is left of the replies after one of them. -/
def later (fd : Sink E) (data : List UInt8) : Sink E :=
  { fd with writes := fd.writes + 1, accepted := fd.accepted ++ data }

theorem count_later (fd : Sink E) (data : List UInt8) (k : Nat) : (fd.later data).count k = fd.count (k + 1) := by
  rw [count, count, later, Nat.add_assoc, Nat.add_comm 1]

theorem given_succ (fd : Sink E) (data : List UInt8) (k : Nat) :
    fd.given (k + 1) = (fd.later data).given k + fd.count 0 := by
  rw [given, Finset.sum_range_succ']
  simp only [given, count_later]

theorem fails_succ (fd : Sink E) (data : List UInt8) (k : Nat) (some_taken : 0 < fd.count 0) :
    fd.Fails (k + 1) ↔ (fd.later data).Fails k := by
  simp only [Fails, count_later]
  constructor
  · rintro ⟨before, here⟩
    exact ⟨fun j less => before (j + 1) (Nat.succ_lt_succ less), here⟩
  · rintro ⟨before, here⟩
    refine ⟨fun j less => ?_, here⟩
    cases j with
    | zero => exact some_taken
    | succ j => exact before j (Nat.lt_of_succ_lt_succ less)

end Sink

open Sink

/-- Everything behind `total` is accepted, or what comes before the first write that
fails. -/
def Moves (data : List UInt8) (total : Nat) (fd : Sink E) (outcome : Except (Error E) Unit × Sink E) : Prop :=
  outcome.2.reply = fd.reply ∧
    match outcome.1 with
    | .ok () => outcome.2.accepted = fd.accepted ++ data.drop total ∧
        ∀ k, fd.Fails k → data.length ≤ total + fd.given k
    | .error _ => ∃ k, fd.Fails k ∧ total + fd.given k < data.length ∧
        outcome.2.accepted = fd.accepted ++ (data.drop total).take (fd.given k)

theorem writeFrom_spec (data : List UInt8) (total : Nat) (fd : Sink E) :
    match writeFrom data total fd with
    | (.ok r, next) => r.val = min (fd.count 0) (data.length - total) ∧
        next = fd.later ((data.drop total).take (fd.count 0))
    | (.error _, next) => fd.count 0 = 0 ∧ next = fd.later [] := by
  rw [writeFrom, Sink.write]
  cases replied : fd.reply fd.writes with
  | accepts taken =>
    have same : fd.count 0 = taken := by rw [count, Nat.add_zero, replied, WriteReply.count]
    simp only [Except.map, same, List.length_drop, Fin.val_cast, true_and]
    rfl
  | system thrown =>
    refine ⟨?_, ?_⟩
    · rw [count, Nat.add_zero, replied]
      rfl
    · rw [later, List.append_nil]
  | other thrown =>
    refine ⟨?_, ?_⟩
    · rw [count, Nat.add_zero, replied]
      rfl
    · rw [later, List.append_nil]

private theorem moves_nothing {data : List UInt8} {total : Nat} {fd : Sink E} (more : total < data.length)
    (none : fd.count 0 = 0) (thrown : Error E) : Moves data total fd (.error thrown, fd.later []) := by
  refine ⟨rfl, 0, ⟨fun j less => absurd less (Nat.not_lt_zero j), none⟩, ?_, ?_⟩
  · rw [given, Finset.sum_range_zero]
    exact more
  · rw [later, given, Finset.sum_range_zero, List.take_zero]

private theorem moves_more {data : List UInt8} {total : Nat} {fd : Sink E} {r : Nat}
    {outcome : Except (Error E) Unit × Sink E} (taken : r = min (fd.count 0) (data.length - total))
    (some_taken : r ≠ 0)
    (rest : Moves data (total + r) (fd.later ((data.drop total).take (fd.count 0))) outcome) :
    Moves data total fd outcome := by
  have positive : 0 < fd.count 0 := by omega
  have front : (data.drop total).take (fd.count 0) = (data.drop total).take r := by
    rw [taken, ← List.length_drop, List.take_eq_take_min]
  rw [front] at rest
  obtain ⟨same, moved⟩ := rest
  refine ⟨same, ?_⟩
  cases result : outcome.1 with
  | ok =>
    rw [result] at moved
    obtain ⟨accepted, never⟩ := moved
    refine ⟨?_, fun k fails => ?_⟩
    · rw [accepted, later, List.append_assoc, ← List.drop_drop, List.take_append_drop]
    · cases k with
      | zero => exact absurd fails.2 positive.ne'
      | succ k =>
        have enough := never k ((fails_succ fd _ k positive).mp fails)
        rw [given_succ fd ((data.drop total).take r) k]
        omega
  | error thrown =>
    rw [result] at moved
    obtain ⟨k, fails, short, accepted⟩ := moved
    have all : r = fd.count 0 := by omega
    have sum : fd.given (k + 1) = r + (fd.later ((data.drop total).take r)).given k := by
      rw [given_succ fd ((data.drop total).take r), ← all, Nat.add_comm]
    refine ⟨k + 1, (fails_succ fd _ k positive).mpr fails, by omega, ?_⟩
    rw [accepted, sum, List.take_add, List.drop_drop, ← List.append_assoc]
    rfl

private theorem loop_spec (data : List UInt8) (total : Nat) (fd : Sink E) (inside : total ≤ data.length) :
    Moves data total fd (opExact "writeExact" data.length (writeFrom data) total fd) := by
  induction left : data.length - total using Nat.strong_induction_on generalizing total fd with
  | _ left ih =>
    rw [opExact]
    split
    · rename_i more
      have one := writeFrom_spec data total fd
      split
      · rename_i thrown next written
        rw [written] at one
        obtain ⟨none, rfl⟩ := one
        exact moves_nothing more none _
      · rename_i r next written
        rw [written] at one
        obtain ⟨taken, rfl⟩ := one
        split
        · rename_i stalled
          have none : fd.count 0 = 0 := by omega
          rw [none, List.take_zero]
          exact moves_nothing more none _
        · rename_i moved
          exact moves_more taken moved (ih _ (by omega) _ _ (by omega) rfl)
    · rename_i whole
      refine ⟨rfl, ?_, fun k _ => by omega⟩
      rw [List.drop_eq_nil_of_le (by omega), List.append_nil]

theorem writeExact_spec (data : List UInt8) (fd : Sink E) : Moves data 0 fd (writeExact data fd) :=
  loop_spec data 0 fd (Nat.zero_le _)

theorem Moves.torn_iff {data : List UInt8} {fd : Sink E} {outcome : Except (Error E) Unit × Sink E}
    (moves : Moves data 0 fd outcome) : fd.Torn data.length ↔
      (∃ thrown, outcome.1 = .error thrown) ∧ outcome.2.accepted ≠ fd.accepted := by
  obtain ⟨_, moved⟩ := moves
  cases result : outcome.1 with
  | ok =>
    rw [result] at moved
    constructor
    · rintro ⟨k, fails, _, short⟩
      have enough := moved.2 k fails
      omega
    · rintro ⟨⟨thrown, impossible⟩, _⟩
      cases impossible
  | error thrown =>
    rw [result] at moved
    obtain ⟨k, fails, short, accepted⟩ := moved
    rw [List.drop_zero] at accepted
    constructor
    · rintro ⟨other, also, positive, _⟩
      have some_given : 0 < fd.given k := by
        rw [fails.unique also, given]
        exact Finset.sum_pos (fun j less => also.1 j (Finset.mem_range.mp less))
          (Finset.nonempty_range_iff.mpr positive.ne')
      refine ⟨⟨thrown, rfl⟩, fun same => ?_⟩
      have length := congrArg List.length (accepted.symm.trans same)
      rw [List.length_append, List.length_take] at length
      omega
    · rintro ⟨_, differs⟩
      refine ⟨k, fails, Nat.pos_of_ne_zero fun zero => differs ?_, by omega⟩
      rw [accepted, zero, given, Finset.sum_range_zero, List.take_zero, List.append_nil]

/-- What a flush of the buffer `this` leaves. -/
structure Flushed (this : FormatBuffer E) (outcome : Except (Error E) Unit) (next : FormatBuffer E) : Prop where
  max : next.max = this.max
  reply : next.fd.reply = this.fd.reply
  kept : next.fd.accepted ++ next.buf = this.fd.accepted ++ this.buf ↔ ¬ this.fd.Torn this.buf.length
  empty : outcome = .ok () → next.buf = []
  healthy : (∀ k, 0 < (this.fd.reply k).count) → outcome = .ok ()

theorem FormatBuffer.flush_spec (this : FormatBuffer E) : Flushed this this.flush.1 this.flush.2 := by
  rw [flush]
  split
  · have moves := writeExact_spec this.buf this.fd
    have torn := moves.torn_iff
    split
    · rename_i thrown fd written
      rw [written] at moves torn
      obtain ⟨same, k, fails, _, _⟩ := moves
      refine ⟨rfl, same, ?_, ?_, fun healthy => absurd fails.2 (healthy _).ne'⟩
      · simp only [List.append_left_inj, torn, Except.error.injEq, exists_eq', true_and, ne_eq, not_not]
      · intro impossible
        cases impossible
    · rename_i fd written
      rw [written] at moves torn
      obtain ⟨same, accepted, _⟩ := moves
      refine ⟨rfl, same, iff_of_true ?_ ?_, fun _ => rfl, fun _ => rfl⟩
      · rw [List.append_nil]
        exact accepted
      · rw [torn]
        rintro ⟨⟨thrown, impossible⟩, _⟩
        cases impossible
  · rename_i empty
    have none : this.buf = [] := List.eq_nil_of_length_eq_zero (by omega)
    refine ⟨rfl, rfl, iff_of_true rfl ?_, fun _ => none, fun _ => rfl⟩
    rintro ⟨k, _, _, less⟩
    omega

namespace Formatting

/-- The bytes accepted are a prefix of the texts, and the buffer holds the rest. -/
def Exact (state : Formatting E) : Prop := state.object.fd.accepted ++ state.object.buf = state.appended

/-- The buffer an action leaves to be written, if it writes at all. -/
def written (action : FormatAction) (object : FormatBuffer E) : Option (List UInt8) :=
  match action with
  | .append text => if object.max ≤ (object.buf ++ text).length then some (object.buf ++ text) else none
  | .appends texts =>
    if object.max ≤ (object.buf ++ texts.flatten).length then some (object.buf ++ texts.flatten) else none
  | .flush | .destroy => some object.buf

/-- The write of an action would stop half-way. -/
def Tears (action : FormatAction) (object : FormatBuffer E) : Prop :=
  ∃ data, written action object = some data ∧ object.fd.Torn data.length

structure Worked (action : FormatAction) (this : FormatBuffer E) (outcome : Except (Error E) Unit)
    (next : FormatBuffer E) : Prop where
  max : next.max = this.max
  reply : next.fd.reply = this.fd.reply
  kept : next.fd.accepted ++ next.buf = this.fd.accepted ++ this.buf ++ action.text ↔ ¬ Tears action this
  bounded : outcome = .ok () → 1 ≤ this.max → next.buf.length < this.max
  empty : outcome = .ok () → action = .flush ∨ action = .destroy → next.buf = []
  healthy : (∀ k, 0 < (this.fd.reply k).count) → outcome = .ok ()

private theorem added (this : FormatBuffer E) (text : List UInt8) :
    let filled : FormatBuffer E := { this with buf := this.buf ++ text }
    let result := filled.writeIfNeeded
    (result.2.max = this.max ∧ result.2.fd.reply = this.fd.reply) ∧
      (result.2.fd.accepted ++ result.2.buf = this.fd.accepted ++ this.buf ++ text ↔
        ¬ (this.max ≤ (this.buf ++ text).length ∧ this.fd.Torn (this.buf ++ text).length)) ∧
      (result.1 = .ok () → 1 ≤ this.max → result.2.buf.length < this.max) ∧
      ((∀ k, 0 < (this.fd.reply k).count) → result.1 = .ok ()) := by
  intro filled result
  by_cases long : this.max ≤ (this.buf ++ text).length
  · have flushed := filled.flush_spec
    have same : result = filled.flush := if_pos long
    rw [same]
    refine ⟨⟨flushed.max, flushed.reply⟩, ?_, fun worked large => ?_, flushed.healthy⟩
    · rw [List.append_assoc]
      simpa only [long, true_and] using flushed.kept
    · rw [flushed.empty worked]
      exact large
  · have same : result = (.ok (), filled) := if_neg long
    rw [same]
    refine ⟨⟨rfl, rfl⟩, iff_of_true (List.append_assoc _ _ _).symm (fun torn => long torn.1), fun _ _ => ?_,
      fun _ => rfl⟩
    exact Nat.lt_of_not_le long

theorem work_spec (action : FormatAction) (object : FormatBuffer E) :
    Worked action object (work action object).1 (work action object).2 := by
  have tears_some {data : List UInt8} {given : FormatAction} {choice : Prop} [Decidable choice]
      (same : written given object = if choice then some data else none) :
      Tears given object ↔ choice ∧ object.fd.Torn data.length := by
    rw [Tears, same]
    by_cases chosen : choice <;> simp [chosen]
  have flushes (given : FormatAction) (same : work given object = object.flush)
      (writes : written given object = some object.buf) (none : given.text = []) :
      Worked given object (work given object).1 (work given object).2 := by
    have flushed := object.flush_spec
    rw [same]
    refine ⟨flushed.max, flushed.reply, ?_, fun worked large => ?_, fun worked _ => flushed.empty worked,
      flushed.healthy⟩
    · rw [none, List.append_nil, flushed.kept, Tears, writes]
      simp
    · rw [flushed.empty worked]
      exact large
  cases action with
  | append text =>
    obtain ⟨⟨max, reply⟩, kept, bounded, healthy⟩ := added object text
    refine ⟨max, reply, kept.trans (not_congr (tears_some rfl).symm), bounded, fun _ which => ?_, healthy⟩
    rcases which with impossible | impossible <;> cases impossible
  | appends texts =>
    obtain ⟨⟨max, reply⟩, kept, bounded, healthy⟩ := added object texts.flatten
    refine ⟨max, reply, kept.trans (not_congr (tears_some rfl).symm), bounded, fun _ which => ?_, healthy⟩
    rcases which with impossible | impossible <;> cases impossible
  | flush => exact flushes .flush rfl rfl rfl
  | destroy => exact flushes .destroy rfl rfl rfl

/-- The states of the runs on a descriptor with these replies. -/
abbrev Runs (allowed : FormatAction → FormatBuffer E → Prop) (reply : Nat → WriteReply E) (max : Nat) :
    Formatting E → Prop :=
  Reachable (· = start reply max) (fun state next =>
    state.alive = true ∧ ∃ action, allowed action state.object ∧ next = (step action state).2)

/-- What can be relied on in a state, and after any action from there. -/
structure Sound (state : Formatting E) : Prop where
  exact : Exact state
  front : state.object.fd.accepted <+: state.appended
  next : ∀ action, Exact (step action state).2 ↔ ¬ Tears action state.object
  bounded : (∀ k, 0 < (state.object.fd.reply k).count) → 1 ≤ state.object.max → ∀ action,
    (step action state).1 = .ok () ∧ (step action state).2.object.buf.length < state.object.max
  empty : (∀ k, 0 < (state.object.fd.reply k).count) → ∀ action, action = .flush ∨ action = .destroy →
    (step action state).2.object.buf = []

theorem step_exact {state : Formatting E} (exact : Exact state) (action : FormatAction) :
    Exact (step action state).2 ↔ ¬ Tears action state.object := by
  have worked := work_spec action state.object
  rw [Exact] at exact
  rw [← worked.kept, Exact, step, exact]

theorem Exact.sound {state : Formatting E} (exact : Exact state) : Sound state where
  exact := exact
  front := ⟨state.object.buf, exact⟩
  next := step_exact exact
  bounded healthy large action := by
    have worked := work_spec action state.object
    exact ⟨worked.healthy healthy, worked.bounded (worked.healthy healthy) large⟩
  empty healthy action which := by
    have worked := work_spec action state.object
    exact worked.empty (worked.healthy healthy) which

/-- As long as no write stops half-way, no byte is written twice. -/
theorem runs_sound {reply : Nat → WriteReply E} {max : Nat} {state : Formatting E}
    (runs : Runs (fun action object => ¬ Tears action object) reply max state) : Sound state := by
  refine Exact.sound (runs.invariant ?_ ?_)
  · rintro state rfl
    rfl
  · rintro state next exact ⟨_, action, whole, rfl⟩
    exact (step_exact exact action).mpr whole

def halfway : Nat → WriteReply Nat
  | 0 => .accepts 1
  | 1 => .system 5
  | _ => .accepts 4096

/-- A flush that is tried again after it stopped half-way writes a byte twice. -/
theorem runs_repeats : ∃ state : Formatting Nat, Runs (fun _ _ => True) halfway 4096 state ∧
    state.object.fd.accepted = [104, 104, 105] ∧ state.appended = [104, 105] ∧
    ¬ state.object.fd.accepted <+: state.appended := by
  let filled := (step (.append [104, 105]) (start halfway 4096)).2
  let failed := (step .flush filled).2
  let again := (step .flush failed).2
  have runs : Runs (fun _ _ => True) halfway 4096 again :=
    .step (.step (.step (.start rfl) ⟨rfl, .append [104, 105], trivial, rfl⟩) ⟨rfl, .flush, trivial, rfl⟩)
      ⟨rfl, .flush, trivial, rfl⟩
  have accepted : again.object.fd.accepted = [104, 104, 105] := by decide +kernel
  have appended : again.appended = [104, 105] := by decide +kernel
  refine ⟨again, runs, accepted, appended, ?_⟩
  rw [accepted, appended]
  decide

def late : Nat → WriteReply Nat
  | 0 => .system 5
  | _ => .accepts 4096

theorem runs_sound_late : ∃ state : Formatting Nat,
    Runs (fun action object => ¬ Tears action object) late 4096 state ∧
      state.object.fd.accepted = [104, 105] ∧ Sound state := by
  let filled := (step (.append [104, 105]) (start late 4096)).2
  let failed := (step .flush filled).2
  let again := (step .flush failed).2
  have healthy (k : Nat) : (late (k + 1)).count ≠ 0 := by
    show 4096 ≠ 0
    decide
  have short : ¬ Tears (.append [104, 105]) (start late 4096).object := by
    rintro ⟨data, writes, _⟩
    cases writes
  have first : ¬ Tears .flush filled.object := by
    rintro ⟨data, _, k, fails, positive, _⟩
    exact absurd (fails.1 0 positive) (by decide)
  have second : ¬ Tears .flush failed.object := by
    rintro ⟨data, _, k, fails, _, _⟩
    have writes : failed.object.fd.writes = 1 := by decide +kernel
    have replies : failed.object.fd.reply = late :=
      ((work_spec .flush filled.object).reply.trans (work_spec (.append [104, 105]) _).reply)
    have blocked := fails.2
    rw [Sink.count, writes, replies, Nat.add_comm] at blocked
    exact healthy k blocked
  have runs : Runs (fun action object => ¬ Tears action object) late 4096 again :=
    .step (.step (.step (.start rfl) ⟨rfl, _, short, rfl⟩) ⟨rfl, _, first, rfl⟩) ⟨rfl, _, second, rfl⟩
  exact ⟨again, runs, by decide +kernel, runs_sound runs⟩

end Formatting

end Stdplus.Fd
