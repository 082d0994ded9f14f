import Stdplus.Base.Holders
import Stdplus.Fd.Descriptors

set_option linter.dupNamespace false

namespace Stdplus.Fd

open Stdplus.Base

variable {ι : Type} {held : ι → Option Nat} {refs : ι → Option Entry} {process : Process} {i j : ι} {fd : Nat}

/-- The holders have open descriptors of their own, all others are free, and every call found its
descriptor open; `refs` says what the holders refer to. -/
structure Holding (process : Process) (held : ι → Option Nat) (refs : ι → Option Entry) : Prop where
  alone : ∀ {i j fd}, held i = some fd → held j = some fd → i = j
  open_ : ∀ {i fd}, held i = some fd → ∃ entry, process.entry fd = some entry
  /-- No descriptor is left open without a holder. -/
  covered : ∀ {fd entry}, process.entry fd = some entry → ∃ i, held i = some fd
  refers : ∀ i, refs i = (held i).bind process.entry
  recent : ∀ i entry, refs i = some entry → entry.file < process.files
  refused : process.refused = 0

namespace Holding

theorem start : Holding Descriptors.start.process (fun _ : ι => none) fun _ => none where
  alone := nofun
  open_ := nofun
  covered := nofun
  refers _ := rfl
  recent := nofun
  refused := rfl

theorem called (holding : Holding process held refs) : Holding process.called held refs where
  alone := holding.alone
  open_ := holding.open_
  covered := holding.covered
  refers := holding.refers
  recent := holding.recent
  refused := holding.refused

theorem there (holding : Holding process held refs) (holds : held i = some fd) :
    ∃ entry, process.entry fd = some entry ∧ refs i = some entry := by
  obtain ⟨entry, here⟩ := holding.open_ holds
  exact ⟨entry, here, by rw [holding.refers, holds, Option.bind_some, here]⟩

theorem none_iff (holding : Holding process held refs) (i : ι) : refs i = none ↔ held i = none := by
  constructor
  · intro nothing
    cases holds : held i with
    | none => rfl
    | some fd =>
      obtain ⟨entry, _, refers⟩ := holding.there holds
      rw [nothing] at refers
      cases refers
  · intro nothing
    rw [holding.refers, nothing, Option.bind_none]

theorem here (holding : Holding process held refs) : Holding process held fun i => (held i).bind process.entry := by
  obtain rfl : refs = fun i => (held i).bind process.entry := funext holding.refers
  exact holding

variable [DecidableEq ι]

omit [DecidableEq ι] in
private theorem elsewhere {k : ι} (apart : ∀ other, held k = some other → other ≠ fd) (entry : Option Entry) :
    (held k).bind (process.put fd entry).entry = (held k).bind process.entry := by
  cases holds : held k with
  | none => rfl
  | some other => exact (process.promises.unchanged fd entry other (apart other holds))

private theorem put_cases {entry : Option Entry} {other : Nat} {old : Entry}
    (there : (process.put fd entry).entry other = some old) :
    other = fd ∧ entry = some old ∨ other ≠ fd ∧ process.entry other = some old := by
  by_cases same : other = fd
  · subst same
    exact .inl ⟨rfl, (process.promises.changed other entry).symm.trans there⟩
  · exact .inr ⟨same, (process.promises.unchanged fd entry other same).symm.trans there⟩

private theorem put_open {entry old : Entry} {other : Nat} (there : process.entry other = some old) :
    ∃ now, (process.put fd (some entry)).entry other = some now := by
  by_cases same : other = fd
  · subst same
    exact ⟨entry, process.promises.changed other _⟩
  · exact ⟨old, (process.promises.unchanged fd _ other same).trans there⟩

theorem give (holding : Holding process held refs) (free : held i = none) (least : Nat) {entry : Entry}
    (recent : entry.file < process.files) :
    Holding (process.put (process.lowest least) (some entry))
      (Function.update held i (some (process.lowest least))) (Function.update refs i (some entry)) := by
  have unheld {k : ι} {fd : Nat} (holds : held k = some fd) : fd ≠ process.lowest least := by
    rintro rfl
    obtain ⟨old, there⟩ := holding.open_ holds
    rw [process.promises.free] at there
    cases there
  constructor
  case alone =>
    intro j k fd one two
    rcases given_cases one with ⟨rfl, rfl⟩ | ⟨_, before⟩ <;> rcases given_cases two with ⟨rfl, same⟩ | ⟨_, also⟩
    · rfl
    · exact absurd rfl (unheld also)
    · exact absurd same (unheld before)
    · exact holding.alone before also
  case open_ =>
    intro k fd holds
    rcases given_cases holds with ⟨rfl, rfl⟩ | ⟨_, before⟩
    · exact ⟨entry, process.promises.changed _ _⟩
    · obtain ⟨old, there⟩ := holding.open_ before
      exact put_open there
  case covered =>
    intro fd old there
    rcases put_cases there with ⟨rfl, _⟩ | ⟨_, before⟩
    · exact ⟨i, Function.update_self ..⟩
    · obtain ⟨k, holds⟩ := holding.covered before
      exact ⟨k, given_keeps free holds⟩
  case refers =>
    intro k
    by_cases same : k = i
    · rw [same, Function.update_self, Function.update_self, Option.bind_some, process.promises.changed]
    · rw [Function.update_of_ne same, Function.update_of_ne same, holding.refers, elsewhere]
      exact fun _ => unheld
  case recent =>
    intro k old refers
    rcases given_cases refers with ⟨_, rfl⟩ | ⟨_, before⟩
    · exact recent
    · exact holding.recent k old before
  case refused => exact holding.refused

theorem close (holding : Holding process held refs) (holds : held i = some fd) :
    Holding (process.put fd none) (Function.update held i none) (Function.update refs i none) where
  alone one two := holding.alone (released_holds one).2 (released_holds two).2
  open_ {k other} also := by
    obtain ⟨differ, before⟩ := released_holds also
    obtain ⟨entry, there⟩ := holding.open_ before
    have apart : other ≠ fd := by
      rintro rfl
      exact differ (holding.alone before holds)
    exact ⟨entry, (process.promises.unchanged fd none other apart).trans there⟩
  covered {other entry} there := by
    rcases put_cases there with ⟨_, impossible⟩ | ⟨apart, before⟩
    · cases impossible
    · obtain ⟨k, also⟩ := holding.covered before
      have differ : k ≠ i := by
        rintro rfl
        exact apart (Option.some.inj (also.symm.trans holds))
      exact ⟨k, (Function.update_of_ne differ _ _).trans also⟩
  refers k := by
    by_cases same : k = i
    · rw [same, Function.update_self, Function.update_self, Option.bind_none]
    · rw [Function.update_of_ne same, Function.update_of_ne same, holding.refers, elsewhere]
      rintro other also rfl
      exact same (holding.alone also holds)
  recent k old refers := holding.recent k old (released_holds refers).2
  refused := holding.refused

theorem change (holding : Holding process held refs) (holds : held i = some fd) {entry : Entry}
    (recent : entry.file < process.files) :
    Holding (process.put fd (some entry)) held (Function.update refs i (some entry)) where
  alone := holding.alone
  open_ also := by
    obtain ⟨old, there⟩ := holding.open_ also
    exact put_open there
  covered there := by
    rcases put_cases there with ⟨rfl, _⟩ | ⟨_, before⟩
    · exact ⟨i, holds⟩
    · exact holding.covered before
  refers k := by
    by_cases same : k = i
    · rw [same, Function.update_self, holds, Option.bind_some, process.promises.changed]
    · rw [Function.update_of_ne same, holding.refers, elsewhere]
      rintro other also rfl
      exact same (holding.alone also holds)
  recent k old refers := by
    rcases given_cases refers with ⟨_, rfl⟩ | ⟨_, before⟩
    · exact recent
    · exact holding.recent k old before
  refused := holding.refused

theorem pass (holding : Holding process held refs) (differ : i ≠ j) (free : held j = none) :
    Holding process (Function.update (Function.update held i none) j (held i))
      (Function.update (Function.update refs i none) j (refs i)) where
  alone {k l fd} one two := by
    rcases passed_cases one with ⟨rfl, mine⟩ | ⟨away, mine⟩ <;>
      rcases passed_cases two with ⟨rfl, also⟩ | ⟨apart, also⟩
    · rfl
    · exact absurd (holding.alone also mine) apart
    · exact absurd (holding.alone mine also) away
    · exact holding.alone mine also
  open_ also := by
    obtain ⟨m, before⟩ := passed_was_held also
    exact holding.open_ before
  covered there := by
    obtain ⟨k, holds⟩ := holding.covered there
    exact passed_keeps free holds
  refers k := by
    by_cases here : k = j
    · rw [here, Function.update_self, Function.update_self, holding.refers]
    · rw [Function.update_of_ne here, Function.update_of_ne here]
      by_cases same : k = i
      · rw [same, Function.update_self, Function.update_self, Option.bind_none]
      · rw [Function.update_of_ne same, Function.update_of_ne same, holding.refers]
  recent k old refers := by
    obtain ⟨m, before⟩ := passed_was_held refers
    exact holding.recent m old before
  refused := holding.refused

end Holding

/-- The exception is that of a call, from one process to the next, that the kernel failed. -/
def FdThrown.Reports (fails : Failures) (process next : Process) (thrown : FdThrown) : Prop :=
  ∃ n errno what, process.calls ≤ n ∧ n < next.calls ∧ fails n = some errno ∧ thrown = .system_error errno what

/-- One of the next `count` calls fails. -/
def Failures.Fails (fails : Failures) (process : Process) (count : Nat) : Prop :=
  ∃ n errno, process.calls ≤ n ∧ n < process.calls + count ∧ fails n = some errno

/-- After at most `count` calls the holders and what they refer to are these; no file was opened. -/
structure Leaves (process : Process) (count : Nat) (held : ι → Option Nat) (refs : ι → Option Entry)
    (next : Process) : Prop where
  holding : Holding next held refs
  files : next.files = process.files
  calls : process.calls ≤ next.calls
  within : next.calls ≤ process.calls + count

variable {fails : Failures} {next : Process} {thrown : FdThrown} {count more : Nat}

theorem FdThrown.Reports.failed (reports : thrown.Reports fails process next)
    (within : next.calls ≤ process.calls + count) : fails.Fails process count := by
  obtain ⟨n, errno, _, from_now, done, failed, _⟩ := reports
  exact ⟨n, errno, from_now, done.trans_le within, failed⟩

theorem FdThrown.Reports.after (leaves : Leaves process count held refs next) {later : Process}
    (reports : thrown.Reports fails next later) : thrown.Reports fails process later := by
  obtain ⟨n, errno, what, from_now, rest⟩ := reports
  exact ⟨n, errno, what, leaves.calls.trans from_now, rest⟩

theorem FdThrown.Reports.before {refs' : ι → Option Entry} {held' : ι → Option Nat} {later : Process}
    (reports : thrown.Reports fails process next) (leaves : Leaves next count held' refs' later) :
    thrown.Reports fails process later := by
  obtain ⟨n, errno, what, from_now, done, failed, same⟩ := reports
  exact ⟨n, errno, what, from_now, done.trans_le leaves.calls, failed, same⟩

theorem Failures.Fails.after (leaves : Leaves process count held refs next) (fail : fails.Fails next more) :
    fails.Fails process (count + more) := by
  obtain ⟨n, errno, from_now, done, failed⟩ := fail
  have within := leaves.within
  exact ⟨n, errno, leaves.calls.trans from_now, by omega, failed⟩

theorem Failures.Fails.mono (fail : fails.Fails process count) (le : count ≤ more) : fails.Fails process more := by
  obtain ⟨n, errno, from_now, done, failed⟩ := fail
  exact ⟨n, errno, from_now, by omega, failed⟩

theorem Leaves.trans {held' : ι → Option Nat} {refs' : ι → Option Entry} {later : Process}
    (first : Leaves process count held refs next) (second : Leaves next more held' refs' later) :
    Leaves process (count + more) held' refs' later where
  holding := second.holding
  files := second.files.trans first.files
  calls := first.calls.trans second.calls
  within := by
    have between := first.within
    have within := second.within
    omega

variable (fails)

/-- An exception that leaves the holders what they refer to. -/
structure Spared (process : Process) (count : Nat) (held : ι → Option Nat) (refs : ι → Option Entry)
    (left : FdThrow) : Prop where
  reports : left.1.Reports fails process left.2
  leaves : Leaves process count held refs left.2

namespace Holding

theorem checked_call (holding : Holding process held refs) (what : String)
    {body : Process → Except Int Nat × Process} {ret : Nat} {next : Process} {returns : Nat × Process → Prop}
    {terminates : Prop} (worked : body process.called = (.ok ret, next)) (good : returns (ret, next)) :
    (checkErrno what (process.call fails body)).Ends returns (Spared fails process 1 held refs) terminates := by
  rw [Process.call]
  split
  · rename_i errno failed
    exact ⟨⟨_, errno, what, Nat.le_refl _, Nat.lt_succ_self _, failed, rfl⟩,
      holding.called, rfl, Nat.le_succ _, Nat.le_refl _⟩
  · rw [worked]
    exact good

theorem checked_callOn (holding : Holding process held refs) (holds : held i = some fd) (what : String)
    {body : Entry → Process → Except Int Nat × Process} {returns : Nat × Process → Prop} {terminates : Prop}
    (works : ∀ entry, process.entry fd = some entry → refs i = some entry →
      ∃ ret next, body entry process.called = (.ok ret, next) ∧ returns (ret, next)) :
    (checkErrno what (process.callOn fails fd body)).Ends returns (Spared fails process 1 held refs) terminates := by
  obtain ⟨entry, there, refers⟩ := holding.there holds
  obtain ⟨ret, next, worked, good⟩ := works entry there refers
  rw [Process.callOn, there]
  exact holding.checked_call fails what worked good

variable [DecidableEq ι]

theorem opens (holding : Holding process held refs) (free : held i = none) (flags : Nat) :
    ∃ fd next, process.opens flags = (.ok fd, next) ∧ next.calls = process.calls ∧
      Holding next (Function.update held i (some fd))
        (Function.update refs i (some { file := process.files, flags })) := by
  refine ⟨_, _, rfl, rfl, ?_⟩
  have later : Holding { process with files := process.files + 1 } held refs := {
    alone := holding.alone
    open_ := holding.open_
    covered := holding.covered
    refers := holding.refers
    recent := fun k entry refers => Nat.lt_succ_of_lt (holding.recent k entry refers)
    refused := holding.refused }
  exact later.give free 0 (Nat.lt_succ_self _)

end Holding

/-- A copy refers to the same file, and is closed by `exec`. -/
def Entry.duplicate (entry : Entry) : Entry := { entry with flags := CloseOnExec }

def Entry.closing (entry : Entry) : Entry := { entry with flags := entry.flags ||| CloseOnExec }

namespace Holding

variable [DecidableEq ι]

private theorem without (holding : Holding process held refs) (free : held i = none) :
    Holding process (Function.update held i none) (Function.update refs i none) := by
  rwa [released_free free, released_free ((holding.none_iff i).mpr free)]

theorem drop_ends (holding : Holding process held refs) (holds : held i = some fd) :
    (FdHandle.drop fails fd process).Ends
      (fun after => Leaves process 1 (Function.update held i none) (Function.update refs i none) after.2)
      (fun left => left.1.Reports fails process left.2 ∧ left.2.calls ≤ process.calls + 1)
      (fails.Fails process 1) := by
  obtain ⟨entry, there, _⟩ := holding.there holds
  rw [FdHandle.drop, Process.close, there]
  cases failed : fails process.calls with
  | some errno => exact ⟨⟨_, errno, _, Nat.le_refl _, Nat.lt_succ_self _, failed, rfl⟩, Nat.le_refl _⟩
  | none => exact ⟨holding.called.close holds, rfl, Nat.le_succ _, Nat.le_refl _⟩

theorem maybeDrop_ends (holding : Holding process held refs) {maybeT : Option Nat} (holds : held i = maybeT)
    (throws : FdThrow → Prop) :
    (FdHandle.maybeDrop fails maybeT process).Ends
      (Leaves process 1 (Function.update held i none) (Function.update refs i none)) throws
      (fails.Fails process 1) := by
  cases maybeT with
  | none => exact ⟨holding.without holds, rfl, Nat.le_refl _, Nat.le_succ _⟩
  | some fd =>
    have dropped := (holding.drop_ends fails holds).declared (fun _ ⟨reports, within⟩ => reports.failed within) throws
    exact dropped.bind fun _ after => after

theorem doRef_ends (holding : Holding process held refs) (free : held i = none) (holds : held j = some fd)
    (throws : FdThrow → Prop) :
    (FdHandle.doRef fails fd process).Ends
      (fun after => Leaves process 1 (Function.update held i (some after.1))
        (Function.update refs i ((refs j).map Entry.duplicate)) after.2) throws (fails.Fails process 1) := by
  refine Ending.Ends.declared (holding.checked_callOn fails holds "fcntl dupfd_cloexec" ?_) ?_ throws
  · intro entry there refers
    refine ⟨_, _, rfl, ?_, rfl, Nat.le_succ _, Nat.le_refl _⟩
    rw [refers]
    exact holding.called.give free fd (holding.recent j entry refers)
  · exact fun left spared => spared.reports.failed spared.leaves.within

/-- `FD_CLOEXEC` is added to the flags of a holder's descriptor. -/
theorem setCloseOnExec_ends (holding : Holding process held refs) (holds : held i = some fd) :
    (setCloseOnExec fails fd process).Ends
      (fun after => Leaves process 2 held (Function.update refs i ((refs i).map Entry.closing)) after.2)
      (Spared fails process 2 held refs) False := by
  have got : (checkErrno "fcntl getfd" (process.getfd fails fd)).Ends
      (fun after => Leaves process 1 held refs after.2 ∧ ∃ entry, refs i = some entry ∧ after.1 = entry.flags)
      (Spared fails process 1 held refs) False :=
    holding.checked_callOn fails holds _ fun entry _ refers =>
      ⟨_, _, rfl, ⟨holding.called, rfl, Nat.le_succ _, Nat.le_refl _⟩, entry, refers, rfl⟩
  have later (left : FdThrow) (spared : Spared fails process 1 held refs left) :
      Spared fails process 2 held refs left :=
    ⟨spared.reports, { spared.leaves with within := Nat.le_succ_of_le spared.leaves.within }⟩
  refine (got.mono (fun _ => id) later id).bind fun ⟨flags, between⟩ ⟨first, entry, refers, same⟩ => ?_
  obtain rfl : flags = entry.flags := same
  refine (first.holding.checked_callOn fails holds _ fun old _ also => ?_).mono
    (fun _ (second : Leaves between 1 held _ _) => first.trans second) ?_ id
  · obtain rfl : entry = old := Option.some.inj (refers.symm.trans also)
    refine ⟨_, _, rfl, ?_, rfl, Nat.le_succ _, Nat.le_refl _⟩
    rw [refers]
    exact first.holding.called.change holds (first.holding.recent i entry refers)
  · exact fun left spared => ⟨spared.reports.after first, first.trans spared.leaves⟩

theorem adopt_ends (holding : Holding process held refs) (holds : held i = some fd) :
    (adopt fails fd process).Ends
      (fun after => after.1 = some fd ∧
        Leaves process 2 held (Function.update refs i ((refs i).map Entry.closing)) after.2)
      (fun left => left.1.Reports fails process left.2 ∧
        Leaves process 3 (Function.update held i none) (Function.update refs i none) left.2)
      (fails.Fails process 3) := by
  have sealed := holding.setCloseOnExec_ends fails holds
  rw [adopt]
  cases outcome : setCloseOnExec fails fd process with
  | returned after =>
    rw [outcome] at sealed
    exact ⟨rfl, sealed⟩
  | thrown left =>
    rw [outcome] at sealed
    obtain ⟨reports, spared⟩ := sealed
    have dropped := spared.holding.maybeDrop_ends fails holds fun _ => False
    refine (dropped.mono (fun _ => id) (fun _ => False.elim) fun fail => fail.after spared).bind fun next closed => ?_
    exact ⟨reports.before closed, spared.trans closed⟩
  | terminated =>
    rw [outcome] at sealed
    exact sealed.elim

theorem copyConstruct_ends (holding : Holding process held refs) (free : held i = none) {other : Option Nat}
    (holds : held j = other) (throws : FdThrow → Prop) :
    (FdHandle.copyConstruct fails other process).Ends
      (fun after => Leaves process 1 (Function.update held i after.1)
        (Function.update refs i ((refs j).map Entry.duplicate)) after.2) throws (fails.Fails process 1) := by
  cases other with
  | none =>
    refine ⟨?_, rfl, Nat.le_refl _, Nat.le_succ _⟩
    rw [(holding.none_iff j).mpr holds]
    exact holding.without free
  | some fd => exact (holding.doRef_ends fails free holds throws).bind fun _ after => after

theorem copyAssign_ends (holding : Holding process held refs) (differ : i ≠ j) {maybeT other : Option Nat}
    (here : held i = maybeT) (holds : held j = other) (throws : FdThrow → Prop) :
    (FdHandle.copyAssign fails maybeT other process).Ends
      (fun after => Leaves process 2 (Function.update held i after.1)
        (Function.update refs i ((refs j).map Entry.duplicate)) after.2) throws (fails.Fails process 2) := by
  have dropped : (FdHandle.reset fails maybeT none process).Ends
      (fun after => after.1 = none ∧
        Leaves process 1 (Function.update held i none) (Function.update refs i none) after.2)
      throws (fails.Fails process 1) := (holding.maybeDrop_ends fails here throws).bind fun _ after => ⟨rfl, after⟩
  refine (dropped.mono (fun _ => id) (fun _ => id) fun fail => fail.mono (by decide)).bind
    fun ⟨maybeT, between⟩ ⟨nothing, first⟩ => ?_
  obtain rfl : maybeT = none := nothing
  have copied := first.holding.copyConstruct_ends fails (i := i) (j := j) (Function.update_self ..)
    ((Function.update_of_ne (Ne.symm differ) _ _).trans holds) throws
  refine copied.mono (fun after second => ?_) (fun _ => id) fun fail => fail.after first
  have both := first.trans second
  rwa [Function.update_idem, Function.update_idem, Function.update_of_ne (Ne.symm differ)] at both

end Holding

end Stdplus.Fd
