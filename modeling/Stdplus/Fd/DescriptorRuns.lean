import Stdplus.Fd.References

set_option linter.dupNamespace false

namespace Stdplus.Fd

open Stdplus.Base

/-- Whoever may have a descriptor: an object, an `int` of the program, or the copy that an
assignment makes for itself. -/
inductive FdHolder where
  | object (this : Nat)
  | int (var : Nat)
  | temporary
deriving DecidableEq

namespace Descriptors

def fdOf (state : Descriptors) : FdHolder → Option Nat
  | .object this => (state.objects this).bind FdObject.maybeT
  | .int var => state.ints var
  | .temporary => none

def refs (state : Descriptors) (holder : FdHolder) : Option Entry := (state.fdOf holder).bind state.process.entry

abbrev Sound (state : Descriptors) : Prop := Holding state.process state.fdOf state.refs

end Descriptors

namespace FdAction

/-- What a step comes to that works, where `file` is the number of the next file. -/
def meant (action : FdAction) (file : Nat) (refs : FdHolder → Option Entry) : FdHolder → Option Entry :=
  match action with
  | .openFile this _ flags | .socket this flags =>
    Function.update refs (.object this) (some (Entry.closing { file, flags }))
  | .accept this _ => Function.update refs (.object this) (some (Entry.closing { file, flags := 0 }))
  | .empty _ _ => refs
  | .fromInt this _ var =>
    Function.update (Function.update refs (.int var) none) (.object this) ((refs (.int var)).map Entry.closing)
  | .refInt this var => Function.update refs (.object this) ((refs (.int var)).map Entry.duplicate)
  | .copyConstruct this _ other => Function.update refs (.object this) ((refs (.object other)).map Entry.duplicate)
  | .copyAssign this other =>
    if this = other then refs
    else Function.update refs (.object this) ((refs (.object other)).map Entry.duplicate)
  | .moveConstruct this _ other =>
    Function.update (Function.update refs (.object other) none) (.object this) (refs (.object other))
  | .moveAssign this other =>
    if this = other then refs
    else Function.update (Function.update refs (.object other) none) (.object this) (refs (.object other))
  | .release this var => Function.update (Function.update refs (.object this) none) (.int var) (refs (.object this))
  | .destroy this => Function.update refs (.object this) none
  | .setFdFlags this flags =>
    Function.update refs (.object this) ((refs (.object this)).map fun entry => { entry with flags })
  | .sysOpen var flags => Function.update refs (.int var) (some { file, flags })
  | .sysClose var => Function.update refs (.int var) none

/-- What is left after an exception: the descriptor that a constructor was given is closed. -/
def lost (action : FdAction) (refs : FdHolder → Option Entry) : FdHolder → Option Entry :=
  match action with
  | .fromInt _ _ var => Function.update refs (.int var) none
  | _ => refs

/-- The step may come to nothing without an exception. -/
def Declines : FdAction → Prop
  | .accept _ _ | .sysOpen _ _ => True
  | _ => False

/-- The object whose descriptor the step cannot do without. -/
def needs : FdAction → Option Nat
  | .accept _ listener => some listener
  | .release this _ | .setFdFlags this _ => some this
  | _ => none

end FdAction

namespace Descriptors

variable {fails : Failures} {state : Descriptors} {this var : Nat}

@[simp] theorem fdOf_putObject (this : Nat) (object : Option FdObject) (process : Process) (state : Descriptors) :
    (state.putObject this object process).fdOf =
      Function.update state.fdOf (.object this) (object.bind FdObject.maybeT) := by
  funext holder
  cases holder with
  | object k =>
    by_cases same : k = this
    · simp only [same, fdOf, putObject, Function.update_self]
    · have differ : FdHolder.object k ≠ .object this := fun also => same (FdHolder.object.inj also)
      simp only [fdOf, putObject, Function.update_of_ne differ, Function.update_of_ne same]
  | int var => exact (Function.update_of_ne (by nofun) ..).symm
  | temporary => exact (Function.update_of_ne (by nofun) ..).symm

@[simp] theorem fdOf_putInt (var : Nat) (fd : Option Nat) (process : Process) (state : Descriptors) :
    (state.putInt var fd process).fdOf = Function.update state.fdOf (.int var) fd := by
  funext holder
  cases holder with
  | object k => exact (Function.update_of_ne (by nofun) ..).symm
  | int other =>
    by_cases same : other = var
    · simp only [same, fdOf, putInt, Function.update_self]
    · have differ : FdHolder.int other ≠ .int var := fun also => same (FdHolder.int.inj also)
      simp only [fdOf, putInt, Function.update_of_ne differ, Function.update_of_ne same]
  | temporary => exact (Function.update_of_ne (by nofun) ..).symm

theorem fdOf_object {here : FdObject} (present : state.objects this = some here) :
    state.fdOf (.object this) = here.maybeT := by
  rw [fdOf, present, Option.bind_some]

theorem fdOf_int {fd : Option Nat} (present : state.ints var = fd) : state.fdOf (.int var) = fd := present

/-- How a step ends: what it means has happened, or an exception tells of one of its calls that failed
or of an empty object, or a call failed that nothing can be told of. No step makes more than four. -/
def Follows (fails : Failures) (action : FdAction) (state : Descriptors) (outcome : Outcome) : Prop :=
  outcome.Ends
    (fun next => Holding next.process next.fdOf (action.meant state.process.files state.refs) ∨
      action.Declines ∧ Holding next.process next.fdOf state.refs)
    (fun left => Holding left.2.process left.2.fdOf (action.lost state.refs) ∧
      (left.1.Reports fails state.process left.2.process ∨
        left.1 = .bad_optional_access ∧ ∃ k, action.needs = some k ∧ state.refs (.object k) = none))
    (fails.Fails state.process 4)

private theorem construct_follows {action : FdAction} {later : Descriptors} {kind : FdKind}
    {ending : Ending FdThrow (Option Nat × Process)}
    (ends : ending.Ends
      (fun after => Holding after.2 (Function.update later.fdOf (.object this) after.1)
        (action.meant state.process.files state.refs))
      (fun left => Holding left.2 later.fdOf (action.lost state.refs) ∧ left.1.Reports fails state.process left.2)
      (fails.Fails state.process 4)) :
    Follows fails action state (later.construct this kind ending) := by
  cases ending with
  | returned after =>
    refine .inl ?_
    rw [fdOf_putObject]
    exact ends
  | thrown left => exact ⟨ends.1, .inl ends.2⟩
  | terminated => exact ends

private theorem free_object (absent : state.objects this = none) : state.fdOf (.object this) = none := by
  rw [fdOf, absent, Option.bind_none]

private theorem opened_ends (fails : Failures) (sound : Sound state) (absent : state.objects this = none)
    (flags : Nat) :
    ∃ fd next, state.process.called.opens flags = (.ok fd, next) ∧
      (adopt fails fd next).Ends
        (fun after => Holding after.2 (Function.update state.fdOf (.object this) after.1)
          (Function.update state.refs (.object this) (some (Entry.closing { file := state.process.files, flags }))))
        (fun left => Holding left.2 state.fdOf state.refs ∧ left.1.Reports fails state.process left.2)
        (fails.Fails state.process 4) := by
  have free := free_object absent
  obtain ⟨fd, next, opened, calls, holding⟩ := sound.called.opens free flags
  have one_later : next.calls = state.process.calls + 1 := calls
  refine ⟨fd, next, opened, ?_⟩
  refine (holding.adopt_ends fails (Function.update_self ..)).mono (fun after ⟨value, leaves⟩ => ?_)
    (fun left ⟨reports, leaves⟩ => ⟨?_, ?_⟩) ?_
  · have here := leaves.holding
    rw [Function.update_self, Function.update_idem] at here
    rw [value]
    exact here
  · have here := leaves.holding
    have nothing := (sound.none_iff (.object this)).mpr free
    rwa [Function.update_idem, Function.update_idem, released_free free, released_free nothing] at here
  · obtain ⟨n, errno, what, from_now, rest⟩ := reports
    exact ⟨n, errno, what, by omega, rest⟩
  · rintro ⟨n, errno, from_now, done, failed⟩
    exact ⟨n, errno, by omega, by omega, failed⟩

/-- `open` and `socket`, whatever they are called in an exception. -/
private theorem create_follows (sound : Sound state) (absent : state.objects this = none) (what : String)
    (flags : Nat) {action : FdAction}
    (means : action.meant state.process.files state.refs =
      Function.update state.refs (.object this) (some (Entry.closing { file := state.process.files, flags })))
    (loses : action.lost state.refs = state.refs) :
    Follows fails action state (state.create fails what this flags) := by
  obtain ⟨fd, next, opened, ends⟩ := opened_ends fails sound absent flags
  refine construct_follows ?_
  rw [means, loses, Process.create, Process.call]
  split
  · rename_i errno failed
    exact ⟨sound.called, _, errno, what, Nat.le_refl _, Nat.lt_succ_self _, failed, rfl⟩
  · rw [opened]
    exact ends

private theorem accept_follows (sound : Sound state) (absent : state.objects this = none) {k : Nat}
    {listener : FdObject} (present : state.objects k = some listener) :
    Follows fails (.accept this k) state (state.accept fails this listener) := by
  have holds : state.fdOf (.object k) = listener.maybeT := fdOf_object present
  obtain ⟨new, next, opened, ends⟩ := opened_ends fails sound absent 0
  rw [accept]
  cases held : listener.maybeT with
  | none => exact ⟨sound, .inr ⟨rfl, k, rfl, (sound.none_iff _).mpr (holds.trans held)⟩⟩
  | some fd =>
    obtain ⟨entry, there, _⟩ := sound.there (holds.trans held)
    simp only [Process.accept, Process.callOn, there, Process.call]
    cases failed : fails state.process.calls with
    | some errno =>
      simp only
      split
      · exact .inr ⟨trivial, sound.called⟩
      · exact ⟨sound.called, .inl ⟨_, errno, _, Nat.le_refl _, Nat.lt_succ_self _, failed, rfl⟩⟩
    | none =>
      simp only [opened]
      exact construct_follows ends

private theorem fromInt_follows (sound : Sound state) (absent : state.objects this = none) {fd : Nat}
    (present : state.ints var = some fd) (kind : FdKind) :
    Follows fails (.fromInt this kind var) state
      ((state.putInt var none state.process).construct this kind (adopt fails fd state.process)) := by
  have free := free_object absent
  have differ : FdHolder.int var ≠ .object this := nofun
  have passed := sound.pass differ free
  have holds : Function.update (Function.update state.fdOf (.int var) none) (.object this)
      (state.fdOf (.int var)) (.object this) = some fd := (Function.update_self ..).trans present
  refine construct_follows ((passed.adopt_ends fails holds).mono (fun after ⟨value, leaves⟩ => ?_)
    (fun left ⟨reports, leaves⟩ => ⟨?_, reports⟩) fun fail => fail.mono (by decide))
  · have here := leaves.holding
    rw [Function.update_self, Function.update_idem] at here
    rw [value, fdOf_putInt, ← present]
    exact here
  · have here := leaves.holding
    have nothing := (sound.none_iff (.object this)).mpr free
    rw [Function.update_idem, Function.update_idem, released_free ((Function.update_of_ne differ.symm _ _).trans free),
      released_free ((Function.update_of_ne differ.symm _ _).trans nothing)] at here
    rw [fdOf_putInt]
    exact here

private theorem copy_follows (sound : Sound state) (absent : state.objects this = none) {holder : FdHolder}
    {other : Option Nat} (holds : state.fdOf holder = other) (kind : FdKind) {action : FdAction}
    (means : action.meant state.process.files state.refs =
      Function.update state.refs (.object this) ((state.refs holder).map Entry.duplicate)) :
    Follows fails action state (state.construct this kind (FdHandle.copyConstruct fails other state.process)) := by
  refine construct_follows ((sound.copyConstruct_ends fails (free_object absent) holds _).mono (fun after leaves => ?_)
    (fun _ impossible => impossible) fun fail => fail.mono (by decide))
  rw [means]
  exact leaves.holding

private theorem moveConstruct_follows (sound : Sound state) (absent : state.objects this = none) {other : Nat}
    {source : FdObject} (present : state.objects other = some source) (kind : FdKind) :
    Follows fails (.moveConstruct this kind other) state (.returned (state.moveConstruct this kind other source)) := by
  have differ : FdHolder.object other ≠ .object this := by
    rintro ⟨⟩
    rw [present] at absent
    cases absent
  have passed := sound.pass differ (free_object absent)
  refine .inl ?_
  rw [moveConstruct, fdOf_putObject, fdOf_putObject, Function.update_comm differ.symm]
  have holds : state.fdOf (.object other) = source.maybeT := fdOf_object present
  rw [holds] at passed
  exact passed

private theorem replace_follows {action : FdAction} (here : FdObject) {ending : Ending FdThrow (Option Nat × Process)}
    (ends : ending.Ends
      (fun after => Holding after.2 (Function.update state.fdOf (.object this) after.1)
        (action.meant state.process.files state.refs)) (fun _ => False) (fails.Fails state.process 2)) :
    Follows fails action state
      (finish (fun maybeT process => state.putObject this (some { here with maybeT := maybeT }) process)
        (fun process => { state with process := process }) ending) :=
  construct_follows (ends.mono (fun _ => id) (fun _ => False.elim) fun fail => fail.mono (by decide))

private theorem moved_over {γ : Type} (held : FdHolder → Option γ) {i j : FdHolder} (differ : i ≠ j)
    (value : Option γ) :
    Function.update (Function.update (Function.update held j none) i none) j value =
      Function.update (Function.update held i none) j value := by
  rw [Function.update_comm differ.symm, Function.update_idem]

private theorem moveAssign_follows (sound : Sound state) {here source : FdObject} {other : Nat}
    (present : state.objects this = some here) (also : state.objects other = some source) (differ : this ≠ other) :
    Follows fails (.moveAssign this other) state (state.moveAssign fails this here other source) := by
  have apart : FdHolder.object other ≠ .object this := fun same => differ (FdHolder.object.inj same).symm
  have holds : state.fdOf (.object this) = here.maybeT := fdOf_object present
  have lends : state.fdOf (.object other) = source.maybeT := fdOf_object also
  rw [moveAssign, FdHandle.reset]
  have dropped := sound.maybeDrop_ends fails holds fun _ => False
  cases outcome : FdHandle.maybeDrop fails here.maybeT state.process with
  | returned next =>
    rw [outcome] at dropped
    have passed := dropped.holding.pass apart (Function.update_self ..)
    rw [moved_over _ apart, moved_over _ apart, Function.update_of_ne apart, Function.update_of_ne apart, lends]
      at passed
    refine .inl ?_
    rw [FdAction.meant, if_neg differ, fdOf_putObject, fdOf_putObject, Function.update_comm apart.symm]
    exact passed
  | thrown left =>
    rw [outcome] at dropped
    exact dropped.elim
  | terminated =>
    rw [outcome] at dropped
    exact Failures.Fails.mono dropped (by decide)

/-- A `ManagedFd` closes its own descriptor once it has the copy, a `DupableFd` before. -/
private theorem copyAssign_follows (sound : Sound state) {here source : FdObject} {other : Nat}
    (present : state.objects this = some here) (also : state.objects other = some source) (differ : this ≠ other) :
    Follows fails (.copyAssign this other) state (state.copyAssign fails this here source) := by
  have apart : FdHolder.object this ≠ .object other := fun same => differ (FdHolder.object.inj same)
  have holds : state.fdOf (.object this) = here.maybeT := fdOf_object present
  have lends : state.fdOf (.object other) = source.maybeT := fdOf_object also
  rw [copyAssign]
  refine replace_follows here ?_
  rw [FdAction.meant, if_neg differ]
  cases here.kind with
  | dupable =>
    exact (sound.copyAssign_ends fails apart holds lends _).mono (fun after leaves => leaves.holding) (fun _ => id) id
  | managed =>
    refine ((sound.copyConstruct_ends fails (i := .temporary) rfl lends _).mono (fun _ => id) (fun _ => id)
      fun fail => fail.mono (by decide)).bind fun ⟨copy, between⟩ copied => ?_
    have away : FdHolder.temporary ≠ .object this := nofun
    have same := (Function.update_of_ne away.symm copy state.fdOf).trans holds
    refine ((copied.holding.maybeDrop_ends fails same _).mono (fun _ => id) (fun _ => id)
      fun fail => fail.after copied).bind fun next dropped => ?_
    have passed := dropped.holding.pass away (Function.update_self ..)
    rw [moved_over _ away, moved_over _ away, Function.update_of_ne away, Function.update_of_ne away,
      Function.update_self, Function.update_self, Function.update_idem, Function.update_idem,
      released_free (show state.fdOf .temporary = none from rfl),
      released_free (show state.refs .temporary = none from rfl)] at passed
    exact passed

private theorem release_follows (sound : Sound state) {here : FdObject} (present : state.objects this = some here)
    (absent : state.ints var = none) : Follows fails (.release this var) state (state.release this here var) := by
  have holds : state.fdOf (.object this) = here.maybeT := fdOf_object present
  rw [release]
  cases held : here.maybeT with
  | none => exact ⟨sound, .inr ⟨rfl, this, rfl, (sound.none_iff _).mpr (holds.trans held)⟩⟩
  | some fd =>
    have passed := sound.pass (i := .object this) (by nofun) (fdOf_int absent)
    rw [holds, held] at passed
    refine .inl ?_
    rw [fdOf_putInt, fdOf_putObject]
    exact passed

private theorem destroy_follows (sound : Sound state) {here : FdObject} (present : state.objects this = some here) :
    Follows fails (.destroy this) state (state.destroy fails this here) := by
  have holds : state.fdOf (.object this) = here.maybeT := fdOf_object present
  have dropped := sound.maybeDrop_ends fails holds fun _ => False
  rw [destroy]
  cases outcome : FdHandle.maybeDrop fails here.maybeT state.process with
  | returned next =>
    rw [outcome] at dropped
    refine .inl ?_
    rw [fdOf_putObject]
    exact dropped.holding
  | thrown left =>
    rw [outcome] at dropped
    exact dropped.elim
  | terminated =>
    rw [outcome] at dropped
    exact Failures.Fails.mono dropped (by decide)

private theorem setFdFlags_follows (sound : Sound state) {here : FdObject} (present : state.objects this = some here)
    (flags : Nat) : Follows fails (.setFdFlags this flags) state (state.setFdFlags fails here flags) := by
  have holds : state.fdOf (.object this) = here.maybeT := fdOf_object present
  rw [setFdFlags]
  cases held : here.maybeT with
  | none => exact ⟨sound, .inr ⟨rfl, this, rfl, (sound.none_iff _).mpr (holds.trans held)⟩⟩
  | some fd =>
    have set : (checkErrno "fcntl setfd" (state.process.setfd fails fd flags)).Ends
        (fun after => Holding after.2 state.fdOf (Function.update state.refs (.object this)
          ((state.refs (.object this)).map fun entry => { entry with flags })))
        (Spared fails state.process 1 state.fdOf state.refs) (fails.Fails state.process 4) := by
      refine sound.checked_callOn fails (holds.trans held) _ fun entry _ refers => ⟨_, _, rfl, ?_⟩
      rw [refers]
      exact sound.called.change (holds.trans held) (sound.recent _ entry refers)
    simp only
    revert set
    cases checkErrno "fcntl setfd" (state.process.setfd fails fd flags) with
    | returned after => exact .inl
    | thrown left => exact fun spared => ⟨spared.leaves.holding, .inl spared.reports⟩
    | terminated => exact id

private theorem empty_follows (sound : Sound state) (absent : state.objects this = none) (kind : FdKind) :
    Follows fails (.empty this kind) state (.returned (state.putObject this (some ⟨kind, none⟩) state.process)) := by
  refine .inl ?_
  rw [fdOf_putObject]
  exact (released_free (free_object absent)).symm ▸ sound

private theorem self_follows (sound : Sound state) {action : FdAction}
    (means : action.meant state.process.files state.refs = state.refs) :
    Follows fails action state (.returned state) := by
  refine .inl ?_
  rw [means]
  exact sound

private theorem sysOpen_follows (fails : Failures) (sound : Sound state) (absent : state.ints var = none)
    (flags : Nat) :
    Follows fails (.sysOpen var flags) state
      (match state.process.create fails flags with
        | (.ok fd, process) => .returned (state.putInt var (some fd) process)
        | (.error _, process) => .returned { state with process := process }) := by
  obtain ⟨fd, next, opened, _, holding⟩ := sound.called.opens (fdOf_int absent) flags
  rw [Process.create, Process.call]
  cases fails state.process.calls with
  | some errno => exact .inr ⟨trivial, sound.called⟩
  | none =>
    simp only [opened]
    refine .inl ?_
    rw [fdOf_putInt]
    exact holding

/-- The `int` gives up its descriptor even where the call fails. -/
private theorem sysClose_follows (sound : Sound state) {fd : Nat} (present : state.ints var = some fd) :
    Follows fails (.sysClose var) state (.returned (state.putInt var none (state.process.close fails fd).2)) := by
  obtain ⟨entry, there, _⟩ := sound.there (fdOf_int present)
  refine .inl ?_
  rw [fdOf_putInt, Process.close, there]
  exact sound.called.close (fdOf_int present)

/-- Each step does what it means, or its exception says which of its calls failed. -/
theorem step_follows (sound : Sound state) {action : FdAction} {outcome : Outcome}
    (stepped : state.step fails action = some outcome) : Follows fails action state outcome := by
  cases action with
  | openFile this pathname flags =>
    cases absent : state.objects this <;> simp only [step, absent, reduceCtorEq, Option.some.injEq] at stepped
    exact stepped ▸ create_follows sound absent _ flags rfl rfl
  | socket this flags =>
    cases absent : state.objects this <;> simp only [step, absent, reduceCtorEq, Option.some.injEq] at stepped
    exact stepped ▸ create_follows sound absent _ flags rfl rfl
  | accept this k =>
    cases absent : state.objects this <;> cases present : state.objects k <;>
      simp only [step, absent, present, reduceCtorEq, Option.some.injEq] at stepped
    exact stepped ▸ accept_follows sound absent present
  | empty this kind =>
    cases absent : state.objects this <;> simp only [step, absent, reduceCtorEq, Option.some.injEq] at stepped
    exact stepped ▸ empty_follows sound absent kind
  | fromInt this kind var =>
    cases absent : state.objects this <;> cases present : state.ints var <;>
      simp only [step, absent, present, reduceCtorEq, Option.some.injEq] at stepped
    exact stepped ▸ fromInt_follows sound absent present kind
  | refInt this var =>
    cases absent : state.objects this <;> cases present : state.ints var <;>
      simp only [step, absent, present, reduceCtorEq, Option.some.injEq] at stepped
    exact stepped ▸ copy_follows sound absent (fdOf_int present) .dupable rfl
  | moveConstruct this kind other =>
    cases absent : state.objects this <;> cases present : state.objects other <;>
      simp only [step, absent, present, reduceCtorEq, Option.ite_none_left_eq_some, Option.some.injEq] at stepped
    exact stepped.2 ▸ moveConstruct_follows sound absent present kind
  | copyConstruct this kind other =>
    cases absent : state.objects this <;> cases present : state.objects other <;>
      simp only [step, absent, present, reduceCtorEq, Option.ite_none_left_eq_some, Option.some.injEq] at stepped
    exact stepped.2 ▸ copy_follows sound absent (fdOf_object present) kind rfl
  | moveAssign this other =>
    cases present : state.objects this <;> cases also : state.objects other <;>
      simp only [step, present, also, reduceCtorEq, Option.ite_none_left_eq_some] at stepped
    by_cases same : this = other
    · rw [if_pos same] at stepped
      exact Option.some.inj stepped.2 ▸ self_follows sound (if_pos same)
    · rw [if_neg same] at stepped
      exact Option.some.inj stepped.2 ▸ moveAssign_follows sound present also same
  | copyAssign this other =>
    cases present : state.objects this <;> cases also : state.objects other <;>
      simp only [step, present, also, reduceCtorEq, Option.ite_none_left_eq_some] at stepped
    by_cases same : this = other
    · rw [if_pos same] at stepped
      exact Option.some.inj stepped.2 ▸ self_follows sound (if_pos same)
    · rw [if_neg same] at stepped
      exact Option.some.inj stepped.2 ▸ copyAssign_follows sound present also same
  | release this var =>
    cases present : state.objects this <;> cases absent : state.ints var <;>
      simp only [step, present, absent, reduceCtorEq, Option.some.injEq] at stepped
    exact stepped ▸ release_follows sound present absent
  | destroy this =>
    cases present : state.objects this <;> simp only [step, present, reduceCtorEq, Option.some.injEq] at stepped
    exact stepped ▸ destroy_follows sound present
  | setFdFlags this flags =>
    cases present : state.objects this <;> simp only [step, present, reduceCtorEq, Option.some.injEq] at stepped
    exact stepped ▸ setFdFlags_follows sound present flags
  | sysOpen var flags =>
    cases absent : state.ints var <;> simp only [step, absent, reduceCtorEq] at stepped
    have follows := sysOpen_follows fails sound absent flags
    split at stepped <;> rename_i opened <;> rw [opened] at follows <;> rwa [← Option.some.inj stepped]
  | sysClose var =>
    cases present : state.ints var <;> simp only [step, present, reduceCtorEq, Option.some.injEq] at stepped
    exact stepped ▸ sysClose_follows sound present

theorem start_sound : Sound start := by
  have nothing : start.fdOf = fun _ => none := by
    funext holder
    cases holder <;> rfl
  rw [Sound, show start.refs = fun _ => none from funext fun holder => by rw [refs, nothing, Option.bind_none],
    nothing]
  exact Holding.start

theorem sound_step {p : FdAction → Prop} {next : Descriptors} (sound : Sound state)
    (stepped : state.Steps fails p next) : Sound next := by
  obtain ⟨action, _, worked⟩ := stepped
  obtain ⟨outcome, stepped, goesOn⟩ := Option.bind_eq_some_iff.mp worked
  have follows := step_follows sound stepped
  cases outcome with
  | returned after =>
    obtain rfl : after = next := Option.some.inj goesOn
    rcases follows with holding | ⟨_, holding⟩ <;> exact holding.here
  | thrown left =>
    obtain rfl : left.2 = next := Option.some.inj goesOn
    exact follows.1.here
  | terminated => cases goesOn

theorem runs_holding {p : FdAction → Prop} (reached : Reachable (· = start) (Steps fails p) state) :
    Sound state := by
  refine reached.invariant ?_ fun _ _ sound stepped => sound_step sound stepped
  rintro _ rfl
  exact start_sound

/-- However the calls fail, in every run each holder has an open descriptor of its own, each open
descriptor has its holder, no call comes with a descriptor that is not open, and the program ends
only because of one of the calls of that step, which fails. -/
theorem runs_owned {p : FdAction → Prop} (reached : Reachable (· = start) (Steps fails p) state) :
    (∀ holder fd, state.fdOf holder = some fd → ∃ entry, state.process.entry fd = some entry) ∧
      (∀ fd entry, state.process.entry fd = some entry → ∃! holder, state.fdOf holder = some fd) ∧
      state.process.refused = 0 ∧
      ∀ action, state.step fails action = some .terminated → fails.Fails state.process 4 := by
  have sound := runs_holding reached
  refine ⟨?_, ?_, sound.refused, fun action ended => step_follows sound ended⟩
  · intro holder fd holds
    obtain ⟨entry, there, _⟩ := sound.there holds
    exact ⟨entry, there⟩
  · intro fd entry there
    obtain ⟨holder, holds⟩ := sound.covered there
    exact ⟨holder, holds, fun other also => sound.alone also holds⟩

/-- A failing `close` in a destructor. -/
theorem runs_owned_destroyed : ∃ state : Descriptors,
    state.process.opened = [true, true, true] ∧
      state.step (fun n => if n = 7 then some 5 else none) (.destroy 2) = some .terminated ∧
      (∀ holder fd, state.fdOf holder = some fd → ∃ entry, state.process.entry fd = some entry) ∧
      (∀ fd entry, state.process.entry fd = some entry → ∃! holder, state.fdOf holder = some fd) ∧
      state.process.refused = 0 ∧
      ∀ action, state.step (fun n => if n = 7 then some 5 else none) action = some .terminated →
        Failures.Fails (fun n => if n = 7 then some 5 else none) state.process 4 := by
  refine ⟨_, ?_, ?_, runs_owned (p := fun _ => True)
    (.step (.step (.step (.start rfl) ⟨.openFile 0 "a" 0, trivial, rfl⟩) ⟨.copyConstruct 1 .dupable 0, trivial, rfl⟩)
      ⟨.socket 2 0, trivial, rfl⟩)⟩
  · decide
  · rfl

def Refers (fails : Failures) (action : FdAction) (state : Descriptors) (outcome : Outcome) : Prop :=
  outcome.Ends
    (fun next => next.refs = action.meant state.process.files state.refs ∨ action.Declines ∧ next.refs = state.refs)
    (fun left => left.2.refs = action.lost state.refs ∧
      (left.1.Reports fails state.process left.2.process ∨
        left.1 = .bad_optional_access ∧ ∃ k, action.needs = some k ∧ state.refs (.object k) = none))
    (fails.Fails state.process 4)

theorem step_refers (sound : Sound state) {action : FdAction} {outcome : Outcome}
    (stepped : state.step fails action = some outcome) : Refers fails action state outcome := by
  have told {next : Descriptors} {meaning : FdHolder → Option Entry}
      (holding : Holding next.process next.fdOf meaning) : next.refs = meaning :=
    funext fun holder => (holding.refers holder).symm
  refine (step_follows sound stepped).mono ?_ ?_ id
  · rintro next (holding | ⟨declines, holding⟩)
    · exact .inl (told holding)
    · exact .inr ⟨declines, told holding⟩
  · rintro left ⟨holding, why⟩
    exact ⟨told holding, why⟩

/-- Every step of a run does to the files that the holders refer to what the action means, all of
it or nothing; only an `int` whose descriptor is to be an object's is lost to an exception. -/
theorem runs_refer {p : FdAction → Prop} (reached : Reachable (· = start) (Steps fails p) state)
    {action : FdAction} {outcome : Outcome} (stepped : state.step fails action = some outcome) :
    Refers fails action state outcome := step_refers (runs_holding reached) stepped

/-- The flags of a descriptor that a `ManagedFd` is made of cannot be set. -/
theorem runs_refer_lost : ∃ state left : Descriptors,
    state.fdOf (.int 0) = some 0 ∧ left.process.opened = [false] ∧
      Refers (fun n => if n = 2 then some 5 else none) (.fromInt 0 .managed 0) state
        (.thrown (.system_error 5 "fcntl setfd", left)) := by
  refine ⟨_, _, ?_, ?_, runs_refer (p := fun _ => True)
    (.step (.start rfl) ⟨.sysOpen 0 0, trivial, rfl⟩) rfl⟩
  · rfl
  · decide

end Descriptors

def Entry.Closes (entry : Entry) : Prop := entry.flags.testBit 0 = true

/-- The action does not take the flag from an object's descriptor. -/
def FdAction.KeepsCloseOnExec : FdAction → Prop
  | .setFdFlags _ flags => flags.testBit 0 = true
  | _ => True

theorem Entry.closing_closes (entry : Entry) : entry.closing.Closes := by
  rw [Closes, closing, Nat.testBit_or]
  exact Bool.or_true _

theorem Entry.duplicate_closes (entry : Entry) : entry.duplicate.Closes := by
  show CloseOnExec.testBit 0 = true
  decide

/-- The descriptors of all objects are closed by `exec`. -/
def AllClose (refs : FdHolder → Option Entry) : Prop := ∀ this entry, refs (.object this) = some entry → entry.Closes

namespace AllClose

variable {refs : FdHolder → Option Entry} {this : Nat} {value : Option Entry}

theorem object (all : AllClose refs) (closes : ∀ entry, value = some entry → entry.Closes) :
    AllClose (Function.update refs (.object this) value) := by
  intro k entry refers
  by_cases same : FdHolder.object k = .object this
  · rw [same, Function.update_self] at refers
    exact closes entry refers
  · rw [Function.update_of_ne same] at refers
    exact all k entry refers

theorem int (all : AllClose refs) (var : Nat) (value : Option Entry) :
    AllClose (Function.update refs (.int var) value) := fun k entry refers =>
  all k entry ((Function.update_of_ne (by nofun) ..).symm.trans refers)

theorem mapped {change : Entry → Entry} (closes : ∀ entry, (change entry).Closes) (value : Option Entry)
    (entry : Entry) (refers : value.map change = some entry) : entry.Closes := by
  obtain ⟨old, _, rfl⟩ := Option.map_eq_some_iff.mp refers
  exact closes old

theorem meant (all : AllClose refs) {action : FdAction} (keeps : action.KeepsCloseOnExec) (file : Nat) :
    AllClose (action.meant file refs) := by
  have single (old entry : Entry) (refers : some old.closing = some entry) : entry.Closes :=
    Option.some.inj refers ▸ old.closing_closes
  have nothing (entry : Entry) (refers : none = some entry) : entry.Closes := nomatch refers
  cases action with
  | openFile | socket | accept => exact all.object (single _)
  | empty => exact all
  | fromInt this _ var => exact (all.int var none).object (mapped Entry.closing_closes _)
  | refInt | copyConstruct => exact all.object (mapped Entry.duplicate_closes _)
  | copyAssign this other =>
    rw [FdAction.meant]
    split
    · exact all
    · exact all.object (mapped Entry.duplicate_closes _)
  | moveConstruct this _ other => exact (all.object nothing).object (all other)
  | moveAssign this other =>
    rw [FdAction.meant]
    split
    · exact all
    · exact (all.object nothing).object (all other)
  | release this var => exact (all.object nothing).int var _
  | destroy => exact all.object nothing
  | setFdFlags this flags =>
    have set (entry : Entry) : Entry.Closes { entry with flags } := keeps
    exact all.object (mapped set _)
  | sysOpen | sysClose => exact all.int _ _

theorem lost (all : AllClose refs) (action : FdAction) : AllClose (action.lost refs) := by
  cases action with
  | fromInt => exact all.int _ _
  | _ => exact all

end AllClose

namespace Descriptors

variable {fails : Failures} {state : Descriptors}

/-- Where no `setFdFlags` takes the flag away, the descriptor of every object is closed by `exec`,
whatever happened to the objects. -/
theorem runs_closeOnExec (reached : Reachable (· = start) (Steps fails FdAction.KeepsCloseOnExec) state) :
    AllClose state.refs := by
  suffices both : Sound state ∧ AllClose state.refs from both.2
  have kept (before next : Descriptors) (both : Sound before ∧ AllClose before.refs)
      (stepped : before.Steps fails FdAction.KeepsCloseOnExec next) : Sound next ∧ AllClose next.refs := by
    obtain ⟨sound, all⟩ := both
    refine ⟨sound_step sound stepped, ?_⟩
    obtain ⟨action, keeps, worked⟩ := stepped
    obtain ⟨outcome, stepped, goesOn⟩ := Option.bind_eq_some_iff.mp worked
    have refers := step_refers sound stepped
    cases outcome with
    | returned after =>
      obtain rfl : after = next := Option.some.inj goesOn
      rcases refers with same | ⟨_, same⟩ <;> rw [same]
      · exact all.meant keeps _
      · exact all
    | thrown left =>
      obtain rfl : left.2 = next := Option.some.inj goesOn
      rw [refers.1]
      exact all.lost action
    | terminated => cases goesOn
  refine reached.invariant ?_ kept
  rintro _ rfl
  exact ⟨start_sound, fun _ _ impossible => nomatch impossible⟩

theorem runs_closeOnExec_moved : ∃ state : Descriptors,
    state.refs (.object 1) = some { file := 0, flags := 3 } ∧ AllClose state.refs := by
  refine ⟨_, ?_, runs_closeOnExec
    (show Reachable (· = start) (Steps (fun _ => none) FdAction.KeepsCloseOnExec) _ from
      .step (.step (.step (.start rfl) ⟨.openFile 0 "a" 0, trivial, rfl⟩) ⟨.moveConstruct 1 .managed 0, trivial, rfl⟩)
        ⟨.setFdFlags 1 3, show Nat.testBit 3 0 = true by decide, rfl⟩)⟩
  rfl

end Descriptors

end Stdplus.Fd
