import Stdplus.Handle.Custody

namespace Stdplus.Handle

variable {T As E : Type}

/-- Neither functor throws. -/
structure Quiet (f : Functors T As E) : Prop where
  drop : ∀ count t as, (f.drop count t as).2 = none
  ref : ∀ count v as, ∃ t, (f.ref count v as).2 = .ok t

/-- The handles, the calls of the functors and the custody agree. -/
structure Linear (pool : Pool T As) (custody : Custody T As) : Prop where
  entered : custody.resources.map Resource.value = pool.calls.entered
  held : ∀ k, heldBy custody.resources k = ((pool.handles k).bind HandleF.maybeT).toList
  released : pool.calls.released.Perm (releasedOf custody.resources)
  dropped : pool.calls.dropped.Perm (droppedOf custody.resources)
  data : ∀ k, custody.data k = (pool.handles k).map HandleF.as
  count : custody.count = pool.calls.count

namespace Pool

theorem put_handles (this : Nat) (here : Here T As) (pool : Pool T As) (k : Nat) :
    (pool.put this here).handles k = if k = this then some here.toHandleF else pool.handles k :=
  Function.update_apply _ _ _ _

@[simp] theorem put_calls (this : Nat) (here : Here T As) (pool : Pool T As) :
    (pool.put this here).calls = here.calls := rfl

end Pool

theorem Custody.setData_data (this : Nat) (as : Option As) (custody : Custody T As) (k : Nat) :
    (custody.setData this as).data k = if k = this then as else custody.data k :=
  Function.update_apply _ _ _ _

namespace Linear

open Pool Managed Custody

variable {pool : Pool T As} {custody : Custody T As} {this : Nat} {here : Here T As}

theorem empty : Linear (Pool.empty : Pool T As) Custody.empty :=
  ⟨rfl, fun _ => rfl, .rfl, .rfl, fun _ => rfl, rfl⟩

private theorem held_here (linear : Linear (pool.put this here) custody) :
    heldBy custody.resources this = here.maybeT.toList := by
  rw [linear.held, put_handles, if_pos rfl, Option.bind_some]

private theorem data_here (linear : Linear (pool.put this here) custody) : custody.data this = some here.as := by
  rw [linear.data, put_handles, if_pos rfl, Option.map_some]

private theorem held_other (linear : Linear (pool.put this here) custody) {k : Nat} (differ : k ≠ this) :
    heldBy custody.resources k = ((pool.handles k).bind HandleF.maybeT).toList := by
  rw [linear.held, put_handles, if_neg differ]

private theorem data_other (linear : Linear (pool.put this here) custody) {k : Nat} (differ : k ≠ this) :
    custody.data k = (pool.handles k).map HandleF.as := by
  rw [linear.data, put_handles, if_neg differ]

private theorem new (linear : Linear pool custody) (raw : pool.handles this = none) (as : As) :
    Linear (pool.put this { as := as, maybeT := none, calls := pool.calls })
      (custody.setData this (some as)) where
  entered := linear.entered
  held k := by
    rw [put_handles]
    split
    · rename_i same
      rw [same, Custody.setData, linear.held, raw]
      rfl
    · exact linear.held k
  released := linear.released
  dropped := linear.dropped
  data k := by
    rw [put_handles, setData_data]
    split
    · rfl
    · exact linear.data k
  count := linear.count

private theorem setData (linear : Linear (pool.put this here) custody) (as : As) :
    Linear (pool.put this { here with as := as }) (custody.setData this (some as)) where
  entered := linear.entered
  held k := by
    rw [put_handles]
    split
    · rename_i same
      exact same ▸ linear.held_here
    · rename_i differ
      exact linear.held_other differ
  released := linear.released
  dropped := linear.dropped
  data k := by
    rw [put_handles, setData_data]
    split
    · rfl
    · rename_i differ
      exact linear.data_other differ
  count := linear.count

private theorem enter (linear : Linear (pool.put this here) custody) (nothing : here.maybeT = none)
    (maybeV : Option T) :
    Linear (pool.put this { here with maybeT := maybeV, calls := adopt maybeV here.calls })
      (custody.enter this maybeV) := by
  have here_held := linear.held_here
  rw [nothing] at here_held
  refine ⟨?_, fun k => ?_, ?_, ?_, fun k => ?_, linear.count⟩
  · have entered := linear.entered
    simp only [put_calls] at entered
    cases maybeV <;> simp [Custody.enter, adopt, entered]
  · rw [put_handles, Custody.enter, heldBy_append]
    split
    · rename_i same
      subst same
      rw [here_held]
      cases maybeV <;> simp [heldBy, Resource.heldBy]
    · rename_i differ
      rw [linear.held_other differ]
      cases maybeV <;> simp [heldBy, Resource.heldBy, Ne.symm differ]
  · refine linear.released.trans (.of_eq ?_)
    cases maybeV <;> simp [Custody.enter, releasedOf, Resource.released]
  · refine linear.dropped.trans (.of_eq ?_)
    cases maybeV <;> simp [Custody.enter, droppedOf, Resource.dropped]
  · have data := linear.data k
    rw [put_handles] at data ⊢
    exact data.trans (by split <;> rfl)

variable {f : Functors T As E}

private theorem drop (linear : Linear (pool.put this here) custody) (quiet : Quiet f) :
    ∃ after, Managed.reset f none here = .ok after ∧ after.maybeT = none ∧
      Linear (pool.put this after) (custody.drop f this) := by
  have here_held := linear.held_here
  have here_data := linear.data_here
  cases value : here.maybeT with
  | none =>
    rw [value] at here_held
    have same : { here with maybeT := none } = here := by rw [← value]
    refine ⟨here, ?_, value, ?_⟩
    · simp only [reset, maybeDrop, value, bind, Except.bind, same]
    · rw [Custody.drop, here_held]
      exact linear
  | some t =>
    rw [value] at here_held
    refine ⟨{ here with
      as := (f.drop here.calls.count t here.as).1
      maybeT := none
      calls := { here.calls with
        count := here.calls.count + 1
        dropped := here.calls.dropped ++ [(t, here.as)] } }, ?_, rfl, ?_⟩
    · simp only [reset, maybeDrop, value, quiet.drop, bind, Except.bind]
    · have count := linear.count
      simp only [put_calls] at count
      simp only [Custody.drop, here_held, here_data, Option.toList_some, List.head?_cons, count]
      refine ⟨?_, fun k => ?_, ?_, ?_, fun k => ?_, rfl⟩
      · exact (settle_values this _).trans linear.entered
      · rw [put_handles, heldBy_settle this k (fun holder => by simp)]
        split
        · rfl
        · rename_i differ
          exact linear.held_other differ
      · rw [releasedOf_settle_other this (by simp)]
        exact linear.released
      · have settled := droppedOf_settle custody.resources this here.as
        rw [here_held] at settled
        exact (linear.dropped.append_right _).trans settled.symm
      · rw [put_handles]
        simp only [Function.update_apply]
        split
        · rfl
        · rename_i differ
          exact linear.data_other differ

private theorem reset (linear : Linear (pool.put this here) custody) (quiet : Quiet f) (maybeV : Option T) :
    ∃ after, Managed.reset f maybeV { here with calls := adopt maybeV here.calls } = .ok after ∧
      Linear (pool.put this after) ((custody.drop f this).enter this maybeV) := by
  obtain ⟨after, dropped, nothing, emptied⟩ := linear.drop quiet
  refine ⟨_, ?_, emptied.enter nothing maybeV⟩
  cases value : here.maybeT with
  | none =>
    simp only [Managed.reset, maybeDrop, value, bind, Except.bind, Except.ok.injEq] at dropped ⊢
    subst dropped
    rfl
  | some t =>
    simp only [Managed.reset, maybeDrop, value, quiet.drop, bind, Except.bind, Except.ok.injEq] at dropped ⊢
    subst dropped
    rfl

private theorem take {other : Nat} {source : HandleF T As} (linear : Linear (pool.put this here) custody)
    (nothing : here.maybeT = none) (differ : this ≠ other) (object : pool.handles other = some source) :
    Linear { pool.put this { here with as := source.as, maybeT := source.maybeT } with
        handles := Function.update
          (pool.put this { here with as := source.as, maybeT := source.maybeT }).handles other
          (some { as := f.moved source.as, maybeT := none }) }
      (custody.take f this other) := by
  have here_held := linear.held_here
  rw [nothing] at here_held
  have other_held := linear.held_other differ.symm
  have other_data := linear.data_other differ.symm
  rw [object] at other_held other_data
  refine ⟨(settle_values other _).trans linear.entered, fun k => ?_, ?_, ?_, fun k => ?_, linear.count⟩
  · simp only [Custody.take, Function.update_apply, put_handles]
    rw [heldBy_pass differ here_held]
    split
    · rfl
    · split
      · exact other_held
      · rename_i _ not_this
        exact linear.held_other not_this
  · rw [Custody.take, releasedOf_settle_other other (by simp)]
    exact linear.released
  · rw [Custody.take, droppedOf_settle_other other (by simp)]
    exact linear.dropped
  · simp only [Custody.take, Function.update_apply, put_handles, other_data]
    split
    · rfl
    · split
      · rfl
      · rename_i _ not_this
        exact linear.data_other not_this

private theorem release (linear : Linear (pool.put this here) custody) :
    Linear (pool.put this (give here.maybeT { here with maybeT := none })) (custody.release this) := by
  refine ⟨(settle_values this _).trans linear.entered, fun k => ?_, ?_, ?_, fun k => ?_, linear.count⟩
  · rw [put_handles, Custody.release, heldBy_settle this k (fun holder => by simp)]
    split
    · rfl
    · rename_i differ
      exact linear.held_other differ
  · have settled := releasedOf_settle custody.resources this
    rw [linear.held_here] at settled
    exact (linear.released.append_right _).trans settled.symm
  · rw [Custody.release, droppedOf_settle_other this (by simp)]
    exact linear.dropped
  · have data := linear.data k
    rw [put_handles] at data ⊢
    exact data.trans (by split <;> rfl)

private theorem clear (linear : Linear (pool.put this here) custody) (nothing : here.maybeT = none) :
    Linear (pool.clear this here.calls) (custody.setData this none) := by
  have here_held := linear.held_here
  rw [nothing] at here_held
  refine ⟨linear.entered, fun k => ?_, linear.released, linear.dropped, fun k => ?_, linear.count⟩
  · simp only [Pool.clear, Function.update_apply, Custody.setData]
    split
    · rename_i same
      rw [same, here_held]
      rfl
    · rename_i differ
      exact linear.held_other differ
  · rw [setData_data]
    simp only [Pool.clear, Function.update_apply]
    split
    · rfl
    · rename_i differ
      exact linear.data_other differ

private theorem refer (linear : Linear (pool.put this here) custody) (quiet : Quiet f) (maybeV : Option T) :
    ∃ after, Copyable.reset f maybeV here = .ok after ∧
      Linear (pool.put this after) (custody.refer f this maybeV) := by
  cases maybeV with
  | none =>
    obtain ⟨after, dropped, _, emptied⟩ := linear.drop quiet
    exact ⟨after, dropped, emptied⟩
  | some v =>
    obtain ⟨t, made⟩ := quiet.ref here.calls.count v here.as
    have counted : Linear (pool.put this { here with
          as := (f.ref here.calls.count v here.as).1
          calls := { here.calls with count := here.calls.count + 1 } })
        { custody.setData this (some (f.ref here.calls.count v here.as).1) with count := custody.count + 1 } := by
      have changed := linear.setData (f.ref here.calls.count v here.as).1
      refine ⟨changed.entered, fun k => ?_, changed.released, changed.dropped, fun k => ?_, ?_⟩
      · have held := changed.held k
        rw [put_handles] at held ⊢
        exact held
      · have data := changed.data k
        rw [put_handles] at data ⊢
        exact data
      · exact congrArg (· + 1) linear.count
    obtain ⟨after, working, now⟩ := counted.reset quiet (some t)
    refine ⟨after, ?_, ?_⟩
    · simp only [Copyable.reset, Copyable.doRef, made, bind, Except.bind]
      exact working
    · have count := linear.count
      simp only [put_calls] at count
      simp only [Custody.refer, linear.data_here, count, made]
      rw [count] at now
      exact now

private theorem object (linear : Linear pool custody) {this : Nat} {as : As}
    (known : custody.data this = some as) :
    ∃ handle : HandleF T As, pool.handles this = some handle ∧ handle.as = as ∧
      Linear (pool.put this { handle with calls := pool.calls }) custody := by
  rw [linear.data] at known
  obtain ⟨handle, there, same⟩ := Option.map_eq_some_iff.mp known
  have kept : pool.put this { handle with calls := pool.calls } = pool := by
    rw [put, ← there, Function.update_eq_self]
  exact ⟨handle, there, same, kept.symm ▸ linear⟩

private theorem raw (linear : Linear pool custody) {this : Nat} (unknown : custody.data this = none) :
    pool.handles this = none := by
  rw [linear.data] at unknown
  exact Option.map_eq_none_iff.mp unknown

private theorem holds (linear : Linear pool custody) {this : Nat} {handle : HandleF T As}
    (there : pool.handles this = some handle) : (heldBy custody.resources this).head? = handle.maybeT := by
  rw [linear.held, there, Option.bind_some]
  cases handle.maybeT <;> rfl

private theorem reset_value {here after : Here T As} (emptied : Managed.reset f none here = .ok after)
    (maybeV : Option T) : Managed.reset f maybeV here = .ok { after with maybeT := maybeV } := by
  rw [Managed.reset] at emptied ⊢
  cases dropped : maybeDrop f here with
  | error stop => simp [dropped, bind, Except.bind] at emptied
  | ok middle =>
    simp only [dropped, bind, Except.bind, Except.ok.injEq] at emptied ⊢
    subst emptied
    rfl

/-- The handles do the action as well, and have what that custody says. -/
private def Follows (f : Functors T As E) (action : Action T As) (pool : Pool T As) (later : Custody T As) : Prop :=
  ∃ after, pool.next f action = some after ∧ Linear after later

variable {later : Custody T As} {other : Nat} {maybeV : Option T} {vs : As}

private theorem construct_follows (linear : Linear pool custody)
    (means : custody.step f (.construct this maybeV vs) = some later) :
    Follows f (.construct this maybeV vs) pool later := by
  simp only [Custody.step] at means
  split at means
  · rename_i unknown
    cases means
    have absent := linear.raw unknown
    refine ⟨_, ?_, (linear.new absent vs).enter rfl maybeV⟩
    simp only [next, Pool.step, Pool.raw, absent, bind, Except.bind]
  · cases means

private theorem constructRef_follows (linear : Linear pool custody) (quiet : Quiet f)
    (means : custody.step f (.constructRef this maybeV vs) = some later) :
    Follows f (.constructRef this maybeV vs) pool later := by
  simp only [Custody.step] at means
  split at means
  · rename_i unknown
    cases means
    have absent := linear.raw unknown
    obtain ⟨after, working, now⟩ := (linear.new absent vs).refer quiet maybeV
    refine ⟨_, ?_, now⟩
    simp only [next, Pool.step, Pool.raw, absent, Copyable.construct, working, made, bind, Except.bind]
  · cases means

private theorem moveConstruct_follows (linear : Linear pool custody)
    (means : custody.step f (.moveConstruct this other) = some later) :
    Follows f (.moveConstruct this other) pool later := by
  simp only [Custody.step] at means
  split at means
  · rename_i as unknown known
    cases means
    have absent := linear.raw unknown
    obtain ⟨source, there, same, _⟩ := linear.object known
    have differ : this ≠ other := by
      intro equal
      rw [equal, there] at absent
      cases absent
    have moved := (linear.new absent source.as).take (f := f) rfl differ there
    have meaning : (custody.setData this (some source.as)).take f this other = custody.take f this other := by
      simp only [Custody.take, Custody.setData, Function.update_of_ne differ.symm, Function.update_idem]
    rw [meaning] at moved
    refine ⟨_, ?_, moved⟩
    simp only [next, Pool.step, Pool.raw, absent, Pool.get, there, moveConstruct, bind, Except.bind]
  · cases means

private theorem copyConstruct_follows (linear : Linear pool custody) (quiet : Quiet f)
    (means : custody.step f (.copyConstruct this other) = some later) :
    Follows f (.copyConstruct this other) pool later := by
  simp only [Custody.step] at means
  split at means
  · rename_i as unknown known
    cases means
    have absent := linear.raw unknown
    obtain ⟨source, there, rfl, _⟩ := linear.object known
    obtain ⟨after, working, now⟩ := (linear.new absent source.as).refer quiet source.maybeT
    rw [linear.holds there]
    refine ⟨_, ?_, now⟩
    simp only [next, Pool.step, Pool.raw, absent, Pool.get, there, Copyable.construct, working, made, bind,
      Except.bind]
  · cases means

private theorem moveAssign_follows (linear : Linear pool custody) (quiet : Quiet f)
    (means : custody.step f (.moveAssign this other) = some later) :
    Follows f (.moveAssign this other) pool later := by
  simp only [Custody.step] at means
  split at means
  · rename_i as as' known known'
    obtain ⟨handle, there, _, linear_put⟩ := linear.object known
    obtain ⟨source, there', _, _⟩ := linear.object known'
    split at means
    · rename_i same
      cases means
      refine ⟨pool, ?_, linear⟩
      simp only [next, Pool.step, Pool.get, there', same, ne_eq, not_true_eq_false, if_false, bind,
        Except.bind]
    · rename_i differ
      cases means
      obtain ⟨after, emptied, nothing, dropped⟩ := linear_put.drop quiet
      refine ⟨_, ?_, dropped.take (f := f) nothing differ there'⟩
      simp only [next, Pool.step, Pool.get, there, there', ne_eq, differ, not_false_eq_true, if_true, moveAssign,
        reset_value emptied, bind, Except.bind]
  · cases means

private theorem copyAssign_follows (linear : Linear pool custody) (quiet : Quiet f)
    (means : custody.step f (.copyAssign this other) = some later) :
    Follows f (.copyAssign this other) pool later := by
  simp only [Custody.step] at means
  split at means
  · rename_i as as' known known'
    obtain ⟨handle, there, _, linear_put⟩ := linear.object known
    obtain ⟨source, there', rfl, _⟩ := linear.object known'
    split at means
    · rename_i same
      cases means
      refine ⟨pool, ?_, linear⟩
      simp only [next, Pool.step, Pool.get, there', same, ne_eq, not_true_eq_false, if_false, bind,
        Except.bind]
    · rename_i differ
      cases means
      obtain ⟨after, emptied, nothing, dropped⟩ := linear_put.drop quiet
      obtain ⟨last, working, now⟩ := (dropped.setData source.as).refer quiet source.maybeT
      rw [linear.holds there']
      refine ⟨_, ?_, now⟩
      simp only [next, Pool.step, Pool.get, there, there', ne_eq, differ, not_false_eq_true, if_true,
        Copyable.copyAssign, emptied, working, within, bind, Except.bind]
  · cases means

private theorem reset_follows (linear : Linear pool custody) (quiet : Quiet f)
    (means : custody.step f (.reset this maybeV) = some later) : Follows f (.reset this maybeV) pool later := by
  simp only [Custody.step] at means
  split at means
  · rename_i as known
    cases means
    obtain ⟨handle, there, _, linear_put⟩ := linear.object known
    obtain ⟨after, working, now⟩ := linear_put.reset quiet maybeV
    refine ⟨_, ?_, now⟩
    simp only [next, Pool.step, Pool.get, there, working, within, bind, Except.bind]
  · cases means

private theorem resetRef_follows (linear : Linear pool custody) (quiet : Quiet f)
    (means : custody.step f (.resetRef this maybeV) = some later) : Follows f (.resetRef this maybeV) pool later := by
  simp only [Custody.step] at means
  split at means
  · rename_i as known
    cases means
    obtain ⟨handle, there, _, linear_put⟩ := linear.object known
    obtain ⟨after, working, now⟩ := linear_put.refer quiet maybeV
    refine ⟨_, ?_, now⟩
    simp only [next, Pool.step, Pool.get, there, working, within, bind, Except.bind]
  · cases means

private theorem release_follows (linear : Linear pool custody)
    (means : custody.step f (.release this) = some later) : Follows f (.release this) pool later := by
  simp only [Custody.step] at means
  split at means
  · rename_i as known
    cases means
    obtain ⟨handle, there, _, linear_put⟩ := linear.object known
    have released := linear_put.release
    cases value : handle.maybeT with
    | some ret =>
      rw [value] at released
      refine ⟨_, ?_, released⟩
      simp only [next, Pool.step, Pool.get, there, Managed.release, value, bind, Except.bind]
    | none =>
      -- The exception of `value()` leaves the handle as it is.
      have same : give handle.maybeT { handle with maybeT := none, calls := pool.calls } =
          ({ handle with calls := pool.calls } : Here T As) := by
        obtain ⟨as, maybeT⟩ := handle
        simp only at value
        subst value
        simp [give]
      rw [same] at released
      refine ⟨_, ?_, released⟩
      simp only [next, Pool.step, Pool.get, there, Managed.release, value, bind, Except.bind]
  · cases means

private theorem maybe_release_follows (linear : Linear pool custody)
    (means : custody.step f (.maybe_release this) = some later) : Follows f (.maybe_release this) pool later := by
  simp only [Custody.step] at means
  split at means
  · rename_i as known
    cases means
    obtain ⟨handle, there, _, linear_put⟩ := linear.object known
    refine ⟨_, ?_, linear_put.release⟩
    simp only [next, Pool.step, Pool.get, there, Managed.maybe_release, bind, Except.bind]
  · cases means

private theorem destroy_follows (linear : Linear pool custody) (quiet : Quiet f)
    (means : custody.step f (.destroy this) = some later) : Follows f (.destroy this) pool later := by
  simp only [Custody.step] at means
  split at means
  · rename_i as known
    cases means
    obtain ⟨handle, there, _, linear_put⟩ := linear.object known
    obtain ⟨after, emptied, nothing, dropped⟩ := linear_put.drop quiet
    refine ⟨_, ?_, dropped.clear nothing⟩
    simp only [next, Pool.step, Pool.get, there, emptied, bind, Except.bind]
  · cases means

theorem step (linear : Linear pool custody) (quiet : Quiet f) {action : Action T As}
    {later : Custody T As} (means : custody.step f action = some later) :
    ∃ after, pool.next f action = some after ∧ Linear after later := by
  cases action with
  | construct => exact linear.construct_follows means
  | constructRef => exact linear.constructRef_follows quiet means
  | moveConstruct => exact linear.moveConstruct_follows means
  | copyConstruct => exact linear.copyConstruct_follows quiet means
  | moveAssign => exact linear.moveAssign_follows quiet means
  | copyAssign => exact linear.copyAssign_follows quiet means
  | reset => exact linear.reset_follows quiet means
  | resetRef => exact linear.resetRef_follows quiet means
  | release => exact linear.release_follows means
  | maybe_release => exact linear.maybe_release_follows means
  | destroy => exact linear.destroy_follows quiet means

end Linear

end Stdplus.Handle
