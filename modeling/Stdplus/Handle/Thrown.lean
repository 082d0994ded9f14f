import Stdplus.Base.Once
import Stdplus.Handle.Accounted

/-! Managed handles whose `Drop` throws: an interrupted reset or move assignment leaves the
value with its handle, which drops it again later. -/

namespace Stdplus.Handle

open Stdplus.Base

variable {T As E : Type}

/-- A pool, with the handles whose value an exception of `Drop` left behind. -/
structure Watched (T As : Type) where
  pool : Pool T As
  spoiled : Nat → Bool

namespace Action

/-- Those of `Managed::HandleF`. -/
def Managed : Action T As → Prop
  | .construct .. | .moveConstruct .. | .moveAssign .. | .reset .. | .release .. | .maybe_release .. | .destroy .. =>
    True
  | .constructRef .. | .copyConstruct .. | .copyAssign .. | .resetRef .. => False

/-- The handles with a value that `Drop` threw at, after an action that returned: the mark
goes where the value goes, and off with a value that is released. -/
def returned (action : Action T As) (spoiled : Nat → Bool) : Nat → Bool :=
  match action with
  | .moveConstruct this other | .moveAssign this other =>
    Function.update (Function.update spoiled other false) this (spoiled other)
  | .construct this .. | .reset this _ | .release this | .maybe_release this | .destroy this =>
    Function.update spoiled this false
  | _ => spoiled

/-- The same after an action that threw; a handle whose destructor throws is gone. -/
def threw (action : Action T As) (spoiled : Nat → Bool) : Nat → Bool :=
  match action with
  | .moveAssign this _ | .reset this _ => Function.update spoiled this true
  | .destroy this => Function.update spoiled this false
  | _ => spoiled

/-- The handle whose value goes to `Drop`, if it has one. -/
def drops : Action T As → Option Nat
  | .reset this _ | .destroy this => some this
  | .moveAssign this other => if this = other then none else some this
  | _ => none

end Action

/-- The values given to `Drop` so far. -/
def Calls.spent (calls : Calls T As) : List T := calls.dropped.map Prod.fst

namespace Watched

def empty : Watched T As where
  pool := Pool.empty
  spoiled := fun _ => false

/-- As `Pool.next`. -/
def next (f : Functors T As E) (action : Action T As) (watched : Watched T As) : Option (Watched T As) :=
  match watched.pool.step f action with
  | .ok after => some { pool := after, spoiled := action.returned watched.spoiled }
  | .error (.bad, _) => none
  | .error (_, after) => some { pool := after, spoiled := action.threw watched.spoiled }

/-- The caller hands over what it owns: no handle holds it, and it was not dropped. Values
are told apart, also those that look the same. -/
def Owned (watched : Watched T As) : Action T As → Prop
  | .construct _ maybeV _ | .reset _ maybeV =>
    ∀ t ∈ maybeV, (∀ k, watched.pool.holds k ≠ some t) ∧ t ∉ watched.pool.calls.spent
  | _ => True

/-- No handle with a value that `Drop` threw at is reset, assigned to or destroyed. A
value moved into another handle is still such a value there, one that is released is not. -/
def Spares (watched : Watched T As) (action : Action T As) : Prop :=
  ∀ this, action.drops = some this → watched.spoiled this = false

end Watched

section

variable {f : Functors T As E} {here : Here T As} {pool : Pool T As} {this other : Nat}

/-- `Drop` gets the value; where it throws, the handle keeps that. -/
theorem Managed.reset_cases (f : Functors T As E) (maybeV : Option T) (here : Here T As) :
    (∃ after, Managed.reset f maybeV here = .ok after ∧ after.maybeT = maybeV ∧
        after.calls.spent = here.calls.spent ++ here.maybeT.toList) ∨
      ∃ thrown after t, Managed.reset f maybeV here = .error (.functor thrown, after) ∧ here.maybeT = some t ∧
        after.maybeT = some t ∧ after.calls.spent = here.calls.spent ++ [t] := by
  rw [Managed.reset]
  cases value : here.maybeT with
  | none =>
    rw [maybeDrop, value]
    exact .inl ⟨_, rfl, rfl, (List.append_nil _).symm⟩
  | some t =>
    rw [maybeDrop, value]
    cases outcome : (f.drop here.calls.count t here.as).2 with
    | none =>
      simp only [outcome]
      exact .inl ⟨_, rfl, rfl, by simp [Calls.spent]⟩
    | some thrown =>
      simp only [outcome]
      exact .inr ⟨thrown, _, t, rfl, rfl, rfl, by simp [Calls.spent]⟩

theorem Pool.put_holds (this : Nat) (here : Here T As) (pool : Pool T As) :
    (pool.put this here).holds = Function.update pool.holds this here.maybeT := by
  funext k
  simp only [holds, put_handles, Function.update_apply]
  split <;> rfl

theorem Pool.clear_holds (this : Nat) (calls : Calls T As) (pool : Pool T As) :
    (pool.clear this calls).holds = Function.update pool.holds this none := by
  funext k
  simp only [holds, clear, Function.update_apply]
  split <;> rfl

private theorem passed_holds (here : Here T As) (rest : HandleF T As) (differ : this ≠ other)
    (value : here.maybeT = pool.holds other) (nothing : rest.maybeT = none) :
    Pool.holds { pool.put this here with
        handles := Function.update (pool.put this here).handles other (some rest) } =
      Function.update (Function.update pool.holds other none) this (pool.holds other) := by
  funext k
  by_cases source : k = other
  · rw [source, Function.update_of_ne differ.symm, Function.update_self]
    simp only [Pool.holds, Function.update_self, Option.bind_some, nothing]
  · have kept := congrFun (pool.put_holds this here) k
    simp only [Pool.holds, Function.update_of_ne source] at kept ⊢
    rw [kept]
    simp only [Function.update_apply, if_neg source]
    split
    · exact value
    · rfl

end

namespace Watched

variable {f : Functors T As E} {watched after : Watched T As} {action : Action T As}

/-- No value is spent twice, and the spoiled handles are those with a spent one. -/
def Sound (watched : Watched T As) : Prop := Once watched.pool.holds watched.spoiled watched.pool.calls.spent

private theorem getting {this : Nat} {handle : HandleF T As} (pool : Pool T As)
    (there : pool.handles this = some handle) : pool.holds this = handle.maybeT := by
  rw [Pool.holds, there, Option.bind_some]

/-- What a reset does: it returns with the new value, or is interrupted and keeps the old
one, and either way `Drop` got what the handle held. -/
private theorem reset_next {this : Nat} {maybeV : Option T}
    (stepped : watched.next f (.reset this maybeV) = some after) :
    (∃ here, after = ⟨watched.pool.put this here, Function.update watched.spoiled this false⟩ ∧
        here.maybeT = maybeV ∧ here.calls.spent = watched.pool.calls.spent ++ (watched.pool.holds this).toList) ∨
      ∃ here t, after = ⟨watched.pool.put this here, Function.update watched.spoiled this true⟩ ∧
        watched.pool.holds this = some t ∧ here.maybeT = some t ∧
        here.calls.spent = watched.pool.calls.spent ++ [t] := by
  rw [next, Pool.step, Pool.get] at stepped
  cases there : watched.pool.handles this with
  | none =>
    rw [there] at stepped
    cases stepped
  | some handle =>
    rw [there] at stepped
    simp only [bind, Except.bind] at stepped
    rw [getting _ there]
    rcases Managed.reset_cases f maybeV { handle with calls := Pool.adopt maybeV watched.pool.calls } with
      ⟨here, worked, value, spent⟩ | ⟨thrown, here, t, worked, was, value, spent⟩
    · rw [worked] at stepped
      cases stepped
      exact .inl ⟨here, rfl, value, spent⟩
    · rw [worked] at stepped
      cases stepped
      exact .inr ⟨here, t, rfl, was, value, spent⟩

private theorem destroy_next {this : Nat} (stepped : watched.next f (.destroy this) = some after) :
    ∃ calls, after = ⟨watched.pool.clear this calls, Function.update watched.spoiled this false⟩ ∧
      calls.spent = watched.pool.calls.spent ++ (watched.pool.holds this).toList := by
  rw [next, Pool.step, Pool.get] at stepped
  cases there : watched.pool.handles this with
  | none =>
    rw [there] at stepped
    cases stepped
  | some handle =>
    rw [there] at stepped
    simp only [bind, Except.bind] at stepped
    rw [getting _ there]
    rcases Managed.reset_cases f none { handle with calls := watched.pool.calls } with
      ⟨here, worked, value, spent⟩ | ⟨thrown, here, t, worked, was, value, spent⟩
    · rw [worked] at stepped
      cases stepped
      exact ⟨here.calls, rfl, spent⟩
    · rw [worked] at stepped
      cases stepped
      change handle.maybeT = some t at was
      refine ⟨here.calls, rfl, ?_⟩
      rw [spent, was, Option.toList_some]

private theorem moveAssign_step (f : Functors T As E) {pool : Pool T As} {this other : Nat}
    {handle source : HandleF T As}
    (differ : this ≠ other) (there : pool.handles this = some handle) (origin : pool.handles other = some source) :
    (∃ here rest, pool.step f (.moveAssign this other) = .ok { pool.put this here with
          handles := Function.update (pool.put this here).handles other (some rest) } ∧
        here.maybeT = pool.holds other ∧ rest.maybeT = none ∧
        here.calls.spent = pool.calls.spent ++ (pool.holds this).toList) ∨
      ∃ thrown here t, pool.step f (.moveAssign this other) = .error (.functor thrown, pool.put this here) ∧
        pool.holds this = some t ∧ here.maybeT = some t ∧ here.calls.spent = pool.calls.spent ++ [t] := by
  simp only [Pool.step, Pool.get, there, origin, bind, Except.bind]
  rw [if_pos differ, Managed.moveAssign, getting _ there, getting _ origin]
  rcases Managed.reset_cases f source.maybeT { handle with calls := pool.calls } with
    ⟨here, worked, value, spent⟩ | ⟨thrown, here, t, worked, was, value, spent⟩
  · rw [worked]
    exact .inl ⟨{ here with as := source.as }, _, rfl, value, rfl, spent⟩
  · rw [worked]
    exact .inr ⟨thrown, here, t, rfl, was, value, spent⟩

private theorem moveAssign_next {this other : Nat} (differ : this ≠ other)
    (stepped : watched.next f (.moveAssign this other) = some after) :
    (∃ here rest, after = ⟨{ watched.pool.put this here with
          handles := Function.update (watched.pool.put this here).handles other (some rest) },
          Function.update (Function.update watched.spoiled other false) this (watched.spoiled other)⟩ ∧
        here.maybeT = watched.pool.holds other ∧ rest.maybeT = none ∧
        here.calls.spent = watched.pool.calls.spent ++ (watched.pool.holds this).toList) ∨
      ∃ here t, after = ⟨watched.pool.put this here, Function.update watched.spoiled this true⟩ ∧
        watched.pool.holds this = some t ∧ here.maybeT = some t ∧
        here.calls.spent = watched.pool.calls.spent ++ [t] := by
  cases there : watched.pool.handles this with
  | none =>
    rw [next, Pool.step, Pool.get, there] at stepped
    cases stepped
  | some handle =>
    cases origin : watched.pool.handles other with
    | none =>
      rw [next, Pool.step, Pool.get, Pool.get, there, origin] at stepped
      cases stepped
    | some source =>
      rw [next] at stepped
      rcases moveAssign_step f differ there origin with
        ⟨here, rest, worked, value, nothing, spent⟩ | ⟨thrown, here, t, worked, holds, value, spent⟩
      · rw [worked] at stepped
        cases stepped
        exact .inl ⟨here, rest, rfl, value, nothing, spent⟩
      · rw [worked] at stepped
        cases stepped
        exact .inr ⟨here, t, rfl, holds, value, spent⟩

private theorem interrupted (sound : Sound watched) {this : Nat} {t : T} {here : Here T As}
    (clear : watched.spoiled this = false) (holds : watched.pool.holds this = some t) (value : here.maybeT = some t)
    (spent : here.calls.spent = watched.pool.calls.spent ++ [t]) :
    Once (watched.pool.put this here).holds (Function.update watched.spoiled this true) here.calls.spent := by
  have same : (watched.pool.put this here).holds = watched.pool.holds := by
    rw [Pool.put_holds, value, ← holds, Function.update_eq_self]
  rw [same, spent]
  exact sound.fail clear holds

private theorem construct_sound (sound : Sound watched) {this : Nat} {maybeV : Option T} {vs : As}
    (owned : watched.Owned (.construct this maybeV vs))
    (stepped : watched.next f (.construct this maybeV vs) = some after) : Sound after := by
  rw [next, Pool.step, Pool.raw] at stepped
  cases raw : watched.pool.handles this with
  | some handle =>
    rw [raw] at stepped
    cases stepped
  | none =>
    rw [raw] at stepped
    cases stepped
    rw [Sound, Pool.put_holds]
    exact Once.put sound this owned

private theorem moveConstruct_sound (sound : Sound watched) {this other : Nat}
    (stepped : watched.next f (.moveConstruct this other) = some after) : Sound after := by
  rw [next, Pool.step, Pool.raw, Pool.get] at stepped
  cases raw : watched.pool.handles this with
  | some handle =>
    rw [raw] at stepped
    cases stepped
  | none =>
    cases there : watched.pool.handles other with
    | none =>
      rw [raw, there] at stepped
      cases stepped
    | some source =>
      rw [raw, there] at stepped
      cases stepped
      have differ : this ≠ other := by
        rintro rfl
        rw [raw] at there
        cases there
      have passed := Once.pass sound other this
      rw [← passed_holds (Managed.moveConstruct f source watched.pool.calls).1
        (Managed.moveConstruct f source watched.pool.calls).2 differ (getting _ there).symm rfl] at passed
      exact passed

private theorem reset_sound (sound : Sound watched) {this : Nat} {maybeV : Option T}
    (owned : watched.Owned (.reset this maybeV : Action T As)) (clear : watched.spoiled this = false)
    (stepped : watched.next f (.reset this maybeV) = some after) : Sound after := by
  rcases reset_next stepped with ⟨here, rfl, value, spent⟩ | ⟨here, t, rfl, holds, value, spent⟩
  · have gone := Once.spend sound clear
    have put := gone.put this fun t member => by
      have own := owned t member
      refine ⟨fun k holding => own.1 k (released_holds holding).2, fun spent => ?_⟩
      rcases List.mem_append.mp spent with old | here
      · exact own.2 old
      · exact own.1 this (Option.mem_toList.mp here)
    rw [Function.update_idem, Function.update_idem] at put
    rw [Sound, Pool.put_holds, value]
    change Once _ _ here.calls.spent
    rw [spent]
    exact put
  · exact interrupted sound clear holds value spent

private theorem moveAssign_sound (sound : Sound watched) {this other : Nat}
    (spares : this ≠ other → watched.spoiled this = false)
    (stepped : watched.next f (.moveAssign this other) = some after) : Sound after := by
  by_cases same : this = other
  · subst same
    rw [next, Pool.step, Pool.get] at stepped
    cases there : watched.pool.handles this with
    | none =>
      rw [there] at stepped
      cases stepped
    | some handle =>
      rw [there] at stepped
      simp only [bind, Except.bind] at stepped
      rw [if_neg (not_not.mpr rfl)] at stepped
      cases stepped
      rw [Sound, Action.returned, Function.update_idem, Function.update_eq_self]
      exact sound
  · have clear := spares same
    rcases moveAssign_next same stepped with
      ⟨here, rest, rfl, value, nothing, spent⟩ | ⟨here, t, rfl, holds, value, spent⟩
    · have gone := Once.succeed sound clear (Ne.symm same)
      rw [← passed_holds here rest same value nothing] at gone
      change Once _ _ here.calls.spent
      rw [spent]
      exact gone
    · exact interrupted sound clear holds value spent

private theorem release_sound (sound : Sound watched) {this : Nat}
    (stepped : watched.next f (.release this) = some after) : Sound after := by
  rw [next, Pool.step, Pool.get] at stepped
  cases there : watched.pool.handles this with
  | none =>
    rw [there] at stepped
    cases stepped
  | some handle =>
    have holds := getting _ there
    rw [there] at stepped
    simp only [bind, Except.bind, Managed.release] at stepped
    cases value : handle.maybeT with
    | none =>
      rw [value] at stepped
      cases stepped
      have same : (watched.pool.put this { handle with calls := watched.pool.calls }).holds =
          watched.pool.holds := by
        rw [Pool.put_holds, ← holds, Function.update_eq_self]
      rw [Sound, same]
      exact sound
    | some ret =>
      rw [value] at stepped
      cases stepped
      rw [Sound, Pool.put_holds]
      exact Once.put sound this (by simp [Pool.give])

private theorem maybe_release_sound (sound : Sound watched) {this : Nat}
    (stepped : watched.next f (.maybe_release this) = some after) : Sound after := by
  rw [next, Pool.step, Pool.get] at stepped
  cases there : watched.pool.handles this with
  | none =>
    rw [there] at stepped
    cases stepped
  | some handle =>
    rw [there] at stepped
    cases stepped
    rw [Sound, Pool.put_holds]
    exact Once.put sound this (by simp [Pool.give])

private theorem destroy_sound (sound : Sound watched) {this : Nat} (clear : watched.spoiled this = false)
    (stepped : watched.next f (.destroy this) = some after) : Sound after := by
  obtain ⟨calls, rfl, spent⟩ := destroy_next stepped
  have gone := Once.spend sound clear
  rw [Sound, Pool.clear_holds]
  change Once _ _ calls.spent
  rw [spent]
  exact gone

theorem Sound.step (sound : Sound watched) (managed : action.Managed) (owned : watched.Owned action)
    (spares : watched.Spares action) (stepped : watched.next f action = some after) : Sound after := by
  cases action with
  | construct this maybeV vs => exact construct_sound sound owned stepped
  | moveConstruct this other => exact moveConstruct_sound sound stepped
  | moveAssign this other =>
    exact moveAssign_sound sound (fun differ => spares this (if_neg differ)) stepped
  | reset this maybeV => exact reset_sound sound owned (spares this rfl) stepped
  | release this => exact release_sound sound stepped
  | maybe_release this => exact maybe_release_sound sound stepped
  | destroy this => exact destroy_sound sound (spares this rfl) stepped
  | constructRef this maybeV vs => exact managed.elim
  | copyConstruct this other => exact managed.elim
  | copyAssign this other => exact managed.elim
  | resetRef this maybeV => exact managed.elim

/-- An action that resets, assigns to or destroys a handle gives its value to `Drop`. -/
private theorem drops_spent {this : Nat} (dropping : action.drops = some this)
    (stepped : watched.next f action = some after) :
    after.pool.calls.spent = watched.pool.calls.spent ++ (watched.pool.holds this).toList := by
  cases action with
  | reset k maybeV =>
    cases dropping
    rcases reset_next stepped with ⟨here, rfl, _, spent⟩ | ⟨here, t, rfl, holds, _, spent⟩
    · exact spent
    · rw [holds]
      exact spent
  | destroy k =>
    cases dropping
    obtain ⟨calls, rfl, spent⟩ := destroy_next stepped
    exact spent
  | moveAssign k other =>
    have differ : k ≠ other := by
      rintro rfl
      rw [Action.drops, if_pos rfl] at dropping
      cases dropping
    rw [Action.drops, if_neg differ] at dropping
    cases dropping
    rcases moveAssign_next differ stepped with ⟨here, rest, rfl, _, _, spent⟩ | ⟨here, t, rfl, holds, _, spent⟩
    · exact spent
    · rw [holds]
      exact spent
  | _ => cases dropping

/-- What an action does not spare is given to `Drop` a second time. -/
private theorem Sound.again (sound : Sound watched) (wasted : ¬ watched.Spares action)
    (stepped : watched.next f action = some after) : ¬ after.pool.calls.spent.Nodup := by
  obtain ⟨this, wasted⟩ := not_forall.mp wasted
  obtain ⟨dropping, spoiled⟩ := Classical.not_imp.mp wasted
  have mark : watched.spoiled this = true := Bool.eq_true_of_not_eq_false spoiled
  obtain ⟨t, holds, _⟩ := Once.dirty sound this mark
  rw [drops_spent dropping stepped, holds]
  exact Once.again sound mark holds

private theorem moveAssign_keeps {pool after : Pool T As} {this other : Nat} {stop : Stop E}
    (threw : pool.step f (.moveAssign this other) = .error (stop, after)) :
    after.handles other = pool.handles other := by
  cases there : pool.handles this with
  | none =>
    rw [Pool.step, Pool.get, there] at threw
    cases threw
    rfl
  | some handle =>
    cases origin : pool.handles other with
    | none =>
      rw [Pool.step, Pool.get, Pool.get, there, origin] at threw
      cases threw
      exact origin
    | some source =>
      by_cases same : this = other
      · simp only [Pool.step, Pool.get, there, origin, bind, Except.bind] at threw
        rw [if_neg (not_not.mpr same)] at threw
        cases threw
      · rcases moveAssign_step f same there origin with ⟨_, _, worked, _⟩ | ⟨_, here, _, worked, _⟩
        · rw [worked] at threw
          cases threw
        · rw [worked] at threw
          cases threw
          exact (Function.update_of_ne (Ne.symm same) _ _).trans origin

/-- The steps of a program that hands over what it owns and spares the spoiled handles. -/
def Sparing (f : Functors T As E) (watched after : Watched T As) : Prop :=
  ∃ action : Action T As, action.Managed ∧ watched.Owned action ∧ watched.Spares action ∧
    watched.next f action = some after

/-- No value is given to `Drop` twice, and a move assignment that an exception interrupts
leaves its source as it was, as long as no handle drops a value that an exception left
behind, be it moved there since; where one does, `Drop` gets the value a second time. -/
theorem runs_droppedOnce (f : Functors T As E) {watched : Watched T As}
    (reached : Reachable (· = empty) (Sparing f) watched) :
    watched.pool.calls.spent.Nodup ∧
      (∀ this other stop after, watched.pool.step f (.moveAssign this other) = .error (stop, after) →
        after.handles other = watched.pool.handles other) ∧
      ∀ action after, watched.next f action = some after → ¬ watched.Spares action →
        ¬ after.pool.calls.spent.Nodup := by
  have sound : Sound watched := by
    refine reached.invariant ?_ ?_
    · rintro watched rfl
      exact Once.start
    · rintro watched after sound ⟨action, managed, owned, spares, stepped⟩
      exact sound.step managed owned spares stepped
  exact ⟨sound.once, fun _ _ _ _ => moveAssign_keeps, fun _ _ stepped wasted => sound.again wasted stepped⟩

/-- The first call of `Drop` throws. -/
def failing : Functors Nat Unit Unit where
  drop count _ as := (as, if count = 0 then some () else none)
  ref _ v as := (as, .ok v)
  moved as := as

theorem runs_droppedOnce_released :
    ∃ watched : Watched Nat Unit, watched.pool.calls.spent = [7] ∧ watched.pool.calls.spent.Nodup := by
  let one := (empty.next failing (.construct 0 (some 7) ())).get rfl
  let two := (one.next failing (.construct 1 none ())).get rfl
  let three := (two.next failing (.moveAssign 0 1)).get rfl
  let four := (three.next failing (.release 0)).get rfl
  let five := (four.next failing (.destroy 0)).get rfl
  have new : (empty : Watched Nat Unit).Owned (.construct 0 (some 7) ()) := fun t _ => ⟨fun k => nofun, nofun⟩
  have made : Reachable (· = empty) (Sparing failing) one :=
    .step (.start rfl) ⟨.construct 0 (some 7) (), trivial, new, nofun, rfl⟩
  have another : Reachable (· = empty) (Sparing failing) two :=
    .step made ⟨.construct 1 none (), trivial, nofun, nofun, rfl⟩
  have interrupted : Reachable (· = empty) (Sparing failing) three :=
    .step another ⟨.moveAssign 0 1, trivial, trivial, by rintro _ ⟨⟩; rfl, rfl⟩
  have released : Reachable (· = empty) (Sparing failing) four :=
    .step interrupted ⟨.release 0, trivial, trivial, nofun, rfl⟩
  have reached : Reachable (· = empty) (Sparing failing) five :=
    .step released ⟨.destroy 0, trivial, trivial, by rintro _ ⟨⟩; rfl, rfl⟩
  exact ⟨five, rfl, (runs_droppedOnce failing reached).1⟩

/-- A reset that throws, and then the destructor. -/
theorem runs_dropsAgain : (Pool.run failing [.construct 0 (some 7) (), .reset 0 none, .destroy 0]).map
    (fun pool => pool.calls.spent) = some [7, 7] := rfl

end Watched

end Stdplus.Handle
