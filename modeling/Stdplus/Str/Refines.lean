import Stdplus.Base.Transition
import Stdplus.Str.Pool

namespace Stdplus.Str

open Stdplus.Base Store

variable {l : Layout} {A σ : Type}

namespace Pool

/-- The block an object has to free. -/
def owner (pool : Pool l A) (this : Nat) : Option Nat := (pool.objs this).bind (owns l ·.store)

/-- Objects that are assigned have equal allocators, as those of `std::allocator` always
are: whether an assignment propagates them makes no difference. -/
def Matched (pool : Pool l A) : Action l A → Prop
  | .moveAssign this other | .copyAssign this other _ => ∀ buf source, pool.objs this = some buf →
      pool.objs other = some source → buf.allocator = source.allocator
  | _ => True

/-- The objects hold what the lists say, and share no block. -/
structure Represents (pool : Pool l A) (strings : Strings l) : Prop where
  holds : ∀ this buf, pool.objs this = some buf → ∃ chars, strings this = some chars ∧
    Holds pool.heap buf chars
  absent : ∀ this, pool.objs this = none → strings this = none
  unique : ∀ this other p, pool.owner this = some p → pool.owner other = some p → this = other
  owned : ∀ p, pool.heap p ≠ none → ∃ this, pool.owner this = some p

namespace Represents

variable {pool : Pool l A} {strings : Strings l}

theorem empty : Represents (Pool.empty : Pool l A) (fun _ => none) where
  holds this buf found := by cases found
  absent _ _ := rfl
  unique this other p found := by cases found
  owned p found := absurd rfl found

theorem found {this : Nat} (represents : Represents pool strings) {chars : List l.Char}
    (given : strings this = some chars) :
    ∃ buf, pool.objs this = some buf ∧ Holds pool.heap buf chars := by
  cases object : pool.objs this with
  | none =>
    rw [represents.absent this object] at given
    cases given
  | some buf =>
    obtain ⟨held, same, holds⟩ := represents.holds this buf object
    rw [given, Option.some.injEq] at same
    exact ⟨buf, rfl, same ▸ holds⟩

private theorem raw {this : Nat} (represents : Represents pool strings) (free : strings this = none) :
    pool.objs this = none := by
  cases object : pool.objs this with
  | none => rfl
  | some buf =>
    obtain ⟨held, same, _⟩ := represents.holds this buf object
    rw [free] at same
    cases same

private theorem allocated {this p : Nat} (represents : Represents pool strings)
    (owner : pool.owner this = some p) : pool.heap p ≠ none := by
  obtain ⟨buf, object, same⟩ := Option.bind_eq_some_iff.mp owner
  obtain ⟨_, _, holds⟩ := represents.holds this buf object
  cases holds with
  | inline inline =>
    rw [inline.owns] at same
    cases same
  | dynamic dynamic =>
    rw [dynamic.owns, Option.some.injEq] at same
    rw [← same, dynamic.found]
    exact Option.some_ne_none _

private theorem owner_update (objs : Nat → Option (StrBuf A)) (heap : Heap l A) (this : Nat)
    (object : Option (StrBuf A)) (other : Nat) :
    ({ objs := Function.update objs this object, heap := heap } : Pool l A).owner other =
      if other = this then object.bind (owns l ·.store) else (objs other).bind (owns l ·.store) := by
  rw [Pool.owner]
  by_cases same : other = this
  · rw [if_pos same, same]
    simp
  · rw [if_neg same]
    simp [same]

theorem change (represents : Represents pool strings) (this : Nat) (object : Option (StrBuf A))
    (content : Option (List l.Char)) (heap : Heap l A)
    (changed : Changed pool.heap heap (pool.owner this) (object.bind (owns l ·.store)))
    (holds : ∀ buf, object = some buf → ∃ chars, content = some chars ∧ Holds heap buf chars)
    (absent : object = none → content = none) :
    Represents { objs := Function.update pool.objs this object, heap := heap }
      (Function.update strings this content) where
  holds other buf found := by
    by_cases same : other = this
    · subst same
      simp only [Function.update_self] at found ⊢
      exact holds buf found
    · simp only [Function.update_of_ne same] at found ⊢
      obtain ⟨chars, given, held⟩ := represents.holds other buf found
      refine ⟨chars, given, held.frame fun p owned => changed.other p ?_ ?_⟩
      · intro before
        exact same (represents.unique other this p (by rw [owner, found]; exact owned) before)
      · intro after
        have owns : pool.owner other = some p := by
          rw [owner, found]
          exact owned
        refine represents.allocated owns (changed.fresh p after fun before => ?_)
        exact same (represents.unique other this p (by rw [owner, found]; exact owned) before)
  absent other gone := by
    by_cases same : other = this
    · subst same
      simp only [Function.update_self] at gone ⊢
      exact absent gone
    · simp only [Function.update_of_ne same] at gone ⊢
      exact represents.absent other gone
  unique first second p first_owns second_owns := by
    rw [owner_update] at first_owns second_owns
    have clash (other : Nat) (differ : other ≠ this) (after : object.bind (owns l ·.store) = some p)
        (owns : pool.owner other = some p) : False := by
      refine represents.allocated owns (changed.fresh p after fun before => ?_)
      exact differ (represents.unique other this p owns before)
    split at first_owns <;> split at second_owns
    · rename_i one two
      exact one.trans two.symm
    · rename_i one two
      exact (clash second two first_owns second_owns).elim
    · rename_i one two
      exact (clash first one second_owns first_owns).elim
    · exact represents.unique first second p first_owns second_owns
  owned p there := by
    by_cases after : object.bind (owns l ·.store) = some p
    · exact ⟨this, by rw [owner_update, if_pos rfl]; exact after⟩
    · by_cases before : pool.owner this = some p
      · exact absurd (changed.freed p before after) there
      · have same := changed.other p before after
        obtain ⟨other, owns⟩ := represents.owned p (same ▸ there)
        have differ : other ≠ this := fun equal => before (equal ▸ owns)
        exact ⟨other, by rw [owner_update, if_neg differ]; exact owns⟩

private theorem transfer (represents : Represents pool strings) {this other : Nat} (differ : this ≠ other)
    {source : StrBuf A} (next rest : StrBuf A) (chars : List l.Char) (object : pool.objs other = some source)
    (gone : pool.owner this = none) (taken : owns l next.store = owns l source.store)
    (left : owns l rest.store = none) (holds : Holds pool.heap next chars) (empty : Holds pool.heap rest []) :
    Represents
      { objs := Function.update (Function.update pool.objs this (some next)) other (some rest)
        heap := pool.heap }
      (Function.update (Function.update strings this (some chars)) other (some [])) := by
  have owners (k : Nat) : ({ objs := Function.update (Function.update pool.objs this (some next)) other (some rest)
                             heap := pool.heap } : Pool l A).owner k =
      if k = other then none else if k = this then pool.owner other else pool.owner k := by
    rw [owner_update]
    split
    · simp [left]
    · exact (owner_update pool.objs pool.heap this (some next) k).trans (by
        rw [Option.bind_some, taken, owner, object, Option.bind_some]
        rfl)
  refine ⟨?_, ?_, ?_, ?_⟩
  · intro k buf found
    by_cases last : k = other
    · subst last
      simp only [Function.update_self, Option.some.injEq] at found ⊢
      exact ⟨[], rfl, found ▸ empty⟩
    · by_cases first : k = this
      · subst first
        simp only [Function.update_of_ne last, Function.update_self, Option.some.injEq] at found ⊢
        exact ⟨chars, rfl, found ▸ holds⟩
      · simp only [Function.update_of_ne last, Function.update_of_ne first] at found ⊢
        exact represents.holds k buf found
  · intro k gone
    by_cases last : k = other
    · subst last
      simp at gone
    · by_cases first : k = this
      · subst first
        simp [last] at gone
      · simp only [Function.update_of_ne last, Function.update_of_ne first] at gone ⊢
        exact represents.absent k gone
  · intro first second p first_owns second_owns
    rw [owners] at first_owns second_owns
    have unique := represents.unique
    split at first_owns
    · cases first_owns
    · split at second_owns
      · cases second_owns
      · rename_i first_not second_not
        split at first_owns <;> split at second_owns
        · rename_i one two
          exact one.trans two.symm
        · exact absurd (unique _ _ p second_owns first_owns) second_not
        · exact absurd (unique _ _ p first_owns second_owns) first_not
        · exact unique _ _ p first_owns second_owns
  · intro p there
    obtain ⟨k, owns⟩ := represents.owned p there
    by_cases last : k = other
    · exact ⟨this, by rw [owners, if_neg differ, if_pos rfl, ← last]; exact owns⟩
    · have second : k ≠ this := by
        intro same
        rw [same, gone] at owns
        cases owns
      exact ⟨k, by rw [owners, if_neg last, if_neg second]; exact owns⟩

private theorem becomes (represents : Represents pool strings) {this : Nat} {buf : StrBuf A}
    (object : pool.objs this = some buf) {next : Here l A} {chars : List l.Char}
    (becomes : Becomes { buf with heap := pool.heap } next chars) :
    Represents (pool.put this next) (Function.update strings this (some chars)) := by
  refine represents.change this _ _ _ ?_ ?_ (fun none => by cases none)
  · rw [owner, object]
    exact becomes.changed
  · intro made same
    cases same
    exact ⟨chars, rfl, becomes.holds⟩

private theorem gives (represents : Represents pool strings) {this : Nat} {buf : StrBuf A}
    (object : pool.objs this = some buf) {outcome : Except (Stop (Here l A)) (Here l A)}
    {chars : List l.Char} (gives : Here.Gives { buf with heap := pool.heap } outcome chars) :
    (∃ next, pool.within this outcome = .ok next ∧
        Represents next (Function.update strings this (some chars))) ∨
      ∃ left, pool.within this outcome = .error (.thrown left) := by
  rcases gives with ⟨next, rfl, becomes⟩ | ⟨left, rfl⟩
  · exact .inl ⟨_, rfl, represents.becomes object becomes⟩
  · exact .inr ⟨_, rfl⟩

private theorem init_inline (a : A) (raw : Store) : Inline (l := l) (StrBuf.init l a raw) [] := by
  have set := inlLen_setInlLen (Nat.zero_le l.buf_len) raw
  exact ⟨set.2, set.1, Nat.zero_le _, rfl⟩

theorem owner_of {this : Nat} {buf : StrBuf A} (object : pool.objs this = some buf) :
    pool.owner this = owns l buf.store := by rw [owner, object, Option.bind_some]

private theorem apart (represents : Represents pool strings) {this other : Nat} (differ : this ≠ other)
    {buf source : StrBuf A} (own : pool.owner this = owns l buf.store)
    (object : pool.objs other = some source) (p : Nat) (mine : owns l buf.store = some p) :
    owns l source.store ≠ some p := by
  intro theirs
  exact differ (represents.unique this other p (own.trans mine) ((owner_of object).trans theirs))

theorem used (represents : Represents pool strings) {this : Nat} {later : Strings l}
    {meaning : List l.Char → Option (Strings l)}
    (means : (strings this).bind meaning = some later) :
    ∃ chars buf, strings this = some chars ∧ pool.objs this = some buf ∧ Holds pool.heap buf chars ∧
      meaning chars = some later := by
  obtain ⟨chars, given, same⟩ := Option.bind_eq_some_iff.mp means
  obtain ⟨buf, object, holds⟩ := represents.found given
  exact ⟨chars, buf, given, object, holds, same⟩

variable [DecidableEq A]

private theorem moved (represents : Represents pool strings) {this other : Nat} (differ : this ≠ other)
    {buf source : StrBuf A} {held chars : List l.Char} (own : pool.owner this = owns l buf.store)
    (object : pool.objs other = some source) (holds : Holds pool.heap buf held)
    (holds' : Holds pool.heap source chars) (same : buf.allocator = source.allocator) (assign : Bool)
    (raw : assign = false → isDyn l buf.store = false) :
    ∃ next rest, Here.move assign source { buf with heap := pool.heap } =
        (.ok (next, rest) : Except (Stop σ) _) ∧
      Represents { pool.put this next with objs := Function.update (pool.put this next).objs other (some rest) }
        (Function.update (Function.update strings this (some chars)) other (some [])) := by
  obtain ⟨next, working, _, now, blocks⟩ := Here.move_spec (σ := σ) { buf with heap := pool.heap }
    holds holds' (represents.apart differ own object) same raw
  have cleared := inlLen_setInlLen (Nat.zero_le l.buf_len) source.store
  have rest : Inline (l := l) { source with store := zeroInit l source.store } [] :=
    ⟨cleared.2, cleared.1, Nat.zero_le _, rfl⟩
  refine ⟨next, _, working, ?_⟩
  rcases blocks with ⟨none_owned, changed⟩ | ⟨taken, changed⟩
  · have filled := represents.change this (some next.toStrBuf) (some chars) next.heap (by rw [own]; exact changed)
      (fun made same => by cases same; exact ⟨chars, rfl, now⟩) (fun none => by cases none)
    refine filled.change other (some { source with store := zeroInit l source.store }) (some []) next.heap ?_
      (fun made same => by cases same; exact ⟨[], rfl, .inline rest⟩) (fun none => by cases none)
    rw [owner_update, if_neg differ.symm, object, Option.bind_some, Option.bind_some, none_owned, rest.owns]
    exact Changed.refl _ _
  · have freed := represents.change this none none next.heap (by rw [own]; exact changed)
      (fun made same => by cases same) (fun _ => rfl)
    have after := freed.transfer differ next.toStrBuf { source with store := zeroInit l source.store } chars
      (by simpa [Function.update_of_ne differ.symm] using object) (by rw [owner_update, if_pos rfl]; rfl)
      taken rest.owns now (.inline rest)
    rwa [Function.update_idem, Function.update_idem] at after

theorem destroyed (represents : Represents pool strings) {this : Nat} {buf : StrBuf A}
    {chars : List l.Char} (object : pool.objs this = some buf) (holds : Holds pool.heap buf chars) :
    ∃ heap, Here.destroy { buf with heap := pool.heap } = (.ok heap : Except (Stop σ) _) ∧
      Represents { objs := Function.update pool.objs this none, heap := heap }
        (Function.update strings this none) := by
  cases holds with
  | inline inline =>
    refine ⟨pool.heap, by simp [Here.destroy, inline.untagged], ?_⟩
    refine represents.change this _ _ _ ?_ (fun made same => by cases same) (fun _ => rfl)
    rw [owner_of object, inline.owns]
    exact Changed.refl _ _
  | dynamic dynamic =>
    have freed := Here.deallocate_ok (σ := σ) { buf with heap := pool.heap } dynamic
    refine ⟨_, by simp only [Here.destroy, dynamic.tagged, if_true]; exact freed, ?_⟩
    refine represents.change this _ _ _ ?_ (fun made same => by cases same) (fun _ => rfl)
    rw [owner_of object, dynamic.owns]
    exact Changed.dealloc _ _

/-- The action works and leaves what is meant, or the allocator throws. -/
private def Follows (traits : Traits A) (action : Action l A) (pool : Pool l A) (later : Strings l) : Prop :=
  (∃ next, Pool.step traits action pool = .ok next ∧ Represents next later) ∨
    ∃ left, Pool.step traits action pool = .error (.thrown left)

variable {later : Strings l} {this other : Nat}

private theorem construct_follows {a : A} {raw : Store} (represents : Represents pool strings) (traits : Traits A)
    (means : strings.step (.construct this a raw : Action l A) = some later) :
    Follows traits (.construct this a raw) pool later := by
  simp only [Strings.step] at means
  split at means
  · rename_i free
    cases means
    have absent := represents.raw free
    have inline := init_inline (l := l) a raw
    refine .inl ⟨pool.put this { StrBuf.init l a raw with heap := pool.heap },
      by simp only [Pool.step, Pool.raw, absent, bind, Except.bind], ?_⟩
    refine represents.change this _ _ _ ?_ (fun made same => by cases same; exact ⟨[], rfl, .inline inline⟩)
      (fun none => by cases none)
    rw [owner, absent, Option.bind_some, inline.owns]
    exact Changed.refl _ _
  · cases means

private theorem append_follows {more : List l.Char} {grant : Option (Grant l)} (represents : Represents pool strings)
    (traits : Traits A)
    (means : strings.step (.append this more grant : Action l A) = some later) :
    Follows traits (.append this more grant) pool later := by
  obtain ⟨chars, buf, _, object, holds, meaning⟩ := represents.used means
  split at meaning
  · rename_i small
    cases meaning
    simp only [Follows, Pool.step, get, object, bind, Except.bind]
    exact represents.gives object (Here.appendRange_spec holds small grant)
  · cases meaning

private theorem push_back_follows {c : l.Char} {grant : Option (Grant l)} (represents : Represents pool strings)
    (traits : Traits A)
    (means : strings.step (.push_back this c grant : Action l A) = some later) :
    Follows traits (.push_back this c grant) pool later := by
  obtain ⟨chars, buf, _, object, holds, meaning⟩ := represents.used means
  split at meaning
  · rename_i small
    cases meaning
    simp only [Follows, Pool.step, get, object, bind, Except.bind]
    exact represents.gives object (Here.push_back_spec holds small c grant)
  · cases meaning

private theorem shrink_follows {amt : Nat} (represents : Represents pool strings) (traits : Traits A)
    (means : strings.step (.shrink this amt : Action l A) = some later) :
    Follows traits (.shrink this amt) pool later := by
  obtain ⟨chars, buf, _, object, holds, meaning⟩ := represents.used means
  split at meaning
  · rename_i inside
    cases meaning
    refine .inl ⟨_, by simp only [Pool.step, get, object, bind, Except.bind]; rfl, ?_⟩
    exact represents.becomes object (Here.shrink_spec holds inside)
  · cases meaning

private theorem clear_follows (represents : Represents pool strings) (traits : Traits A)
    (means : strings.step (.clear this : Action l A) = some later) :
    Follows traits (.clear this) pool later := by
  obtain ⟨chars, buf, _, object, holds, meaning⟩ := represents.used means
  cases meaning
  refine .inl ⟨_, by simp only [Pool.step, get, object, bind, Except.bind]; rfl, ?_⟩
  exact represents.becomes object (Here.clear_spec holds)

private theorem moveConstruct_follows {raw : Store} (represents : Represents pool strings) (traits : Traits A)
    (means : strings.step (.moveConstruct this other raw : Action l A) = some later) :
    Follows traits (.moveConstruct this other raw) pool later := by
  simp only [Strings.step] at means
  split at means
  · rename_i chars free given
    cases means
    have absent := represents.raw free
    obtain ⟨source, object, holds⟩ := represents.found given
    have differ : this ≠ other := by
      intro same
      rw [same, given] at free
      cases free
    have inline := init_inline (l := l) source.allocator raw
    obtain ⟨next, rest, working, after⟩ := represents.moved (σ := Pool l A) differ
      (by rw [owner, absent]; exact inline.owns.symm) object (.inline inline) holds rfl false
      (fun _ => inline.untagged)
    exact .inl ⟨_, by simp only [Pool.step, Pool.raw, absent, get, object, working, bind, Except.bind], after⟩
  · cases means

private theorem copyConstruct_follows {raw : Store} {grant : Option (Grant l)} (represents : Represents pool strings)
    (traits : Traits A)
    (means : strings.step (.copyConstruct this other raw grant : Action l A) = some later) :
    Follows traits (.copyConstruct this other raw grant) pool later := by
  simp only [Strings.step] at means
  split at means
  · rename_i chars free given
    cases means
    have absent := represents.raw free
    obtain ⟨source, object, holds⟩ := represents.found given
    have inline := init_inline (l := l) (traits.select_on_container_copy_construction source.allocator) raw
    have fresh (p : Nat) (mine : owns l (StrBuf.init l
        (traits.select_on_container_copy_construction source.allocator) raw).store = some p) :
        owns l source.store ≠ some p := by
      rw [inline.owns] at mine
      cases mine
    rcases Here.copy_spec { StrBuf.init l
        (traits.select_on_container_copy_construction source.allocator) raw with heap := pool.heap }
      (.inline inline) holds fresh false (fun _ => inline.untagged) grant with
      ⟨next, copied, becomes⟩ | ⟨left, thrown⟩
    · refine .inl ⟨pool.put this next,
        by simp only [Pool.step, Pool.raw, absent, get, object, copied, bind, Except.bind], ?_⟩
      refine represents.change this _ _ _ ?_
        (fun made same => by cases same; exact ⟨chars, rfl, becomes.holds⟩) (fun none => by cases none)
      have changed := becomes.changed
      rw [inline.owns] at changed
      rw [owner, absent]
      exact changed
    · exact .inr ⟨{ pool with heap := left.heap },
        by simp only [Pool.step, Pool.raw, absent, get, object, thrown, bind, Except.bind]⟩
  · cases means

private theorem moveAssign_follows (represents : Represents pool strings) (traits : Traits A)
    (matched : pool.Matched (.moveAssign this other))
    (means : strings.step (.moveAssign this other : Action l A) = some later) :
    Follows traits (.moveAssign this other) pool later := by
  simp only [Strings.step] at means
  split at means
  · rename_i held chars given given'
    obtain ⟨buf, object, holds⟩ := represents.found given
    obtain ⟨source, object', holds'⟩ := represents.found given'
    split at means
    · rename_i same
      cases means
      exact .inl ⟨pool, by simp only [Pool.step, get, object', same, ne_eq, not_true_eq_false, if_false,
        bind, Except.bind], represents⟩
    · rename_i differ
      cases means
      obtain ⟨next, rest, working, after⟩ := represents.moved (σ := Pool l A) differ (owner_of object)
        object' holds holds' (matched buf source object object') true (fun constructs => by cases constructs)
      have same : ({ buf with allocator := source.allocator } : StrBuf A) = buf := by
        rw [← matched buf source object object']
      refine .inl ⟨_, ?_, after⟩
      simp only [Pool.step, get, object, object', ne_eq, differ, not_false_eq_true, if_true, same, ite_self,
        working, bind, Except.bind]
  · cases means

private theorem copyAssign_follows {grant : Option (Grant l)} (represents : Represents pool strings)
    (traits : Traits A)
    (means : strings.step (.copyAssign this other grant : Action l A) = some later) :
    Follows traits (.copyAssign this other grant) pool later := by
  simp only [Strings.step] at means
  split at means
  · rename_i held chars given given'
    obtain ⟨buf, object, holds⟩ := represents.found given
    obtain ⟨source, object', holds'⟩ := represents.found given'
    split at means
    · rename_i same
      cases means
      exact .inl ⟨pool, by simp only [Pool.step, get, object', same, ne_eq, not_true_eq_false, if_false,
        bind, Except.bind], represents⟩
    · rename_i differ
      cases means
      simp only [Follows, Pool.step, get, object, object', ne_eq, differ, not_false_eq_true, if_true, bind,
        Except.bind]
      exact represents.gives object (Here.copy_spec _ holds holds'
        (represents.apart differ (owner_of object) object') true (fun constructs => by cases constructs) grant)
  · cases means

private theorem destroy_follows (represents : Represents pool strings) (traits : Traits A)
    (means : strings.step (.destroy this : Action l A) = some later) :
    Follows traits (.destroy this) pool later := by
  obtain ⟨chars, buf, _, object, holds, meaning⟩ := represents.used means
  cases meaning
  obtain ⟨heap, freed, after⟩ := represents.destroyed (σ := Pool l A) object holds
  exact .inl ⟨_, by simp only [Pool.step, get, object, freed, bind, Except.bind], after⟩

theorem step (represents : Represents pool strings) (traits : Traits A)
    {action : Action l A} {later : Strings l} (means : strings.step action = some later)
    (matched : pool.Matched action) :
    (∃ next, Pool.step traits action pool = .ok next ∧ Represents next later) ∨
      ∃ left, Pool.step traits action pool = .error (.thrown left) := by
  cases action with
  | construct => exact represents.construct_follows traits means
  | append => exact represents.append_follows traits means
  | push_back => exact represents.push_back_follows traits means
  | shrink => exact represents.shrink_follows traits means
  | clear => exact represents.clear_follows traits means
  | moveConstruct => exact represents.moveConstruct_follows traits means
  | copyConstruct => exact represents.copyConstruct_follows traits means
  | moveAssign => exact represents.moveAssign_follows traits matched means
  | copyAssign => exact represents.copyAssign_follows traits means
  | destroy => exact represents.destroy_follows traits means

end Represents

/-- What can be seen of the objects and the heap. -/
structure Shows (pool : Pool l A) (strings : Strings l) : Prop where
  live : ∀ this, (pool.objs this).isSome = (strings this).isSome
  chars : ∀ this buf, pool.objs this = some buf → ∃ chars, strings this = some chars ∧
    Here.size (l := l) buf = chars.length ∧
    Here.view { buf with heap := pool.heap } = (.ok chars : Except (Stop Unit) _)
  room : ∀ this buf, pool.objs this = some buf → isDyn l buf.store = true →
    l.buf_len < getDyn l .cap buf.store ∧ dynLen l buf.store ≤ getDyn l .cap buf.store
  owned : ∀ p, pool.heap p ≠ none ↔ ∃! this, pool.owner this = some p

theorem Represents.shows {pool : Pool l A} {strings : Strings l} (represents : Represents pool strings) :
    Shows pool strings where
  live this := by
    cases object : pool.objs this with
    | none =>
      rw [represents.absent this object]
      rfl
    | some buf =>
      obtain ⟨chars, given, _⟩ := represents.holds this buf object
      rw [given]
      rfl
  chars this buf object := by
    obtain ⟨chars, given, holds⟩ := represents.holds this buf object
    have seen := Holds.view (σ := Unit) { buf with heap := pool.heap } holds
    exact ⟨chars, given, seen.1, seen.2⟩
  room this buf object tagged := by
    obtain ⟨chars, _, holds⟩ := represents.holds this buf object
    cases holds with
    | inline inline =>
      rw [inline.untagged] at tagged
      cases tagged
    | dynamic dynamic =>
      rw [← dynamic.cap, dynamic.len]
      exact ⟨dynamic.large, dynamic.fits⟩
  owned p := by
    constructor
    · intro there
      obtain ⟨this, owns⟩ := represents.owned p there
      exact ⟨this, owns, fun other owns' => represents.unique other this p owns' owns⟩
    · rintro ⟨this, owns, _⟩
      exact represents.allocated owns

theorem matched [Subsingleton A] (pool : Pool l A) (action : Action l A) : pool.Matched action := by
  cases action with
  | moveAssign this other => exact fun _ _ _ _ => Subsingleton.elim _ _
  | copyAssign this other grant => exact fun _ _ _ _ => Subsingleton.elim _ _
  | _ => trivial

variable [DecidableEq A] [Subsingleton A]

/-- A program that uses its buffers as it may, and gets every block it asks for,
sees the lists of characters it means, and nothing is leaked or freed twice. -/
theorem run_shows (traits : Traits A) {actions : List (Action l A)} {strings : Strings l}
    (means : Strings.run actions = some strings)
    (granted : ∀ left, run traits actions ≠ .error (.thrown left)) :
    ∃ pool, run traits actions = .ok pool ∧ Shows pool strings := by
  let throws (outcome : Except (Stop (Pool l A)) (Pool l A)) : Prop := ∃ left, outcome = .error (.thrown left)
  have stays (outcome : Except (Stop (Pool l A)) (Pool l A)) (rest : Pool l A → Except (Stop (Pool l A)) (Pool l A))
      (thrown : throws outcome) : throws (outcome >>= rest) := by
    obtain ⟨left, rfl⟩ := thrown
    exact ⟨left, rfl⟩
  rcases foldlM_follows throws stays
    (fun pool _ action _ represents meaning => represents.step traits meaning (pool.matched action)) actions
    Represents.empty means with ⟨pool, working, represents⟩ | ⟨left, thrown⟩
  · exact ⟨pool, working, represents.shows⟩
  · exact absurd thrown (granted left)

/-- `BasicStrBuf<char, 24>`: 23 inline characters. -/
def smallest : Layout where
  order := .little
  charSize := 1
  objSize := 24
  allocSize := 0
  charSize_pos := by decide
  charSize_le := by decide
  buf_len_half := by decide
  little_rsvd := by decide
  little_ends := by decide
  big_size := by decide

/-- One buffer grows into a block, which moves on and is copied. -/
def grows : List (Action smallest Unit) :=
  [.construct 0 () (fun _ => 255), .append 0 (List.replicate 20 65) none,
    .append 0 [66, 67, 68, 69] (some ⟨4096, fun _ => 0⟩), .construct 1 () (fun _ => 0),
    .push_back 1 70 none, .moveAssign 1 0, .moveAssign 1 1, .shrink 1 21,
    .copyConstruct 2 1 (fun _ => 255) none, .destroy 1]

theorem run_shows_grows :
    ∃ pool strings, run ⟨true, id⟩ grows = .ok pool ∧ Shows pool strings ∧ strings 0 = some [] ∧
      strings 1 = none ∧ strings 2 = some [65, 65, 65] := by
  have meaning : (Strings.run grows).map (fun strings => (strings 0, strings 1, strings 2)) =
      some (some [], none, some [65, 65, 65]) := by decide
  obtain ⟨strings, means, seen⟩ := Option.map_eq_some_iff.mp meaning
  simp only [Prod.mk.injEq] at seen
  have working : (run ⟨true, id⟩ grows).isOk = true := by decide +kernel
  obtain ⟨pool, ran, shows⟩ := run_shows ⟨true, id⟩ means (fun left thrown => by
    rw [thrown] at working
    cases working)
  exact ⟨pool, strings, ran, shows, seen⟩

end Pool

end Stdplus.Str
