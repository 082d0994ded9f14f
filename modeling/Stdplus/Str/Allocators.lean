import Stdplus.Str.Failed

/-! Buffers whose allocators differ: a block goes back to the one it came from unless a move
assignment parts them. -/

namespace Stdplus.Str

open Stdplus.Base Store

variable {l : Layout} {A σ : Type}

def Action.moves : Action l A → Bool
  | .construct .. | .append .. | .moveConstruct .. | .moveAssign .. | .destroy .. => true
  | _ => false

namespace Pool

/-- A move assignment between objects whose allocators differ takes neither a block from
the allocator of the destination nor one from that of the source: a propagated allocator
comes to no block, or no block comes to an allocator that stays. -/
def Paired (traits : Traits A) (pool : Pool l A) : Action l A → Prop
  | .moveAssign this other => this ≠ other → ∀ buf source, pool.objs this = some buf →
      pool.objs other = some source → buf.allocator = source.allocator ∨
        if traits.propagate_on_container_move_assignment then isDyn l buf.store = false
        else isDyn l source.store = false
  | _ => True

/-- Every dynamic buffer has a block of its allocator and of its capacity, and every block
is that of one object. -/
structure Tidy (pool : Pool l A) : Prop where
  paired : ∀ this buf, pool.objs this = some buf → isDyn l buf.store = true → ∃ block,
    pool.heap (getDyn l .ptr buf.store) = some block ∧ block.owner = buf.allocator ∧
      block.chars.length = getDyn l .cap buf.store
  owned : ∀ p, pool.heap p ≠ none → ∃! this, pool.owner this = some p

/-- An operation works, or throws, and the pool is tidy after it. -/
def Keeps : Except (Stop (Pool l A)) (Pool l A) → Prop
  | .ok next => Tidy next
  | .error (.thrown left) => Tidy left
  | .error .bad => False

theorem Represents.tidy {pool : Pool l A} {strings : Strings l} (represents : Represents pool strings) :
    Tidy pool where
  paired this buf object tagged := by
    obtain ⟨chars, _, holds⟩ := represents.holds this buf object
    cases holds with
    | inline inline =>
      rw [inline.untagged] at tagged
      cases tagged
    | dynamic dynamic => exact ⟨_, dynamic.found, dynamic.owner, dynamic.cap⟩
  owned p there := (represents.shows.owned p).mp there

theorem Represents.reallocate {pool : Pool l A} {strings : Strings l} (represents : Represents pool strings)
    {this : Nat} {buf : StrBuf A} (object : pool.objs this = some buf) (untagged : isDyn l buf.store = false)
    (a : A) :
    Represents { pool with objs := Function.update pool.objs this (some { buf with allocator := a }) } strings := by
  obtain ⟨chars, given, holds⟩ := represents.holds this buf object
  cases holds with
  | dynamic dynamic =>
    rw [dynamic.tagged] at untagged
    cases untagged
  | inline inline =>
    have same : Function.update strings this (some chars) = strings := by
      rw [← given, Function.update_eq_self]
    rw [← same]
    refine represents.change this _ _ _ ?_ ?_ (fun none => by cases none)
    · rw [Represents.owner_of object]
      exact Changed.refl _ _
    · intro made equal
      cases equal
      exact ⟨chars, rfl, .inline ⟨inline.untagged, inline.len, inline.fits, inline.front⟩⟩

variable [DecidableEq A] {pool : Pool l A} {strings later : Strings l} {traits : Traits A} {this other : Nat}
variable {buf source : StrBuf A}

theorem step_moveAssign (object : pool.objs this = some buf) (object' : pool.objs other = some source)
    (differ : this ≠ other) :
    step traits (.moveAssign this other) pool = (do
      let (here, rest) ← Here.move true source
        { buf with
          allocator := if traits.propagate_on_container_move_assignment then source.allocator else buf.allocator
          heap := pool.heap }
      .ok { pool.put this here with objs := Function.update (pool.put this here).objs other (some rest) }) := by
  simp only [step, get, object, object', bind, Except.bind, ne_eq, differ, not_false_eq_true, if_true]
  cases traits.propagate_on_container_move_assignment <;> rfl

theorem step_propagated (object : pool.objs this = some buf) (object' : pool.objs other = some source)
    (differ : this ≠ other) (propagates : traits.propagate_on_container_move_assignment = true) (a : A) :
    step traits (.moveAssign this other)
      { pool with objs := Function.update pool.objs this (some { buf with allocator := a }) } =
        step traits (.moveAssign this other) pool := by
  rw [step_moveAssign object object' differ,
    step_moveAssign (Function.update_self _ _ _) ((Function.update_of_ne differ.symm _ _).trans object') differ]
  simp only [propagates, if_true, put, Function.update_idem]

omit [DecidableEq A] in
theorem move_inline (untagged : isDyn l source.store = false) (assign : Bool) (here : Here l A) [DecidableEq A] :
    (Here.move assign source here : Except (Stop σ) _) =
      (here.inlcopy assign source).map (·, { source with store := zeroInit l source.store }) := by
  rw [Here.move, untagged]
  simp only [Bool.false_eq_true, not_false_eq_true, if_true, bind, Except.bind]
  cases (here.inlcopy assign source : Except (Stop σ) (Here l A)) <;> rfl

omit [DecidableEq A] in
private theorem means_moveAssign (means : strings.step (.moveAssign this other : Action l A) = some later) :
    ∃ held chars, strings this = some held ∧ strings other = some chars := by
  simp only [Strings.step] at means
  split at means
  · rename_i held chars given given'
    exact ⟨held, chars, given, given'⟩
  · cases means

private theorem moveAssign_silent (object : pool.objs this = some buf) (object' : pool.objs other = some source)
    (differ : this ≠ other) (left : Pool l A) :
    step traits (.moveAssign this other) pool ≠ .error (.thrown left) := by
  rw [step_moveAssign object object' differ]
  exact (Here.silent_move _ _ _).bind (fun _ => silent_ok _) left

variable (traits) in
private theorem Represents.assign (represents : Represents pool strings)
    (means : strings.step (.moveAssign this other : Action l A) = some later)
    (object : pool.objs this = some buf) (object' : pool.objs other = some source) (differ : this ≠ other)
    (same : buf.allocator = source.allocator) :
    ∃ next, Pool.step traits (.moveAssign this other) pool = .ok next ∧ Represents next later := by
  have matched : pool.Matched (.moveAssign this other) := by
    intro one two found found'
    rw [object] at found
    rw [object'] at found'
    cases found
    cases found'
    exact same
  rcases represents.step traits means matched with works | ⟨left, thrown⟩
  · exact works
  · exact absurd thrown (moveAssign_silent object object' differ left)

theorem Represents.moveAssign (represents : Represents pool strings)
    (means : strings.step (.moveAssign this other : Action l A) = some later)
    (paired : Paired traits pool (.moveAssign this other)) :
    ∃ next, Pool.step traits (.moveAssign this other) pool = .ok next ∧ Represents next later := by
  obtain ⟨held, chars, given, given'⟩ := means_moveAssign means
  obtain ⟨buf, object, holds⟩ := represents.found given
  obtain ⟨source, object', holds'⟩ := represents.found given'
  by_cases differ : this ≠ other
  · rcases paired differ buf source object object' with same | apart
    · exact represents.assign traits means object object' differ same
    · cases propagates : traits.propagate_on_container_move_assignment with
      | true =>
        rw [propagates, if_pos rfl] at apart
        rw [← step_propagated object object' differ propagates source.allocator]
        exact (represents.reallocate object apart source.allocator).assign traits means
          (Function.update_self _ _ _) ((Function.update_of_ne differ.symm _ _).trans object') differ rfl
      | false =>
        rw [propagates, if_neg (by simp)] at apart
        obtain ⟨next, works, after⟩ := (represents.reallocate object' apart buf.allocator).assign
          traits means ((Function.update_of_ne differ _ _).trans object) (Function.update_self _ _ _) differ rfl
        have untagged : isDyn l ({ source with allocator := buf.allocator } : StrBuf A).store = false := apart
        rw [step_moveAssign ((Function.update_of_ne differ _ _).trans object) (Function.update_self _ _ _) differ,
          move_inline untagged] at works
        simp only [propagates, Bool.false_eq_true, if_false] at works
        have copies : (Here.inlcopy true { source with allocator := buf.allocator }
            { buf with heap := pool.heap } : Except (Stop (Pool l A)) (Here l A)) =
              Here.inlcopy true source { buf with heap := pool.heap } := rfl
        rw [copies] at works
        rw [step_moveAssign object object' differ, move_inline apart]
        simp only [propagates, Bool.false_eq_true, if_false]
        cases copied : (Here.inlcopy true source { buf with heap := pool.heap } :
            Except (Stop (Pool l A)) (Here l A)) with
        | error stop =>
          rw [copied] at works
          cases works
        | ok here =>
          rw [copied] at works
          cases works
          refine ⟨_, rfl, ?_⟩
          have cleared := inlLen_setInlLen (Nat.zero_le l.buf_len) source.store
          have restored := after.reallocate (Function.update_self _ _ _) cleared.2 source.allocator
          simp only [put, Function.update_idem] at restored ⊢
          rwa [Function.update_comm differ.symm, Function.update_idem] at restored
  · have same := not_not.mp differ
    simp only [Strings.step, given, given', if_pos same] at means
    cases means
    refine ⟨pool, ?_, represents⟩
    simp only [Pool.step, get, object', same, ne_eq, not_true_eq_false, if_false, bind, Except.bind]

omit [DecidableEq A] in
private theorem inlcopy_block {here next : Here l A} {block : Block l A} (tagged : isDyn l here.store = true)
    (found : here.heap (getDyn l .ptr here.store) = some block)
    (copied : here.inlcopy true source = (.ok next : Except (Stop σ) _)) :
    next.allocator = here.allocator ∧ isDyn l next.store = true ∧
      ∃ later, next.heap (getDyn l .ptr next.store) = some later ∧ later.owner = block.owner := by
  simp only [Here.inlcopy, readInl] at copied
  split at copied
  · rename_i fits
    simp only [tagged, and_self, if_true, getDyn_ptr_setDynLen, Heap.write, found, bind, Except.bind] at copied
    split at copied
    · cases copied
    · rename_i heap written
      cases copied
      split at written
      · cases written
        refine ⟨rfl, isDyn_setDynLen ?_ _, ?_⟩
        · have bound := buf_len_lt l
          omega
        · rw [getDyn_ptr_setDynLen]
          exact ⟨_, Function.update_self _ _ _, rfl⟩
      · cases written
  · cases copied

omit [DecidableEq A] in
private theorem not_tidy {next : Pool l A} {buf : StrBuf A} {block : Block l A} (object : next.objs this = some buf)
    (tagged : isDyn l buf.store = true) (found : next.heap (getDyn l .ptr buf.store) = some block)
    (apart : block.owner ≠ buf.allocator) : ¬ Tidy next := by
  intro tidy
  obtain ⟨held, there, owner, _⟩ := tidy.paired this buf object tagged
  rw [found] at there
  cases there
  exact apart owner

private theorem propagated_parts {chars : List l.Char} {block : Block l A}
    (dynamic : Dynamic pool.heap buf chars block) (object : pool.objs this = some buf)
    (object' : pool.objs other = some source) (differ : this ≠ other)
    (propagates : traits.propagate_on_container_move_assignment = true)
    (apart : buf.allocator ≠ source.allocator) :
    ¬ Keeps (step traits (.moveAssign this other) pool) := by
  have wrong : ¬ (block.owner = source.allocator ∧ block.chars.length = getDyn l .cap buf.store) := fun both =>
    apart (dynamic.owner.symm.trans both.1)
  rw [step_moveAssign object object' differ]
  simp only [propagates, if_true]
  cases tag : isDyn l source.store with
  | true =>
    simp only [Here.move, tag, dynamic.tagged, Heap.deallocate, dynamic.found, if_neg wrong, bind, Except.bind,
      not_true_eq_false, if_false, and_self, if_true]
    exact id
  | false =>
    rw [move_inline tag]
    cases copied : (Here.inlcopy true source { buf with allocator := source.allocator, heap := pool.heap } :
        Except (Stop (Pool l A)) (Here l A)) with
    | error stop =>
      cases stop with
      | bad => exact id
      | thrown left => exact absurd copied (Here.silent_inlcopy _ _ _ left)
    | ok next =>
      obtain ⟨allocator, tagged, later, found, owner⟩ := inlcopy_block dynamic.tagged dynamic.found copied
      refine not_tidy ((Function.update_of_ne differ _ _).trans (Function.update_self _ _ _)) tagged found ?_
      rw [owner, allocator, dynamic.owner]
      exact apart

private theorem kept_parts {chars held : List l.Char} {block : Block l A}
    (dynamic : Dynamic pool.heap source chars block) (holds : Holds pool.heap buf held)
    (object : pool.objs this = some buf) (object' : pool.objs other = some source) (differ : this ≠ other)
    (away : owns l buf.store ≠ some (getDyn l .ptr source.store))
    (propagates : traits.propagate_on_container_move_assignment = false)
    (apart : buf.allocator ≠ source.allocator) :
    ¬ Keeps (step traits (.moveAssign this other) pool) := by
  have tagged : isDyn l (copyDyn l source.store buf.store) = true := by
    rw [isDyn_iff, getDyn_copyDyn, ← isDyn_iff]
    exact dynamic.tagged
  have owner : block.owner ≠ buf.allocator := by
    rw [dynamic.owner]
    exact Ne.symm apart
  rw [step_moveAssign object object' differ]
  simp only [propagates, Bool.false_eq_true, if_false]
  cases holds with
  | inline inline =>
    have found : pool.heap (getDyn l .ptr (copyDyn l source.store buf.store)) = some block := by
      rw [getDyn_copyDyn]
      exact dynamic.found
    simp only [Here.move, dynamic.tagged, inline.untagged, bind, Except.bind, not_true_eq_false, if_false,
      Bool.false_eq_true, and_false]
    exact not_tidy ((Function.update_of_ne differ _ _).trans (Function.update_self _ _ _)) tagged found owner
  | dynamic own =>
    obtain ⟨heap, freed, found⟩ : ∃ heap, pool.heap.deallocate buf.allocator (getDyn l .ptr buf.store)
        (getDyn l .cap buf.store) = (.ok heap : Except (Stop (Pool l A)) _) ∧
          heap (getDyn l .ptr (copyDyn l source.store buf.store)) = some block := by
      refine ⟨_, Here.deallocate_ok { buf with heap := pool.heap } own, ?_⟩
      rw [getDyn_copyDyn, Function.update_of_ne]
      · exact dynamic.found
      · intro same
        rw [own.owns, same] at away
        exact away rfl
    simp only [Here.move, dynamic.tagged, own.tagged, bind, Except.bind, not_true_eq_false, if_false,
      and_self, if_true, freed]
    exact not_tidy ((Function.update_of_ne differ _ _).trans (Function.update_self _ _ _)) tagged found owner

theorem not_keeps (represents : Represents pool strings)
    (means : strings.step (.moveAssign this other : Action l A) = some later)
    (parts : ¬ Paired traits pool (.moveAssign this other)) :
    ¬ Keeps (step traits (.moveAssign this other) pool) := by
  obtain ⟨held, chars, given, given'⟩ := means_moveAssign means
  simp only [Paired, not_forall, not_or] at parts
  obtain ⟨differ, buf, source, object, object', apart, crosses⟩ := parts
  obtain ⟨_, _, holds⟩ := represents.holds this buf object
  obtain ⟨_, _, holds'⟩ := represents.holds other source object'
  cases propagates : traits.propagate_on_container_move_assignment with
  | true =>
    rw [propagates, if_pos rfl, Bool.not_eq_false] at crosses
    cases holds with
    | inline inline => exact absurd (inline.untagged.symm.trans crosses) (by simp)
    | dynamic dynamic => exact propagated_parts dynamic object object' differ propagates apart
  | false =>
    rw [propagates, if_neg (by simp), Bool.not_eq_false] at crosses
    cases holds' with
    | inline inline => exact absurd (inline.untagged.symm.trans crosses) (by simp)
    | dynamic dynamic =>
      refine kept_parts dynamic holds object object' differ (fun mine => ?_) propagates apart
      refine differ (represents.unique this other (getDyn l .ptr source.store) ?_ ?_)
      · rw [Represents.owner_of object]
        exact mine
      · rw [Represents.owner_of object']
        exact dynamic.owns

theorem Represents.moving (represents : Represents pool strings) {action : Action l A}
    (moves : action.moves = true) (means : strings.step action = some later) (paired : Paired traits pool action) :
    (∃ next, Pool.step traits action pool = .ok next ∧ Represents next later) ∨
      ∃ left, Pool.step traits action pool = .error (.thrown left) ∧ Represents left strings := by
  have works (matched : pool.Matched action) (unharmed : pool.Unharmed action) :
      (∃ next, Pool.step traits action pool = .ok next ∧ Represents next later) ∨
        ∃ left, Pool.step traits action pool = .error (.thrown left) ∧ Represents left strings :=
    (represents.step traits means matched).imp_right fun ⟨left, thrown⟩ =>
      ⟨left, thrown, unharmed_represents represents thrown unharmed⟩
  cases action with
  | construct this a raw => exact works trivial trivial
  | append this chars grant => exact works trivial trivial
  | moveConstruct this other raw => exact works trivial trivial
  | moveAssign this other => exact .inl (represents.moveAssign means paired)
  | destroy this => exact works trivial trivial
  | push_back => cases moves
  | shrink => cases moves
  | clear => cases moves
  | copyConstruct => cases moves
  | copyAssign => cases moves

/-- An operation that means something keeps the pool tidy exactly where its allocators are
paired. -/
theorem keeps_iff (represents : Represents pool strings) {action : Action l A} (moves : action.moves = true)
    (means : strings.step action = some later) :
    Keeps (step traits action pool) ↔ Paired traits pool action := by
  constructor
  · intro keeps
    by_contra parts
    cases action with
    | moveAssign this other => exact not_keeps represents means parts keeps
    | _ => exact parts trivial
  · intro paired
    rcases represents.moving moves means paired with ⟨next, works, after⟩ | ⟨left, thrown, after⟩
    · rw [works]
      exact after.tidy
    · rw [thrown]
      exact after.tidy

/-- A step of a program that appends, moves and destroys, its allocators paired. -/
def Moving (traits : Traits A) (state next : Pool l A × Strings l) : Prop :=
  ∃ action later, action.moves = true ∧ state.2.step action = some later ∧ state.1.Paired traits action ∧
    ((step traits action state.1 = .ok next.1 ∧ next.2 = later) ∨
      (step traits action state.1 = .error (.thrown next.1) ∧ next.2 = state.2))

theorem moving_represents {state : Pool l A × Strings l}
    (reached : Reachable (· = (empty, fun _ => none)) (Moving traits) state) : Represents state.1 state.2 := by
  induction reached with
  | start started =>
    rw [started]
    exact Represents.empty
  | step _ moved represents =>
    obtain ⟨action, later, moves, means, paired, ⟨worked, same⟩ | ⟨threw, same⟩⟩ := moved
    · rcases represents.moving moves means paired with ⟨pool, works, after⟩ | ⟨left, thrown, _⟩
      · cases worked.symm.trans works
        rw [same]
        exact after
      · cases worked.symm.trans thrown
    · rcases represents.moving moves means paired with ⟨pool, works, _⟩ | ⟨left, thrown, after⟩
      · cases threw.symm.trans works
      · cases threw.symm.trans thrown
        rw [same]
        exact after

/-- In every run whose move assignments keep allocators and blocks together, each block is
that of one buffer with its allocator and its size, and goes back once; the next operation
keeps it so exactly if it keeps them together, too. -/
theorem moving_tidy (traits : Traits A) {state : Pool l A × Strings l}
    (reached : Reachable (· = (empty, fun _ => none)) (Moving traits) state) :
    Tidy state.1 ∧
      (∀ order : List Nat, order.Nodup → (∀ k, k ∈ order ↔ (state.1.objs k).isSome) →
        ∃ last, state.1.destroyAll traits order = .ok last ∧ ∀ p, last.heap p = none) ∧
      ∀ (action : Action l A) later, action.moves = true → state.2.step action = some later →
        (Keeps (step traits action state.1) ↔ state.1.Paired traits action) := by
  have represents := moving_represents reached
  exact ⟨represents.tidy, represents.destroys traits, fun _ _ => keeps_iff represents⟩

/-- `BasicStrBuf<char, 40, Alloc>` with an `Alloc` of eight bytes: 31 inline characters. -/
def stateful : Layout where
  order := .little
  charSize := 1
  objSize := 40
  allocSize := 8
  charSize_pos := smallest.charSize_pos
  charSize_le := smallest.charSize_le
  buf_len_half := by decide
  little_rsvd := by decide
  little_ends := by decide
  big_size := by decide

/-- The first buffer has a block; its allocator replaces another one that has none. -/
theorem moving_tidy_inline : ∃ state : Pool stateful Nat × Strings stateful,
    Reachable (· = (empty, fun _ => none)) (Moving ⟨true, id⟩) state ∧
      (state.1.objs 1).map StrBuf.allocator = some 7 ∧ Tidy state.1 := by
  obtain ⟨first, made⟩ : ∃ pool, step ⟨true, id⟩ (.construct 0 7 fun _ => 0) (empty : Pool stateful Nat) =
      .ok pool := ⟨_, rfl⟩
  obtain ⟨second, grown⟩ : ∃ pool, step ⟨true, id⟩
      (.append 0 (List.replicate 32 65) (some ⟨4096, fun _ => 0⟩)) first = .ok pool := by
    cases made
    exact ⟨_, rfl⟩
  obtain ⟨third, other⟩ : ∃ pool, step ⟨true, id⟩ (.construct 1 8 fun _ => 0) second = .ok pool := by
    cases made
    cases grown
    exact ⟨_, rfl⟩
  obtain ⟨last, moved⟩ : ∃ pool, step ⟨true, id⟩ (.moveAssign 1 0) third = .ok pool := by
    cases made
    cases grown
    cases other
    exact ⟨_, rfl⟩
  have begins : Reachable (· = (empty, fun _ => none)) (Moving ⟨true, id⟩) (first, _) :=
    .step (.start rfl) ⟨.construct 0 7 fun _ => 0, _, rfl, rfl, trivial, .inl ⟨made, rfl⟩⟩
  have grows : Reachable (· = (empty, fun _ => none)) (Moving ⟨true, id⟩) (second, _) :=
    .step begins ⟨.append 0 (List.replicate 32 65) (some ⟨4096, fun _ => 0⟩), _, rfl, rfl, trivial,
      .inl ⟨grown, rfl⟩⟩
  have joins : Reachable (· = (empty, fun _ => none)) (Moving ⟨true, id⟩) (third, _) :=
    .step grows ⟨.construct 1 8 fun _ => 0, _, rfl, rfl, trivial, .inl ⟨other, rfl⟩⟩
  have paired : third.Paired ⟨true, id⟩ (.moveAssign 1 0) := by
    intro _ buf source object _
    cases made
    cases grown
    cases other
    cases object
    exact .inr rfl
  have moves : Reachable (· = (empty, fun _ => none)) (Moving ⟨true, id⟩) (last, _) :=
    .step joins ⟨.moveAssign 1 0, _, rfl, rfl, paired, .inl ⟨moved, rfl⟩⟩
  refine ⟨_, moves, ?_, (moving_tidy ⟨true, id⟩ moves).1⟩
  cases made
  cases grown
  cases other
  cases moved
  rfl

/-- Two buffers of different allocators, with blocks or without. -/
def strangers (first second : Nat) : List (Action stateful Nat) :=
  [.construct 0 1 (fun _ => 0), .append 0 (List.replicate first 65) (some ⟨4096, fun _ => 0⟩),
    .construct 1 2 (fun _ => 0), .append 1 (List.replicate second 66) (some ⟨8192, fun _ => 0⟩)]

def isBad {α : Type} : Except (Stop σ) α → Bool
  | .error .bad => true
  | _ => false

/-- An allocator that is propagated frees the block of the one it replaces, and one that is
not gets a block that it did not allocate, which it frees later. -/
theorem moveAssign_parts :
    (run ⟨true, id⟩ (strangers 32 32)).isOk = true ∧
      isBad (run ⟨true, id⟩ (strangers 32 32 ++ [.moveAssign 0 1])) = true ∧
      (run ⟨false, id⟩ (strangers 0 32 ++ [.moveAssign 0 1])).isOk = true ∧
      isBad (run ⟨false, id⟩ (strangers 0 32 ++ [.moveAssign 0 1, .destroy 0])) = true := by
  decide +kernel

end Pool

end Stdplus.Str
