import Stdplus.Str.Refines

/-! What an operation leaves whose allocation fails: nothing, but for the copy
assignment, which frees its block or writes its capacity first. -/

namespace Stdplus.Str

open Stdplus.Base Store

variable {l : Layout} {A σ α β : Type}

def Silent (outcome : Except (Stop σ) α) : Prop := ∀ left, outcome ≠ .error (.thrown left)

theorem bind_thrown {first : Except (Stop σ) α} {rest : α → Except (Stop σ) β} {left : σ}
    (thrown : first >>= rest = .error (.thrown left)) :
    first = .error (.thrown left) ∨ ∃ value, first = .ok value ∧ rest value = .error (.thrown left) := by
  cases first with
  | error stop =>
    cases thrown
    exact .inl rfl
  | ok value => exact .inr ⟨value, rfl, thrown⟩

theorem Silent.bind {first : Except (Stop σ) α} {rest : α → Except (Stop σ) β} (silent : Silent first)
    (after : ∀ value, Silent (rest value)) : Silent (first >>= rest) := by
  intro left thrown
  rcases bind_thrown thrown with fails | ⟨value, -, fails⟩
  · exact silent left fails
  · exact after value left fails

theorem silent_ok (value : α) : Silent (.ok value : Except (Stop σ) α) := nofun

theorem silent_bad : Silent (.error .bad : Except (Stop σ) α) := nofun

theorem silent_ite {condition : Prop} [Decidable condition] {first second : Except (Stop σ) α}
    (one : Silent first) (two : Silent second) : Silent (if condition then first else second) := by
  split
  · exact one
  · exact two

theorem silent_readInl (count : Nat) (store : Store) :
    Silent (readInl l count store : Except (Stop σ) _) :=
  silent_ite (silent_ok _) silent_bad

theorem silent_writeInl (index : Nat) (chars : List l.Char) (store : Store) :
    Silent (writeInl l index chars store : Except (Stop σ) _) :=
  silent_ite (silent_ok _) silent_bad

theorem silent_read (ptr count : Nat) (heap : Heap l A) : Silent (heap.read ptr count : Except (Stop σ) _) := by
  unfold Heap.read
  split
  · exact silent_bad
  · exact silent_ite (silent_ok _) silent_bad

theorem silent_write (ptr index : Nat) (chars : List l.Char) (heap : Heap l A) :
    Silent (heap.write ptr index chars : Except (Stop σ) _) := by
  unfold Heap.write
  split
  · exact silent_bad
  · exact silent_ite (silent_ok _) silent_bad

theorem silent_deallocate [DecidableEq A] (allocator : A) (ptr n : Nat) (heap : Heap l A) :
    Silent (heap.deallocate allocator ptr n : Except (Stop σ) _) := by
  unfold Heap.deallocate
  split
  · exact silent_bad
  · exact silent_ite (silent_ok _) silent_bad

theorem read_gone {heap : Heap l A} {ptr : Nat} (gone : heap ptr = none) (count : Nat) :
    heap.read ptr count = (.error .bad : Except (Stop σ) _) := by
  unfold Heap.read
  rw [gone]

theorem deallocate_gone [DecidableEq A] {heap later : Heap l A} {allocator : A} {ptr n : Nat}
    (freed : heap.deallocate allocator ptr n = (.ok later : Except (Stop σ) _)) : later ptr = none := by
  unfold Heap.deallocate at freed
  split at freed
  · cases freed
  · split at freed
    · rw [← Except.ok.inj freed, Function.update_self]
    · cases freed

namespace Here

variable {here left : Here l A} {other : StrBuf A} {grant : Option (Grant l)}

theorem silent_fill (ptr : Ptr) (chars : List l.Char) (here : Here l A) :
    Silent (here.fill ptr chars : Except (Stop σ) _) := by
  cases ptr with
  | inl index => exact (silent_writeInl _ _ _).bind fun _ => silent_ok _
  | block address index => exact (silent_write _ _ _ _).bind fun _ => silent_ok _

theorem silent_inlcopy (assign : Bool) (other : StrBuf A) (here : Here l A) :
    Silent (here.inlcopy assign other : Except (Stop σ) _) := by
  refine (silent_readInl _ _).bind fun chars => silent_ite ?_ ?_
  · exact (silent_write _ _ _ _).bind fun _ => silent_ok _
  · exact (silent_writeInl _ _ _).bind fun _ => silent_ok _

theorem copyAnew_thrown (thrown : here.copyAnew other grant = .error (.thrown left)) :
    left = { here with store := setDyn l .cap (getDyn l .cap other.store) here.store } := by
  simp only [copyAnew] at thrown
  split at thrown
  · exact absurd thrown (((silent_read _ _ _).bind fun _ =>
      (silent_writeInl _ _ _).bind fun _ => silent_ok _) left)
  · split at thrown
    · cases thrown
      rfl
    · exact absurd thrown (((silent_read _ _ _).bind fun _ =>
        (silent_write _ _ _ _).bind fun _ => silent_ok _) left)

variable [DecidableEq A]

theorem append_thrown {amt : Nat} (thrown : here.append amt grant = .error (.thrown left)) : left = here := by
  simp only [append] at thrown
  split at thrown
  · split at thrown
    · cases thrown
    · split at thrown
      · cases thrown
        rfl
      · exact absurd thrown (((silent_readInl _ _).bind fun _ =>
          (silent_write _ _ _ _).bind fun _ => silent_ok _) left)
  · split at thrown
    · split at thrown
      · cases thrown
        rfl
      · exact absurd thrown (((silent_read _ _ _).bind fun _ => (silent_write _ _ _ _).bind fun _ =>
          (silent_deallocate _ _ _ _).bind fun _ => silent_ok _) left)
    · cases thrown

theorem appendRange_thrown {chars : List l.Char}
    (thrown : here.appendRange chars grant = .error (.thrown left)) : left = here := by
  rcases bind_thrown thrown with fails | ⟨value, -, fails⟩
  · exact append_thrown fails
  · exact absurd fails (silent_fill _ _ _ left)

theorem copy_thrown {assign : Bool} (thrown : here.copy assign other grant = .error (.thrown left)) :
    isDyn l other.store = true ∧ left.allocator = here.allocator ∧
      left.store = setDyn l .cap (getDyn l .cap other.store) here.store ∧
      if assign ∧ isDyn l here.store then
        here.heap.deallocate here.allocator (getDyn l .ptr here.store) (getDyn l .cap here.store) =
          (.ok left.heap : Except (Stop (Here l A)) _)
      else
        left.heap = here.heap := by
  rw [copy] at thrown
  split at thrown
  · exact absurd thrown (silent_inlcopy _ _ _ left)
  · rename_i tagged
    have tagged : isDyn l other.store = true := by simpa using tagged
    split at thrown
    · rename_i assigns
      simp only at thrown
      rw [if_pos assigns]
      split at thrown
      · exact absurd thrown (((silent_read _ _ _).bind fun _ =>
          (silent_write _ _ _ _).bind fun _ => silent_ok _) left)
      · rcases bind_thrown thrown with fails | ⟨heap, freed, fails⟩
        · exact absurd fails (silent_deallocate _ _ _ _ left)
        · have same := copyAnew_thrown fails
          rw [same]
          exact ⟨tagged, rfl, rfl, freed⟩
    · rename_i constructs
      have same := copyAnew_thrown thrown
      rw [same, if_neg constructs]
      exact ⟨tagged, rfl, rfl, rfl⟩

theorem silent_move (assign : Bool) (other : StrBuf A) (here : Here l A) :
    Silent (here.move assign other : Except (Stop σ) _) := by
  unfold move
  refine silent_ite ?_ ?_
  · exact (silent_inlcopy _ _ _).bind fun _ => silent_ok _
  · split
    · exact (silent_deallocate _ _ _ _).bind fun _ => silent_ok _
    · exact silent_ok _

theorem silent_destroy (here : Here l A) : Silent (here.destroy : Except (Stop σ) _) := by
  unfold destroy
  refine silent_ite ?_ (silent_ok _)
  exact silent_deallocate _ _ _ _

end Here

namespace Store

theorem inlChars_eq_iff (store other : Store) (count : Nat) :
    inlChars l store 0 count = inlChars l other 0 count ↔
      ∀ k, l.inlPtrAt ≤ k → k < l.inlPtrAt + count * l.charSize → store k = other k := by
  have pos := l.charSize_pos
  rw [inlChars, inlChars, List.map_inj_left]
  constructor
  · intro same k low high
    obtain ⟨index, first, last⟩ : ∃ index, l.inlPtrAt + index * l.charSize ≤ k ∧
        k < l.inlPtrAt + index * l.charSize + l.charSize := by
      have whole := Nat.div_add_mod' (k - l.inlPtrAt) l.charSize
      have rest := Nat.mod_lt (k - l.inlPtrAt) pos
      exact ⟨(k - l.inlPtrAt) / l.charSize, by omega, by omega⟩
    have inside : index < count := by
      by_contra outside
      have below := Nat.mul_le_mul_right l.charSize (Nat.le_of_not_lt outside)
      omega
    have chars := same index (List.mem_range'_1.mpr ⟨Nat.zero_le _, by omega⟩)
    have fields := congrArg BitVec.toNat chars
    have bound (some : Store) :
        getField l.order (l.inlPtrAt + index * l.charSize) l.charSize some < 2 ^ (8 * l.charSize) := by
      have small := getField_lt l.order (l.inlPtrAt + index * l.charSize) l.charSize some
      rwa [show (256 : Nat) = 2 ^ 8 from rfl, ← Nat.pow_mul] at small
    simp only [getInlChar, BitVec.toNat_ofNat, Nat.mod_eq_of_lt (bound _)] at fields
    exact getField_inj l.order fields first last
  · intro same index member
    have below : (index + 1) * l.charSize ≤ count * l.charSize := by
      have inside := (List.mem_range'_1.mp member).2
      exact Nat.mul_le_mul_right _ (by omega)
    rw [Nat.succ_mul] at below
    rw [getInlChar, getInlChar, getField_congr l.order]
    intro k low high
    exact same k (by omega) (by omega)

theorem inlLen_setDyn_cap (cap : Nat) (store : Store) : inlLen l (setDyn l .cap cap store) = inlLen l store := by
  rw [inlLen_eq, inlLen_eq, getDyn_setDyn_other (by decide)]

theorem isDyn_setDyn_cap (cap : Nat) (store : Store) : isDyn l (setDyn l .cap cap store) = isDyn l store :=
  isDyn_eq_of_inlLen (inlLen_setDyn_cap cap store)

/-- The bytes of the inline characters that lie under the capacity are those of this
capacity. -/
def Spared (l : Layout) (cap : Nat) (store : Store) : Prop :=
  ∀ k, l.dynAt .cap ≤ k → k < l.dynAt .cap + 8 → l.inlPtrAt ≤ k →
    k < l.inlPtrAt + inlLen l store * l.charSize → (encode l.order 8 cap).getD (k - l.dynAt .cap) 0 = store k

theorem spared_iff (cap : Nat) (store : Store) :
    inlChars l (setDyn l .cap cap store) 0 (inlLen l store) = inlChars l store 0 (inlLen l store) ↔
      Spared l cap store := by
  rw [inlChars_eq_iff]
  constructor
  · intro same k low high first last
    have byte := same k first last
    rwa [setDyn, setField, if_pos ⟨low, high⟩] at byte
  · intro spared k first last
    rw [setDyn, setField]
    split
    next under => exact spared k under.1 under.2 first last
    next => rfl

end Store

namespace Pool

variable {pool : Pool l A} {strings : Strings l}

/-- A copy assignment that has to allocate finds an inline destination whose characters
the new capacity leaves alone. -/
def Unharmed (pool : Pool l A) : Action l A → Prop
  | .copyAssign this other _ => ∀ buf source, pool.objs this = some buf → pool.objs other = some source →
      isDyn l buf.store = false ∧ Spared l (getDyn l .cap source.store) buf.store
  | _ => True

theorem put_same {this : Nat} {buf : StrBuf A} (object : pool.objs this = some buf) :
    pool.put this { buf with heap := pool.heap } = pool := by
  have same : Function.update pool.objs this (some buf) = pool.objs := by
    rw [← object, Function.update_eq_self]
  exact congrArg (Pool.mk · pool.heap) same

theorem silent_get (this : Nat) (pool : Pool l A) : Silent (pool.get this : Except (Stop σ) _) := by
  unfold get
  split
  · exact silent_bad
  · exact silent_ok _

theorem silent_raw (this : Nat) (pool : Pool l A) : Silent (pool.raw this : Except (Stop σ) _) := by
  unfold raw
  split
  · exact silent_ok _
  · exact silent_bad

theorem within_thrown {this : Nat} {outcome : Except (Stop (Here l A)) (Here l A)} {left : Pool l A}
    (thrown : pool.within this outcome = .error (.thrown left)) :
    ∃ after, outcome = .error (.thrown after) ∧ left = pool.put this after := by
  unfold within at thrown
  split at thrown
  · cases thrown
  · cases thrown
  next after =>
    cases thrown
    exact ⟨after, rfl, rfl⟩

theorem get_ok {this : Nat} {here : Here l A} (got : pool.get this = (.ok here : Except (Stop σ) _)) :
    ∃ buf, pool.objs this = some buf ∧ here = { buf with heap := pool.heap } := by
  unfold get at got
  split at got
  · cases got
  next buf object =>
    cases got
    exact ⟨buf, object, rfl⟩

variable [DecidableEq A]

def destroyAll (traits : Traits A) (order : List Nat) (pool : Pool l A) : Except (Stop (Pool l A)) (Pool l A) :=
  order.foldlM (fun pool this => step traits (.destroy this) pool) pool

/-- The objects show what they should, and can be destroyed in any order, with every
block freed once. -/
structure Valid (traits : Traits A) (pool : Pool l A) (strings : Strings l) : Prop where
  shows : Shows pool strings
  destroys : ∀ order : List Nat, order.Nodup → (∀ k, k ∈ order ↔ (pool.objs k).isSome) →
    ∃ last, pool.destroyAll traits order = .ok last ∧ ∀ p, last.heap p = none

theorem Represents.destroys (represents : Represents pool strings) (traits : Traits A) (order : List Nat)
    (once : order.Nodup) (all : ∀ k, k ∈ order ↔ (pool.objs k).isSome) :
    ∃ last, pool.destroyAll traits order = .ok last ∧ ∀ p, last.heap p = none := by
  induction order generalizing pool strings with
  | nil =>
    refine ⟨pool, rfl, fun p => ?_⟩
    by_contra there
    obtain ⟨this, owns⟩ := represents.owned p there
    obtain ⟨buf, object, -⟩ := Option.bind_eq_some_iff.mp owns
    exact absurd ((all this).mpr (by rw [object]; rfl)) List.not_mem_nil
  | cons this order ih =>
    obtain ⟨buf, object⟩ := Option.isSome_iff_exists.mp ((all this).mp List.mem_cons_self)
    obtain ⟨chars, -, holds⟩ := represents.holds this buf object
    obtain ⟨heap, freed, after⟩ := represents.destroyed (σ := Pool l A) object holds
    obtain ⟨new, once⟩ := List.nodup_cons.mp once
    obtain ⟨last, rest, empty⟩ := ih after once (fun k => by
      by_cases same : k = this
      · subst same
        simp [new]
      · have before := all k
        rw [List.mem_cons] at before
        simpa [same] using before)
    refine ⟨last, ?_, empty⟩
    rw [destroyAll, List.foldlM_cons]
    simp only [Pool.step, get, object, freed, bind, Except.bind]
    exact rest

theorem Represents.valid (represents : Represents pool strings) (traits : Traits A) :
    Valid traits pool strings :=
  ⟨represents.shows, represents.destroys traits⟩

theorem step_thrown {traits : Traits A} {action : Action l A} {left : Pool l A}
    (thrown : step traits action pool = .error (.thrown left)) :
    (left = pool ∧ pool.Unharmed action) ∨ ∃ this other grant buf source after, action = .copyAssign this other grant ∧
      pool.objs this = some buf ∧ pool.objs other = some source ∧
      Here.copy true source grant { buf with heap := pool.heap } = .error (.thrown after) ∧
      left = pool.put this after := by
  have unchanged {this : Nat} {here after : Here l A} (got : pool.get this = (.ok here : Except (Stop (Pool l A)) _))
      (same : after = here) (put : left = pool.put this after) : left = pool := by
    obtain ⟨buf, object, rfl⟩ := get_ok got
    rw [put, same, put_same object]
  cases action with
  | construct this a raw =>
    exact absurd thrown (((silent_raw _ _).bind fun _ => silent_ok _) left)
  | append this more grant =>
    rcases bind_thrown thrown with fails | ⟨here, got, fails⟩
    · exact absurd fails (silent_get _ _ left)
    · obtain ⟨after, throws, put⟩ := within_thrown fails
      exact .inl ⟨unchanged got (Here.appendRange_thrown throws) put, trivial⟩
  | push_back this c grant =>
    rcases bind_thrown thrown with fails | ⟨here, got, fails⟩
    · exact absurd fails (silent_get _ _ left)
    · obtain ⟨after, throws, put⟩ := within_thrown fails
      have throws : here.appendRange [c] grant = .error (.thrown after) := throws
      exact .inl ⟨unchanged got (Here.appendRange_thrown throws) put, trivial⟩
  | shrink this amt => exact absurd thrown (((silent_get _ _).bind fun _ => silent_ok _) left)
  | clear this => exact absurd thrown (((silent_get _ _).bind fun _ => silent_ok _) left)
  | moveConstruct this other raw =>
    exact absurd thrown (((silent_raw _ _).bind fun _ => (silent_get _ _).bind fun _ =>
      (Here.silent_move _ _ _).bind fun _ => silent_ok _) left)
  | copyConstruct this other raw grant =>
    rcases bind_thrown thrown with fails | ⟨-, -, fails⟩
    · exact absurd fails (silent_raw _ _ left)
    · rcases bind_thrown fails with fails | ⟨source, -, fails⟩
      · exact absurd fails (silent_get _ _ left)
      · simp only at fails
        split at fails
        · cases fails
        · cases fails
        next after throws =>
          cases fails
          have kept := (Here.copy_thrown throws).2.2.2
          rw [if_neg (fun both => by cases both.1)] at kept
          exact .inl ⟨by rw [kept], trivial⟩
  | moveAssign this other =>
    exact absurd thrown (((silent_get _ _).bind fun _ => (silent_get _ _).bind fun _ =>
      silent_ite ((Here.silent_move _ _ _).bind fun _ => silent_ok _) (silent_ok _)) left)
  | copyAssign this other grant =>
    rcases bind_thrown thrown with fails | ⟨here, got, fails⟩
    · exact absurd fails (silent_get _ _ left)
    · rcases bind_thrown fails with fails | ⟨source, got', fails⟩
      · exact absurd fails (silent_get _ _ left)
      · split at fails
        · obtain ⟨buf, object, rfl⟩ := get_ok got
          obtain ⟨origin, object', rfl⟩ := get_ok got'
          obtain ⟨after, throws, put⟩ := within_thrown fails
          exact .inr ⟨this, other, grant, buf, origin, after, rfl, object, object', throws, put⟩
        · cases fails
  | destroy this =>
    exact absurd thrown (((silent_get _ _).bind fun _ => (Here.silent_destroy _).bind fun _ => silent_ok _) left)

section CopyAssign

variable {this other : Nat} {grant : Option (Grant l)} {buf source : StrBuf A} {after : Here l A}

theorem copyAssign_dangles (tagged : isDyn l buf.store = true)
    (throws : Here.copy true source grant { buf with heap := pool.heap } = .error (.thrown after)) :
    ¬ Shows (pool.put this after) strings := by
  intro shows
  obtain ⟨-, -, store, freed⟩ := Here.copy_thrown throws
  rw [if_pos ⟨rfl, tagged⟩] at freed
  obtain ⟨chars, -, -, view⟩ := shows.chars this after.toStrBuf (Function.update_self _ _ _)
  have still : isDyn l after.store = true := by rw [store, isDyn_setDyn_cap, tagged]
  have ptr : getDyn l .ptr after.store = getDyn l .ptr buf.store := by
    rw [store, getDyn_setDyn_other (by decide)]
  have gone : after.heap (getDyn l .ptr after.store) = none := by
    rw [ptr]
    exact deallocate_gone freed
  have bad : Here.view { after.toStrBuf with heap := (pool.put this after).heap } =
      (.error .bad : Except (Stop Unit) (List l.Char)) := by
    rw [Here.view, if_pos still]
    exact read_gone gone _
  rw [bad] at view
  cases view

theorem copyAssign_represents (represents : Represents pool strings) (object : pool.objs this = some buf)
    (throws : Here.copy true source grant { buf with heap := pool.heap } = .error (.thrown after))
    (untagged : isDyn l buf.store = false) (spared : Spared l (getDyn l .cap source.store) buf.store) :
    Represents (pool.put this after) strings := by
  obtain ⟨-, -, store, heap⟩ := Here.copy_thrown throws
  rw [if_neg (fun both => by rw [untagged] at both; cases both.2)] at heap
  obtain ⟨chars, given, holds⟩ := represents.holds this buf object
  have same : Function.update strings this (some chars) = strings := by
    rw [← given, Function.update_eq_self]
  cases holds with
  | dynamic dynamic =>
    rw [dynamic.tagged] at untagged
    cases untagged
  | inline inline =>
    have left : Inline (l := l) after.toStrBuf chars := {
      untagged := by rw [store, isDyn_setDyn_cap, untagged]
      len := by rw [store, inlLen_setDyn_cap]; exact inline.len
      fits := inline.fits
      front := by
        have front := (spared_iff _ _).mpr spared
        rw [inline.len, inline.front] at front
        rw [store]
        exact front }
    rw [← same]
    refine represents.change this _ _ _ ?_ (fun made same => by cases same; exact ⟨chars, rfl, .inline left⟩)
      (fun none => by cases none)
    rw [Represents.owner_of object, inline.owns, Option.bind_some, left.owns, heap]
    exact Changed.refl _ _

theorem copyAssign_spared (represents : Represents pool strings) (object : pool.objs this = some buf)
    (throws : Here.copy true source grant { buf with heap := pool.heap } = .error (.thrown after))
    (untagged : isDyn l buf.store = false) (shows : Shows (pool.put this after) strings) :
    Spared l (getDyn l .cap source.store) buf.store := by
  obtain ⟨-, -, store, -⟩ := Here.copy_thrown throws
  obtain ⟨chars, given, holds⟩ := represents.holds this buf object
  obtain ⟨later, given', size, view⟩ := shows.chars this after.toStrBuf (Function.update_self _ _ _)
  rw [given, Option.some.injEq] at given'
  subst given'
  cases holds with
  | dynamic dynamic =>
    rw [dynamic.tagged] at untagged
    cases untagged
  | inline inline =>
    have still : isDyn l after.store = false := by rw [store, isDyn_setDyn_cap, untagged]
    rw [Here.view, still] at view
    simp only [Bool.false_eq_true, if_false, size, readInl, if_pos inline.fits, Except.ok.injEq] at view
    refine (spared_iff _ _).mp ?_
    rw [inline.len, inline.front, ← store]
    exact view

end CopyAssign

/-- What is reached, by operations that work or that fail without harm, with the lists
that the program means. -/
def Works (traits : Traits A) (state next : Pool l A × Strings l) : Prop :=
  ∃ action later, state.2.step action = some later ∧ state.1.Matched action ∧
    ((step traits action state.1 = .ok next.1 ∧ next.2 = later) ∨
      (step traits action state.1 = .error (.thrown next.1) ∧ state.1.Unharmed action ∧ next.2 = state.2))

theorem unharmed_represents (represents : Represents pool strings) {traits : Traits A} {action : Action l A}
    {left : Pool l A} (thrown : step traits action pool = .error (.thrown left))
    (unharmed : pool.Unharmed action) : Represents left strings := by
  rcases step_thrown thrown with ⟨rfl, -⟩ |
    ⟨this, other, grant, buf, source, after, rfl, object, object', throws, rfl⟩
  · exact represents
  · obtain ⟨untagged, spared⟩ := unharmed buf source object object'
    exact copyAssign_represents represents object throws untagged spared

theorem reached_represents {traits : Traits A} {state : Pool l A × Strings l}
    (reached : Reachable (· = (empty, fun _ => none)) (Works traits) state) : Represents state.1 state.2 := by
  let represented (state : Pool l A × Strings l) : Prop := Represents state.1 state.2
  have kept (state next : Pool l A × Strings l) (represents : represented state)
      (works : Works traits state next) : represented next := by
    obtain ⟨action, later, means, matched, ⟨worked, same⟩ | ⟨thrown, unharmed, same⟩⟩ := works
    · rcases represents.step traits means matched with ⟨pool, works, after⟩ | ⟨left, fails⟩
      · rw [worked, Except.ok.injEq] at works
        show Represents next.1 next.2
        rw [works, same]
        exact after
      · rw [worked] at fails
        cases fails
    · show Represents next.1 next.2
      rw [same]
      exact unharmed_represents represents thrown unharmed
  exact reached.invariant (fun _ started => started ▸ Represents.empty) kept

/-- A failed allocation leaves valid objects exactly where it does no harm. -/
theorem thrown_valid_iff (traits : Traits A) (pool : Pool l A) (strings : Strings l)
    (reached : Reachable (· = (empty, fun _ => none)) (Works traits) (pool, strings)) (action : Action l A)
    (left : Pool l A) (thrown : step traits action pool = .error (.thrown left)) :
    Valid traits pool strings ∧ (Valid traits left strings ↔ pool.Unharmed action) := by
  have represents : Represents pool strings := reached_represents reached
  refine ⟨represents.valid traits, fun valid => ?_, fun unharmed =>
    (unharmed_represents represents thrown unharmed).valid traits⟩
  rcases step_thrown thrown with ⟨-, unharmed⟩ |
    ⟨this, other, grant, buf, source, after, rfl, object, object', throws, rfl⟩
  · exact unharmed
  · intro buf' source' found found'
    rw [object, Option.some.injEq] at found
    rw [object', Option.some.injEq] at found'
    subst found found'
    cases tag : isDyn l buf.store with
    | true => exact absurd valid.shows (copyAssign_dangles tag throws)
    | false => exact ⟨rfl, copyAssign_spared represents object throws tag valid.shows⟩

theorem thrown_valid_iff_append :
    ∃ pool left, step ⟨true, id⟩ (.construct 0 () (fun _ => 255)) (empty : Pool smallest Unit) = .ok pool ∧
      step ⟨true, id⟩ (.append 0 (List.replicate 24 65) none) pool = .error (.thrown left) ∧
      Valid ⟨true, id⟩ left (Function.update (fun _ => none) 0 (some [])) := by
  obtain ⟨pool, made⟩ : ∃ pool, step ⟨true, id⟩ (.construct 0 () (fun _ => 255)) (empty : Pool smallest Unit) =
      .ok pool := ⟨_, rfl⟩
  have works : Works ⟨true, id⟩ (empty, fun _ => none) (pool, Function.update (fun _ => none) 0 (some [])) :=
    ⟨.construct 0 () (fun _ => 255), _, rfl, trivial, .inl ⟨made, rfl⟩⟩
  obtain ⟨left, thrown⟩ : ∃ left, step ⟨true, id⟩ (.append 0 (List.replicate 24 65) none) pool =
      .error (.thrown left) := by
    cases made
    exact ⟨_, rfl⟩
  have both := thrown_valid_iff ⟨true, id⟩ pool _ (.step (.start rfl) works) _ left thrown
  exact ⟨pool, left, made, thrown, both.2.mpr trivial⟩

/-- What an operation leaves that throws. -/
def leftover (outcome : Except (Stop σ) σ) : Option σ :=
  match outcome with
  | .error (.thrown left) => some left
  | _ => none

/-- The characters of an object, if they can be read. -/
def seen (this : Nat) (pool : Pool l A) : Option (List l.Char) :=
  (pool.objs this).bind fun buf => (Here.view { buf with heap := pool.heap } : Except (Stop Unit) _).toOption

def pair (count : Nat) : List (Action smallest Unit) :=
  [.construct 0 () (fun _ => 0), .append 0 (List.replicate count 65) (some ⟨4096, fun _ => 0⟩),
    .construct 1 () (fun _ => 0), .append 1 (List.replicate 60 66) (some ⟨8192, fun _ => 0⟩)]

/-- A failed copy assignment changes inline characters, and frees a block that the
destination still has. -/
theorem copyAssign_harms :
    (((run ⟨true, id⟩ (pair 16)).toOption.map (seen 0)) = some (some (List.replicate 16 65)) ∧
      (leftover (run ⟨true, id⟩ (pair 16) >>= step ⟨true, id⟩ (.copyAssign 0 1 none))).map (seen 0) =
        some (some (List.replicate 8 65 ++ [90, 0, 0, 0, 0, 0, 0, 0]))) ∧
    (((run ⟨true, id⟩ (pair 24)).toOption.map (seen 0)) = some (some (List.replicate 24 65)) ∧
      (leftover (run ⟨true, id⟩ (pair 24) >>= step ⟨true, id⟩ (.copyAssign 0 1 none))).map
        (fun left => (seen 0 left, (step ⟨true, id⟩ (.destroy 0) left).isOk)) = some (none, false)) := by
  decide +kernel

end Pool

end Stdplus.Str
