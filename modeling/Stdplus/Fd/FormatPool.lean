import Stdplus.Base.Holders
import Stdplus.Base.Lanes
import Stdplus.Fd.Formatted

/-! Any number of `FormatBuffer`s on descriptors they share. The texts given to a buffer
and to those it is moved into are a strand; the bytes of a strand are written in order. -/

set_option linter.dupNamespace false

namespace Stdplus.Fd

open Stdplus.Base

variable {E : Type}

/-- A `FormatBuffer` with a reference to its descriptor. -/
structure FormatObject where
  fd : Nat
  buf : List UInt8
  max : Nat
deriving DecidableEq

structure FormatPool (E : Type) where
  fds : Nat → Sink E
  objs : Nat → Option FormatObject

/-- What a program does with its buffers; `work` is an operation of one of them, or its
destructor. -/
inductive FormatOp where
  | construct (this fd max : Nat)
  | work (this : Nat) (action : FormatAction)
  | moveConstruct (this other : Nat)
  | moveAssign (this other : Nat)
deriving DecidableEq

def FormatOp.objects : FormatOp → List Nat
  | .construct this _ _ | .work this _ => [this]
  | .moveConstruct this other | .moveAssign this other => [this, other]

namespace FormatObject

/-- What a defaulted move leaves: the reference and the bound, and an empty `StrBuf`. -/
def moved (this : FormatObject) : FormatObject := { this with buf := [] }

def deref (fds : Nat → Sink E) (this : FormatObject) : FormatBuffer E where
  fd := fds this.fd
  buf := this.buf
  max := this.max

end FormatObject

namespace FormatPool

/-- The members of `other` go to `this`. -/
def move (this other : Nat) (source : FormatObject) (pool : FormatPool E) : FormatPool E :=
  { pool with objs := Function.update (Function.update pool.objs this (some source)) other (some source.moved) }

/-- A step of the program, which goes on after an exception; there is none where an object
is missing. -/
def step (op : FormatOp) (pool : FormatPool E) : Option (FormatPool E) :=
  match op with
  | .construct this fd max =>
    match pool.objs this with
    | none => some { pool with objs := Function.update pool.objs this (some { fd := fd, buf := [], max := max }) }
    | some _ => none
  | .work this action =>
    match pool.objs this with
    | none => none
    | some object =>
      let after := (Formatting.work action (object.deref pool.fds)).2
      let left : FormatObject := { object with buf := after.buf }
      some {
        fds := Function.update pool.fds object.fd after.fd
        objs := Function.update pool.objs this (if action = .destroy then none else some left) }
  | .moveConstruct this other =>
    match pool.objs this, pool.objs other with
    | none, some source => some (pool.move this other source)
    | _, _ => none
  | .moveAssign this other =>
    match pool.objs this, pool.objs other with
    | some _, some source =>
      -- member by member, where only `StrBuf` has a test for self-assignment
      if this = other then some pool else some (pool.move this other source)
    | _, _ => none

theorem step_other {op : FormatOp} {pool next : FormatPool E} (stepped : pool.step op = some next) {k : Nat}
    (apart : k ∉ op.objects) : next.objs k = pool.objs k := by
  have moved {this other : Nat} (source : FormatObject) (apart : k ∉ [this, other]) :
      (pool.move this other source).objs k = pool.objs k := by
    simp only [List.mem_cons, List.not_mem_nil, or_false, not_or] at apart
    exact (Function.update_of_ne apart.2 _ _).trans (Function.update_of_ne apart.1 _ _)
  cases op with
  | construct this fd max =>
    simp only [step] at stepped
    split at stepped
    · cases stepped
      exact Function.update_of_ne (by simpa [FormatOp.objects] using apart) _ _
    · cases stepped
  | work this action =>
    simp only [step] at stepped
    split at stepped
    · cases stepped
    · cases stepped
      exact Function.update_of_ne (by simpa [FormatOp.objects] using apart) _ _
  | moveConstruct this other =>
    simp only [step] at stepped
    split at stepped
    · cases stepped
      exact moved _ apart
    · cases stepped
  | moveAssign this other =>
    simp only [step] at stepped
    split at stepped
    · split at stepped
      · cases stepped
        rfl
      · cases stepped
        exact moved _ apart
    · cases stepped

end FormatPool

/-- Which strand each object goes on with, the descriptor of a strand, and all that was
appended to it. -/
structure Strands where
  begun : Nat
  strand : Nat → Nat
  home : Nat → Nat
  appended : Nat → List UInt8

namespace Strands

/-- The object `this` begins a strand. -/
def begin (this fd : Nat) (strands : Strands) : Strands :=
  { strands with
    begun := strands.begun + 1
    strand := Function.update strands.strand this strands.begun
    home := Function.update strands.home strands.begun fd }

def add (this : Nat) (text : List UInt8) (strands : Strands) : Strands :=
  { strands with
    appended := Function.update strands.appended (strands.strand this)
      (strands.appended (strands.strand this) ++ text) }

/-- The strand of `other` goes on in `this`, and `other` begins another. -/
def pass (this other : Nat) (strands : Strands) : Strands :=
  begin other (strands.home (strands.strand other))
    { strands with strand := Function.update strands.strand this (strands.strand other) }

def step (op : FormatOp) (strands : Strands) : Strands :=
  match op with
  | .construct this fd _ => strands.begin this fd
  | .work this action => strands.add this action.text
  | .moveConstruct this other => strands.pass this other
  | .moveAssign this other => if this = other then strands else strands.pass this other

end Strands

structure Threaded (E : Type) where
  pool : FormatPool E
  strands : Strands

namespace Threaded

def start (reply : Nat → Nat → WriteReply E) : Threaded E where
  pool := {
    fds := fun fd => { reply := reply fd, writes := 0, accepted := [] }
    objs := fun _ => none }
  strands := {
    begun := 0
    strand := fun _ => 0
    home := fun _ => 0
    appended := fun _ => [] }

def step (op : FormatOp) (state : Threaded E) : Option (Threaded E) :=
  (state.pool.step op).map fun pool => { pool := pool, strands := state.strands.step op }

abbrev Runs (allowed : FormatOp → FormatPool E → Prop) (reply : Nat → Nat → WriteReply E) :
    Threaded E → Prop :=
  Reachable (· = start reply) (fun state next => ∃ op, allowed op state.pool ∧ state.step op = some next)

/-- No buffer with unwritten text is moved onto. -/
def Spares (op : FormatOp) (pool : FormatPool E) : Prop :=
  match op with
  | .moveAssign this other => this = other ∨ ∀ object, pool.objs this = some object → object.buf = []
  | _ => True

end Threaded

/-- All bytes each descriptor took, tagged with their strands: the bytes of a strand are at
its own descriptor, once and in order, but for those that wait in the object that goes on
with it. -/
structure Accounts (fds : Nat → Sink E) (objs : Nat → Option FormatObject) (strands : Strands)
    (taken : Nat → List (Nat × UInt8)) : Prop where
  accepted : ∀ fd, (fds fd).accepted = (taken fd).map Prod.snd
  home : ∀ fd, ∀ entry ∈ taken fd, strands.home entry.1 = fd
  held : ∀ k object, objs k = some object →
    strands.home (strands.strand k) = object.fd ∧
    lane (strands.strand k) (taken object.fd) ++ object.buf = strands.appended (strands.strand k)
  rest : ∀ strand, (∀ k, objs k ≠ none → strands.strand k ≠ strand) →
    lane strand (taken (strands.home strand)) = strands.appended strand

/-- The numbers of the strands are as they were given out. -/
structure Strands.Sound (objs : Nat → Option FormatObject) (strands : Strands)
    (taken : Nat → List (Nat × UInt8)) : Prop where
  apart : ∀ j k, objs j ≠ none → objs k ≠ none → strands.strand j = strands.strand k → j = k
  begun : ∀ k, objs k ≠ none → strands.strand k < strands.begun
  tagged : ∀ fd, ∀ entry ∈ taken fd, entry.1 < strands.begun
  fresh : ∀ strand, strands.begun ≤ strand → strands.appended strand = []

theorem FormatBuffer.flush_accepts (this : FormatBuffer E) :
    ∃ bytes, this.flush.2.fd.accepted = this.fd.accepted ++ bytes := by
  rw [flush]
  split
  · obtain ⟨_, moved⟩ := writeExact_spec this.buf this.fd
    split
    · rename_i thrown fd written
      rw [written] at moved
      obtain ⟨k, _, _, accepted⟩ := moved
      exact ⟨_, accepted⟩
    · rename_i fd written
      rw [written] at moved
      exact ⟨_, moved.1⟩
  · exact ⟨[], (List.append_nil _).symm⟩

theorem Formatting.work_accepts (action : FormatAction) (object : FormatBuffer E) :
    ∃ bytes, (work action object).2.fd.accepted = object.fd.accepted ++ bytes := by
  have added (text : List UInt8) : ∃ bytes, (FormatBuffer.writeIfNeeded
      { object with buf := object.buf ++ text }).2.fd.accepted = object.fd.accepted ++ bytes := by
    rw [FormatBuffer.writeIfNeeded]
    split
    · exact FormatBuffer.flush_accepts _
    · exact ⟨[], (List.append_nil _).symm⟩
  cases action with
  | append text => exact added text
  | appends texts => exact added texts.flatten
  | flush => exact object.flush_accepts
  | destroy => exact object.flush_accepts

theorem Sink.untorn {fd : Sink E} (healthy : ∀ k, 0 < (fd.reply k).count) (size : Nat) : ¬ fd.Torn size := by
  rintro ⟨k, fails, _, _⟩
  exact absurd fails.2 (healthy _).ne'

/-- With such a descriptor, the bytes written and those that wait are those that waited
and the new text. -/
theorem Formatting.work_bytes (action : FormatAction) (object : FormatBuffer E)
    (healthy : ∀ k, 0 < (object.fd.reply k).count) :
    ∃ bytes, (work action object).2.fd.accepted = object.fd.accepted ++ bytes ∧
      bytes ++ (work action object).2.buf = object.buf ++ action.text := by
  obtain ⟨bytes, accepted⟩ := work_accepts action object
  have kept := (work_spec action object).kept.mpr fun ⟨data, _, torn⟩ => Sink.untorn healthy _ torn
  rw [accepted, List.append_assoc, List.append_assoc, List.append_cancel_left_eq] at kept
  exact ⟨bytes, accepted, kept⟩

structure Kept (fds : Nat → Sink E) (objs : Nat → Option FormatObject) (strands : Strands)
    (taken : Nat → List (Nat × UInt8)) : Prop where
  accounts : Accounts fds objs strands taken
  sound : strands.Sound objs taken

namespace Kept

variable {fds : Nat → Sink E} {objs : Nat → Option FormatObject} {strands : Strands}
  {taken : Nat → List (Nat × UInt8)} {this other : Nat} {object : FormatObject}

private theorem alive_some (there : objs this = some object) : objs this ≠ none := by
  rw [there]
  exact Option.some_ne_none _

private theorem alive_update {k : Nat} {entry : Option FormatObject}
    (alive : Function.update objs this entry k ≠ none) : k = this ∨ (k ≠ this ∧ objs k ≠ none) := by
  by_cases here : k = this
  · exact .inl here
  · rw [Function.update_of_ne here] at alive
    exact .inr ⟨here, alive⟩

private theorem alive_kept {k : Nat} (alive : objs k ≠ none) {entry : Option FormatObject}
    (there : entry ≠ none) : Function.update objs this entry k ≠ none := by
  by_cases here : k = this
  · rw [here, Function.update_self]
    exact there
  · rw [Function.update_of_ne here]
    exact alive

theorem begin (kept : Kept fds objs strands taken) (this : Nat) (object : FormatObject)
    (free : objs this = none) (empty : object.buf = []) :
    Kept fds (Function.update objs this (some object)) (strands.begin this object.fd) taken := by
  obtain ⟨accounts, sound⟩ := kept
  have older {k : Nat} (alive : objs k ≠ none) : k ≠ this := by
    rintro rfl
    exact alive free
  have strand_other {k : Nat} (away : k ≠ this) : (strands.begin this object.fd).strand k = strands.strand k :=
    Function.update_of_ne away _ _
  have strand_this : (strands.begin this object.fd).strand this = strands.begun := Function.update_self _ _ _
  have home_other {strand : Nat} (old : strand ≠ strands.begun) :
      (strands.begin this object.fd).home strand = strands.home strand :=
    Function.update_of_ne old _ _
  have home_new : (strands.begin this object.fd).home strands.begun = object.fd := Function.update_self _ _ _
  have untagged (fd : Nat) : lane strands.begun (taken fd) = [] :=
    lane_empty fun entry there => Nat.ne_of_lt (sound.tagged fd entry there)
  have appended : (strands.begin this object.fd).appended = strands.appended := rfl
  refine ⟨⟨accounts.accepted, ?_, ?_, ?_⟩, ?_, ?_, ?_, ?_⟩
  · intro fd entry there
    exact (home_other (Nat.ne_of_lt (sound.tagged fd entry there))).trans (accounts.home fd entry there)
  · intro k found there
    rw [appended]
    rcases given_cases there with ⟨rfl, rfl⟩ | ⟨away, there⟩
    · rw [strand_this, home_new, untagged, empty]
      exact ⟨rfl, (sound.fresh _ (le_refl _)).symm⟩
    · rw [strand_other away, home_other (Nat.ne_of_lt (sound.begun k (alive_some there)))]
      exact accounts.held k found there
  · intro strand unheld
    have old : strand ≠ strands.begun := by
      rintro rfl
      exact unheld this (by simp) strand_this
    rw [home_other old, appended]
    refine accounts.rest strand fun k alive => ?_
    rw [← strand_other (older alive)]
    exact unheld k (alive_kept alive (Option.some_ne_none _))
  · intro j k first second same
    rcases alive_update first with rfl | ⟨away, old⟩ <;> rcases alive_update second with rfl | ⟨off, alive⟩
    · rfl
    · rw [strand_this, strand_other off] at same
      exact absurd same.symm (Nat.ne_of_lt (sound.begun k alive))
    · rw [strand_this, strand_other away] at same
      exact absurd same (Nat.ne_of_lt (sound.begun j old))
    · rw [strand_other away, strand_other off] at same
      exact sound.apart j k old alive same
  · intro k alive
    rcases alive_update alive with rfl | ⟨away, old⟩
    · rw [strand_this]
      exact Nat.lt_succ_self _
    · rw [strand_other away]
      exact Nat.lt_succ_of_lt (sound.begun k old)
  · intro fd entry there
    exact Nat.lt_succ_of_lt (sound.tagged fd entry there)
  · intro strand late
    exact sound.fresh strand (Nat.le_of_succ_le late)

theorem dropped (kept : Kept fds objs strands taken) (there : objs this = some object)
    (empty : object.buf = []) : Kept fds (Function.update objs this none) strands taken := by
  obtain ⟨accounts, sound⟩ := kept
  have older {k : Nat} (alive : Function.update objs this none k ≠ none) : objs k ≠ none := by
    obtain ⟨found, holds⟩ := Option.ne_none_iff_exists'.mp alive
    exact alive_some (released_holds holds).2
  refine ⟨⟨accounts.accepted, accounts.home, ?_, ?_⟩, ?_, ?_, sound.tagged, sound.fresh⟩
  · intro k found holds
    exact accounts.held k found (released_holds holds).2
  · intro strand unheld
    by_cases mine : strands.strand this = strand
    · obtain ⟨home, whole⟩ := accounts.held this object there
      rw [empty, List.append_nil] at whole
      rw [← mine, home]
      exact whole
    · refine accounts.rest strand fun k alive same => ?_
      have away : k ≠ this := by
        rintro rfl
        exact mine same
      refine unheld k ?_ same
      rw [Function.update_of_ne away]
      exact alive
  · intro j k first second same
    exact sound.apart j k (older first) (older second) same
  · intro k alive
    exact sound.begun k (older alive)

theorem handed (kept : Kept fds objs strands taken) (free : objs this = none)
    (there : objs other = some object) :
    Kept fds (Function.update (Function.update objs this (some object)) other none)
      { strands with strand := Function.update strands.strand this (strands.strand other) } taken := by
  obtain ⟨accounts, sound⟩ := kept
  have differ : this ≠ other := (holders_differ free there).symm
  let after := Function.update (Function.update objs this (some object)) other none
  let strand := Function.update strands.strand this (strands.strand other)
  -- whatever is there now was there, perhaps as the other object, with the same strand
  have old {k : Nat} (alive : after k ≠ none) : ∃ m, objs m = after k ∧ strand k = strands.strand m ∧
      ((k = this ∧ m = other) ∨ (k = m ∧ k ≠ other)) := by
    obtain ⟨found, holds⟩ := Option.ne_none_iff_exists'.mp alive
    rw [holds]
    obtain ⟨away, holds⟩ := released_holds holds
    rcases given_cases holds with ⟨rfl, rfl⟩ | ⟨off, holds⟩
    · exact ⟨other, there, Function.update_self _ _ _, .inl ⟨rfl, rfl⟩⟩
    · exact ⟨k, holds, Function.update_of_ne off _ _, .inr ⟨rfl, away⟩⟩
  refine ⟨⟨accounts.accepted, accounts.home, ?_, ?_⟩, ?_, ?_, sound.tagged, sound.fresh⟩
  · intro k found holds
    obtain ⟨m, before, same, _⟩ := old (alive_some holds)
    have held := accounts.held m found (before.trans holds)
    rw [← same] at held
    exact held
  · intro which unheld
    refine accounts.rest which fun k before same => ?_
    by_cases last : k = other
    · refine unheld this ?_ ((Function.update_self _ _ _).trans (last ▸ same))
      rw [Function.update_of_ne differ, Function.update_self]
      exact Option.some_ne_none _
    · have off : k ≠ this := by
        rintro rfl
        exact before free
      refine unheld k ?_ ((Function.update_of_ne off _ _).trans same)
      rw [Function.update_of_ne last, Function.update_of_ne off]
      exact before
  · intro j k first second same
    obtain ⟨m, before, of_first, here⟩ := old first
    obtain ⟨n, later, of_second, also⟩ := old second
    have equal := sound.apart m n (before ▸ first) (later ▸ second) (of_first.symm.trans (same.trans of_second))
    rcases here with ⟨rfl, rfl⟩ | ⟨rfl, off⟩ <;> rcases also with ⟨rfl, rfl⟩ | ⟨rfl, away⟩
    · rfl
    · exact absurd equal.symm away
    · exact absurd equal off
    · exact equal
  · intro k alive
    obtain ⟨m, before, same, _⟩ := old alive
    exact Nat.lt_of_le_of_lt (Nat.le_of_eq same) (sound.begun m (before ▸ alive))

/-- An operation of one object, which writes `bytes`. -/
theorem worked (kept : Kept fds objs strands taken) (there : objs this = some object) (left : FormatObject)
    (same : left.fd = object.fd) {text bytes : List UInt8} {fd : Sink E}
    (accepted : fd.accepted = (fds object.fd).accepted ++ bytes) (whole : bytes ++ left.buf = object.buf ++ text) :
    ∃ taken, Kept (Function.update fds object.fd fd) (Function.update objs this (some left))
      (strands.add this text) taken := by
  obtain ⟨accounts, sound⟩ := kept
  have here := alive_some there
  have older {k : Nat} (alive : Function.update objs this (some left) k ≠ none) : objs k ≠ none := by
    rcases alive_update alive with rfl | ⟨_, old⟩
    · exact here
    · exact old
  obtain ⟨home, before⟩ := accounts.held this object there
  let strand := strands.strand this
  let after := Function.update taken object.fd (taken object.fd ++ bytes.map (strand, ·))
  have appended_other {other : Nat} (differ : other ≠ strand) :
      (strands.add this text).appended other = strands.appended other := Function.update_of_ne differ _ _
  have after_own : after object.fd = taken object.fd ++ bytes.map (strand, ·) := Function.update_self _ _ _
  have after_other {which : Nat} (differ : which ≠ object.fd) : after which = taken which :=
    Function.update_of_ne differ _ _
  have lane_kept {which other : Nat} (differ : other ≠ strand) :
      lane other (after which) = lane other (taken which) := by
    by_cases own : which = object.fd
    · rw [own, after_own, lane_append, lane_other (Ne.symm differ), List.append_nil]
    · rw [after_other own]
  -- an entry was there before, or is one of the new bytes
  have entries {which : Nat} {entry : Nat × UInt8} (inside : entry ∈ after which) :
      entry ∈ taken which ∨ (which = object.fd ∧ entry.1 = strand) := by
    by_cases own : which = object.fd
    · rw [own, after_own] at inside
      rcases List.mem_append.mp inside with inside | inside
      · exact .inl (own ▸ inside)
      · obtain ⟨byte, _, rfl⟩ := List.mem_map.mp inside
        exact .inr ⟨own, rfl⟩
    · rw [after_other own] at inside
      exact .inl inside
  refine ⟨after, ⟨?_, ?_, ?_, ?_⟩, ?_, ?_, ?_, ?_⟩
  · intro which
    by_cases own : which = object.fd
    · have tags : (bytes.map (strand, ·)).map Prod.snd = bytes := by simp
      rw [own, Function.update_self, accepted, after_own, List.map_append, tags, accounts.accepted]
    · rw [Function.update_of_ne own, after_other own]
      exact accounts.accepted which
  · intro which entry inside
    rcases entries inside with inside | ⟨rfl, own⟩
    · exact accounts.home which entry inside
    · exact (congrArg strands.home own).trans home
  · intro k found holds
    rcases given_cases holds with ⟨rfl, rfl⟩ | ⟨away, holds⟩
    · have all : (strands.add k text).appended strand = strands.appended strand ++ text :=
        Function.update_self _ _ _
      refine ⟨home.trans same.symm, ?_⟩
      calc lane strand (after found.fd) ++ found.buf
          = lane strand (taken object.fd) ++ bytes ++ found.buf := by
            rw [same, after_own, lane_append, lane_own]
        _ = lane strand (taken object.fd) ++ object.buf ++ text := by
            rw [List.append_assoc, whole, ← List.append_assoc]
        _ = (strands.add k text).appended strand := by rw [before, all]
    · have differ : strands.strand k ≠ strand := fun equal =>
        away (sound.apart k this (alive_some holds) here equal)
      obtain ⟨at_home, as_appended⟩ := accounts.held k found holds
      refine ⟨at_home, ?_⟩
      exact (congrArg (· ++ found.buf) (lane_kept differ)).trans (as_appended.trans (appended_other differ).symm)
  · intro other unheld
    have differ : other ≠ strand := fun equal => unheld this (by simp) equal.symm
    refine (lane_kept differ).trans (Eq.trans ?_ (appended_other differ).symm)
    exact accounts.rest other fun k alive => unheld k (alive_kept alive (Option.some_ne_none _))
  · intro j k first second equal
    exact sound.apart j k (older first) (older second) equal
  · intro k alive
    exact sound.begun k (older alive)
  · intro which entry inside
    rcases entries inside with inside | ⟨_, own⟩
    · exact sound.tagged which entry inside
    · exact own ▸ sound.begun this here
  · intro other late
    have differ : other ≠ strand := by
      rintro rfl
      exact absurd (sound.begun this here) (Nat.not_lt.mpr late)
    exact (appended_other differ).trans (sound.fresh other late)

end Kept

namespace Threaded

/-- The accounts are right, and the descriptors have the replies they started with. -/
structure Followed (reply : Nat → Nat → WriteReply E) (state : Threaded E) : Prop where
  kept : ∃ taken, Kept state.pool.fds state.pool.objs state.strands taken
  reply : ∀ fd, (state.pool.fds fd).reply = reply fd

theorem Followed.start (reply : Nat → Nat → WriteReply E) : Followed reply (start reply) where
  kept := ⟨fun _ => [], ⟨fun _ => rfl, fun _ _ => nofun, nofun, fun _ _ => rfl⟩,
    fun _ _ there => absurd rfl there, fun _ there => absurd rfl there, fun _ _ => nofun, fun _ _ => rfl⟩
  reply _ := rfl

variable {reply : Nat → Nat → WriteReply E} {fds : Nat → Sink E} {objs : Nat → Option FormatObject}
  {strands : Strands} {taken : Nat → List (Nat × UInt8)} {this other : Nat} {object source : FormatObject}

private theorem moved (kept : Kept fds objs strands taken) (free : objs this = none)
    (there : objs other = some source) :
    Kept fds (FormatPool.move this other source ⟨fds, objs⟩).objs (strands.pass this other) taken := by
  have handed := kept.handed free there
  have again := handed.begin other source.moved (Function.update_self _ _ _) rfl
  rw [Function.update_idem] at again
  have home : source.moved.fd = strands.home (strands.strand other) := (kept.accounts.held other source there).1.symm
  rw [home] at again
  exact again

private theorem worked (healthy : ∀ fd k, 0 < (reply fd k).count) (followed : Followed reply ⟨⟨fds, objs⟩, strands⟩)
    (there : objs this = some object) (action : FormatAction) :
    let after := (Formatting.work action (object.deref fds)).2
    Followed reply ⟨⟨Function.update fds object.fd after.fd,
      Function.update objs this (if action = .destroy then none else some { object with buf := after.buf })⟩,
      strands.add this action.text⟩ := by
  intro after
  obtain ⟨⟨taken, kept⟩, replies⟩ := followed
  have taking (k : Nat) : 0 < ((object.deref fds).fd.reply k).count := by
    rw [show (object.deref fds).fd.reply = reply object.fd from replies object.fd]
    exact healthy object.fd k
  have spec := Formatting.work_spec action (object.deref fds)
  obtain ⟨bytes, accepted, whole⟩ := Formatting.work_bytes action (object.deref fds) taking
  obtain ⟨taken, kept⟩ := kept.worked there { object with buf := after.buf } rfl accepted whole
  constructor
  · refine ⟨taken, ?_⟩
    by_cases last : action = .destroy
    · have empty : after.buf = [] := spec.empty (spec.healthy taking) (.inr last)
      have gone := kept.dropped (Function.update_self _ _ _) empty
      rw [Function.update_idem] at gone
      simp only [if_pos last]
      exact gone
    · simp only [if_neg last]
      exact kept
  · intro fd
    show (Function.update fds object.fd after.fd fd).reply = reply fd
    by_cases own : fd = object.fd
    · rw [own, Function.update_self]
      exact spec.reply.trans (replies object.fd)
    · rw [Function.update_of_ne own]
      exact replies fd

theorem step_followed (healthy : ∀ fd k, 0 < (reply fd k).count) {state next : Threaded E}
    (followed : Followed reply state) {op : FormatOp} (spares : Spares op state.pool)
    (stepped : state.step op = some next) : Followed reply next := by
  obtain ⟨⟨fds, objs⟩, strands⟩ := state
  obtain ⟨pool, stepping, rfl⟩ := Option.map_eq_some_iff.mp stepped
  have replies := followed.reply
  cases op with
  | construct this fd max =>
    simp only [FormatPool.step] at stepping
    split at stepping
    · rename_i free
      cases stepping
      obtain ⟨taken, kept⟩ := followed.kept
      exact ⟨⟨taken, kept.begin this { fd := fd, buf := [], max := max } free rfl⟩, replies⟩
    · cases stepping
  | work this action =>
    simp only [FormatPool.step] at stepping
    split at stepping
    · cases stepping
    · rename_i object there
      cases stepping
      exact worked healthy followed there action
  | moveConstruct this other =>
    simp only [FormatPool.step] at stepping
    split at stepping
    · rename_i source free there
      cases stepping
      obtain ⟨taken, kept⟩ := followed.kept
      exact ⟨⟨taken, moved kept free there⟩, replies⟩
    · cases stepping
  | moveAssign this other =>
    simp only [FormatPool.step] at stepping
    split at stepping
    · rename_i object source here there
      split at stepping
      · rename_i same
        cases stepping
        simp only [Strands.step, if_pos same]
        exact followed
      · rename_i differ
        cases stepping
        obtain ⟨taken, kept⟩ := followed.kept
        have empty : object.buf = [] := (spares.resolve_left differ) object here
        have dropped := kept.dropped here empty
        have passed := moved dropped (Function.update_self _ _ _)
          ((Function.update_of_ne (Ne.symm differ) _ _).trans there)
        simp only [FormatPool.move, Function.update_idem] at passed
        simp only [Strands.step, if_neg differ]
        exact ⟨⟨taken, passed⟩, replies⟩
    · cases stepping

/-- Unless a buffer is moved onto unwritten text, every byte is written once and in order
to the descriptor of its buffer by the time all objects are gone. -/
theorem runs_written (healthy : ∀ fd k, 0 < (reply fd k).count) {state : Threaded E}
    (runs : Runs Spares reply state) :
    ∃ taken, Accounts state.pool.fds state.pool.objs state.strands taken ∧
      ((∀ k, state.pool.objs k = none) → ∀ strand fd, lane strand (taken fd) =
        if fd = state.strands.home strand then state.strands.appended strand else []) := by
  have followed : Followed reply state := by
    apply runs.invariant
    · rintro state rfl
      exact .start reply
    · rintro state next followed ⟨op, spares, stepped⟩
      exact step_followed healthy followed spares stepped
  obtain ⟨⟨taken, kept⟩, -⟩ := followed
  refine ⟨taken, kept.accounts, fun gone strand fd => ?_⟩
  split
  · rename_i own
    rw [own]
    exact kept.accounts.rest strand fun k alive => absurd (gone k) alive
  · rename_i away
    refine lane_empty fun entry inside same => away ?_
    rw [← same]
    exact (kept.accounts.home fd entry inside).symm

def ready : Nat → Nat → WriteReply Nat := fun _ _ => .accepts 4096

/-- A text is moved into an empty buffer, and written by its destructor. -/
theorem runs_written_moved : ∃ state : Threaded Nat, Runs Spares ready state ∧
    (state.pool.fds 7).accepted = [104, 105] ∧ state.strands.appended 0 = [104, 105] ∧
    ∃ taken, Accounts state.pool.fds state.pool.objs state.strands taken ∧
      ((∀ k, state.pool.objs k = none) → ∀ strand fd, lane strand (taken fd) =
        if fd = state.strands.home strand then state.strands.appended strand else []) := by
  let made := ((start ready).step (.construct 0 7 4096)).get rfl
  let filled := (made.step (.work 0 (.append [104, 105]))).get rfl
  let both := (filled.step (.construct 1 8 4096)).get rfl
  let moved := (both.step (.moveAssign 1 0)).get rfl
  let last := (moved.step (.work 1 .destroy)).get rfl
  have empty (object : FormatObject) (there : both.pool.objs 1 = some object) : object.buf = [] := by
    cases there
    rfl
  have runs : Runs Spares ready last :=
    .step (.step (.step (.step (.step (.start rfl) ⟨.construct 0 7 4096, trivial, rfl⟩)
      ⟨.work 0 (.append [104, 105]), trivial, rfl⟩) ⟨.construct 1 8 4096, trivial, rfl⟩)
      ⟨.moveAssign 1 0, .inr empty, rfl⟩) ⟨.work 1 .destroy, trivial, rfl⟩
  have accepts (fd k : Nat) : 0 < (ready fd k).count := Nat.zero_lt_succ 4095
  exact ⟨last, runs, by decide +kernel, rfl, runs_written accepts runs⟩

/-- A text that waits in a buffer is gone once another buffer is moved onto it. -/
theorem runs_overwrites : ∃ state : Threaded Nat, Runs (fun _ _ => True) ready state ∧
    (∀ k, state.pool.objs k = none) ∧ (state.pool.fds (state.strands.home 0)).accepted = [] ∧
    state.strands.appended 0 = [104, 105] ∧
    ¬ ∃ taken, Accounts state.pool.fds state.pool.objs state.strands taken := by
  let ops : List FormatOp := [.construct 0 7 4096, .work 0 (.append [104, 105]), .construct 1 8 4096,
    .moveAssign 0 1, .work 0 .destroy, .work 1 .destroy]
  let last : Threaded Nat := (ops.foldlM (fun state op => step op state) (start ready)).get rfl
  have ran : ops.foldlM (fun state op => step op state) (start ready) = some last := rfl
  have gone (k : Nat) : last.pool.objs k = none := by
    by_cases named : k = 0 ∨ k = 1
    · rcases named with rfl | rfl <;> rfl
    · refine foldlM_same (fun state => state.pool.objs k) ran fun op inside state next stepped => ?_
      obtain ⟨pool, stepping, rfl⟩ := Option.map_eq_some_iff.mp stepped
      have ours : ∀ op ∈ ops, ∀ n ∈ op.objects, n = 0 ∨ n = 1 := by decide
      exact FormatPool.step_other stepping fun touched => named (ours op inside k touched)
  have nothing : (last.pool.fds (last.strands.home 0)).accepted = [] := by decide +kernel
  have runs : Runs (fun _ _ => True) ready last := by
    have reached : Reachable (· = start ready) (fun state next => ∃ op, step op state = some next) last :=
      Reachable.foldlM_some (.start rfl) ran
    exact reached.mono fun state next ⟨op, stepped⟩ => ⟨op, trivial, stepped⟩
  refine ⟨last, runs, gone, nothing, rfl, ?_⟩
  rintro ⟨taken, accounts⟩
  have whole := accounts.rest 0 fun k alive => absurd (gone k) alive
  have none_taken : taken (last.strands.home 0) = [] :=
    List.map_eq_nil_iff.mp ((accounts.accepted _).symm.trans nothing)
  rw [none_taken] at whole
  exact absurd whole (by decide)

end Threaded

end Stdplus.Fd
