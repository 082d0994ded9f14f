import Stdplus.Base.Holders
import Stdplus.Base.Transition
import Stdplus.Fd.Lines

/-! Any number of `LineReader`s with defaulted moves: the unread span is copied as it is,
while the array it lies in stays with its reader. -/

set_option linter.dupNamespace false

namespace Stdplus.Fd

open Stdplus.Base

variable {E : Type}

/-- A reader with a reference to its descriptor. -/
structure PooledReader extends LineReader where
  fd : Nat

/-- The array of the object `k` is at the address `k`. -/
structure LinePool (E : Type) where
  fds : Nat → Fd E
  objs : Nat → Option PooledReader
  memory : Memory

/-- What a move leaves in a `std::string`, and what a move onto itself makes of it. -/
structure StringMoves where
  left : List UInt8 → List UInt8
  itself : List UInt8 → List UInt8

inductive LineOp where
  | construct (this fd : Nat) (raw : Nat → UInt8)
  | readLine (this : Nat)
  | moveConstruct (this other : Nat)
  | moveAssign (this other : Nat)
  | destroy (this : Nat)

namespace LinePool

def reading (object : PooledReader) (pool : LinePool E) : Reading E where
  reader := object.toLineReader
  memory := pool.memory
  fd := pool.fds object.fd

/-- Member by member: the characters of the array are copied, and the span as it is. -/
def move (moves : StringMoves) (this other : Nat) (source : PooledReader) (pool : LinePool E) : LinePool E where
  fds := pool.fds
  objs := Function.update (Function.update pool.objs this (some { source with buf := this }))
    other (some { source with line := moves.left source.line })
  memory := Function.update pool.memory this (pool.memory other)

/-- A step of the program; there is none where an object is missing, or behind an access
outside of an array. -/
def step (moves : StringMoves) (op : LineOp) (pool : LinePool E) : Option (LinePool E) :=
  match op with
  | .construct this fd raw =>
    match pool.objs this with
    | none =>
      let new := Reading.start raw (pool.fds fd)
      some { pool with
        objs := Function.update pool.objs this (some { new.reader with buf := this, fd := fd })
        memory := Function.update pool.memory this (new.memory new.reader.buf) }
    | some _ => none
  | .readLine this =>
    match pool.objs this with
    | none => none
    | some object =>
      match (pool.reading object).readLine with
      | (.bad, _) => none
      | (_, after) => some {
          fds := Function.update pool.fds object.fd after.fd
          objs := Function.update pool.objs this (some { after.reader with fd := object.fd })
          memory := after.memory }
  | .moveConstruct this other =>
    match pool.objs this, pool.objs other with
    | none, some source => some (pool.move moves this other source)
    | _, _ => none
  | .moveAssign this other =>
    match pool.objs this, pool.objs other with
    | some _, some source =>
      if this = other then
        some { pool with
          objs := Function.update pool.objs this (some { source with line := moves.itself source.line }) }
      else
        some (pool.move moves this other source)
    | _, _ => none
  | .destroy this =>
    match pool.objs this with
    | none => none
    | some _ => some { pool with
        objs := Function.update pool.objs this none
        memory := Function.update pool.memory this none }

/-- The unread span of a reader is part of its own array. -/
def OwnSpan (this : Nat) (reader : LineReader) : Prop :=
  reader.buf_data.size = 0 ∨
    reader.buf_data.array = this ∧ reader.buf_data.offset + reader.buf_data.size ≤ buf_size

def OwnSpans (pool : LinePool E) : Prop := ∀ k object, pool.objs k = some object → OwnSpan k object.toLineReader

/-- Nothing unread is in a reader that another one is made of. -/
def Passes (op : LineOp) (pool : LinePool E) : Prop :=
  match op with
  | .moveConstruct this other | .moveAssign this other =>
    this = other ∨ ∀ source, pool.objs other = some source → source.buf_data.size = 0
  | _ => True

def start (fds : Nat → Fd E) : LinePool E where
  fds := fds
  objs := fun _ => none
  memory := fun _ => none

abbrev Runs (allowed : LineOp → LinePool E → Prop) (moves : StringMoves) (fds : Nat → Fd E) :
    LinePool E → Prop :=
  Reachable (· = start fds) (fun pool next => ∃ op, allowed op pool ∧ pool.step moves op = some next)

end LinePool

namespace Reading

/-- What a reader with its unread characters in its own array does to the memory. -/
structure Stays (s after : Reading E) : Prop where
  own : ∃ waiting, Own after waiting
  buf : after.reader.buf = s.reader.buf
  frame : ∀ k, k ≠ s.reader.buf → after.memory k = s.memory k

theorem Stays.trans {s middle after : Reading E} (first : Stays s middle) (second : Stays middle after) :
    Stays s after where
  own := second.own
  buf := second.buf.trans first.buf
  frame k away := (second.frame k (first.buf ▸ away)).trans (first.frame k away)

private theorem filled_stays {s : Reading E} {array : List UInt8} (length : array.length = buf_size)
    (reader : LineReader) (same : reader.buf = s.reader.buf) (fd : Fd E)
    (span : reader.buf_data.size = 0 ∨ reader.buf_data.array = s.reader.buf ∧ reader.buf_data.offset = 0 ∧
      reader.buf_data.size ≤ buf_size) :
    Stays s { reader := reader, memory := Function.update s.memory s.reader.buf (some array), fd := fd } where
  own := by
    have there : Function.update s.memory s.reader.buf (some array) reader.buf = some array := by
      rw [same, Function.update_self]
    rcases span with none | ⟨mine, front, fits⟩
    · exact ⟨[], .nothing there length none⟩
    · by_cases none : reader.buf_data.size = 0
      · exact ⟨[], .nothing there length none⟩
      · refine ⟨(array.drop 0).take reader.buf_data.size, ⟨array, there, length⟩,
          .inr ⟨mine.trans same.symm, ?_⟩, ?_⟩
        · simp only [front]
          omega
        · simp only [Span.chars, if_neg none, mine, Function.update_self, front]
          rw [if_pos (by omega)]
  buf := same
  frame k away := Function.update_of_ne away _ _

theorem fill_stays {s : Reading E} {waiting : List UInt8} (own : Own s waiting) :
    match fill s with
    | .ok filled => Stays s filled
    | .error (outcome, after) => outcome ≠ .bad ∧ Stays s after := by
  by_cases empty : s.reader.buf_data.size = 0
  · obtain ⟨array, there, length⟩ := own.array
    simp only [fill, empty, if_true, there, read_eq]
    cases asked : s.fd.read array.length with
    | mk outcome rest =>
      cases outcome with
      | error thrown =>
        have stays (ended : Bool) := filled_stays length { s.reader with hit_eof := ended } rfl rest (.inl empty)
        cases thrown with
        | eof what => exact ⟨by simp, stays true⟩
        | _ => exact ⟨by simp, stays s.reader.hit_eof⟩
      | ok data =>
        have fits : data.val.length ≤ buf_size := length ▸ data.property
        have whole : (overwrite array 0 data.val).length = buf_size := (overwrite_length _ _ _).trans length
        have stays := filled_stays whole { s.reader with
          buf_data := { array := s.reader.buf, offset := 0, size := data.val.length } } rfl rest
          (.inr ⟨rfl, rfl, fits⟩)
        by_cases nothing : data.val.length = 0
        · simp only [if_pos nothing]
          exact ⟨by simp, stays⟩
        · simp only [if_neg nothing]
          exact stays
  · rw [fill, if_neg empty]
    exact ⟨⟨waiting, own⟩, rfl, fun _ _ => rfl⟩

theorem consume_stays {s : Reading E} {waiting : List UInt8} (own : Own s waiting) :
    match consume s with
    | .ok rest => Stays s rest
    | .error (outcome, after) => outcome ≠ .bad ∧ Stays s after := by
  simp only [consume, own.chars]
  cases found : waiting.findIdx? (· = newline) with
  | some i =>
    obtain ⟨less, _, _⟩ := List.findIdx?_eq_some_iff_getElem.mp found
    obtain ⟨chars, short⟩ := chars_subspan own.chars less
    refine ⟨by simp, ⟨waiting.drop (i + 1), own.array, ?_, chars⟩, rfl, fun _ _ => rfl⟩
    rcases own.inside with none | ⟨mine, fits⟩
    · omega
    · right
      refine ⟨mine, ?_⟩
      simp only [Span.subspan]
      omega
  | none => exact ⟨⟨[], own.array, .inl rfl, if_pos rfl⟩, rfl, fun _ _ => rfl⟩

theorem loop_stays {s : Reading E} {waiting : List UInt8} (own : Own s waiting) :
    (loop s).1 ≠ .bad ∧ Stays s (loop s).2 := by
  induction s using loop.induct generalizing waiting with
  | case1 s returned filled =>
    have first := fill_stays own
    rw [filled] at first
    rw [loop_eq, filled]
    exact first
  | case2 s filled more returned consumed =>
    have first := fill_stays own
    rw [more] at first
    obtain ⟨now, own'⟩ := first.own
    have second := consume_stays own'
    rw [consumed] at second
    rw [loop_eq, more]
    simp only [consumed]
    exact ⟨second.1, first.trans second.2⟩
  | case3 s filled more rest consumed ih =>
    have first := fill_stays own
    rw [more] at first
    obtain ⟨now, own'⟩ := first.own
    have second := consume_stays own'
    rw [consumed] at second
    obtain ⟨later, own''⟩ := second.own
    obtain ⟨fine, third⟩ := ih own''
    rw [loop_eq, more]
    simp only [consumed]
    exact ⟨fine, (first.trans second).trans third⟩

theorem readLine_stays {s : Reading E} {waiting : List UInt8} (own : Own s waiting) :
    (readLine s).1 ≠ .bad ∧ Stays s (readLine s).2 := by
  rw [readLine]
  split
  · exact ⟨by simp, ⟨waiting, own⟩, rfl, fun _ _ => rfl⟩
  · let cleared : Reading E :=
      { s with reader := { s.reader with line := if s.reader.line_complete then [] else s.reader.line } }
    have own' : Own cleared waiting := ⟨own.array, own.inside, own.chars⟩
    obtain ⟨fine, stays⟩ := loop_stays own'
    exact ⟨fine, stays.own, stays.buf, stays.frame⟩

end Reading

namespace LinePool

open Reading

/-- Every reader has its array and its unread characters in it. -/
def Sound (pool : LinePool E) : Prop :=
  ∀ k object, pool.objs k = some object → object.buf = k ∧ ∃ waiting, Own (pool.reading object) waiting

theorem Own.congr {s other : Reading E} {waiting : List UInt8} (own : Own s waiting)
    (same : other.memory s.reader.buf = s.memory s.reader.buf) (buf : other.reader.buf = s.reader.buf)
    (span : other.reader.buf_data = s.reader.buf_data) : Own other waiting where
  array := by
    rw [buf, same]
    exact own.array
  inside := by
    rw [buf, span]
    exact own.inside
  chars := by
    rw [span, ← own.chars]
    rcases own.inside with none | ⟨mine, _⟩
    · rw [Span.chars, Span.chars, if_pos none, if_pos none]
    · rw [Span.chars, Span.chars, mine, same]

variable {moves : StringMoves} {pool next : LinePool E} {this other : Nat} {object source : PooledReader}

theorem Sound.ownSpans (sound : Sound pool) : OwnSpans pool := by
  intro k object there
  obtain ⟨here, waiting, own⟩ := sound k object there
  exact here ▸ own.inside

private theorem Sound.change (sound : Sound pool) (this : Nat) (fds : Nat → Fd E) (entry : Option PooledReader)
    (memory : Memory) (frame : ∀ k, k ≠ this → memory k = pool.memory k)
    (here : ∀ object, entry = some object → object.buf = this ∧
      ∃ waiting, Own { reader := object.toLineReader, memory := memory, fd := fds object.fd } waiting) :
    Sound { fds := fds, objs := Function.update pool.objs this entry, memory := memory } := by
  intro k object there
  change Function.update pool.objs this entry k = some object at there
  by_cases same : k = this
  · rw [same, Function.update_self] at there
    rw [same]
    exact here object there
  · rw [Function.update_of_ne same] at there
    obtain ⟨at_home, waiting, own⟩ := sound k object there
    exact ⟨at_home, waiting, Own.congr own (frame _ (fun equal => same (at_home.symm.trans equal))) rfl rfl⟩

private theorem Sound.moved (sound : Sound pool) (there : pool.objs other = some source) (differ : this ≠ other)
    (nothing : source.buf_data.size = 0) : Sound (pool.move moves this other source) := by
  obtain ⟨at_home, waiting, own⟩ := sound other source there
  obtain ⟨array, found, length⟩ := own.array
  have found' : pool.memory other = some array := at_home ▸ found
  have first := sound.change this pool.fds (some { source with buf := this })
    (Function.update pool.memory this (pool.memory other))
    (fun k away => Function.update_of_ne away _ _) (by
      rintro object ⟨⟩
      refine ⟨rfl, [], .nothing ?_ length nothing⟩
      exact (Function.update_self _ _ _).trans found')
  have second := first.change other pool.fds (some { source with line := moves.left source.line }) _
    (fun k _ => rfl) (by
      rintro object ⟨⟩
      refine ⟨at_home, waiting, Own.congr own ?_ rfl rfl⟩
      refine Function.update_of_ne ?_ _ _
      exact fun equal => differ (equal.symm.trans at_home))
  exact second

/-- A step that passes no unread characters on keeps every span in its own array. -/
theorem step_sound (sound : Sound pool) {op : LineOp} (passes : Passes op pool)
    (stepped : pool.step moves op = some next) : Sound next := by
  cases op with
  | construct this fd raw =>
    simp only [step] at stepped
    split at stepped
    · cases stepped
      refine sound.change this pool.fds _ _ (fun k away => Function.update_of_ne away _ _) ?_
      rintro object ⟨⟩
      refine ⟨rfl, [], .nothing (Function.update_self _ _ _) ?_ rfl⟩
      rw [List.length_map, List.length_range]
    · cases stepped
  | readLine this =>
    simp only [step] at stepped
    split at stepped
    · cases stepped
    · rename_i object there
      obtain ⟨at_home, waiting, own⟩ := sound this object there
      obtain ⟨_, stays⟩ := readLine_stays own
      split at stepped
      · cases stepped
      · rename_i outcome after _ returned
        rw [returned] at stays
        cases stepped
        refine sound.change this _ _ _ (fun k away => stays.frame k ?_) ?_
        · exact fun equal => away (equal.trans at_home)
        · rintro object ⟨⟩
          obtain ⟨later, own'⟩ := stays.own
          exact ⟨stays.buf.trans at_home, later, Own.congr own' rfl rfl rfl⟩
  | moveConstruct this other =>
    simp only [step] at stepped
    split at stepped
    · rename_i source free there
      cases stepped
      have differ := holders_differ free there
      exact sound.moved there differ.symm ((passes.resolve_left differ.symm) source there)
    · cases stepped
  | moveAssign this other =>
    simp only [step] at stepped
    split at stepped
    · rename_i object source here there
      split at stepped
      · rename_i same
        cases stepped
        subst same
        obtain ⟨at_home, waiting, own⟩ := sound this source there
        refine sound.change this pool.fds _ _ (fun _ _ => rfl) ?_
        rintro object ⟨⟩
        exact ⟨at_home, waiting, Own.congr own rfl rfl rfl⟩
      · rename_i differ
        cases stepped
        exact sound.moved there differ ((passes.resolve_left differ) source there)
    · cases stepped
  | destroy this =>
    simp only [step] at stepped
    split at stepped
    · cases stepped
    · cases stepped
      exact sound.change this pool.fds none _ (fun k away => Function.update_of_ne away _ _) (by simp)

/-- The two operations by which a reader is made of another one. -/
def Moves (op : LineOp) (this other : Nat) : Prop :=
  this ≠ other ∧ (op = .moveConstruct this other ∨ op = .moveAssign this other)

theorem Moves.step_eq {op : LineOp} (made : Moves op this other) (stepped : pool.step moves op = some next) :
    ∃ source, pool.objs other = some source ∧ next = pool.move moves this other source := by
  obtain ⟨differ, rfl | rfl⟩ := made
  · simp only [step] at stepped
    split at stepped
    · rename_i source free there
      exact ⟨source, there, (Option.some.inj stepped).symm⟩
    · cases stepped
  · simp only [step] at stepped
    split at stepped
    · rename_i object source here there
      rw [if_neg differ] at stepped
      exact ⟨source, there, (Option.some.inj stepped).symm⟩
    · cases stepped

theorem passes_iff (op : LineOp) (pool : LinePool E) : Passes op pool ↔
    ∀ this other, Moves op this other → ∀ source, pool.objs other = some source → source.buf_data.size = 0 := by
  have both (given : LineOp) (this other : Nat)
      (ours : given = .moveConstruct this other ∨ given = .moveAssign this other)
      (same : Passes given pool =
        (this = other ∨ ∀ source, pool.objs other = some source → source.buf_data.size = 0)) :
      Passes given pool ↔ ∀ this other, Moves given this other → ∀ source, pool.objs other = some source →
        source.buf_data.size = 0 := by
    rw [same]
    constructor
    · rintro passes first second ⟨differ, which⟩
      rcases ours with rfl | rfl <;> rcases which with which | which <;> cases which <;>
        exact passes.resolve_left differ
    · intro all
      by_cases equal : this = other
      · exact .inl equal
      · exact .inr (all this other ⟨equal, ours⟩)
  cases op with
  | moveConstruct this other => exact both _ this other (.inl rfl) rfl
  | moveAssign this other => exact both _ this other (.inr rfl) rfl
  | _ =>
    refine iff_of_true trivial ?_
    rintro this other ⟨_, impossible | impossible⟩ <;> cases impossible

/-- Readers that hold the same and read from the same descriptor give the same answers. -/
theorem outcomes_same {s other : Reading E} {waiting : List UInt8} (own : Own s waiting) (own' : Own other waiting)
    (line : other.reader.line = s.reader.line) (complete : other.reader.line_complete = s.reader.line_complete)
    (eof : other.reader.hit_eof = s.reader.hit_eof) (fd : other.fd = s.fd) (calls : Nat) :
    outcomes calls other = outcomes calls s := by
  cases over_now : s.reader.hit_eof with
  | true => rw [outcomes_spec calls (.finished over_now), outcomes_spec calls (.finished (eof.trans over_now))]
  | false =>
    have begun : other.begun = s.begun := by rw [Reading.begun, Reading.begun, complete, line]
    have going := Going.reading over_now own
    have going' := Going.reading (eof.trans over_now) own'
    rw [begun, fd] at going'
    rw [outcomes_spec calls going, outcomes_spec calls going']

/-- A reader that another one is moved into gives the answers that one would have given, as
long as nobody else reads from their descriptor and whatever becomes of the rest. -/
def Resumes (moves : StringMoves) (op : LineOp) (pool : LinePool E) : Prop :=
  ∀ this other source next, Moves op this other → pool.objs other = some source → pool.step moves op = some next →
    ∀ later : LinePool E, later.objs this = next.objs this → later.memory this = next.memory this →
      later.fds source.fd = pool.fds source.fd → ∃ object, later.objs this = some object ∧
        ∀ calls, outcomes calls (later.reading object) = outcomes calls (pool.reading source)

/-- As long as nothing unread is passed on, every reader reads from its own array only, and
one that another is moved into goes on as that one. -/
theorem runs_own {fds : Nat → Fd E} (runs : Runs Passes moves fds pool) :
    OwnSpans pool ∧
    (∀ this object, pool.objs this = some object → (pool.reading object).readLine.1 ≠ .bad) ∧
    (∀ op next, pool.step moves op = some next → (OwnSpans next ↔ Passes op pool)) ∧
    ∀ op, Passes op pool → Resumes moves op pool := by
  have sound : Sound pool := by
    apply runs.invariant
    · rintro _ rfl k object there
      cases there
    · rintro state next sound ⟨op, passes, stepped⟩
      exact step_sound sound passes stepped
  refine ⟨sound.ownSpans, ?_, ?_, ?_⟩
  · intro this object there
    obtain ⟨_, waiting, own⟩ := sound this object there
    exact (readLine_stays own).1
  · intro op next stepped
    constructor
    · intro spans
      rw [passes_iff]
      intro this other made source there
      obtain ⟨found, there', rfl⟩ := made.step_eq stepped
      cases there.symm.trans there'
      have new : (pool.move moves this other source).objs this = some { source with buf := this } :=
        (Function.update_of_ne made.1 _ _).trans (Function.update_self _ _ _)
      rcases spans this _ new with none | ⟨here, _⟩
      · exact none
      · rcases sound.ownSpans other source there with none | ⟨at_source, _⟩
        · exact none
        · exact absurd (here.symm.trans at_source) made.1
    · intro passes
      exact (step_sound sound passes stepped).ownSpans
  · intro op passes this other source next made there stepped later object array fd
    have nothing := (passes_iff op pool).mp passes this other made source there
    obtain ⟨found, there', rfl⟩ := made.step_eq stepped
    cases there.symm.trans there'
    obtain ⟨at_home, waiting, own⟩ := sound other source there
    have new : later.objs this = some { source with buf := this } :=
      object.trans ((Function.update_of_ne made.1 _ _).trans (Function.update_self _ _ _))
    refine ⟨_, new, ?_⟩
    obtain rfl := own.empty nothing
    obtain ⟨content, held, length⟩ := own.array
    have copied : later.memory this = some content :=
      array.trans ((Function.update_self _ _ _).trans (at_home ▸ held))
    have own' : Own (later.reading { source with buf := this }) [] := .nothing copied length nothing
    exact outcomes_same own own' rfl rfl rfl fd

def twoLines : Nat → Fd Nat := fun _ => [.bytes [97, 10, 98, 10]]

def noMoves : StringMoves where
  left _ := []
  itself line := line

/-- A reader is moved before its first read, which the other one makes. -/
theorem runs_own_moved : ∃ pool : LinePool Nat, Runs Passes noMoves twoLines pool ∧
    (pool.objs 1).map (·.line) = some [97] ∧ OwnSpans pool ∧
    (∀ this object, pool.objs this = some object → (pool.reading object).readLine.1 ≠ .bad) ∧
    (∀ op next, pool.step noMoves op = some next → (OwnSpans next ↔ Passes op pool)) ∧
    ∀ op, Passes op pool → Resumes noMoves op pool := by
  have ran : (do
      let made ← (start twoLines).step noMoves (.construct 0 0 fun _ => 0)
      let source ← made.objs 0
      let moved ← made.step noMoves (.moveConstruct 1 0)
      let asked ← moved.step noMoves (.readLine 1)
      let object ← asked.objs 1
      some (source.buf_data.size, object.line)) = some (0, [97]) := by decide +kernel
  obtain ⟨made, constructed, ran⟩ := Option.bind_eq_some_iff.mp ran
  obtain ⟨source, there, ran⟩ := Option.bind_eq_some_iff.mp ran
  obtain ⟨moved, constructed', ran⟩ := Option.bind_eq_some_iff.mp ran
  obtain ⟨asked, called, ran⟩ := Option.bind_eq_some_iff.mp ran
  obtain ⟨object, new, ran⟩ := Option.bind_eq_some_iff.mp ran
  simp only [Option.some.injEq, Prod.mk.injEq] at ran
  have nothing (found : PooledReader) (given : made.objs 0 = some found) : found.buf_data.size = 0 := by
    cases there.symm.trans given
    exact ran.1
  have runs : Runs Passes noMoves twoLines asked :=
    .step (.step (.step (.start rfl) ⟨.construct 0 0 fun _ => 0, trivial, constructed⟩)
      ⟨.moveConstruct 1 0, .inr nothing, constructed'⟩) ⟨.readLine 1, trivial, called⟩
  refine ⟨asked, runs, ?_, runs_own runs⟩
  rw [new, Option.map_some, ran.2]

/-- A reader with a line that waits goes on in another one, whose span is left in the array
of the first; that one is destroyed, and the next call reads what is not there any more. -/
theorem runs_dangles : ∃ pool : LinePool Nat, Runs (fun _ _ => True) noMoves twoLines pool ∧ ¬ OwnSpans pool ∧
    ∃ next object, pool.step noMoves (.destroy 0) = some next ∧ next.objs 1 = some object ∧
      (next.reading object).readLine.1 = .bad := by
  have ran : (do
      let made ← (start twoLines).step noMoves (.construct 0 0 fun _ => 0)
      let asked ← made.step noMoves (.readLine 0)
      let moved ← asked.step noMoves (.moveConstruct 1 0)
      let source ← moved.objs 1
      let gone ← moved.step noMoves (.destroy 0)
      let object ← gone.objs 1
      some (source.buf_data, (gone.reading object).readLine.1)) =
      some ({ array := 0, offset := 2, size := 2 }, .bad) := by decide +kernel
  obtain ⟨made, constructed, ran⟩ := Option.bind_eq_some_iff.mp ran
  obtain ⟨asked, called, ran⟩ := Option.bind_eq_some_iff.mp ran
  obtain ⟨moved, constructed', ran⟩ := Option.bind_eq_some_iff.mp ran
  obtain ⟨source, new, ran⟩ := Option.bind_eq_some_iff.mp ran
  obtain ⟨gone, destroyed, ran⟩ := Option.bind_eq_some_iff.mp ran
  obtain ⟨object, left, ran⟩ := Option.bind_eq_some_iff.mp ran
  simp only [Option.some.injEq, Prod.mk.injEq] at ran
  have runs : Runs (fun _ _ => True) noMoves twoLines moved :=
    .step (.step (.step (.start rfl) ⟨_, trivial, constructed⟩) ⟨_, trivial, called⟩) ⟨_, trivial, constructed'⟩
  refine ⟨moved, runs, fun spans => ?_, gone, object, destroyed, left, ran.2⟩
  rcases spans 1 source new with none | ⟨here, _⟩
  · rw [ran.1] at none
    cases none
  · rw [ran.1] at here
    cases here

end LinePool

end Stdplus.Fd
