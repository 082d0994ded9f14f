import Stdplus.Base.Separated
import Stdplus.Fd.FormatPool
import Stdplus.Fd.Lines

/-! Texts through a pipe: a `FormatBuffer` writes into it and a `LineReader` reads from
its other end, and each does so in pieces of any size. -/

set_option linter.dupNamespace false

namespace Stdplus.Fd

open Stdplus.Base

variable {E : Type}

theorem read_stream (size : Nat) (fd : Fd E) : stream (fd.read size).2 <:+ stream fd := by
  cases fd with
  | nil => exact List.suffix_rfl
  | cons reply fd =>
    cases reply with
    | system thrown => exact List.suffix_rfl
    | other thrown => exact List.suffix_rfl
    | bytes data =>
      simp only [Fd.read]
      split
      · exact List.suffix_append data (stream fd)
      · refine ⟨data.take size, ?_⟩
        simp only [stream, List.flatMap_cons]
        rw [← List.append_assoc, List.take_append_drop]

theorem answers_pieces (begun : List UInt8) (events : List (Event E)) :
    (answers begun events).filterMap Outcome.line? = pieces newline begun (events.filterMap Event.byte?) := by
  rw [answers_lines, pieces_eq]

namespace Reading

theorem fill_stream (s : Reading E) :
    match fill s with
    | .ok filled => stream filled.fd <:+ stream s.fd
    | .error (_, after) => stream after.fd <:+ stream s.fd := by
  by_cases empty : s.reader.buf_data.size = 0
  · simp only [fill, if_pos empty]
    cases there : s.memory s.reader.buf with
    | none => exact List.suffix_rfl
    | some array =>
      have front := read_stream array.length s.fd
      simp only [read_eq]
      cases asked : s.fd.read array.length with
      | mk outcome rest =>
        rw [asked] at front
        cases outcome with
        | error thrown => cases thrown <;> exact front
        | ok data =>
          simp only
          by_cases none : data.val.length = 0
          · rw [if_pos none]
            exact front
          · rw [if_neg none]
            exact front
  · simp only [fill, if_neg empty, List.suffix_rfl]

theorem consume_stream (s : Reading E) :
    match consume s with
    | .ok rest => rest.fd = s.fd
    | .error (_, after) => after.fd = s.fd := by
  rw [consume]
  cases s.reader.buf_data.chars s.memory with
  | none => rfl
  | some data =>
    simp only
    cases data.findIdx? (· = newline) with
    | none => rfl
    | some i => rfl

theorem loop_stream (s : Reading E) : stream (loop s).2.fd <:+ stream s.fd := by
  induction s using loop.induct with
  | case1 s returned filled =>
    have front := fill_stream s
    rw [filled] at front
    rw [loop_eq, filled]
    exact front
  | case2 s filled more returned consumed =>
    have front := fill_stream s
    have same := consume_stream filled
    rw [more] at front
    rw [consumed] at same
    rw [loop_eq, more]
    simp only [consumed]
    exact same ▸ front
  | case3 s filled more rest consumed ih =>
    have front := fill_stream s
    have same := consume_stream filled
    rw [more] at front
    rw [consumed] at same
    rw [loop_eq, more]
    simp only [consumed]
    exact ih.trans (same ▸ front)

theorem readLine_stream (s : Reading E) : stream (readLine s).2.fd <:+ stream s.fd := by
  rw [readLine]
  split
  · exact List.suffix_rfl
  · exact loop_stream _

/-- What a call of `readLine` answers of the bytes that it has and can get. -/
inductive Answered (s : Reading E) (bytes : List UInt8) : Outcome E × Reading E → Prop where
  | goesOn {outcome : Outcome E} {next : Reading E} {now : List UInt8} :
      next.reader.hit_eof = false → Own next now →
      pieces newline s.begun bytes =
        outcome.line?.toList ++ pieces newline next.begun (now ++ stream next.fd) →
      Answered s bytes (outcome, next)
  | last {outcome : Outcome E} {next : Reading E} :
      next.reader.hit_eof = true → pieces newline s.begun bytes = outcome.line?.toList →
      (∀ event ∈ events s.fd, event.stops = false) → Answered s bytes (outcome, next)

private theorem bytes_of {waiting : List UInt8} (fd : Fd E) :
    (waiting.map Event.byte ++ events fd).filterMap Event.byte? = waiting ++ stream fd := by
  rw [List.filterMap_append, events_stream, List.filterMap_map]
  exact congrArg (· ++ stream fd) List.filterMap_some

theorem readLine_answered {s : Reading E} {waiting : List UInt8} (own : Own s waiting)
    (reading : s.reader.hit_eof = false) : Answered s (waiting ++ stream s.fd) (readLine s) := by
  have going := Going.reading reading own
  obtain ⟨first, next⟩ := readLine_spec going
  have all : pieces newline s.begun (waiting ++ stream s.fd) =
      (answers s.begun (waiting.map .byte ++ events s.fd)).filterMap Outcome.line? := by
    rw [answers_pieces, bytes_of]
  have causes := answers_cause s.begun (waiting.map .byte ++ events s.fd)
  cases given : answers s.begun (waiting.map .byte ++ events s.fd) with
  | nil =>
    rw [given, List.filterMap_nil] at all
    exact absurd all (pieces_ne_nil _ _ _)
  | cons outcome later =>
    rw [given] at first next all causes
    rw [List.headD_cons] at first
    rw [List.tail_cons] at next
    have lines : (outcome :: later).filterMap Outcome.line? =
        outcome.line?.toList ++ later.filterMap Outcome.line? := by
      cases outcome <;> rfl
    rw [lines, ← first] at all
    generalize readLine s = result at first next all
    obtain ⟨outcome, after⟩ := result
    cases next with
    | finished over_now =>
      refine .last over_now (by simpa using all) fun event member => ?_
      have one := congrArg List.length causes
      simp only [List.length_map, List.length_cons, List.length_nil, List.length_append] at one
      have none : (waiting.map Event.byte ++ events s.fd).filter Event.stops = [] :=
        List.eq_nil_of_length_eq_zero (by omega)
      simpa using List.filter_eq_nil_iff.mp none event (List.mem_append_right _ member)
    | @reading now still own' =>
      refine .goesOn still own' ?_
      rw [all, answers_pieces, bytes_of]

theorem readLine_line {s : Reading E} {waiting : List UInt8} (own : Own s waiting)
    (reading : s.reader.hit_eof = false) (plain : ∀ event ∈ events s.fd, ∃ byte, event = .byte byte) :
    ∃ text, (readLine s).1 = .line text := by
  obtain ⟨first, _⟩ := readLine_spec (Going.reading reading own)
  have causes := answers_cause s.begun (waiting.map .byte ++ events s.fd)
  cases given : answers s.begun (waiting.map .byte ++ events s.fd) with
  | nil =>
    rw [given] at causes
    have lengths := congrArg List.length causes
    simp at lengths
  | cons outcome later =>
    rw [given] at first causes
    have member : outcome.cause ∈ (outcome :: later).map Outcome.cause := List.mem_cons_self
    rw [causes] at member
    obtain ⟨event, among, same⟩ := List.mem_map.mp member
    have byte : ∃ byte, event = .byte byte := by
      rcases List.mem_append.mp among with stops | newline
      · rcases List.mem_append.mp (List.mem_of_mem_filter stops) with waits | comes
        · obtain ⟨byte, _, rfl⟩ := List.mem_map.mp waits
          exact ⟨byte, rfl⟩
        · exact plain event comes
      · exact ⟨_, List.mem_singleton.mp newline⟩
    obtain ⟨byte, rfl⟩ := byte
    rw [first]
    cases outcome with
    | line text => exact ⟨text, rfl⟩
    | null => cases same
    | thrown thrown => cases same
    | bad => cases same

end Reading

/-- The two ends of a pipe, and what came of the calls of `readLine`. -/
structure Channel (E : Type) where
  writer : Formatting E
  /-- Nothing writes into it any more. -/
  closed : Bool
  /-- How many of the bytes the pipe accepted it has given to reads. -/
  taken : Nat
  reader : Reading E
  answered : List (Outcome E)

namespace Channel

/-- What the ends do. An action of the buffer counts from where it begins and a call of
`readLine` from where it returns, so that reads in the middle of either are among these. -/
inductive Action (E : Type) where
  | format (action : FormatAction)
  | close
  | readLine (replies : Fd E)

def start (reply : Nat → WriteReply E) (max : Nat) (raw : Nat → UInt8) : Channel E where
  writer := .start reply max
  closed := false
  taken := 0
  reader := .start raw []
  answered := []

def pending (state : Channel E) : List UInt8 := state.writer.object.fd.accepted.drop state.taken

def lines (state : Channel E) : List (List UInt8) := state.answered.filterMap Outcome.line?

/-- What a pipe replies to the reads of one call: some of the bytes it has, in their
order, in any pieces, with failures anywhere. The end of the file is what a call sees
behind the replies, so they hold a would-block unless the pipe is closed and they are
all that is left. -/
def Offers (state : Channel E) (replies : Fd E) : Prop :=
  stream replies <+: state.pending ∧
    (.bytes [] ∈ replies ∨ state.closed = true ∧ stream replies = state.pending)

def step (action : Action E) (state : Channel E) : Channel E :=
  match action with
  | .format action => { state with writer := (Formatting.step action state.writer).2 }
  | .close => { state with closed := true }
  | .readLine replies =>
    let result := Reading.readLine { state.reader with fd := replies }
    { state with
      taken := state.taken + ((stream replies).length - (stream result.2.fd).length)
      reader := result.2
      answered := state.answered ++ [result.1] }

/-- No write of the buffer stops half-way, its destructor writes all that waits (one that
throws loses it), and its end is closed when it is gone. -/
def Allowed (action : Action E) (state : Channel E) : Prop :=
  match action with
  | .format action => state.writer.alive = true ∧ ¬ Formatting.Tears action state.writer.object ∧
      (action = .destroy → (Formatting.work action state.writer.object).1 = .ok ())
  | .close => state.writer.alive = false
  | .readLine replies => state.Offers replies

abbrev Runs (reply : Nat → WriteReply E) (max : Nat) (raw : Nat → UInt8) : Channel E → Prop :=
  Reachable (· = start reply max raw) (fun state next =>
    ∃ action, Allowed action state ∧ next = step action state)

/-- The lines answered, what the reader holds and what is in the pipe are the pieces of
the bytes the pipe accepted. -/
structure Follows (state : Channel E) : Prop where
  exact : Formatting.Exact state.writer
  inside : state.taken ≤ state.writer.object.fd.accepted.length
  gone : state.closed = true → state.writer.alive = false
  written : state.writer.alive = false → state.writer.object.buf = []
  reading : state.reader.reader.hit_eof = false → ∃ waiting, Reading.Own state.reader waiting ∧
    pieces newline [] state.writer.object.fd.accepted =
      state.lines ++ pieces newline state.reader.begun (waiting ++ state.pending)
  finished : state.reader.reader.hit_eof = true → state.closed = true ∧
    pieces newline [] state.writer.object.fd.accepted = state.lines

theorem Follows.start (reply : Nat → WriteReply E) (max : Nat) (raw : Nat → UInt8) :
    Follows (start reply max raw) where
  exact := rfl
  inside := Nat.le_refl _
  gone closed := Bool.noConfusion closed
  written gone := Bool.noConfusion gone
  reading _ := by
    refine ⟨[], ?_, rfl⟩
    have there : (Reading.start (E := E) raw []).memory 0 = some ((List.range buf_size).map raw) := by
      simp only [Reading.start, Function.update_self]
    exact .nothing there (by rw [List.length_map, List.length_range]) rfl
  finished ended := Bool.noConfusion ended

theorem pending_step {state : Channel E} {replies rest : Fd E} (offered : stream replies <+: state.pending)
    (front : stream rest <:+ stream replies) : ∃ behind, state.pending = stream replies ++ behind ∧
      state.writer.object.fd.accepted.drop (state.taken + ((stream replies).length - (stream rest).length)) =
        stream rest ++ behind := by
  obtain ⟨behind, whole⟩ := offered
  obtain ⟨used, same⟩ := front
  refine ⟨behind, whole.symm, ?_⟩
  rw [pending, ← same] at whole
  have count : (stream replies).length - (stream rest).length = used.length := by
    rw [← same, List.length_append]
    omega
  rw [count, ← List.drop_drop, ← whole, List.append_assoc, List.drop_left]

theorem Follows.format {state : Channel E} (follows : Follows state) {action : FormatAction}
    (alive : state.writer.alive = true) (whole : ¬ Formatting.Tears action state.writer.object)
    (flushed : action = .destroy → (Formatting.work action state.writer.object).1 = .ok ()) :
    Follows (step (.format action) state) := by
  obtain ⟨bytes, accepted⟩ := Formatting.work_accepts action state.writer.object
  have now : (step (.format action) state).writer.object.fd.accepted =
      state.writer.object.fd.accepted ++ bytes := accepted
  have goesOn : state.reader.reader.hit_eof = false := by
    rw [← Bool.not_eq_true]
    intro ended
    rw [follows.gone (follows.finished ended).1] at alive
    cases alive
  refine ⟨(Formatting.step_exact follows.exact action).mpr whole, ?_, fun closed => ?_, fun gone => ?_,
    fun _ => ?_, fun ended => ?_⟩
  · rw [now, List.length_append]
    exact Nat.le_add_right_of_le follows.inside
  · rw [follows.gone closed] at alive
    cases alive
  · have destroyed : action = .destroy := by
      by_contra other
      have still : (state.writer.alive && decide (action ≠ .destroy)) = true := by
        rw [alive, decide_eq_true other, Bool.and_self]
      exact absurd (still.symm.trans gone) (by decide)
    exact (Formatting.work_spec action state.writer.object).empty (flushed destroyed) (.inr destroyed)
  · obtain ⟨waiting, own, same⟩ := follows.reading goesOn
    refine ⟨waiting, own, ?_⟩
    have left : (step (.format action) state).pending = state.pending ++ bytes := by
      rw [pending, now]
      exact List.drop_append_of_le_length follows.inside
    rw [now, pieces_extend same bytes, left, List.append_assoc]
    rfl
  · rw [show (step (.format action) state).reader = state.reader from rfl, goesOn] at ended
    cases ended

theorem lines_readLine (state : Channel E) (replies : Fd E) :
    (step (.readLine replies) state).lines =
      state.lines ++ (Reading.readLine { state.reader with fd := replies }).1.line?.toList := by
  rw [lines, step, List.filterMap_append, lines]
  cases (Reading.readLine { state.reader with fd := replies }).1 <;> rfl

theorem Follows.readLine {state : Channel E} (follows : Follows state) {replies : Fd E}
    (offers : state.Offers replies) : Follows (step (.readLine replies) state) := by
  have front := Reading.readLine_stream { state.reader with fd := replies }
  obtain ⟨behind, split, after⟩ := pending_step offers.1 front
  have inside : (step (.readLine replies) state).taken ≤ state.writer.object.fd.accepted.length := by
    have total := congrArg List.length split
    have fits := follows.inside
    rw [pending, List.length_drop, List.length_append] at total
    simp only [step]
    omega
  have now := lines_readLine state replies
  by_cases ended : state.reader.reader.hit_eof = true
  · -- Every call behind the end throws.
    obtain ⟨closed, all⟩ := follows.finished ended
    have thrown : Reading.readLine { state.reader with fd := replies } =
        (.thrown (.eof "readLine"), { state.reader with fd := replies }) := by
      rw [Reading.readLine, if_pos ended]
    refine ⟨follows.exact, inside, follows.gone, follows.written, fun goesOn => ?_, fun _ => ⟨closed, ?_⟩⟩
    · simp only [step, thrown] at goesOn
      rw [ended] at goesOn
      cases goesOn
    · rw [now, thrown]
      exact all.trans (List.append_nil _).symm
  · obtain ⟨waiting, own, same⟩ := follows.reading (Bool.eq_false_iff.mpr ended)
    have own' : Reading.Own { state.reader with fd := replies } waiting := ⟨own.array, own.inside, own.chars⟩
    have answered := Reading.readLine_answered own' (Bool.eq_false_iff.mpr ended)
    generalize called : Reading.readLine { state.reader with fd := replies } = result at answered now after
    have reader : (step (.readLine replies) state).reader = result.2 := by rw [step, called]
    have left : (step (.readLine replies) state).pending = stream result.2.fd ++ behind := by
      rw [← after, pending, step, called]
    cases answered with
    | @goesOn outcome next held still own'' cut =>
      refine ⟨follows.exact, inside, follows.gone, follows.written, fun _ => ⟨held, ?_, ?_⟩, fun over_now => ?_⟩
      · rw [reader]
        exact own''
      · have longer := pieces_extend cut behind
        rw [List.append_assoc, ← split] at longer
        rw [reader, left, now, List.append_assoc, ← List.append_assoc held, ← longer]
        exact same
      · rw [reader, still] at over_now
        cases over_now
    | @last outcome next over_now cut plain =>
      have all : state.closed = true ∧ stream replies = state.pending := by
        refine offers.2.resolve_left fun blocks => ?_
        have event : Event.block ∈ events replies := List.mem_flatMap.mpr ⟨_, blocks, List.mem_singleton_self _⟩
        cases plain _ event
      refine ⟨follows.exact, inside, follows.gone, follows.written, fun still => ?_, fun _ => ⟨all.1, ?_⟩⟩
      · rw [reader, over_now] at still
        cases still
      · rw [now, ← cut]
        have rest : pieces newline state.reader.begun (waiting ++ stream replies) =
            pieces newline state.reader.begun (waiting ++ state.pending) := by rw [all.2]
        exact same.trans (congrArg (state.lines ++ ·) rest.symm)

theorem runs_follow {reply : Nat → WriteReply E} {max : Nat} {raw : Nat → UInt8} {state : Channel E}
    (runs : Runs reply max raw state) : Follows state := by
  refine runs.invariant ?_ ?_
  · rintro state rfl
    exact .start reply max raw
  · rintro state next follows ⟨action, allowed, rfl⟩
    cases action with
    | format action => exact follows.format allowed.1 allowed.2.1 allowed.2.2
    | close => exact ⟨follows.exact, follows.inside, fun _ => allowed, follows.written, follows.reading,
        fun ended => ⟨rfl, (follows.finished ended).2⟩⟩
    | readLine replies => exact follows.readLine allowed

/-- Replies that hold all that is left, without a would-block or a failure. -/
def Whole (state : Channel E) (replies : Fd E) : Prop :=
  stream replies = state.pending ∧ ∀ reply ∈ replies, ∃ data, reply = .bytes data ∧ data ≠ []

/-- So many calls in a row that can read all that is left. -/
inductive Drains : Nat → Channel E → Channel E → Prop where
  | done {state : Channel E} : Drains 0 state state
  | call {calls : Nat} {state last : Channel E} {replies : Fd E} : state.Whole replies →
      Drains calls (step (.readLine replies) state) last → Drains (calls + 1) state last

theorem Drains.exists (calls : Nat) (state : Channel E) : ∃ last, Drains calls state last := by
  induction calls generalizing state with
  | zero => exact ⟨state, .done⟩
  | succ calls ih =>
    by_cases empty : state.pending = []
    · obtain ⟨last, rest⟩ := ih (step (.readLine []) state)
      have whole : state.Whole [] := ⟨empty.symm, List.forall_mem_nil _⟩
      exact ⟨last, .call whole rest⟩
    · obtain ⟨last, rest⟩ := ih (step (.readLine [.bytes state.pending]) state)
      have whole : state.Whole [.bytes state.pending] := by
        refine ⟨List.append_nil _, fun reply member => ⟨state.pending, ?_, empty⟩⟩
        exact List.mem_singleton.mp member
      exact ⟨last, .call whole rest⟩

theorem Whole.plain {state : Channel E} {replies : Fd E} (whole : state.Whole replies) :
    ∀ event ∈ events replies, ∃ byte, event = .byte byte := by
  intro event member
  obtain ⟨reply, among, inside⟩ := List.mem_flatMap.mp member
  obtain ⟨data, rfl, some_data⟩ := whole.2 reply among
  rw [Reply.events_bytes some_data] at inside
  obtain ⟨byte, _, same⟩ := List.mem_map.mp inside
  exact ⟨byte, same.symm⟩

theorem Drains.ended {calls : Nat} {state last : Channel E} (drains : Drains calls state last)
    (ended : state.reader.reader.hit_eof = true) : last.reader.reader.hit_eof = true := by
  induction drains with
  | done => exact ended
  | @call calls state last replies whole rest ih =>
    refine ih ?_
    rw [step, Reading.readLine, if_pos ended]
    exact ended

theorem Drains.follow {calls : Nat} {state last : Channel E} (drains : Drains calls state last)
    (follows : Follows state) (closed : state.closed = true) :
    Follows last ∧ last.writer = state.writer ∧
      (last.reader.reader.hit_eof = true ∨ last.lines.length = state.lines.length + calls) := by
  induction drains with
  | done => exact ⟨follows, rfl, .inr rfl⟩
  | @call calls state last replies whole rest ih =>
    obtain ⟨after, same, counted⟩ :=
      ih (follows.readLine ⟨⟨[], by rw [whole.1, List.append_nil]⟩, .inr ⟨closed, whole.1⟩⟩) closed
    refine ⟨after, same, ?_⟩
    by_cases ended : state.reader.reader.hit_eof = true
    · exact .inl ((Drains.call whole rest).ended ended)
    · obtain ⟨waiting, own, _⟩ := follows.reading (Bool.eq_false_iff.mpr ended)
      have own' : Reading.Own { state.reader with fd := replies } waiting := ⟨own.array, own.inside, own.chars⟩
      obtain ⟨text, answered⟩ := Reading.readLine_line own' (Bool.eq_false_iff.mpr ended) whole.plain
      refine counted.imp_right fun count => ?_
      rw [count, lines_readLine, answered, List.length_append]
      simp only [Outcome.line?, Option.toList_some, List.length_singleton]
      omega

theorem Follows.all {state : Channel E} (follows : Follows state) (gone : state.writer.alive = false) :
    state.writer.object.fd.accepted = state.writer.appended := by
  have exact_texts := follows.exact
  rwa [Formatting.Exact, follows.written gone, List.append_nil] at exact_texts

/-- What the other end of the pipe is told. -/
structure Delivered (state : Channel E) : Prop where
  /-- The pipe was given the texts, each byte once, but for those that wait in the buffer. -/
  texts : state.writer.alive = true →
    state.writer.object.fd.accepted ++ state.writer.object.buf = state.writer.appended
  gone : state.writer.alive = false → state.writer.object.fd.accepted = state.writer.appended
  /-- Before the end, the lines answered are the first lines of the texts, all of them complete. -/
  front : state.reader.reader.hit_eof = false → state.lines <+: (state.writer.appended.splitOn newline).dropLast
  /-- The end comes when nothing writes any more, and behind all lines. -/
  finished : state.reader.reader.hit_eof = true →
    state.closed = true ∧ state.lines = state.writer.appended.splitOn newline
  /-- As many calls as there are lines left reach it. -/
  drained : state.closed = true → ∀ calls,
    (state.writer.appended.splitOn newline).length ≤ state.lines.length + calls →
      (∃ last, Drains calls state last) ∧
        ∀ last, Drains calls state last → last.lines = state.writer.appended.splitOn newline

/-- However the pipe cuts what is written and read, and wherever writes and reads would
block or fail, the lines that come out are those of the texts. -/
theorem runs_delivered {reply : Nat → WriteReply E} {max : Nat} {raw : Nat → UInt8} {state : Channel E}
    (runs : Runs reply max raw state) : Delivered state := by
  have follows := runs_follow runs
  refine ⟨fun _ => follows.exact, follows.all, fun reading => ?_, fun ended => ?_, fun closed calls enough => ?_⟩
  · obtain ⟨waiting, _, same⟩ := follows.reading reading
    have longer := pieces_extend same state.writer.object.buf
    rw [follows.exact, pieces_start] at longer
    rw [longer, List.dropLast_append_of_ne_nil (pieces_ne_nil _ _ _)]
    exact List.prefix_append _ _
  · obtain ⟨closed, all⟩ := follows.finished ended
    exact ⟨closed, by rw [← all, pieces_start, follows.all (follows.gone closed)]⟩
  · refine ⟨Drains.exists calls state, fun last drains => ?_⟩
    obtain ⟨after, same, counted⟩ := drains.follow follows closed
    rw [← follows.all (follows.gone closed), ← same, ← pieces_start] at enough ⊢
    rcases counted with ended | count
    · exact (after.finished ended).2.symm
    · by_cases ended : last.reader.reader.hit_eof = true
      · exact (after.finished ended).2.symm
      · obtain ⟨waiting, _, cut⟩ := after.reading (Bool.eq_false_iff.mpr ended)
        have some_left := List.length_pos_of_ne_nil
          (pieces_ne_nil newline last.reader.begun (waiting ++ last.pending))
        rw [cut, List.length_append] at enough
        omega

def slow : Nat → WriteReply Nat := fun _ => .accepts 3

/-- A line in two reads with a would-block between them, and one up to the end. -/
theorem runs_delivered_slow : ∃ state : Channel Nat, Runs slow 4 (fun _ => 0) state ∧
    state.lines = [[97, 98], [99, 100, 101]] ∧ state.answered.length = 3 ∧ Delivered state := by
  let first := step (.format (.append [97, 98])) (start slow 4 fun _ => 0)
  let written := step (.format (.append [10, 99, 100])) first
  let blocked := step (.readLine [.bytes [97], .bytes []]) written
  let line := step (.readLine [.bytes [98, 10, 99], .bytes []]) blocked
  let more := step (.format (.append [101])) line
  let gone := step (.format .destroy) more
  let last := step (.readLine [.bytes [100], .bytes [101]]) (step .close gone)
  have ready (k : Nat) : 0 < (slow k).count := Nat.zero_lt_succ 2
  have whole (action : FormatAction) {object : FormatBuffer Nat} (replies : object.fd.reply = slow) :
      ¬ Formatting.Tears action object ∧ (action = .destroy → (Formatting.work action object).1 = .ok ()) := by
    refine ⟨?_, fun _ => (Formatting.work_spec action object).healthy fun k => replies ▸ ready k⟩
    rintro ⟨data, _, torn⟩
    exact Sink.untorn (fun k => replies ▸ ready k) _ torn
  have one : first.writer.object.fd.reply = slow := (Formatting.work_spec (.append [97, 98]) _).reply
  have two : written.writer.object.fd.reply = slow :=
    (Formatting.work_spec (.append [10, 99, 100]) first.writer.object).reply.trans one
  have three : more.writer.object.fd.reply = slow :=
    (Formatting.work_spec (.append [101]) written.writer.object).reply.trans two
  have runs : Runs slow 4 (fun _ => 0) last := by
    refine .step (.step (.step (.step (.step (.step (.step (.step (.start rfl)
      ⟨.format (.append [97, 98]), ⟨rfl, whole _ rfl⟩, rfl⟩)
      ⟨.format (.append [10, 99, 100]), ⟨rfl, whole _ one⟩, rfl⟩)
      ⟨.readLine [.bytes [97], .bytes []], ⟨?_, .inl (by simp)⟩, rfl⟩)
      ⟨.readLine [.bytes [98, 10, 99], .bytes []], ⟨?_, .inl (by simp)⟩, rfl⟩)
      ⟨.format (.append [101]), ⟨rfl, whole _ two⟩, rfl⟩)
      ⟨.format .destroy, ⟨rfl, whole _ three⟩, rfl⟩)
      ⟨.close, rfl, rfl⟩)
      ⟨.readLine [.bytes [100], .bytes [101]], ⟨?_, .inr ⟨rfl, ?_⟩⟩, rfl⟩
    · decide +kernel
    · decide +kernel
    · decide +kernel
    · decide +kernel
  exact ⟨last, runs, by decide +kernel, by decide +kernel, runs_delivered runs⟩

end Channel

end Stdplus.Fd
