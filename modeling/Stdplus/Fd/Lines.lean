import Stdplus.Fd.Segments

set_option linter.dupNamespace false

namespace Stdplus.Fd

open Stdplus.Base

variable {E : Type}

namespace Reading

/-- The unread span lies in the reader's own array and holds these bytes. -/
structure Own (s : Reading E) (waiting : List UInt8) : Prop where
  array : ∃ array, s.memory s.reader.buf = some array ∧ array.length = buf_size
  inside : s.reader.buf_data.size = 0 ∨
    s.reader.buf_data.array = s.reader.buf ∧ s.reader.buf_data.offset + s.reader.buf_data.size ≤ buf_size
  chars : s.reader.buf_data.chars s.memory = some waiting

def begun (s : Reading E) : List UInt8 := if s.reader.line_complete then [] else s.reader.line

/-- The answers that the next calls give. -/
inductive Going (s : Reading E) : List (Outcome E) → Prop where
  | finished : s.reader.hit_eof = true → Going s []
  | reading {waiting : List UInt8} : s.reader.hit_eof = false → Own s waiting →
      Going s (answers s.begun (waiting.map .byte ++ events s.fd))

theorem Own.empty {s : Reading E} {waiting : List UInt8} (own : Own s waiting)
    (none : s.reader.buf_data.size = 0) : waiting = [] := by
  have chars := own.chars
  rw [Span.chars, if_pos none, Option.some.injEq] at chars
  exact chars.symm

theorem Own.nothing {s : Reading E} {array : List UInt8} (there : s.memory s.reader.buf = some array)
    (length : array.length = buf_size) (empty : s.reader.buf_data.size = 0) : Own s [] :=
  ⟨⟨array, there, length⟩, .inl empty, if_pos empty⟩

private theorem begun_eq {s : Reading E} (cleared : s.reader.line_complete = true → s.reader.line = []) :
    s.begun = s.reader.line := by
  rw [begun]
  split
  · rename_i complete
    exact (cleared complete).symm
  · rfl

private theorem going_failed {s : Reading E} {array : List UInt8} (reading : s.reader.hit_eof = false)
    (length : array.length = buf_size) (empty : s.reader.buf_data.size = 0) (rest : Fd E) :
    Going { s with memory := Function.update s.memory s.reader.buf (some array), fd := rest }
      (answers s.begun (events rest)) := by
  let after : Reading E := { s with memory := Function.update s.memory s.reader.buf (some array), fd := rest }
  have own : Own after [] := .nothing (Function.update_self _ _ _) length empty
  exact Going.reading (s := after) reading own

/-- What `fill` returns is the next answer, and what it leaves goes on with it. -/
theorem fill_spec {s : Reading E} {waiting : List UInt8} (own : Own s waiting)
    (reading : s.reader.hit_eof = false) (cleared : s.reader.line_complete = true → s.reader.line = []) :
    match fill s with
    | .ok filled => filled.reader.line = s.reader.line ∧ filled.reader.hit_eof = false ∧
        ∃ now, Own filled now ∧
          waiting.map Event.byte ++ events s.fd = now.map Event.byte ++ events filled.fd
    | .error (outcome, after) => ∃ later,
        answers s.reader.line (waiting.map Event.byte ++ events s.fd) = outcome :: later ∧ Going after later := by
  by_cases empty : s.reader.buf_data.size = 0
  · obtain ⟨array, there, length⟩ := own.array
    obtain rfl := own.empty empty
    have same := begun_eq cleared
    have events_read := read_events (by rw [length]; decide : 0 < array.length) s.fd
    simp only [fill, empty, if_true, there, read_eq, List.map_nil, List.nil_append]
    cases asked : s.fd.read array.length with
    | mk outcome rest =>
      rw [asked] at events_read
      cases outcome with
      | error thrown =>
        cases thrown with
        | eof what =>
          rw [events_read.1]
          exact ⟨[], rfl, .finished rfl⟩
        | system thrown =>
          rw [events_read]
          exact ⟨_, rfl, same ▸ going_failed reading length empty rest⟩
        | other thrown =>
          rw [events_read]
          exact ⟨_, rfl, same ▸ going_failed reading length empty rest⟩
        | wouldBlock what => exact events_read.elim
        | incomplete what => exact events_read.elim
      | ok data =>
        have fits : data.val.length ≤ array.length := data.property
        simp only at events_read ⊢
        by_cases nothing : data.val = []
        · rw [if_pos nothing] at events_read
          have zero : data.val.length = 0 := by rw [nothing]; rfl
          simp only [zero, if_true, events_read]
          refine ⟨_, rfl, ?_⟩
          let after : Reading E := {
            reader := { s.reader with buf_data := { array := s.reader.buf, offset := 0, size := 0 } }
            memory := Function.update s.memory s.reader.buf (some (overwrite array 0 data.val))
            fd := rest }
          have own' : Own after [] :=
            .nothing (Function.update_self _ _ _) ((overwrite_length _ _ _).trans length) rfl
          have next := Going.reading (s := after) reading own'
          rw [show after.begun = s.reader.line from same] at next
          exact next
        · rw [if_neg nothing] at events_read
          have some_size : data.val.length ≠ 0 := fun zero => nothing (List.eq_nil_of_length_eq_zero zero)
          have written := take_overwrite array 0 data.val (by omega)
          rw [Nat.zero_add, List.take_zero, List.nil_append] at written
          simp only [if_neg some_size]
          refine ⟨trivial, reading, data.val, ⟨⟨overwrite array 0 data.val, Function.update_self _ _ _, ?_⟩,
            .inr ⟨rfl, ?_⟩, ?_⟩, events_read⟩
          · rw [overwrite_length, length]
          · simp only
            rw [← length]
            omega
          · simp only [Span.chars, if_neg some_size, Function.update_self, overwrite_length, Nat.zero_add,
              if_pos fits, List.drop_zero, written]
  · rw [fill, if_neg empty]
    exact ⟨rfl, reading, waiting, own, rfl⟩

theorem chars_subspan {memory : Memory} {span : Span} {data : List UInt8}
    (chars : span.chars memory = some data) {i : Nat} (inside : i < data.length) :
    (span.subspan (i + 1)).chars memory = some (data.drop (i + 1)) ∧ i < span.size := by
  rw [Span.chars] at chars
  split at chars
  · cases chars
    cases inside
  · rename_i some_size
    split at chars
    · cases chars
    · rename_i array there
      split at chars
      · rename_i fits
        cases chars
        have length : ((array.drop span.offset).take span.size).length = span.size := by
          rw [List.length_take, List.length_drop]
          omega
        rw [length] at inside
        refine ⟨?_, inside⟩
        rw [Span.chars, Span.subspan, there]
        by_cases last : span.size - (i + 1) = 0
        · simp only [last, if_true, Option.some.injEq]
          exact (List.drop_eq_nil_of_le (by omega)).symm
        · have room : span.offset + (i + 1) + (span.size - (i + 1)) ≤ array.length := by omega
          simp only [if_neg last, if_pos room, Option.some.injEq]
          rw [List.drop_take, List.drop_drop]
      · cases chars

theorem consume_spec {s : Reading E} {waiting : List UInt8} (own : Own s waiting)
    (reading : s.reader.hit_eof = false) :
    match consume s with
    | .ok rest => rest.reader.hit_eof = false ∧ rest.reader.line_complete = false ∧ Own rest [] ∧
        answers s.reader.line (waiting.map Event.byte ++ events s.fd) =
          answers rest.reader.line (events rest.fd)
    | .error (outcome, after) => ∃ later,
        answers s.reader.line (waiting.map Event.byte ++ events s.fd) = outcome :: later ∧ Going after later := by
  simp only [consume, own.chars]
  cases found : waiting.findIdx? (· = newline) with
  | some i =>
    obtain ⟨less, _, _⟩ := List.findIdx?_eq_some_iff_getElem.mp found
    obtain ⟨chars, short⟩ := chars_subspan own.chars less
    refine ⟨_, answers_newline found _ _, ?_⟩
    let after : Reading E := { s with
      reader := { s.reader with
        line := s.reader.line ++ waiting.take i
        buf_data := s.reader.buf_data.subspan (i + 1)
        line_complete := true } }
    have own' : Own after (waiting.drop (i + 1)) := by
      refine ⟨own.array, ?_, chars⟩
      rcases own.inside with none | ⟨mine, fits⟩
      · omega
      · right
        refine ⟨mine, ?_⟩
        simp only [after, Span.subspan]
        omega
    have next := Going.reading (s := after) reading own'
    rw [show after.begun = [] from rfl] at next
    exact next
  | none =>
    have plain : ∀ byte ∈ waiting, byte ≠ newline := by
      intro byte member
      have other := List.findIdx?_eq_none_iff.mp found byte member
      simpa using other
    refine ⟨reading, rfl, ⟨own.array, .inl rfl, ?_⟩, answers_append plain _ _⟩
    rw [Span.chars, if_pos rfl]

theorem loop_spec {s : Reading E} {waiting : List UInt8} (own : Own s waiting)
    (reading : s.reader.hit_eof = false) (cleared : s.reader.line_complete = true → s.reader.line = []) :
    ∃ later, answers s.reader.line (waiting.map .byte ++ events s.fd) = (loop s).1 :: later ∧
      Going (loop s).2 later := by
  induction s using loop.induct generalizing waiting with
  | case1 s returned filled =>
    have spec := fill_spec own reading cleared
    rw [filled] at spec
    rw [loop_eq, filled]
    exact spec
  | case2 s filled more returned consumed =>
    have spec := fill_spec own reading cleared
    rw [more] at spec
    obtain ⟨line, still, now, own', same⟩ := spec
    have next := consume_spec own' still
    rw [consumed] at next
    rw [loop_eq, more]
    simp only [consumed]
    rw [← line, same]
    exact next
  | case3 s filled more rest consumed ih =>
    have spec := fill_spec own reading cleared
    rw [more] at spec
    obtain ⟨line, still, now, own', same⟩ := spec
    have next := consume_spec own' still
    rw [consumed] at next
    obtain ⟨still', open_line, own'', answered⟩ := next
    rw [loop_eq, more]
    simp only [consumed]
    rw [← line, same, answered]
    exact ih own'' still' (fun complete => by rw [open_line] at complete; cases complete)

theorem readLine_spec {s : Reading E} {later : List (Outcome E)} (going : Going s later) :
    (readLine s).1 = later.headD ended ∧ Going (readLine s).2 later.tail := by
  cases going with
  | finished over_now =>
    rw [readLine, if_pos over_now]
    exact ⟨rfl, .finished over_now⟩
  | @reading waiting reading own =>
    rw [readLine, reading]
    let cleared : Reading E :=
      { s with reader := { s.reader with line := if s.reader.line_complete then [] else s.reader.line } }
    have own' : Own cleared waiting := ⟨own.array, own.inside, own.chars⟩
    obtain ⟨rest, answered, next⟩ := loop_spec own' reading (fun complete => if_pos complete)
    have same : answers s.begun (waiting.map .byte ++ events s.fd) = (loop cleared).1 :: rest := answered
    rw [same]
    exact ⟨rfl, next⟩

theorem outcomes_spec (calls : Nat) {s : Reading E} {later : List (Outcome E)} (going : Going s later) :
    outcomes calls s = (later ++ List.replicate calls ended).take calls := by
  induction calls generalizing s later with
  | zero => rfl
  | succ calls ih =>
    obtain ⟨first, next⟩ := readLine_spec going
    rw [outcomes, first, ih next]
    cases later with
    | nil => simp [List.replicate_succ]
    | cons outcome later =>
      simp only [List.headD_cons, List.tail_cons, List.cons_append, List.take_succ_cons, List.cons.injEq,
        true_and]
      rw [List.replicate_succ', ← List.append_assoc]
      exact (List.take_append_of_le_length (by simp)).symm

private theorem going_start (raw : Nat → UInt8) (fd : Fd E) : Going (start raw fd) (answers [] (events fd)) := by
  have there : (start raw fd).memory (start raw fd).reader.buf = some ((List.range buf_size).map raw) := by
    simp only [start, Function.update_self]
  have own : Own (start raw fd) [] := .nothing there (by rw [List.length_map, List.length_range]) rfl
  exact Going.reading (s := start raw fd) rfl own

/-- A reader of lines sees the stream only: its calls give the answers to the events
and then throw. The lines are the segments of the stream between its newlines, the
calls come back for the newlines, the would-blocks and the errors, in their order,
and for the end, and a read that fails does not change any other answer. -/
theorem outcomes_segments (raw : Nat → UInt8) (fd : Fd E) :
    (∀ calls, outcomes calls (start raw fd) =
      (answers [] (events fd) ++ List.replicate calls ended).take calls) ∧
    (answers [] (events fd)).filterMap Outcome.line? = (stream fd).splitOn newline ∧
    (answers [] (events fd)).map Outcome.cause =
      ((events fd).filter Event.stops ++ [Event.byte newline]).map some ∧
    (answers [] (events fd)).filter (!·.failed) = answers [] (events (fd.filter (!·.failed))) := by
  refine ⟨fun calls => outcomes_spec calls (going_start raw fd), ?_, answers_cause _ _, ?_⟩
  · rw [answers_lines, events_stream, List.reverse_nil, List.splitOnPPrepend_nil_right,
      List.splitOn_eq_splitOnP]
  · rw [answers_failed, events_failed]

end Reading

end Stdplus.Fd
