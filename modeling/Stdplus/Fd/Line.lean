import Stdplus.Fd.Ops

set_option linter.dupNamespace false

namespace Stdplus.Fd

open Stdplus.Base

/-- A `std::span<char>` into the array at some address. -/
structure Span where
  array : Nat
  offset : Nat
  size : Nat
deriving DecidableEq

abbrev Memory := Nat → Option (List UInt8)

/-- The characters a span designates; `none` where it leaves its array. -/
def Span.chars (memory : Memory) (span : Span) : Option (List UInt8) :=
  if span.size = 0 then
    some []
  else
    match memory span.array with
    | none => none
    | some array =>
      if span.offset + span.size ≤ array.length then
        some ((array.drop span.offset).take span.size)
      else
        none

def Span.subspan (offset : Nat) (span : Span) : Span :=
  { span with offset := span.offset + offset, size := span.size - offset }

structure LineReader where
  /-- Where its array is. -/
  buf : Nat
  buf_data : Span
  line : List UInt8
  line_complete : Bool
  hit_eof : Bool

def buf_size : Nat := 4096

def newline : UInt8 := 10

variable {E : Type}

/-- A reader, the memory and its descriptor. -/
structure Reading (E : Type) where
  reader : LineReader
  memory : Memory
  fd : Fd E

/-- What a call of `readLine` comes to: a line, a null pointer, an exception, or an
access outside of an array. -/
inductive Outcome (E : Type) where
  | line (line : List UInt8)
  | null
  | thrown (thrown : Error E)
  | bad
deriving DecidableEq

namespace Reading

/-- `if (buf_data.empty())` with what it guards; an error is a return from the loop. -/
def fill (s : Reading E) : Except (Outcome E × Reading E) (Reading E) :=
  if s.reader.buf_data.size = 0 then
    match s.memory s.reader.buf with
    | none => .error (.bad, s)
    | some array =>
      match read array s.fd with
      | (.error (.eof _), array, fd) =>
        .error (.line s.reader.line, {
          reader := { s.reader with hit_eof := true }
          memory := Function.update s.memory s.reader.buf (some array)
          fd := fd })
      | (.error thrown, array, fd) =>
        .error (.thrown thrown, { s with
          memory := Function.update s.memory s.reader.buf (some array)
          fd := fd })
      | (.ok size, array, fd) =>
        let s : Reading E := {
          reader := { s.reader with buf_data := { array := s.reader.buf, offset := 0, size := size } }
          memory := Function.update s.memory s.reader.buf (some array)
          fd := fd }
        if size = 0 then .error (.null, s) else .ok s
  else
    .ok s

/-- The rest of the loop's body: the search for a newline, or all of the buffer. -/
def consume (s : Reading E) : Except (Outcome E × Reading E) (Reading E) :=
  match s.reader.buf_data.chars s.memory with
  | none => .error (.bad, s)
  | some data =>
    match data.findIdx? (· = newline) with
    | some i =>
      .error (.line (s.reader.line ++ data.take i), { s with
        reader := { s.reader with
          line := s.reader.line ++ data.take i
          buf_data := s.reader.buf_data.subspan (i + 1)
          line_complete := true } })
    | none =>
      .ok { s with
        reader := { s.reader with
          line := s.reader.line ++ data
          buf_data := { array := 0, offset := 0, size := 0 }
          line_complete := false } }

end Reading

def Fd.size (fd : Fd E) : Nat :=
  (fd.map fun reply =>
    match reply with
    | .bytes data => data.length + 1
    | _ => 1).sum

theorem Fd.read_size {size : Nat} {fd rest : Fd E} {data : { data : List UInt8 // data.length ≤ size }}
    (given : fd.read size = (.ok data, rest)) (some_data : data.val ≠ []) : rest.size < fd.size := by
  cases fd with
  | nil => cases given
  | cons reply fd =>
    cases reply with
    | system thrown => cases given
    | other thrown => cases given
    | bytes all =>
      simp only [Fd.read, Prod.mk.injEq, Except.ok.injEq] at given
      obtain ⟨rfl, rfl⟩ := given
      have pos : 0 < size := by
        refine Nat.pos_of_ne_zero fun zero => some_data ?_
        simp [zero]
      split
      · simp only [Fd.size, List.map_cons, List.sum_cons]
        omega
      · simp only [Fd.size, List.map_cons, List.sum_cons, List.length_drop]
        omega

theorem read_eq (buf : List UInt8) (fd : Fd E) : read buf fd =
    match fd.read buf.length with
    | (.error thrown, rest) => (.error thrown, buf, rest)
    | (.ok data, rest) => (.ok data.val.length, overwrite buf 0 data.val, rest) := by
  rw [read, readAligned, opAligned]
  simp only [readInto, Nat.sub_zero, rethrow, Nat.mod_one, ne_eq, not_true_eq_false, and_false, if_false, false_and,
    dite_false, Nat.div_one]
  cases asked : fd.read buf.length with
  | mk outcome rest =>
    cases outcome with
    | error thrown => simp [Except.map]
    | ok data => simp [Except.map]

namespace Reading

/-- Reads ahead, and one more turn for what is in the buffer. -/
def left (s : Reading E) : Nat := 2 * s.fd.size + (if s.reader.buf_data.size = 0 then 0 else 1)

private theorem fill_left {s filled : Reading E} (more : fill s = .ok filled) :
    filled.fd.size < s.fd.size ∨ s.reader.buf_data.size ≠ 0 ∧ filled = s := by
  unfold fill at more
  split at more
  · left
    split at more
    · cases more
    · rename_i array _
      rw [read_eq] at more
      split at more
      · cases more
      · cases more
      · rename_i size array' fd got
        split at got
        · cases got
        · rename_i data rest asked
          simp only [Prod.mk.injEq, Except.ok.injEq] at got
          obtain ⟨rfl, rfl, rfl⟩ := got
          simp only at more
          split at more
          · cases more
          · rename_i some_size
            cases more
            refine Fd.read_size asked fun none_read => some_size ?_
            rw [none_read]
            rfl
  · right
    rename_i waiting
    cases more
    exact ⟨waiting, rfl⟩

private theorem consume_left {s rest : Reading E} (more : consume s = .ok rest) :
    rest.fd = s.fd ∧ rest.reader.buf_data.size = 0 := by
  unfold consume at more
  split at more
  · cases more
  · split at more
    · cases more
    · cases more
      exact ⟨rfl, rfl⟩

/-- `while (true)`. -/
def loop (s : Reading E) : Outcome E × Reading E :=
  match _filled : fill s with
  | .error returned => returned
  | .ok filled =>
    match _consumed : consume filled with
    | .error returned => returned
    | .ok rest => loop rest
termination_by s.left
decreasing_by
  obtain ⟨same, empty⟩ := consume_left _consumed
  simp only [left, same, empty, if_true]
  rcases fill_left _filled with fewer | ⟨waiting, rfl⟩
  · omega
  · rw [if_neg waiting]
    omega

theorem loop_eq (s : Reading E) : loop s =
    match fill s with
    | .error returned => returned
    | .ok filled =>
      match consume filled with
      | .error returned => returned
      | .ok rest => loop rest := by
  rw [loop]
  split
  · rename_i filled
    rw [filled]
  · rename_i filled
    rw [filled]
    simp only
    split
    · rename_i consumed
      rw [consumed]
    · rename_i consumed
      rw [consumed]

def readLine (s : Reading E) : Outcome E × Reading E :=
  if s.reader.hit_eof then
    (.thrown (.eof "readLine"), s)
  else
    loop { s with reader := { s.reader with line := if s.reader.line_complete then [] else s.reader.line } }

/-- The first calls of `readLine`. -/
def outcomes : Nat → Reading E → List (Outcome E)
  | 0, _ => []
  | calls + 1, s => (readLine s).1 :: outcomes calls (readLine s).2

def start (raw : Nat → UInt8) (fd : Fd E) : Reading E where
  reader := {
    buf := 0
    buf_data := { array := 0, offset := 0, size := 0 }
    line := []
    line_complete := false
    hit_eof := false }
  memory := Function.update (fun _ => none) 0 (some ((List.range buf_size).map raw))
  fd := fd

end Reading

end Stdplus.Fd
