import Stdplus.Fd.Line

/-! What a reader of lines is for: the stream split at its newlines, whatever the
descriptor cuts it into, with the would-blocks and the errors where they come. -/

set_option linter.dupNamespace false

namespace Stdplus.Fd

open Stdplus.Base

variable {E : Type}

/-- One byte, or one read that gives none. -/
inductive Event (E : Type) where
  | byte (byte : UInt8)
  | block
  | error (thrown : Error E)
deriving DecidableEq

def Reply.events : Reply E → List (Event E)
  | .bytes [] => [.block]
  | .bytes data => data.map .byte
  | .system thrown => [.error (.system thrown)]
  | .other thrown => [.error (.other thrown)]

/-- What a descriptor says, byte by byte. -/
def events (fd : Fd E) : List (Event E) := fd.flatMap Reply.events

def stream (fd : Fd E) : List UInt8 :=
  fd.flatMap fun reply =>
    match reply with
    | .bytes data => data
    | _ => []

/-- What a reader answers that has begun a line, up to its last one. -/
def answers (begun : List UInt8) : List (Event E) → List (Outcome E)
  | [] => [.line begun]
  | .byte byte :: events =>
    if byte = newline then .line begun :: answers [] events else answers (begun ++ [byte]) events
  | .block :: events => .null :: answers begun events
  | .error thrown :: events => .thrown thrown :: answers begun events

/-- What `readLine` throws after the last line. -/
def ended : Outcome E := .thrown (.eof "readLine")

def Event.byte? : Event E → Option UInt8
  | .byte given => some given
  | _ => none

/-- Where a call of `readLine` is over. -/
def Event.stops : Event E → Bool
  | .byte given => given == newline
  | _ => true

def Event.failed : Event E → Bool
  | .error _ => true
  | _ => false

def Reply.failed : Reply E → Bool
  | .bytes _ => false
  | _ => true

def Outcome.line? : Outcome E → Option (List UInt8)
  | .line text => some text
  | _ => none

def Outcome.failed : Outcome E → Bool
  | .thrown _ => true
  | _ => false

/-- The event that an answer is for; the end of the file completes a line as a newline does. -/
def Outcome.cause : Outcome E → Option (Event E)
  | .line _ => some (.byte newline)
  | .null => some .block
  | .thrown failure => some (.error failure)
  | .bad => none

theorem Reply.events_bytes {data : List UInt8} (some_data : data ≠ []) :
    (Reply.bytes data : Reply E).events = data.map .byte := by
  cases data with
  | nil => exact absurd rfl some_data
  | cons byte data => rfl

theorem read_events {size : Nat} (pos : 0 < size) (fd : Fd E) :
    match fd.read size with
    | (.error (.eof _), rest) => events fd = [] ∧ events rest = []
    | (.error (.system thrown), rest) => events fd = .error (.system thrown) :: events rest
    | (.error (.other thrown), rest) => events fd = .error (.other thrown) :: events rest
    | (.error _, _) => False
    | (.ok data, rest) =>
      events fd = (if data.val = [] then [.block] else data.val.map .byte) ++ events rest := by
  cases fd with
  | nil => exact ⟨rfl, rfl⟩
  | cons reply fd =>
    cases reply with
    | system thrown => rfl
    | other thrown => rfl
    | bytes data =>
      simp only [Fd.read]
      by_cases empty : data = []
      · subst empty
        simp [events, Reply.events]
      · have taken : data.take size ≠ [] := by
          intro nothing
          rcases List.take_eq_nil_iff.mp nothing with zero | none
          · omega
          · exact empty none
        rw [if_neg taken]
        split
        · rename_i fits
          rw [List.take_of_length_le fits, events, List.flatMap_cons, Reply.events_bytes empty]
          rfl
        · rename_i longer
          have kept : data.drop size ≠ [] := by
            intro nothing
            exact longer (List.drop_eq_nil_iff.mp nothing)
          rw [events, events, List.flatMap_cons, List.flatMap_cons, Reply.events_bytes empty,
            Reply.events_bytes kept, ← List.append_assoc, ← List.map_append, List.take_append_drop]

theorem answers_append {data : List UInt8} (plain : ∀ byte ∈ data, byte ≠ newline) (begun : List UInt8)
    (later : List (Event E)) : answers begun (data.map .byte ++ later) = answers (begun ++ data) later := by
  induction data generalizing begun with
  | nil => rw [List.append_nil]; rfl
  | cons byte data ih =>
    have here := plain byte List.mem_cons_self
    rw [List.map_cons, List.cons_append, answers, if_neg here,
      ih (fun other member => plain other (List.mem_cons_of_mem _ member)), List.append_assoc]
    rfl

theorem answers_newline {data : List UInt8} {i : Nat} (found : data.findIdx? (· = newline) = some i)
    (begun : List UInt8) (later : List (Event E)) :
    answers begun (data.map .byte ++ later) =
      .line (begun ++ data.take i) :: answers [] ((data.drop (i + 1)).map .byte ++ later) := by
  obtain ⟨inside, at_i, before⟩ := List.findIdx?_eq_some_iff_getElem.mp found
  have split : data = data.take i ++ newline :: data.drop (i + 1) := by
    have here : data[i] = newline := by simpa using at_i
    rw [← here, ← List.drop_eq_getElem_cons inside, List.take_append_drop]
  have plain : ∀ byte ∈ data.take i, byte ≠ newline := by
    intro byte member
    obtain ⟨k, less, rfl⟩ := List.mem_take_iff_getElem.mp member
    have other := before k (by omega)
    simpa using other
  have parts : data.map (Event.byte (E := E)) ++ later =
      (data.take i).map .byte ++ (.byte newline :: ((data.drop (i + 1)).map .byte ++ later)) := by
    conv_lhs => rw [split]
    simp
  rw [parts, answers_append plain, answers, if_pos rfl]

theorem answers_lines (begun : List UInt8) (events : List (Event E)) :
    (answers begun events).filterMap Outcome.line? =
      List.splitOnPPrepend (· == newline) (events.filterMap Event.byte?) begun.reverse := by
  induction events generalizing begun with
  | nil => simp [answers, Outcome.line?]
  | cons event events ih =>
    cases event with
    | byte byte =>
      have bytes : (Event.byte byte :: events).filterMap Event.byte? = byte :: events.filterMap Event.byte? :=
        rfl
      rw [answers, bytes]
      split
      · rename_i here
        have lines : (Outcome.line begun :: answers [] events).filterMap Outcome.line? =
            begun :: (answers [] events).filterMap Outcome.line? := rfl
        rw [lines, ih [], List.reverse_nil,
          List.splitOnPPrepend_nil_right, List.splitOnPPrepend_cons_pos (by simpa using here),
          List.reverse_reverse]
      · rename_i other
        rw [ih, List.splitOnPPrepend_cons_neg (by simpa using other), List.reverse_append]
        rfl
    | block => exact ih begun
    | error thrown => exact ih begun

/-- The calls that come back are those for the newlines, the would-blocks and the
errors, in their order, and one for the end. -/
theorem answers_cause (begun : List UInt8) (events : List (Event E)) :
    (answers begun events).map Outcome.cause =
      (events.filter Event.stops ++ [Event.byte newline]).map some := by
  induction events generalizing begun with
  | nil => rfl
  | cons event events ih =>
    cases event with
    | byte byte =>
      rw [answers]
      split
      · rename_i here
        subst here
        rw [List.map_cons, ih, List.filter_cons_of_pos rfl]
        rfl
      · rename_i other
        rw [ih, List.filter_cons_of_neg (by simpa [Event.stops] using other)]
    | block =>
      rw [answers, List.map_cons, ih, List.filter_cons_of_pos rfl]
      rfl
    | error thrown =>
      rw [answers, List.map_cons, ih, List.filter_cons_of_pos rfl]
      rfl

theorem answers_failed (begun : List UInt8) (events : List (Event E)) :
    (answers begun events).filter (!·.failed) = answers begun (events.filter (!·.failed)) := by
  induction events generalizing begun with
  | nil => rfl
  | cons event events ih =>
    cases event with
    | byte byte =>
      have kept : (Event.byte byte :: events).filter (!·.failed) =
          Event.byte byte :: events.filter (!·.failed) := List.filter_cons_of_pos rfl
      rw [kept, answers, answers]
      split
      · rw [List.filter_cons_of_pos rfl, ih]
      · exact ih _
    | block =>
      rw [answers, List.filter_cons_of_pos rfl, ih, List.filter_cons_of_pos rfl, answers]
    | error thrown =>
      rw [answers, List.filter_cons_of_neg (by simp [Outcome.failed]), ih,
        List.filter_cons_of_neg (by simp [Event.failed])]

private theorem Reply.events_byte? (data : List UInt8) :
    (Reply.bytes data : Reply E).events.filterMap Event.byte? = data := by
  by_cases empty : data = []
  · subst empty
    rfl
  · rw [Reply.events_bytes empty, List.filterMap_map]
    exact List.filterMap_some

theorem events_stream (fd : Fd E) : (events fd).filterMap Event.byte? = stream fd := by
  induction fd with
  | nil => rfl
  | cons reply fd ih =>
    rw [events, List.flatMap_cons, List.filterMap_append, stream, List.flatMap_cons]
    cases reply with
    | bytes data => exact congrArg₂ _ (Reply.events_byte? data) ih
    | system thrown => exact ih
    | other thrown => exact ih

private theorem Reply.events_kept (data : List UInt8) :
    (Reply.bytes data : Reply E).events.filter (!·.failed) = (Reply.bytes data).events := by
  rw [List.filter_eq_self]
  intro event member
  by_cases empty : data = []
  · subst empty
    rw [List.mem_singleton.mp member]
    rfl
  · rw [Reply.events_bytes empty] at member
    obtain ⟨byte, _, rfl⟩ := List.mem_map.mp member
    rfl

theorem events_failed (fd : Fd E) : (events fd).filter (!·.failed) = events (fd.filter (!·.failed)) := by
  induction fd with
  | nil => rfl
  | cons reply fd ih =>
    rw [events, List.flatMap_cons, List.filter_append]
    cases reply with
    | bytes data =>
      rw [Reply.events_kept, List.filter_cons_of_pos rfl]
      exact congrArg _ ih
    | system thrown => exact ih
    | other thrown => exact ih

end Stdplus.Fd
