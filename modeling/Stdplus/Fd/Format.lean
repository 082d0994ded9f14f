import Stdplus.Base.Transition
import Stdplus.Fd.Ops

/-! `FormatBuffer`: texts wait in a buffer for a descriptor that may take less than it
is given, nothing at all, or throw. -/

set_option linter.dupNamespace false

namespace Stdplus.Fd

open Stdplus.Base

variable {E : Type}

/-- What a descriptor does with a write: it takes some bytes, where none means that it
would block, or it throws a `std::system_error` or another exception. -/
inductive WriteReply (E : Type) where
  | accepts (count : Nat)
  | system (thrown : E)
  | other (thrown : E)
deriving DecidableEq

def WriteReply.count : WriteReply E → Nat
  | .accepts taken => taken
  | _ => 0

/-- A descriptor to write to, with its reply to each write. -/
structure Sink (E : Type) where
  reply : Nat → WriteReply E
  writes : Nat
  accepted : List UInt8

/-- `Fd::write`: how many bytes it takes. -/
def Sink.write (data : List UInt8) (fd : Sink E) : Except (Error E) (Fin (data.length + 1)) × Sink E :=
  match fd.reply fd.writes with
  | .accepts count => (.ok ⟨min count data.length, by omega⟩,
      { fd with writes := fd.writes + 1, accepted := fd.accepted ++ data.take count })
  | .system thrown => (.error (.system thrown), { fd with writes := fd.writes + 1 })
  | .other thrown => (.error (.other thrown), { fd with writes := fd.writes + 1 })

/-- `&Fd::write` on what is behind an offset. -/
def writeFrom (data : List UInt8) (offset : Nat) (fd : Sink E) :
    Except (Error E) (Fin (data.length - offset + 1)) × Sink E :=
  let result := fd.write (data.drop offset)
  (result.1.map (Fin.cast (by rw [List.length_drop])), result.2)

def writeExact (data : List UInt8) (fd : Sink E) : Except (Error E) Unit × Sink E :=
  opExact "writeExact" data.length (writeFrom data) 0 fd

structure FormatBuffer (E : Type) where
  fd : Sink E
  buf : List UInt8
  max : Nat

namespace FormatBuffer

/-- An exception of `writeExact` leaves the buffer as it is. -/
def flush (this : FormatBuffer E) : Except (Error E) Unit × FormatBuffer E :=
  if 0 < this.buf.length then
    match writeExact this.buf this.fd with
    | (.error thrown, fd) => (.error thrown, { this with fd := fd })
    | (.ok (), fd) => (.ok (), { this with fd := fd, buf := [] })
  else
    (.ok (), this)

def writeIfNeeded (this : FormatBuffer E) : Except (Error E) Unit × FormatBuffer E :=
  if this.max ≤ this.buf.length then this.flush else (.ok (), this)

/-- `append` with a text that is formatted already. -/
def append (text : List UInt8) (this : FormatBuffer E) : Except (Error E) Unit × FormatBuffer E :=
  writeIfNeeded { this with buf := this.buf ++ text }

def appends (texts : List (List UInt8)) (this : FormatBuffer E) : Except (Error E) Unit × FormatBuffer E :=
  writeIfNeeded { this with buf := this.buf ++ texts.flatten }

end FormatBuffer

/-- What a program does with its buffer. -/
inductive FormatAction where
  | append (text : List UInt8)
  | appends (texts : List (List UInt8))
  | flush
  | destroy
deriving DecidableEq

def FormatAction.text : FormatAction → List UInt8
  | .append text => text
  | .appends texts => texts.flatten
  | _ => []

/-- A buffer, whether it is still there, and all texts so far. -/
structure Formatting (E : Type) where
  object : FormatBuffer E
  alive : Bool
  appended : List UInt8

namespace Formatting

def start (reply : Nat → WriteReply E) (max : Nat) : Formatting E where
  object := { fd := { reply := reply, writes := 0, accepted := [] }, buf := [], max := max }
  alive := true
  appended := []

/-- What an action does to the object; the destructor flushes. -/
def work (action : FormatAction) (object : FormatBuffer E) : Except (Error E) Unit × FormatBuffer E :=
  match action with
  | .append text => object.append text
  | .appends texts => object.appends texts
  | .flush | .destroy => object.flush

/-- The caller goes on after an exception. -/
def step (action : FormatAction) (state : Formatting E) : Except (Error E) Unit × Formatting E :=
  let result := work action state.object
  (result.1, {
    object := result.2
    alive := state.alive && action ≠ .destroy
    appended := state.appended ++ action.text })

end Formatting

end Stdplus.Fd
