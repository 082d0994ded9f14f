import Stdplus.Base.Bytes

set_option linter.dupNamespace false

namespace Stdplus.Fd

open Stdplus.Base

/-- The `std::system_error`s of the library, any other one, and any other exception. -/
inductive Error (E : Type) where
  | eof (what : String)
  | wouldBlock (what : String)
  | incomplete (what : String)
  | system (thrown : E)
  | other (thrown : E)
deriving DecidableEq

def Error.isSystem {E : Type} : Error E → Bool
  | .other _ => false
  | _ => true

/-- What a descriptor has ready: bytes, where none means that it would block, or a
`std::system_error`, or another exception. -/
inductive Reply (E : Type) where
  | bytes (data : List UInt8)
  | system (thrown : E)
  | other (thrown : E)
deriving DecidableEq

/-- A descriptor with all it will have to say before the end of the file. -/
abbrev Fd (E : Type) := List (Reply E)

variable {E σ : Type}

/-- `Fd::read` into a span of some size; bytes that do not fit are for the next read. -/
def Fd.read (size : Nat) (fd : Fd E) : Except (Error E) { data : List UInt8 // data.length ≤ size } × Fd E :=
  match fd with
  | [] => (.error (.eof "read"), [])
  | .system thrown :: rest => (.error (.system thrown), rest)
  | .other thrown :: rest => (.error (.other thrown), rest)
  | .bytes data :: rest =>
    (.ok ⟨data.take size, List.length_take_le size data⟩,
      if data.length ≤ size then rest else .bytes (data.drop size) :: rest)

/-- The text of `Incomplete`. -/
def missing (name : String) (align total : Nat) : String :=
  name ++ " is " ++ toString (total % align) ++ "B/" ++ toString align ++ "B"

/-- What the `catch` of `opAligned` throws. -/
def rethrow (name : String) (align total : Nat) (thrown : Error E) : Error E :=
  if thrown.isSystem ∧ total % align ≠ 0 then .incomplete (missing name align total) else thrown

/-- The loop of `opAligned` from `total` bytes on: `fun` works on the data behind an
offset and says how many bytes it moved. -/
def opAligned (name : String) (size : Nat)
    (fun_ : (offset : Nat) → σ → Except (Error E) (Fin (size - offset + 1)) × σ) (align total : Nat) (state : σ) :
    Except (Error E) Nat × σ :=
  match fun_ total state with
  | (.error thrown, state) => (.error (rethrow name align total thrown), state)
  | (.ok r, state) =>
    if _stalled : total ≠ 0 ∧ r.val = 0 then
      (.error (rethrow name align total (.incomplete (missing name align total))), state)
    else if _more : (total + r.val) % align ≠ 0 then
      opAligned name size fun_ align (total + r.val) state
    else
      (.ok (total + r.val), state)
termination_by size - total
decreasing_by
  have bound := r.isLt
  have moved : r.val ≠ 0 := by
    intro zero
    have start : total = 0 := by_contra fun later => _stalled ⟨later, zero⟩
    simp [start, zero] at _more
  omega

/-- What the `catch` of `opExact` throws. -/
def rethrowExact (name : String) (size total : Nat) (thrown : Error E) : Error E :=
  if thrown.isSystem ∧ total ≠ 0 then
    .incomplete (name ++ " is " ++ toString total ++ "B/" ++ toString size ++ "B")
  else
    thrown

/-- The loop of `opExact` from `total` bytes on. -/
def opExact (name : String) (size : Nat)
    (fun_ : (offset : Nat) → σ → Except (Error E) (Fin (size - offset + 1)) × σ) (total : Nat) (state : σ) :
    Except (Error E) Unit × σ :=
  if _more : total < size then
    match fun_ total state with
    | (.error thrown, state) => (.error (rethrowExact name size total thrown), state)
    | (.ok r, state) =>
      if _stalled : r.val = 0 then
        (.error (rethrowExact name size total (.wouldBlock (name ++ " missing"))), state)
      else
        opExact name size fun_ (total + r.val) state
  else
    (.ok (), state)
termination_by size - total
decreasing_by omega

/-- `&Fd::read` on a buffer. -/
def readInto (size offset : Nat) (state : List UInt8 × Fd E) :
    Except (Error E) (Fin (size - offset + 1)) × (List UInt8 × Fd E) :=
  match state.2.read (size - offset) with
  | (.error thrown, fd) => (.error thrown, (state.1, fd))
  | (.ok data, fd) => (.ok ⟨data.val.length, Nat.lt_succ_of_le data.property⟩,
      (overwrite state.1 offset data.val, fd))

def readAligned (align : Nat) (buf : List UInt8) (fd : Fd E) : Except (Error E) Nat × (List UInt8 × Fd E) :=
  opAligned "readAligned" buf.length (readInto buf.length) align 0 (buf, fd)

/-- `fd::read` into a container of characters: how many it holds now. -/
def read (buf : List UInt8) (fd : Fd E) : Except (Error E) Nat × (List UInt8 × Fd E) :=
  let result := readAligned 1 buf fd
  (result.1.map (· / 1), result.2)

end Stdplus.Fd
