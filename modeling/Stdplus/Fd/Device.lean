import Stdplus.Fd.Transfers

set_option linter.dupNamespace false

namespace Stdplus.Fd

open Stdplus.Base

variable {E σ : Type}

/-- A call that fills the front of a span, or throws a `std::system_error`. -/
structure Input (E σ : Type) where
  call : (size : Nat) → σ → Except (Error E) { data : List UInt8 // data.length ≤ size } × σ
  system : ∀ size s thrown, (call size s).1 = .error thrown → thrown.isSystem = true

/-- A call that takes the front of a span, or throws a `std::system_error`. -/
structure Output (E σ : Type) where
  call : (data : List UInt8) → σ → Except (Error E) (Fin (data.length + 1)) × σ
  system : ∀ data s thrown, (call data s).1 = .error thrown → thrown.isSystem = true

abbrev RecvFlags := Int

abbrev SendFlags := Int

/-- The part of `Fd` that transfers bytes. -/
structure Device (E σ : Type) where
  read : Input E σ
  recv : RecvFlags → Input E σ
  write : Output E σ
  send : SendFlags → Output E σ

def EAGAIN : Int := 11

def EWOULDBLOCK : Int := 11

/-- What a system call gave, which is nothing where it would block; `-1` is the error it
left in `errno`. -/
def fret {Span : Type} (length : Span → Nat) (empty : Span) (size : Nat) (name : String) :
    Except Int Span → Except (Error (Int × String)) Span
  | .error errno =>
    if errno = EAGAIN ∨ errno = EWOULDBLOCK then .ok empty else .error (.system (errno, name))
  | .ok r => if length r = 0 ∧ 0 < size then .error (.eof name) else .ok r

theorem fret_system {Span : Type} (length : Span → Nat) (empty : Span) (size : Nat) (name : String)
    (r : Except Int Span) (thrown : Error (Int × String))
    (threw : fret length empty size name r = .error thrown) : thrown.isSystem = true := by
  cases r with
  | error errno =>
    rw [fret] at threw
    split at threw <;> cases threw
    rfl
  | ok r =>
    rw [fret] at threw
    split at threw <;> cases threw
    rfl

/-- The system calls on the file of a descriptor. -/
structure Kernel (σ : Type) where
  read : (size : Nat) → σ → Except Int { data : List UInt8 // data.length ≤ size } × σ
  recv : RecvFlags → (size : Nat) → σ → Except Int { data : List UInt8 // data.length ≤ size } × σ
  write : (data : List UInt8) → σ → Except Int (Fin (data.length + 1)) × σ
  send : SendFlags → (data : List UInt8) → σ → Except Int (Fin (data.length + 1)) × σ

namespace FdImpl

def input (name : String) (call : (size : Nat) → σ → Except Int { data : List UInt8 // data.length ≤ size } × σ) :
    Input (Int × String) σ where
  call size s := ((fret (·.val.length) ⟨[], Nat.zero_le size⟩ size name (call size s).1), (call size s).2)
  system _ _ := fret_system _ _ _ _ _

def output (name : String) (call : (data : List UInt8) → σ → Except Int (Fin (data.length + 1)) × σ) :
    Output (Int × String) σ where
  call data s := (fret Fin.val 0 data.length name (call data s).1, (call data s).2)
  system _ _ := fret_system _ _ _ _ _

/-- `FdImpl` on a kernel. -/
def device (kernel : Kernel σ) : Device (Int × String) σ where
  read := input "read" kernel.read
  recv flags := input "recv" (kernel.recv flags)
  write := output "write" kernel.write
  send flags := output "send" (kernel.send flags)

end FdImpl

def Input.count {size : Nat} (data : { data : List UInt8 // data.length ≤ size }) : Fin (size + 1) :=
  ⟨data.val.length, Nat.lt_succ_of_le data.property⟩

/-- A call on the part of a buffer behind an offset. -/
def Input.into (input : Input E σ) (size offset : Nat) (state : List UInt8 × σ) :
    Except (Error E) (Fin (size - offset + 1)) × (List UInt8 × σ) :=
  match input.call (size - offset) state.2 with
  | (.error thrown, s) => (.error thrown, (state.1, s))
  | (.ok data, s) => (.ok (count data), (overwrite state.1 offset data.val, s))

/-- A call on a span gives nothing, which is thrown as `WouldBlock`, or throws. -/
def Input.Stops (input : Input E σ) (name : String) (size : Nat) (s : σ) (thrown : Error E) (after : σ) : Prop :=
  input.call size s = (.ok ⟨[], Nat.zero_le size⟩, after) ∧ thrown = .wouldBlock name ∨
    input.call size s = (.error thrown, after)

def Output.behind (output : Output E σ) (data : List UInt8) (offset : Nat) (s : σ) :
    Except (Error E) (Fin (data.length - offset + 1)) × σ :=
  let result := output.call (data.drop offset) s
  (result.1.map fun r => ⟨r.val, List.length_drop ▸ r.isLt⟩, result.2)

namespace Device

variable (fd : Device E σ)

def readExact (data : List UInt8) (s : σ) : Except (Error E) Unit × (List UInt8 × σ) :=
  opExact "readExact" data.length (fd.read.into data.length) 0 (data, s)

def recvExact (data : List UInt8) (flags : RecvFlags) (s : σ) : Except (Error E) Unit × (List UInt8 × σ) :=
  opExact "recvExact" data.length ((fd.recv flags).into data.length) 0 (data, s)

def writeExact (data : List UInt8) (s : σ) : Except (Error E) Unit × σ :=
  opExact "writeExact" data.length (fd.write.behind data) 0 s

def sendExact (data : List UInt8) (flags : SendFlags) (s : σ) : Except (Error E) Unit × σ :=
  opExact "sendExact" data.length ((fd.send flags).behind data) 0 s

def readAligned (align : Nat) (buf : List UInt8) (s : σ) : Except (Error E) Nat × (List UInt8 × σ) :=
  opAligned "readAligned" buf.length (fd.read.into buf.length) align 0 (buf, s)

def recvAligned (align : Nat) (buf : List UInt8) (flags : RecvFlags) (s : σ) :
    Except (Error E) Nat × (List UInt8 × σ) :=
  opAligned "recvAligned" buf.length ((fd.recv flags).into buf.length) align 0 (buf, s)

def writeAligned (align : Nat) (data : List UInt8) (s : σ) : Except (Error E) Nat × σ :=
  opAligned "writeAligned" data.length (fd.write.behind data) align 0 s

def sendAligned (align : Nat) (data : List UInt8) (flags : SendFlags) (s : σ) : Except (Error E) Nat × σ :=
  opAligned "sendAligned" data.length ((fd.send flags).behind data) align 0 s

end Device

/-- A call that is offered some space behind the bytes received gives some more. -/
def Receives (input : Input E σ) (offers : Nat → Nat → Prop) (here next : List UInt8 × σ) : Prop :=
  ∃ size data, offers here.1.length size ∧ input.call size here.2 = (.ok data, next.2) ∧ data.val ≠ [] ∧
    next.1 = here.1 ++ data.val

abbrev Received (input : Input E σ) (offers : Nat → Nat → Prop) (s : σ) : List UInt8 × σ → Prop :=
  Reachable (· = ([], s)) (Receives input offers)

/-- The whole space behind the bytes received, for as long as some is wanted. -/
def Behind (wants : Nat → Prop) (size total offered : Nat) : Prop := wants total ∧ offered = size - total

theorem Input.Stops.system {input : Input E σ} {name : String} {size : Nat} {s after : σ} {thrown : Error E}
    (stops : input.Stops name size s thrown after) : thrown.isSystem = true := by
  rcases stops with ⟨_, rfl⟩ | threw
  · rfl
  · exact input.system size s thrown (by rw [threw])

theorem overwrite_behind {got data buf : List UInt8} (fits : data.length ≤ buf.length - got.length) :
    overwrite (got ++ buf.drop got.length) got.length data =
      got ++ data ++ buf.drop (got.length + data.length) := by
  have part : data.length = ((buf.drop got.length).take data.length).length := by
    rw [List.length_take, List.length_drop]
    omega
  have written := overwrite_part got ((buf.drop got.length).take data.length)
    ((buf.drop got.length).drop data.length) data part
  rwa [List.append_assoc got, List.take_append_drop, List.drop_drop] at written

theorem Input.into_ok {input : Input E σ} {size offset : Nat} {state next : List UInt8 × σ}
    {r : Fin (size - offset + 1)} (called : input.into size offset state = (.ok r, next)) :
    ∃ data, input.call (size - offset) state.2 = (.ok data, next.2) ∧ r.val = data.val.length ∧
      next.1 = overwrite state.1 offset data.val := by
  rw [into] at called
  split at called
  · cases called
  · rename_i data after replied
    cases called
    exact ⟨data, replied, rfl, rfl⟩

theorem Input.into_error {input : Input E σ} {size offset : Nat} {state next : List UInt8 × σ}
    {thrown : Error E} (called : input.into size offset state = (.error thrown, next)) :
    input.call (size - offset) state.2 = (.error thrown, next.2) ∧ next.1 = state.1 := by
  rw [into] at called
  split at called
  · rename_i replied
    cases called
    exact ⟨replied, rfl⟩
  · cases called

/-- What a span holds after calls on it is what they gave, and behind it what was there. -/
theorem transferred_into {input : Input E σ} {wants : Nat → Prop} {buf : List UInt8} {s : σ}
    {state : Nat × (List UInt8 × σ)} (moved : Transferred wants (input.into buf.length) (buf, s) state) :
    ∃ got, Received input (Behind wants buf.length) s (got, state.2.2) ∧ got.length = state.1 ∧
      state.2.1 = got ++ buf.drop state.1 := by
  induction moved with
  | start first =>
    cases first
    exact ⟨[], .start rfl, rfl, rfl⟩
  | @step here next _ moves ih =>
    obtain ⟨total, held, middle⟩ := here
    obtain ⟨later, holds, after⟩ := next
    obtain ⟨got, received, length, content⟩ := ih
    simp only at received length content
    subst length content
    obtain ⟨wanted, r, called, some, more⟩ := moves
    obtain ⟨data, replied, size, written⟩ := Input.into_ok called
    simp only at wanted more replied written
    rw [size] at some more
    refine ⟨got ++ data.val, .step received ⟨_, data, ⟨wanted, rfl⟩, replied, ?_, rfl⟩, ?_, ?_⟩
    · exact fun nothing => some (List.length_eq_zero_iff.mpr nothing)
    · rw [List.length_append, more]
    · rw [written, more]
      exact overwrite_behind data.property

theorem Received.transferred {input : Input E σ} {wants : Nat → Prop} {buf : List UInt8} {s : σ}
    {state : List UInt8 × σ} (received : Received input (Behind wants buf.length) s state) :
    Transferred wants (input.into buf.length) (buf, s)
      (state.1.length, (state.1 ++ buf.drop state.1.length, state.2)) := by
  induction received with
  | start first =>
    cases first
    exact .start rfl
  | @step here next _ receives ih =>
    obtain ⟨got, middle⟩ := here
    obtain ⟨gets, after⟩ := next
    obtain ⟨_, data, ⟨wanted, rfl⟩, replied, some, rfl⟩ := receives
    simp only at wanted data replied some ih ⊢
    refine .step ih ⟨wanted, Input.count data, ?_, ?_, ?_⟩
    · rw [Input.into]
      simp only [replied]
      rw [overwrite_behind data.property, List.length_append]
    · exact fun none => some (List.length_eq_zero_iff.mp none)
    · rw [List.length_append, Input.count]

abbrev Input.Calls (input : Input E σ) (sizes : Nat → Prop) (s : σ) : σ → Prop :=
  Reachable (· = s) fun state next => ∃ size, sizes size ∧ next = (input.call size state).2

abbrev Output.Calls (output : Output E σ) (offered : List UInt8 → Prop) (s : σ) : σ → Prop :=
  Reachable (· = s) fun state next => ∃ data, offered data ∧ next = (output.call data state).2

theorem Input.into_state (input : Input E σ) (size offset : Nat) (state : List UInt8 × σ) :
    (input.into size offset state).2.2 = (input.call (size - offset) state.2).2 := by
  rw [into]
  split
  all_goals
    rename_i replied
    rw [replied]

theorem Input.into_system (input : Input E σ) (size offset : Nat) (state : List UInt8 × σ) (thrown : Error E)
    (threw : (input.into size offset state).1 = .error thrown) : thrown.isSystem = true := by
  have called : input.into size offset state = (.error thrown, (input.into size offset state).2) := by
    rw [← threw]
  exact input.system (size - offset) state.2 thrown (by rw [(Input.into_error called).1])

theorem Output.behind_system (output : Output E σ) (data : List UInt8) (offset : Nat) (s : σ) (thrown : Error E)
    (threw : (output.behind data offset s).1 = .error thrown) : thrown.isSystem = true := by
  refine output.system (data.drop offset) s thrown ?_
  simp only [behind] at threw
  cases replied : (output.call (data.drop offset) s).1 with
  | error raised =>
    rw [replied] at threw
    cases threw
    rfl
  | ok r =>
    rw [replied] at threw
    cases threw

theorem Input.calls_of_into {input : Input E σ} {size : Nat} {offsets : Nat → Prop}
    (inside : ∀ offset, offsets offset → offset < size) {start state : List UInt8 × σ}
    (called : Fd.Calls (input.into size) offsets start state) : input.Calls (0 < ·) start.2 state.2 := by
  refine Reachable.map Prod.snd ?_ ?_ called
  · rintro _ rfl
    rfl
  · rintro here _ ⟨offset, offered, rfl⟩
    exact ⟨size - offset, Nat.sub_pos_of_lt (inside offset offered), input.into_state size offset here⟩

theorem Output.calls_of_behind {output : Output E σ} {data : List UInt8} {offsets : Nat → Prop}
    (inside : ∀ offset, offsets offset → offset < data.length) {start state : σ}
    (called : Fd.Calls (output.behind data) offsets start state) : output.Calls (· ≠ []) start state := by
  refine Reachable.map id (fun _ => id) ?_ called
  rintro here _ ⟨offset, offered, rfl⟩
  refine ⟨data.drop offset, fun none => ?_, rfl⟩
  have length := congrArg List.length none
  rw [List.length_drop, List.length_nil] at length
  have more := inside offset offered
  omega

/-- A span filled by calls, or the exception for the one that gave nothing: nothing was
received before it, or the span has only what was. -/
inductive ExactFill (name : String) (input : Input E σ) (data : List UInt8) (s : σ) :
    Except (Error E) Unit × (List UInt8 × σ) → Prop where
  | whole {got : List UInt8} {after : σ}
      (received : Received input (Behind (· < data.length) data.length) s (got, after))
      (all : got.length = data.length) : ExactFill name input data s (.ok (), (got, after))
  | blocked {got : List UInt8} {middle after : σ}
      (received : Received input (Behind (· < data.length) data.length) s (got, middle))
      (more : got.length < data.length)
      (stalled : input.call (data.length - got.length) middle = (.ok ⟨[], Nat.zero_le _⟩, after)) :
      ExactFill name input data s (.error (if got = [] then .wouldBlock (name ++ " missing") else
        .incomplete (name ++ " is " ++ toString got.length ++ "B/" ++ toString data.length ++ "B")),
        (got ++ data.drop got.length, after))
  | failed {got : List UInt8} {middle after : σ} {thrown : Error E}
      (received : Received input (Behind (· < data.length) data.length) s (got, middle))
      (more : got.length < data.length)
      (threw : input.call (data.length - got.length) middle = (.error thrown, after)) :
      ExactFill name input data s (.error (if got = [] then thrown else
        .incomplete (name ++ " is " ++ toString got.length ++ "B/" ++ toString data.length ++ "B")),
        (got ++ data.drop got.length, after))

private theorem if_length {α : Type} (got : List UInt8) (first later : α) :
    (if got.length = 0 then first else later) = if got = [] then first else later := by
  cases got <;> rfl

private theorem stopped_into {input : Input E σ} {wants : Nat → Prop} {data : List UInt8} {s : σ} {total : Nat}
    {middle : List UInt8 × σ} (moved : Transferred wants (input.into data.length) (data, s) (total, middle)) :
    ∃ got, Received input (Behind wants data.length) s (got, middle.2) ∧ got.length = total ∧
      (∀ (r : Fin (data.length - total + 1)) after, input.into data.length total middle = (.ok r, after) →
        r.val = 0 → input.call (data.length - got.length) middle.2 = (.ok ⟨[], Nat.zero_le _⟩, after.2) ∧
          after.1 = got ++ data.drop got.length) ∧
      ∀ thrown after, input.into data.length total middle = (.error thrown, after) →
        input.call (data.length - got.length) middle.2 = (.error thrown, after.2) ∧
          after.1 = got ++ data.drop got.length := by
  obtain ⟨got, received, rfl, content⟩ := transferred_into moved
  simp only at received content
  refine ⟨got, received, rfl, fun r after called nothing => ?_, fun thrown after called => ?_⟩
  · obtain ⟨⟨bytes, fits⟩, replied, size, written⟩ := Input.into_ok called
    obtain rfl : bytes = [] := List.length_eq_zero_iff.mp (size.symm.trans nothing)
    refine ⟨replied, ?_⟩
    rw [written, content, overwrite_behind (Nat.zero_le _), List.append_nil]
    rfl
  · obtain ⟨replied, same⟩ := Input.into_error called
    exact ⟨replied, same.trans content⟩

theorem Exact.fill {name : String} {input : Input E σ} {data : List UInt8} {s : σ}
    {result : Except (Error E) Unit × (List UInt8 × σ)}
    (spec : Exact name (input.into data.length) (data, s) result) : ExactFill name input data s result := by
  cases spec with
  | @whole after moved =>
    obtain ⟨got, received, length, content⟩ := transferred_into moved
    obtain ⟨held, last⟩ := after
    simp only [List.drop_length, List.append_nil] at received length content
    rw [content]
    exact .whole received length
  | @blocked _ _ after _ moved more stalled nothing =>
    obtain ⟨got, received, rfl, quiet, _⟩ := stopped_into moved
    obtain ⟨held, last⟩ := after
    obtain ⟨replied, rfl⟩ := quiet _ _ stalled nothing
    rw [if_length]
    exact .blocked received more replied
  | @failed _ _ after _ moved more threw =>
    obtain ⟨got, received, rfl, _, raised⟩ := stopped_into moved
    obtain ⟨held, last⟩ := after
    obtain ⟨replied, rfl⟩ := raised _ _ threw
    rw [if_length]
    exact .failed received more replied

/-- The front of a span filled with whole elements, or the exception that stopped it
in the middle of one, or the one of the first call. -/
inductive AlignedFill (name : String) (input : Input E σ) (align : Nat) (buf : List UInt8) (s : σ) :
    Except (Error E) Nat × (List UInt8 × σ) → Prop where
  | whole {got : List UInt8} {after : σ}
      (received : Received input (Behind (Cut buf.length align) buf.length) s (got, after))
      (someBytes : got ≠ []) (aligned : got.length % align = 0) (inside : got.length ≤ buf.length) :
      AlignedFill name input align buf s (.ok got.length, (got ++ buf.drop got.length, after))
  | nothing {after : σ} (stalled : input.call buf.length s = (.ok ⟨[], Nat.zero_le _⟩, after)) :
      AlignedFill name input align buf s (.ok 0, (buf, after))
  | failed {after : σ} {thrown : Error E} (threw : input.call buf.length s = (.error thrown, after)) :
      AlignedFill name input align buf s (.error thrown, (buf, after))
  | cut {got : List UInt8} {middle after : σ}
      (received : Received input (Behind (Cut buf.length align) buf.length) s (got, middle))
      (partly : got.length % align ≠ 0) (inside : got.length < buf.length)
      (stopped : input.call (buf.length - got.length) middle = (.ok ⟨[], Nat.zero_le _⟩, after) ∨
        ∃ thrown, input.call (buf.length - got.length) middle = (.error thrown, after)) :
      AlignedFill name input align buf s
        (.error (.incomplete (missing name align got.length)), (got ++ buf.drop got.length, after))

theorem Aligned.fill {name : String} {input : Input E σ} {align : Nat} {buf : List UInt8} {s : σ}
    {result : Except (Error E) Nat × (List UInt8 × σ)}
    (spec : Aligned name (input.into buf.length) align (buf, s) result) :
    AlignedFill name input align buf s result := by
  have start : Transferred (Cut buf.length align) (input.into buf.length) (buf, s) (0, (buf, s)) := .start rfl
  cases spec with
  | @whole _ after moved someBytes aligned inside =>
    obtain ⟨got, received, rfl, content⟩ := transferred_into moved
    obtain ⟨held, last⟩ := after
    simp only at received content
    subst content
    exact .whole received (fun none => someBytes (List.length_eq_zero_iff.mpr none)) aligned inside
  | @nothing after _ stalled empty =>
    obtain ⟨got, _, length, quiet, _⟩ := stopped_into start
    obtain rfl := List.length_eq_zero_iff.mp length
    obtain ⟨held, last⟩ := after
    obtain ⟨replied, rfl⟩ := quiet _ _ stalled empty
    exact .nothing replied
  | @failed after _ threw =>
    obtain ⟨got, _, length, _, raised⟩ := stopped_into start
    obtain rfl := List.length_eq_zero_iff.mp length
    obtain ⟨held, last⟩ := after
    obtain ⟨replied, rfl⟩ := raised _ _ threw
    exact .failed replied
  | @cut _ _ after moved partly inside stopped =>
    obtain ⟨got, received, rfl, quiet, raised⟩ := stopped_into moved
    obtain ⟨held, last⟩ := after
    rcases stopped with ⟨r, called, nothing⟩ | ⟨thrown, called⟩
    · obtain ⟨replied, rfl⟩ := quiet _ _ called nothing
      exact .cut received partly inside (.inl replied)
    · obtain ⟨replied, rfl⟩ := raised _ _ called
      exact .cut received partly inside (.inr ⟨thrown, replied⟩)

/-- An operation fills a whole span exactly when its calls, each of them offered what is
left, give that many bytes. -/
structure FillsExactly (name : String) (input : Input E σ) (data : List UInt8) (s : σ)
    (result : Except (Error E) Unit × (List UInt8 × σ)) : Prop where
  outcome : ExactFill name input data s result
  returns : result.1 = .ok () ↔ ∃ got after,
    Received input (Behind (· < data.length) data.length) s (got, after) ∧ got.length = data.length
  calls : input.Calls (0 < ·) s result.2.2

/-- The same for an operation whose calls take the data. -/
structure TakesExactly (name : String) (output : Output E σ) (data : List UInt8) (s : σ)
    (result : Except (Error E) Unit × σ) : Prop where
  outcome : Exact name (output.behind data) s result
  returns : result.1 = .ok () ↔ ∃ after, Transferred (· < data.length) (output.behind data) s (data.length, after)
  calls : output.Calls (· ≠ []) s result.2

theorem Input.opExact_fills (input : Input E σ) (name : String) (data : List UInt8) (s : σ) :
    FillsExactly name input data s (opExact name data.length (input.into data.length) 0 (data, s)) := by
  have spec := opExact_spec name (input.into_system data.length) (data, s)
  refine ⟨spec.fill, (opExact_ok_iff name (input.into_system data.length) (data, s)).trans ⟨?_, ?_⟩,
    Input.calls_of_into (fun _ => id) spec.calls⟩
  · rintro ⟨after, moved⟩
    obtain ⟨got, received, length, _⟩ := transferred_into moved
    exact ⟨got, after.2, received, length⟩
  · rintro ⟨got, after, received, length⟩
    have moved := received.transferred
    rw [length] at moved
    exact ⟨_, moved⟩

theorem Output.opExact_takes (output : Output E σ) (name : String) (data : List UInt8) (s : σ) :
    TakesExactly name output data s (opExact name data.length (output.behind data) 0 s) := by
  have spec := opExact_spec name (output.behind_system data) s
  exact ⟨spec, opExact_ok_iff name (output.behind_system data) s, Output.calls_of_behind (fun _ => id) spec.calls⟩

theorem exact_transfers (fd : Device E σ) (data : List UInt8) (s : σ) :
    FillsExactly "readExact" fd.read data s (fd.readExact data s) ∧
      (∀ flags, FillsExactly "recvExact" (fd.recv flags) data s (fd.recvExact data flags s)) ∧
      TakesExactly "writeExact" fd.write data s (fd.writeExact data s) ∧
      ∀ flags, TakesExactly "sendExact" (fd.send flags) data s (fd.sendExact data flags s) :=
  ⟨fd.read.opExact_fills _ data s, fun flags => (fd.recv flags).opExact_fills _ data s,
    fd.write.opExact_takes _ data s, fun flags => (fd.send flags).opExact_takes _ data s⟩

/-- An operation fills the front of a span with whole elements, or says why it did not;
only its first call may be offered a span without bytes. -/
structure FillsAligned (name : String) (input : Input E σ) (align : Nat) (buf : List UInt8) (s : σ)
    (result : Except (Error E) Nat × (List UInt8 × σ)) : Prop where
  outcome : AlignedFill name input align buf s result
  calls : input.Calls (0 < ·) (input.call buf.length s).2 result.2.2

/-- The same for an operation whose calls take the front of the data. -/
structure TakesAligned (name : String) (output : Output E σ) (align : Nat) (data : List UInt8) (s : σ)
    (result : Except (Error E) Nat × σ) : Prop where
  outcome : Aligned name (output.behind data) align s result
  calls : output.Calls (· ≠ []) (output.call data s).2 result.2

theorem Input.opAligned_fills (input : Input E σ) (name : String) {align : Nat} {buf : List UInt8} (s : σ)
    (whole : buf.length % align = 0) :
    FillsAligned name input align buf s (opAligned name buf.length (input.into buf.length) align 0 (buf, s)) := by
  have spec := opAligned_spec name whole (input.into_system buf.length) (buf, s)
  have calls := Input.calls_of_into (fun _ => And.right) spec.calls
  rw [input.into_state] at calls
  exact ⟨spec.fill, calls⟩

theorem Output.opAligned_takes (output : Output E σ) (name : String) {align : Nat} {data : List UInt8} (s : σ)
    (whole : data.length % align = 0) :
    TakesAligned name output align data s (opAligned name data.length (output.behind data) align 0 s) := by
  have spec := opAligned_spec name whole (output.behind_system data) s
  exact ⟨spec, Output.calls_of_behind (fun _ => And.right) spec.calls⟩

theorem aligned_transfers (fd : Device E σ) {align : Nat} {data : List UInt8} (s : σ)
    (whole : data.length % align = 0) :
    FillsAligned "readAligned" fd.read align data s (fd.readAligned align data s) ∧
      (∀ flags, FillsAligned "recvAligned" (fd.recv flags) align data s (fd.recvAligned align data flags s)) ∧
      TakesAligned "writeAligned" fd.write align data s (fd.writeAligned align data s) ∧
      ∀ flags, TakesAligned "sendAligned" (fd.send flags) align data s (fd.sendAligned align data flags s) :=
  ⟨fd.read.opAligned_fills _ s whole, fun flags => (fd.recv flags).opAligned_fills _ s whole,
    fd.write.opAligned_takes _ s whole, fun flags => (fd.send flags).opAligned_takes _ s whole⟩

/-- A file that gives all it has, and whose descriptor is no socket. -/
def file : Kernel (List UInt8) where
  read size s := (.ok ⟨s.take size, List.length_take_le size s⟩, s.drop size)
  recv _ _ s := (.error 88, s)
  write data s := (.ok (Fin.last data.length), s ++ data)
  send _ _ s := (.error 88, s)

theorem aligned_transfers_file : FillsAligned "readAligned" (FdImpl.device file).read 2 [0, 0, 0, 0] [1, 2, 3]
    ((FdImpl.device file).readAligned 2 [0, 0, 0, 0] [1, 2, 3]) :=
  (aligned_transfers (FdImpl.device file) [1, 2, 3] rfl).1

end Stdplus.Fd
