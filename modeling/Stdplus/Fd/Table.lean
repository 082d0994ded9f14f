import Mathlib
import Stdplus.Base.Noexcept

set_option linter.dupNamespace false

namespace Stdplus.Fd

open Stdplus.Base

def EBADF : Int := 9

/-- `FD_CLOEXEC`. -/
def CloseOnExec : Nat := 1

/-- An open descriptor: the open file it refers to, and its flags. -/
structure Entry where
  file : Nat
  flags : Nat
deriving DecidableEq

/-- The table, how many files were opened, how many calls there were, and how many of them
came with a descriptor that was not open. -/
structure Process where
  table : List (Option Entry)
  files : Nat
  calls : Nat
  refused : Nat
deriving DecidableEq

/-- Which calls fail besides, by their place in the run, and what they leave in `errno`. -/
abbrev Failures := Nat → Option Int

namespace Process

def entry (fd : Nat) (process : Process) : Option Entry := process.table[fd]?.join

/-- The lowest descriptor from `least` on that is not open. -/
def lowest (least : Nat) (process : Process) : Nat := least + (process.table.drop least).findIdx Option.isNone

def put (fd : Nat) (entry : Option Entry) (process : Process) : Process :=
  { process with
    table := (process.table ++ List.replicate (fd + 1 - process.table.length) none).set fd entry }

def called (process : Process) : Process := { process with calls := process.calls + 1 }

variable (fails : Failures)

def call (body : Process → Except Int Nat × Process) (process : Process) : Except Int Nat × Process :=
  match fails process.calls with
  | some errno => (.error errno, process.called)
  | none => body process.called

def callOn (fd : Nat) (body : Entry → Process → Except Int Nat × Process) (process : Process) :
    Except Int Nat × Process :=
  match process.entry fd with
  | none => (.error EBADF, { process.called with refused := process.refused + 1 })
  | some entry => process.call fails (body entry)

def opens (flags : Nat) (process : Process) : Except Int Nat × Process :=
  let fd := process.lowest 0
  (.ok fd, { process.put fd (some { file := process.files, flags }) with files := process.files + 1 })

/-- `open` and `socket`. -/
def create (flags : Nat) : Process → Except Int Nat × Process := call fails (opens flags)

def accept (fd : Nat) : Process → Except Int Nat × Process := callOn fails fd fun _ => opens 0

/-- `fcntl(fd, F_DUPFD_CLOEXEC, least)`. -/
def dupfdCloexec (fd least : Nat) : Process → Except Int Nat × Process :=
  callOn fails fd fun entry process =>
    let new := process.lowest least
    (.ok new, process.put new (some { entry with flags := CloseOnExec }))

/-- `fcntl(fd, F_GETFD)`. -/
def getfd (fd : Nat) : Process → Except Int Nat × Process :=
  callOn fails fd fun entry process => (.ok entry.flags, process)

/-- `fcntl(fd, F_SETFD, flags)`. -/
def setfd (fd flags : Nat) : Process → Except Int Nat × Process :=
  callOn fails fd fun entry process => (.ok 0, process.put fd (some { entry with flags }))

/-- The descriptor is free afterwards even where the call fails. -/
def close (fd : Nat) (process : Process) : Except Int Nat × Process :=
  match process.entry fd with
  | none => (.error EBADF, { process.called with refused := process.refused + 1 })
  | some _ =>
    (match fails process.calls with
      | some errno => .error errno
      | none => .ok 0, process.called.put fd none)

def opened (process : Process) : List Bool := process.table.map Option.isSome

variable {process : Process} {fd least : Nat}

@[simp] theorem called_entry (fd : Nat) (process : Process) : process.called.entry fd = process.entry fd := rfl

theorem entry_put (fd : Nat) (entry : Option Entry) (process : Process) (other : Nat) :
    (process.put fd entry).entry other = if other = fd then entry else process.entry other := by
  rw [Process.entry, put]
  by_cases same : other = fd
  · rw [if_pos same, same, List.getElem?_set_self (by rw [List.length_append, List.length_replicate]; omega)]
    rfl
  · rw [if_neg same, List.getElem?_set_ne (Ne.symm same), Process.entry]
    by_cases old : other < process.table.length
    · rw [List.getElem?_append_left old]
    · rw [List.getElem?_append_right (by omega), List.getElem?_replicate,
        List.getElem?_eq_none (Nat.le_of_not_lt old)]
      split <;> rfl

theorem entry_lowest (least : Nat) (process : Process) : process.entry (process.lowest least) = none := by
  rw [entry]
  by_cases inside : process.lowest least < process.table.length
  · have within : (process.table.drop least).findIdx Option.isNone < (process.table.drop least).length := by
      rw [lowest] at inside
      rw [List.length_drop]
      omega
    have found := List.findIdx_getElem (w := within)
    rw [List.getElem_drop] at found
    rw [List.getElem?_eq_getElem inside]
    exact Option.isNone_iff_eq_none.mp found
  · rw [List.getElem?_eq_none (Nat.le_of_not_lt inside)]
    rfl

theorem lowest_taken (low : least ≤ fd) (below : fd < process.lowest least) : process.entry fd ≠ none := by
  have within : fd - least < (process.table.drop least).findIdx Option.isNone := by
    rw [lowest] at below
    omega
  have taken := List.not_of_lt_findIdx within
  have bound := within.trans_le List.findIdx_le_length
  rw [List.length_drop] at bound
  rw [List.getElem_drop] at taken
  simp only [Nat.add_sub_cancel' low] at taken
  intro free
  rw [entry, List.getElem?_eq_getElem (by omega), Option.join_some] at free
  rw [free] at taken
  exact absurd taken (by decide)

/-- What the kernel promises of its table: a change of one descriptor leaves the others, and a
new descriptor is the lowest that is free. Nothing else of the table is relied on. -/
structure Promises (process : Process) : Prop where
  changed (fd : Nat) (entry : Option Entry) : (process.put fd entry).entry fd = entry
  unchanged (fd : Nat) (entry : Option Entry) (other : Nat) : other ≠ fd →
    (process.put fd entry).entry other = process.entry other
  free (least : Nat) : process.entry (process.lowest least) = none
  from_least (least : Nat) : least ≤ process.lowest least
  first (least fd : Nat) : least ≤ fd → fd < process.lowest least → process.entry fd ≠ none

theorem promises (process : Process) : Promises process where
  changed fd entry := by rw [entry_put, if_pos rfl]
  unchanged fd entry other differ := by rw [entry_put, if_neg differ]
  free least := entry_lowest least process
  from_least least := Nat.le_add_right _ _
  first least fd low below := lowest_taken low below

end Process

end Stdplus.Fd
