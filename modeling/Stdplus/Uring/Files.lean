import Mathlib

/-! The registered files of `IoUring`: the local table with its counter, the table of
the kernel, and the handles that free their slots. -/

namespace Stdplus.Uring

/-- `files`, `filesAllocated`, and what the kernel has registered. -/
structure Files where
  files : List Int
  filesAllocated : Nat
  registered : Option (List Int)
deriving DecidableEq

/-- Why a call does not return: an exception, a loop without end, or the end of the
program, where a handle's drop throws. -/
inductive FilesStop where
  | system_error (what : String) (code : Nat)
  | length_error
  | endless
  | terminated
deriving DecidableEq

def ENXIO : Nat := 6

def EINVAL : Nat := 22

/-- The sizes of `unsigned` and `size_t`, and the longest vector of `int`. -/
def unsignedSize : Nat := 2 ^ 32

def size_tSize : Nat := 2 ^ 64

def max_size : Nat := 2 ^ 61 - 1

namespace Files

/-- A new ring. -/
def fresh : Files := { files := [], filesAllocated := 0, registered := none }

def io_uring_unregister_files (this : Files) : Files := { this with registered := none }

/-- The kernel reads as many entries as an `unsigned` says. -/
def io_uring_register_files (failure : Option Nat) (this : Files) : Except (FilesStop × Files) Files :=
  match failure with
  | some code => .error (.system_error "io_uring_register_files" code, this)
  | none => .ok { this with registered := some (this.files.take (this.files.length % unsignedSize)) }

/-- The kernel takes over the entry of one slot. -/
def io_uring_register_files_update (slot : Nat) (failure : Option Nat) (this : Files) :
    Except (FilesStop × Files) Files :=
  match failure, this.registered with
  | some code, _ => .error (.system_error "io_uring_register_files_update" code, this)
  | none, none => .error (.system_error "io_uring_register_files_update" ENXIO, this)
  | none, some table =>
    if slot < table.length then
      .ok { this with registered := some (table.set slot (this.files.getD slot 0)) }
    else
      .error (.system_error "io_uring_register_files_update" EINVAL, this)

/-- `files.resize(size, -1)`, never to fewer. -/
def resize (size : Nat) (this : Files) : Except (FilesStop × Files) Files :=
  if max_size < size then
    .error (.length_error, this)
  else
    .ok { this with files := this.files ++ List.replicate (size - this.files.length) (-1) }

def setFile (slot : Nat) (fd : Int) (this : Files) : Files :=
  let old := this.files.getD slot 0
  { this with
    filesAllocated :=
      if old = -1 ∧ old ≠ fd then
        (this.filesAllocated + 1) % size_tSize
      else if fd = -1 ∧ old ≠ fd then
        (this.filesAllocated + (size_tSize - 1)) % size_tSize
      else
        this.filesAllocated
    files := this.files.set slot fd }

def updateFile (slot : Nat) (fd : Int) (failure : Option Nat) (this : Files) :
    Except (FilesStop × Files) Files :=
  (this.setFile slot fd).io_uring_register_files_update slot failure

def reserveFiles (num : Nat) (failure : Option Nat) (this : Files) : Except (FilesStop × Files) Files :=
  let new_size := max 7 ((num + this.filesAllocated) % size_tSize)
  if this.files.length < new_size then do
    let this ← this.io_uring_unregister_files.resize new_size
    this.io_uring_register_files failure
  else
    .ok this

/-- The loop of `registerFile`, whose `unsigned slot` cannot get to a larger size. -/
def search (this : Files) : Except (FilesStop × Files) (Option Nat) :=
  match this.files.findIdx? (· = -1) with
  | some slot => if slot < unsignedSize then .ok (some slot) else .error (.endless, this)
  | none => if this.files.length < unsignedSize then .ok none else .error (.endless, this)

/-- The slot of the new handle, and the files. -/
def registerFile (fd : Int) (failure : Option Nat) (this : Files) :
    Except (FilesStop × Files) (Nat × Files) := do
  match ← this.search with
  | some slot =>
    let this ← this.updateFile slot fd failure
    .ok (slot, this)
  | none =>
    let slot := this.files.length
    let this ← this.io_uring_unregister_files.resize (max 7 ((this.files.length * 2 + 1) % size_tSize))
    let this ← (this.setFile slot fd).io_uring_register_files failure
    .ok (slot, this)

/-- The end of what a handle has; an exception of `drop` terminates the program. -/
def drop (slot : Option Nat) (failure : Option Nat) (this : Files) : Except (FilesStop × Files) Files :=
  match slot with
  | none => .ok this
  | some slot =>
    match this.updateFile slot (-1) failure with
    | .error (_, this) => .error (.terminated, this)
    | .ok this => .ok this

theorem search_cases (this : Files) :
    (∃ slot, this.search = .ok (some slot) ∧ this.files[slot]? = some (-1)) ∨
      (this.search = .ok none ∧ -1 ∉ this.files ∧ this.files.length < unsignedSize) ∨
      (this.search = .error (.endless, this) ∧ unsignedSize ≤ this.files.length) := by
  rw [search]
  cases found : this.files.findIdx? (· = -1) with
  | some slot =>
    obtain ⟨inside, here, -⟩ := List.findIdx?_eq_some_iff_getElem.mp found
    by_cases fits : slot < unsignedSize
    · refine .inl ⟨slot, if_pos fits, ?_⟩
      rw [List.getElem?_eq_getElem inside, of_decide_eq_true here]
    · exact .inr (.inr ⟨if_neg fits, (Nat.le_of_not_lt fits).trans inside.le⟩)
  | none =>
    have absent : -1 ∉ this.files := by
      intro inside
      have differ := List.findIdx?_eq_none_iff.mp found (-1) inside
      simp at differ
    by_cases fits : this.files.length < unsignedSize
    · exact .inr (.inl ⟨if_pos fits, absent, fits⟩)
    · exact .inr (.inr ⟨if_neg fits, Nat.le_of_not_lt fits⟩)

end Files

end Stdplus.Uring
