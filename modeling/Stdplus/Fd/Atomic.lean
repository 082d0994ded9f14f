import Mathlib

/-! `AtomicWriter`: a temporary file that takes the data and is renamed onto its
destination, on a disk whose calls may fail. -/

set_option linter.dupNamespace false

namespace Stdplus.Fd

structure File where
  data : List UInt8
  mode : Nat
deriving DecidableEq

/-- Names for files, and what became of the temporary ones: each with the destination
of its writer. Files from `next` on are new. -/
structure Disk where
  dir : String → Option Nat
  inode : Nat → File
  next : Nat
  created : List (Nat × String)
  renamed : List (Nat × String)
  removed : List Nat
  /-- Removals that found no file. -/
  missed : Nat

/-- The errors that matter here. -/
def EXDEV : Nat := 18

def EEXIST : Nat := 17

def ENOENT : Nat := 2

inductive Thrown where
  | system_error (what : String) (code : Nat)
  | filesystem_error (code : Nat)
  | bad_optional_access
deriving DecidableEq

/-- How a member function ends; an exception that leaves a `noexcept` function
terminates the program. -/
inductive Ended where
  | returned
  | thrown (thrown : Thrown)
  | terminated
deriving DecidableEq

/-- How the copy of a file fails: what it made of the destination before, if anything. -/
structure CopyError where
  created : Option Nat
  code : Nat
deriving DecidableEq

/-- What the calls of one operation come to; `none` is success. -/
structure Syscalls where
  fsync : Option Nat
  fchmod : Option Nat
  close : Option Nat
  rename : Option Nat
  copy : Option CopyError
deriving DecidableEq

namespace Disk

def file (name : String) (disk : Disk) : Option File := (disk.dir name).map disk.inode

def create (name : String) (file : File) (disk : Disk) : Disk :=
  { disk with
    dir := Function.update disk.dir name (some disk.next)
    inode := Function.update disk.inode disk.next file
    next := disk.next + 1 }

/-- `std::filesystem::rename`. -/
def rename (source target : String) (failure : Option Nat) (disk : Disk) : Except Nat Disk :=
  match disk.dir source, failure with
  | none, _ => .error ENOENT
  | some _, some code => .error code
  | some n, none => .ok { disk with
      dir := Function.update (Function.update disk.dir source none) target (some n)
      renamed := disk.renamed ++ [(n, target)] }

/-- `std::filesystem::copy`, which does not overwrite a file. -/
def copy (source target : String) (failure : Option CopyError) (disk : Disk) : Except (Nat × Disk) Disk :=
  match disk.file source, disk.dir target, failure with
  | none, _, _ => .error (ENOENT, disk)
  | some _, some _, _ => .error (EEXIST, disk)
  | some file, none, none => .ok (disk.create target file)
  | some file, none, some error =>
    .error (error.code, match error.created with
      | none => disk
      | some count => disk.create target { file with data := file.data.take count })

/-- `std::filesystem::remove`. -/
def remove (name : String) (disk : Disk) : Disk :=
  match disk.dir name with
  | none => { disk with missed := disk.missed + 1 }
  | some n => { disk with dir := Function.update disk.dir name none, removed := disk.removed ++ [n] }

/-- New files have numbers of their own. -/
def Sane (disk : Disk) : Prop := ∀ name n, disk.dir name = some n → n < disk.next

variable {disk : Disk} {source target : String} {n : Nat}

theorem Sane.update (sane : disk.Sane) {next : Nat} (later : disk.next ≤ next) (name : String)
    (entry : Option Nat) (bounded : ∀ n, entry = some n → n < next) :
    ∀ other n, Function.update disk.dir name entry other = some n → n < next := by
  intro other n found
  by_cases same : other = name
  · rw [same, Function.update_self] at found
    exact bounded n found
  · rw [Function.update_of_ne same] at found
    exact (sane other n found).trans_le later

theorem rename_ok (there : disk.dir source = some n) (target : String) :
    disk.rename source target none = .ok { disk with
      dir := Function.update (Function.update disk.dir source none) target (some n)
      renamed := disk.renamed ++ [(n, target)] } := by
  unfold rename
  rw [there]

theorem rename_failed (there : disk.dir source = some n) (target : String) (code : Nat) :
    disk.rename source target (some code) = .error code := by
  unfold rename
  rw [there]

theorem copy_exists {file : File} (there : disk.file source = some file) (taken : disk.dir target = some n)
    (failure : Option CopyError) : disk.copy source target failure = .error (EEXIST, disk) := by
  unfold copy
  rw [there, taken]

theorem copy_absent {file : File} (there : disk.file source = some file) (absent : disk.dir target = none)
    (failure : Option CopyError) :
    disk.copy source target failure = match failure with
      | none => .ok (disk.create target file)
      | some ⟨none, code⟩ => .error (code, disk)
      | some ⟨some count, code⟩ =>
        .error (code, disk.create target { file with data := file.data.take count }) := by
  unfold copy
  rw [there, absent]
  rcases failure with - | ⟨- | count, code⟩ <;> rfl

theorem remove_found (there : disk.dir source = some n) :
    disk.remove source =
      { disk with dir := Function.update disk.dir source none, removed := disk.removed ++ [n] } := by
  unfold remove
  rw [there]

end Disk

/-- A writer; its descriptor is the file it is open on. -/
structure AtomicWriter where
  filename : String
  mode : Nat
  tmpname : String
  fd : Option Nat
deriving DecidableEq

namespace AtomicWriter

/-- What a move leaves. -/
def moved (other : AtomicWriter) : AtomicWriter := { other with filename := "", tmpname := "", fd := none }

/-- The constructor: `mkstemp` gives the file a name that is new, and the flags of the
descriptor are set. Where that throws there is no writer. -/
def construct (filename : String) (mode : Nat) (name : Except Nat String) (flags : Option Nat) (disk : Disk) :
    Except (Thrown × Disk) (AtomicWriter × Disk) :=
  match name with
  | .error code => .error (.system_error "mkstemp" code, disk)
  | .ok name =>
    let made := { disk.create name { data := [], mode := 0o600 } with
      created := disk.created ++ [(disk.next, filename)] }
    match flags with
    | some code => .error (.system_error "fcntl" code, made)
    | none => .ok ({ filename := filename, mode := mode, tmpname := name, fd := some disk.next }, made)

/-- A write through the descriptor, and what it takes. -/
def write (data : List UInt8) (this : AtomicWriter) (disk : Disk) : Disk :=
  match this.fd with
  | none => disk
  | some n => { disk with
      inode := Function.update disk.inode n { disk.inode n with data := (disk.inode n).data ++ data } }

/-- The end of a descriptor: `detail::drop` throws where `close` fails, in a `Dropper`
that is `noexcept`. -/
def dropFd (fd close : Option Nat) : Bool := fd.isSome ∧ close.isSome

/-- `cleanup()`, and whether it terminates the program. -/
def cleanup (close : Option Nat) (this : AtomicWriter) (disk : Disk) : Bool × AtomicWriter × Disk :=
  if this.tmpname ≠ "" then
    if dropFd this.fd close then
      (true, this, disk)
    else
      (false, { this with fd := none, tmpname := "" }, disk.remove this.tmpname)
  else
    (false, this, disk)

/-- The handler `catch (...)` of `commit`. -/
def rethrow (thrown : Thrown) (close : Option Nat) (this : AtomicWriter) (disk : Disk) :
    Ended × AtomicWriter × Disk :=
  let result := this.cleanup close disk
  (if result.1 then .terminated else .thrown thrown, result.2)

/-- From the rename on; the descriptor is closed. -/
def place (allow_copy : Bool) (calls : Syscalls) (this : AtomicWriter) (disk : Disk) :
    Ended × AtomicWriter × Disk :=
  match disk.rename this.tmpname this.filename calls.rename with
  | .ok disk => (.returned, { this with tmpname := "" }, disk)
  | .error code =>
    if ¬ allow_copy ∨ code ≠ EXDEV then
      this.rethrow (.filesystem_error code) calls.close disk
    else
      match disk.copy this.tmpname this.filename calls.copy with
      | .error (code, disk) => this.rethrow (.filesystem_error code) calls.close disk
      | .ok disk => (.returned, this, disk)

def commit (allow_copy : Bool) (calls : Syscalls) (this : AtomicWriter) (disk : Disk) :
    Ended × AtomicWriter × Disk :=
  match this.fd with
  | none => this.rethrow .bad_optional_access calls.close disk
  | some n =>
    match calls.fsync with
    | some code => this.rethrow (.system_error "fsync" code) calls.close disk
    | none =>
      match calls.fchmod with
      | some code => this.rethrow (.system_error "fchmod" code) calls.close disk
      | none =>
        let disk := { disk with inode := Function.update disk.inode n { disk.inode n with mode := this.mode } }
        if dropFd this.fd calls.close then
          (.terminated, this, disk)
        else
          { this with fd := none }.place allow_copy calls disk

theorem dropFd_none (close : Option Nat) : dropFd none close = false := by
  simp [dropFd]

theorem commit_open {this : AtomicWriter} {n : Nat} (opened : this.fd = some n) (allow_copy : Bool)
    (calls : Syscalls) (disk : Disk) :
    this.commit allow_copy calls disk = match calls.fsync, calls.fchmod, calls.close with
      | some code, _, _ => this.rethrow (.system_error "fsync" code) calls.close disk
      | none, some code, _ => this.rethrow (.system_error "fchmod" code) calls.close disk
      | none, none, some _ => (.terminated, this, { disk with
          inode := Function.update disk.inode n { disk.inode n with mode := this.mode } })
      | none, none, none => { this with fd := none }.place allow_copy calls { disk with
          inode := Function.update disk.inode n { disk.inode n with mode := this.mode } } := by
  unfold commit
  rw [opened]
  rcases calls.fsync with - | code
  · rcases calls.fchmod with - | code
    · rcases calls.close with - | code <;> rfl
    · rfl
  · rfl

/-- The destructor, the end of the descriptor included. -/
def destroy (close : Option Nat) (this : AtomicWriter) (disk : Disk) : Bool × Disk :=
  let result := this.cleanup close disk
  (result.1 || dropFd result.2.1.fd close, result.2.2)

end AtomicWriter

end Stdplus.Fd
