import Stdplus.Uring.Files

namespace Stdplus.Uring

namespace Files

/-- The table, its counter and so its free slots are what they were, and the table is
that of the kernel. -/
structure Traceless (before after : Files) : Prop where
  files : after.files = before.files
  filesAllocated : after.filesAllocated = before.filesAllocated
  free : ∀ slot : Nat, after.files[slot]? = some (-1) ↔ before.files[slot]? = some (-1)
  kernel : after.registered.getD [] = after.files

variable {this after : Files} {failure : Option Nat} {what : String} {code : Nat}

theorem update_error {slot : Nat} {stop : FilesStop}
    (failed : this.io_uring_register_files_update slot failure = .error (stop, after)) : after = this := by
  unfold io_uring_register_files_update at failed
  split at failed
  · cases failed
    rfl
  · cases failed
    rfl
  · split at failed
    · cases failed
    · cases failed
      rfl

theorem register_error {stop : FilesStop}
    (failed : this.io_uring_register_files failure = .error (stop, after)) : after = this := by
  cases failure with
  | some code =>
    cases failed
    rfl
  | none => cases failed

theorem resize_error {size : Nat}
    (failed : this.resize size = .error (.system_error what code, after)) : False := by
  rw [resize] at failed
  split at failed <;> cases failed

theorem resize_longer {size : Nat} {ring : Files} (resized : this.resize size = .ok ring) :
    ring.files = this.files ++ List.replicate (size - this.files.length) (-1) := by
  rw [resize] at resized
  split at resized
  · cases resized
  · cases resized
    rfl

@[simp] theorem setFile_files (slot : Nat) (fd : Int) (this : Files) :
    (this.setFile slot fd).files = this.files.set slot fd := rfl

@[simp] theorem setFile_registered (slot : Nat) (fd : Int) (this : Files) :
    (this.setFile slot fd).registered = this.registered := rfl

theorem longer_traces (longer : this.files.length < after.files.length) : ¬ Traceless this after := by
  intro traceless
  rw [traceless.files] at longer
  exact lt_irrefl _ longer

theorem reserveFiles_traces (num : Nat)
    (failed : this.reserveFiles num failure = .error (.system_error what code, after)) :
    ¬ Traceless this after := by
  simp only [reserveFiles] at failed
  split at failed
  next grows =>
    cases resized : this.io_uring_unregister_files.resize (max 7 ((num + this.filesAllocated) % size_tSize)) with
    | error stop =>
      rw [resized] at failed
      cases failed
      exact absurd resized resize_error
    | ok ring =>
      rw [resized] at failed
      have same : after = ring := register_error failed
      have files := resize_longer resized
      refine longer_traces ?_
      rw [same, files, List.length_append, List.length_replicate]
      show this.files.length < this.files.length + (_ - this.files.length)
      omega
  next => cases failed

theorem taken_traceless_iff {slot : Nat} {fd : Int} (vacant : this.files[slot]? = some (-1)) :
    Traceless this (this.setFile slot fd) ↔ fd = -1 ∧ this.registered.getD [] = this.files := by
  obtain ⟨inside, here⟩ := List.getElem?_eq_some_iff.mp vacant
  constructor
  · intro traceless
    have set : this.files.set slot fd = this.files := traceless.files
    have same : (this.files.set slot fd)[slot]? = some fd := List.getElem?_set_self inside
    rw [set, vacant] at same
    exact ⟨(Option.some.inj same).symm, by rw [← set]; exact traceless.kernel⟩
  · rintro ⟨rfl, kernel⟩
    have set : this.files.set slot (-1) = this.files := by
      rw [← here]
      exact List.set_getElem_self inside
    have old : this.files.getD slot 0 = -1 := by rw [List.getD_eq_getElem?_getD, vacant]; rfl
    refine ⟨set, ?_, fun other => by rw [setFile_files, set], ?_⟩
    · simp only [setFile, old]
      simp
    · rw [setFile_registered, setFile_files, set, kernel]

theorem registerFile_traceless_iff (fd : Int)
    (failed : this.registerFile fd failure = .error (.system_error what code, after)) :
    Traceless this after ↔ fd = -1 ∧ -1 ∈ this.files ∧ this.registered.getD [] = this.files := by
  rw [registerFile] at failed
  rcases this.search_cases with ⟨slot, searched, vacant⟩ | ⟨searched, absent, small⟩ | ⟨searched, -⟩
  · rw [searched] at failed
    cases updated : this.updateFile slot fd failure with
    | ok ring => simp [bind, Except.bind, updated] at failed
    | error stop =>
      simp only [bind, Except.bind, updated, Except.error.injEq] at failed
      rw [failed] at updated
      rw [update_error updated, taken_traceless_iff vacant]
      exact ⟨fun both => ⟨both.1, List.mem_of_getElem? vacant, both.2⟩, fun all => ⟨all.1, all.2.2⟩⟩
  · rw [searched] at failed
    refine iff_of_false ?_ (fun all => absent all.2.1)
    cases resized : this.io_uring_unregister_files.resize (max 7 ((this.files.length * 2 + 1) % size_tSize)) with
    | error stop =>
      simp only [bind, Except.bind, resized, Except.error.injEq] at failed
      rw [failed] at resized
      exact (resize_error resized).elim
    | ok ring =>
      simp only [bind, Except.bind, resized] at failed
      have files := resize_longer resized
      cases registers : (ring.setFile this.files.length fd).io_uring_register_files failure with
      | ok kernel => simp only [registers, reduceCtorEq] at failed
      | error stop =>
        simp only [registers, Except.error.injEq] at failed
        rw [failed] at registers
        refine longer_traces ?_
        rw [register_error registers, setFile_files, files, List.length_set, List.length_append,
          List.length_replicate]
        have whole : (this.files.length * 2 + 1) % size_tSize = this.files.length * 2 + 1 := by
          refine Nat.mod_eq_of_lt ?_
          unfold unsignedSize at small
          unfold size_tSize
          omega
        show this.files.length < this.files.length + (_ - this.files.length)
        omega
  · rw [searched] at failed
    cases failed

/-- A call that fails in the kernel leaves no trace only where there was nothing to
register. -/
theorem failed_traceless_iff (this after : Files) (failure : Option Nat) (what : String) (code : Nat) :
    (∀ fd, this.registerFile fd failure = .error (.system_error what code, after) →
      (Traceless this after ↔ fd = -1 ∧ -1 ∈ this.files ∧ this.registered.getD [] = this.files)) ∧
    (∀ num, this.reserveFiles num failure = .error (.system_error what code, after) → ¬ Traceless this after) :=
  ⟨fun fd failed => registerFile_traceless_iff fd failed, fun num failed => reserveFiles_traces num failed⟩

def single : Files :=
  { files := [2, -1, -1, -1, -1, -1, -1], filesAllocated := 1, registered := some [2, -1, -1, -1, -1, -1, -1] }

theorem failed_traceless_iff_single :
    ¬ Traceless single
        { files := [2, 5, -1, -1, -1, -1, -1], filesAllocated := 2, registered := single.registered } ∧
      ¬ Traceless fresh { files := List.replicate 8 (-1), filesAllocated := 0, registered := none } := by
  constructor
  · intro traceless
    have only := ((failed_traceless_iff single _ (some 9) "io_uring_register_files_update" 9).1 5 rfl).mp traceless
    exact absurd only.1 (by decide)
  · exact (failed_traceless_iff fresh _ (some 12) "io_uring_register_files" 12).2 8 rfl

/-- Each of the three paths leaves its change. -/
theorem failed_leaves :
    fresh.registerFile 2 none = .ok (0, single) ∧
    single.registerFile 5 (some 9) = .error (.system_error "io_uring_register_files_update" 9,
      { files := [2, 5, -1, -1, -1, -1, -1], filesAllocated := 2, registered := single.registered }) ∧
    fresh.registerFile 5 (some 12) = .error (.system_error "io_uring_register_files" 12,
      { files := [5, -1, -1, -1, -1, -1, -1], filesAllocated := 1, registered := none }) ∧
    single.reserveFiles 8 (some 12) = .error (.system_error "io_uring_register_files" 12,
      { files := [2, -1, -1, -1, -1, -1, -1, -1, -1], filesAllocated := 1, registered := none }) :=
  ⟨rfl, rfl, rfl, rfl⟩

end Files

end Stdplus.Uring
