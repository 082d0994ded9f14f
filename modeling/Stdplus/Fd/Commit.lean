import Stdplus.Fd.Atomic

/-! What a commit does to its destination: it holds the data, or it is as it was and
the temporary file is gone, unless a `close` fails or a copy stops half-way. -/

set_option linter.dupNamespace false

namespace Stdplus.Fd

namespace AtomicWriter

def writeAll (writes : List (List UInt8)) (this : AtomicWriter) (disk : Disk) : Disk :=
  writes.foldl (fun disk data => this.write data disk) disk

/-- The destination holds the data, or nothing came of it and the caller is told. -/
def AllOrNothing (disk : Disk) (filename tmpname : String) (data : List UInt8)
    (outcome : Ended × AtomicWriter × Disk) : Prop :=
  match outcome.1 with
  | .returned => (outcome.2.2.file filename).map File.data = some data
  | .thrown _ => outcome.2.2.dir filename = disk.dir filename ∧
      outcome.2.2.file filename = disk.file filename ∧ outcome.2.2.dir tmpname = none
  | .terminated => False

/-- The copy is reached, and fails when it has already made the destination. -/
def Spoils (disk : Disk) (filename tmpname : String) (allow_copy : Bool) (calls : Syscalls) : Prop :=
  calls.rename = some EXDEV ∧ allow_copy = true ∧ filename ≠ tmpname ∧ disk.dir filename = none ∧
    ∃ code count, calls.copy = some ⟨some count, code⟩

/-- The disk has the temporary file `n` with its data besides what it had. -/
structure Ready (disk after : Disk) (tmpname : String) (n : Nat) (data : List UInt8) : Prop where
  dir : ∀ name, name ≠ tmpname → after.dir name = disk.dir name
  inode : ∀ k, k < disk.next → after.inode k = disk.inode k
  name : after.dir tmpname = some n
  data : (after.inode n).data = data
  fresh : disk.next ≤ n
  bounded : n < after.next

variable {disk after : Disk} {this : AtomicWriter} {tmpname : String} {n : Nat} {data : List UInt8}

theorem Ready.changed (ready : Ready disk after tmpname n data) (file : File) :
    Ready disk { after with inode := Function.update after.inode n file } tmpname n file.data where
  dir := ready.dir
  inode k old := by
    have fresh := ready.fresh
    have differ : k ≠ n := by omega
    exact (Function.update_of_ne differ _ _).trans (ready.inode k old)
  name := ready.name
  data := congrArg File.data (Function.update_self _ _ _)
  fresh := ready.fresh
  bounded := ready.bounded

theorem Ready.chmod (ready : Ready disk after tmpname n data) (mode : Nat) :
    Ready disk { after with inode := Function.update after.inode n { after.inode n with mode := mode } }
      tmpname n data :=
  { ready.changed { after.inode n with mode := mode } with
    data := (ready.changed { after.inode n with mode := mode }).data.trans ready.data }

theorem Ready.writeAll (ready : Ready disk after this.tmpname n data) (opened : this.fd = some n)
    (writes : List (List UInt8)) :
    Ready disk (this.writeAll writes after) this.tmpname n (data ++ writes.flatten) := by
  induction writes generalizing after data with
  | nil => simpa [AtomicWriter.writeAll] using ready
  | cons more writes ih =>
    have next := ready.changed { after.inode n with data := (after.inode n).data ++ more }
    have written : this.write more after = { after with
        inode := Function.update after.inode n { after.inode n with data := (after.inode n).data ++ more } } := by
      rw [AtomicWriter.write, opened]
    rw [← written, ready.data] at next
    have done := ih next
    rwa [List.append_assoc] at done

theorem construct_ready {filename name : String} {mode : Nat} {flags : Option Nat}
    (constructed : construct filename mode (.ok name) flags disk = .ok (this, after)) :
    this.filename = filename ∧ this.tmpname = name ∧ this.fd = some disk.next ∧
      Ready disk after name disk.next [] := by
  cases flags with
  | some code => cases constructed
  | none =>
    cases constructed
    refine ⟨rfl, rfl, rfl, ?_⟩
    exact {
      dir := fun other differ => Function.update_of_ne differ _ _
      inode := fun k old => Function.update_of_ne (by omega) _ _
      name := Function.update_self _ _ _
      data := by simp [Disk.create]
      fresh := le_refl _
      bounded := Nat.lt_succ_self _ }

theorem Ready.file (ready : Ready disk after tmpname n data) :
    after.file tmpname = some (after.inode n) := by
  rw [Disk.file, ready.name]
  rfl

/-- What `cleanup` does while the temporary file is there. -/
theorem cleanup_ready (ready : Ready disk after this.tmpname n data) (named : this.tmpname ≠ "")
    {close : Option Nat} (closes : dropFd this.fd close = false) :
    this.cleanup close after = (false, { this with fd := none, tmpname := "" },
      { after with dir := Function.update after.dir this.tmpname none, removed := after.removed ++ [n] }) := by
  rw [cleanup, if_pos named, closes, Disk.remove_found ready.name]
  rfl

theorem rethrow_spec (ready : Ready disk after this.tmpname n data) (sane : disk.Sane)
    (new : disk.dir this.tmpname = none) (named : this.tmpname ≠ "") {close : Option Nat}
    (closes : dropFd this.fd close = false) (filename : String) (written : List UInt8) (thrown : Thrown) :
    AllOrNothing disk filename this.tmpname written (this.rethrow thrown close after) := by
  have same (name : String) : Function.update after.dir this.tmpname none name = disk.dir name := by
    by_cases mine : name = this.tmpname
    · rw [mine, Function.update_self, new]
    · rw [Function.update_of_ne mine, ready.dir name mine]
  rw [rethrow, cleanup_ready ready named closes]
  refine ⟨same filename, ?_, (same this.tmpname).trans new⟩
  simp only [Disk.file, same]
  cases old : disk.dir filename with
  | none => rfl
  | some k => rw [Option.map_some, Option.map_some, ready.inode k (sane _ _ old)]

theorem rethrow_terminates {close : Option Nat} (named : this.tmpname ≠ "")
    (closes : dropFd this.fd close = true) (disk after : Disk) (filename tmpname : String) (data : List UInt8)
    (thrown : Thrown) :
    ¬ AllOrNothing disk filename tmpname data (this.rethrow thrown close after) := by
  have terminated : (this.rethrow thrown close after).1 = .terminated := by
    rw [rethrow, cleanup, if_pos named, if_pos closes]
    rfl
  rw [AllOrNothing, terminated]
  exact id

theorem rethrow_spoilt (ready : Ready disk after this.tmpname n data) (shut : this.fd = none)
    (named : this.tmpname ≠ "") {filename : String} (differ : filename ≠ this.tmpname)
    (absent : disk.dir filename = none) (file : File) (written : List UInt8) (close : Option Nat)
    (thrown : Thrown) :
    ¬ AllOrNothing disk filename this.tmpname written (this.rethrow thrown close (after.create filename file)) := by
  have there : (after.create filename file).dir this.tmpname = some n :=
    (Function.update_of_ne (Ne.symm differ) _ _).trans ready.name
  have left : (this.rethrow thrown close (after.create filename file)).2.2.dir filename = some after.next := by
    rw [rethrow, cleanup, if_pos named, shut, dropFd_none, Disk.remove_found there]
    exact (Function.update_of_ne differ _ _).trans (Function.update_self _ _ _)
  have ended : ∃ error, (this.rethrow thrown close (after.create filename file)).1 = .thrown error := by
    rw [rethrow, cleanup, if_pos named, shut, dropFd_none]
    exact ⟨thrown, rfl⟩
  obtain ⟨error, ended⟩ := ended
  rw [AllOrNothing, ended, left, absent]
  rintro ⟨same, -⟩
  cases same

theorem place_iff (this : AtomicWriter) (ready : Ready disk after this.tmpname n data) (sane : disk.Sane)
    (new : disk.dir this.tmpname = none) (named : this.tmpname ≠ "") (shut : this.fd = none)
    (allow_copy : Bool) (calls : Syscalls) :
    AllOrNothing disk this.filename this.tmpname data (this.place allow_copy calls after) ↔
      ¬ Spoils disk this.filename this.tmpname allow_copy calls := by
  have closes (close : Option Nat) : dropFd this.fd close = false := by rw [shut, dropFd_none]
  cases renames : calls.rename with
  | none =>
    have placed : this.place allow_copy calls after = (.returned, { this with tmpname := "" }, { after with
        dir := Function.update (Function.update after.dir this.tmpname none) this.filename (some n)
        renamed := after.renamed ++ [(n, this.filename)] }) := by
      rw [place, renames, Disk.rename_ok ready.name]
    rw [placed]
    refine iff_of_true ?_ (fun spoils => by rw [Spoils, renames] at spoils; cases spoils.1)
    simp [AllOrNothing, Disk.file, ready.data]
  | some code =>
    by_cases stops : ¬ allow_copy ∨ code ≠ EXDEV
    · have placed : this.place allow_copy calls after =
          this.rethrow (.filesystem_error code) calls.close after := by
        rw [place, renames, Disk.rename_failed ready.name]
        exact if_pos stops
      rw [placed]
      refine iff_of_true (rethrow_spec ready sane new named (closes _) _ _ _) ?_
      rintro ⟨crosses, allowed, -⟩
      rw [renames, Option.some.injEq] at crosses
      rcases stops with refused | other
      · exact refused allowed
      · exact other crosses
    · have crosses : allow_copy = true ∧ code = EXDEV := by simpa using stops
      unfold place
      rw [renames, Disk.rename_failed ready.name]
      simp only [if_neg stops]
      cases there : after.dir this.filename with
      | some k =>
        rw [Disk.copy_exists ready.file there]
        refine iff_of_true (rethrow_spec ready sane new named (closes _) _ _ _) ?_
        rintro ⟨-, -, differ, absent, -⟩
        rw [ready.dir _ differ, absent] at there
        cases there
      | none =>
        have differ : this.filename ≠ this.tmpname := by
          intro same
          rw [same, ready.name] at there
          cases there
        have absent : disk.dir this.filename = none := (ready.dir _ differ).symm.trans there
        rw [Disk.copy_absent ready.file there]
        rcases copies : calls.copy with - | ⟨- | count, code⟩
        · refine iff_of_true ?_ (fun spoils => by
            obtain ⟨-, -, -, -, _, _, fails⟩ := spoils
            rw [copies] at fails
            cases fails)
          simp [AllOrNothing, Disk.file, Disk.create, ready.data]
        · refine iff_of_true (rethrow_spec ready sane new named (closes _) _ _ _) (fun spoils => ?_)
          obtain ⟨-, -, -, -, _, _, fails⟩ := spoils
          rw [copies] at fails
          cases fails
        · refine iff_of_false (rethrow_spoilt ready shut named differ absent _ _ _ _) (not_not_intro ?_)
          exact ⟨by rw [renames, crosses.2], crosses.1, differ, absent, code, count, copies⟩

/-- A commit is all or nothing exactly when the `close` works and no copy that is
reached stops half-way. -/
theorem commit_allOrNothing_iff (disk : Disk) (sane : disk.Sane) (filename : String) (mode : Nat)
    (name : String) (named : name ≠ "") (new : disk.dir name = none)
    (constructed : construct filename mode (.ok name) none disk = .ok (this, after))
    (writes : List (List UInt8)) (allow_copy : Bool) (calls : Syscalls) :
    AllOrNothing disk filename name writes.flatten
        (this.commit allow_copy calls (this.writeAll writes after)) ↔
      calls.close = none ∧ (calls.fsync = none → calls.fchmod = none →
        ¬ Spoils disk filename name allow_copy calls) := by
  obtain ⟨rfl, rfl, opened, ready⟩ := construct_ready constructed
  have ready := ready.writeAll opened writes
  rw [List.nil_append] at ready
  rw [commit_open opened]
  have torn (code : Nat) (thrown : Thrown) : ¬ AllOrNothing disk this.filename this.tmpname writes.flatten
      (this.rethrow thrown (some code) (this.writeAll writes after)) :=
    rethrow_terminates named (by rw [opened]; rfl) _ _ _ _ _ _
  have whole (thrown : Thrown) : AllOrNothing disk this.filename this.tmpname writes.flatten
      (this.rethrow thrown none (this.writeAll writes after)) :=
    rethrow_spec ready sane new named (by rw [opened]; rfl) _ _ _
  cases fails : calls.close with
  | some code =>
    refine iff_of_false ?_ (fun both => by cases both.1)
    rcases calls.fsync with - | other
    · rcases calls.fchmod with - | other
      · exact id
      · exact torn _ _
    · exact torn _ _
  | none =>
    rcases calls.fsync with - | other
    · rcases calls.fchmod with - | other
      · have placed := place_iff { this with fd := none } (ready.chmod this.mode) sane new named rfl
          allow_copy calls
        refine placed.trans ⟨fun keeps => ⟨rfl, fun _ _ => keeps⟩, fun both => both.2 rfl rfl⟩
      · exact iff_of_true (whole _) ⟨rfl, nofun⟩
    · exact iff_of_true (whole _) ⟨rfl, nofun⟩

def blank : Disk :=
  { dir := fun _ => none, inode := fun _ => ⟨[], 0⟩, next := 0, created := [], renamed := [], removed := [],
    missed := 0 }

def calm : Syscalls := { fsync := none, fchmod := none, close := none, rename := none, copy := none }

theorem commit_allOrNothing_iff_calm :
    (blank.Sane ∧ ".out.a" ≠ "" ∧ blank.dir ".out.a" = none) ∧
      ∀ this after, construct "out" 0o644 (.ok ".out.a") none blank = .ok (this, after) →
        AllOrNothing blank "out" ".out.a" [1, 2] (this.commit false calm (this.writeAll [[1], [2]] after)) := by
  have sane : blank.Sane := nofun
  have named : ".out.a" ≠ "" := by decide
  refine ⟨⟨sane, named, rfl⟩, fun this after constructed => ?_⟩
  exact (commit_allOrNothing_iff blank sane "out" 0o644 ".out.a" named rfl constructed [[1], [2]] false calm).mpr
    ⟨rfl, fun _ _ spoils => by cases spoils.1⟩

/-- A `close` that fails ends the program; a copy that fails leaves its part of the
destination. -/
theorem commit_leaves : ∃ this after, construct "out" 0o644 (.ok ".out.a") none blank = .ok (this, after) ∧
    (this.commit true { calm with close := some 5 } (this.writeAll [[1, 2]] after)).1 = .terminated ∧
    let failed := this.commit true { calm with rename := some EXDEV, copy := some ⟨some 1, 28⟩ }
      (this.writeAll [[1, 2]] after)
    failed.1 = .thrown (.filesystem_error 28) ∧ blank.file "out" = none ∧
      failed.2.2.file "out" = some ⟨[1], 0o644⟩ := by
  refine ⟨_, _, rfl, ?_⟩
  decide

end AtomicWriter

end Stdplus.Fd
