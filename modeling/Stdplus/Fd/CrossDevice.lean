import Stdplus.Fd.Commit

set_option linter.dupNamespace false

namespace Stdplus.Fd

namespace AtomicWriter

/-- The destination is on another device; nothing else goes wrong. -/
def crossing : Syscalls := { calm with rename := some EXDEV }

/-- A commit returned with the data at the destination, and the end of the writer leaves
them there and no temporary file. -/
def Placed (filename tmpname : String) (data : List UInt8) (outcome : Ended × AtomicWriter × Disk) : Prop :=
  let destroyed := outcome.2.1.destroy none outcome.2.2
  outcome.1 = .returned ∧ (outcome.2.2.file filename).map File.data = some data ∧
    destroyed.1 = false ∧ destroyed.2.dir tmpname = none ∧ (destroyed.2.file filename).map File.data = some data

variable {disk after : Disk} {this : AtomicWriter} {n : Nat} {data : List UInt8}

theorem renamed_placed (ready : Ready disk after this.tmpname n data) (shut : this.fd = none) :
    Placed this.filename this.tmpname data (this.place true calm after) ↔ this.filename ≠ this.tmpname := by
  have placed : this.place true calm after = (.returned, { this with tmpname := "" }, { after with
      dir := Function.update (Function.update after.dir this.tmpname none) this.filename (some n)
      renamed := after.renamed ++ [(n, this.filename)] }) := by
    rw [place, calm, Disk.rename_ok ready.name]
  have destroyed : ({ this with tmpname := "" } : AtomicWriter).destroy none = fun disk => (false, disk) := by
    funext disk
    simp [destroy, cleanup, dropFd, shut]
  rw [placed, Placed]
  simp only [destroyed, true_and]
  constructor
  · rintro ⟨_, gone, _⟩ same
    rw [same, Function.update_self] at gone
    cases gone
  · intro differ
    refine ⟨?_, ?_, ?_⟩
    · simp [Disk.file, ready.data]
    · rw [Function.update_of_ne (Ne.symm differ), Function.update_self]
    · simp [Disk.file, ready.data]

/-- A copy needs a destination that is not there, and leaves the temporary name to the
destructor. -/
theorem copied_placed (ready : Ready disk after this.tmpname n data) (named : this.tmpname ≠ "")
    (shut : this.fd = none) :
    Placed this.filename this.tmpname data (this.place true crossing after) ↔ after.dir this.filename = none := by
  have closes : dropFd this.fd none = false := by
    rw [shut, dropFd_none]
  cases there : after.dir this.filename with
  | some k =>
    have failed : this.place true crossing after = this.rethrow (.filesystem_error EEXIST) none after := by
      rw [place, crossing, calm, Disk.rename_failed ready.name]
      simp [Disk.copy_exists ready.file there]
    refine iff_of_false (fun placed => ?_) (by simp)
    have returned := placed.1
    rw [failed, rethrow, cleanup_ready ready named closes] at returned
    cases returned
  | none =>
    have differ : this.filename ≠ this.tmpname := by
      intro same
      rw [same, ready.name] at there
      cases there
    have copied : this.place true crossing after =
        (.returned, this, after.create this.filename (after.inode n)) := by
      rw [place, crossing, calm, Disk.rename_failed ready.name]
      simp [Disk.copy_absent ready.file there]
    have kept : (after.create this.filename (after.inode n)).dir this.tmpname = some n :=
      (Function.update_of_ne (Ne.symm differ) _ _).trans ready.name
    refine iff_of_true ?_ rfl
    rw [copied, Placed, destroy, cleanup, if_pos named, closes, Disk.remove_found kept]
    refine ⟨rfl, ?_, rfl, Function.update_self _ _ _, ?_⟩
    · simp [Disk.file, Disk.create, ready.data]
    · simp [Disk.file, Disk.create, ready.data, Function.update_of_ne differ]

/-- Within a device the data are placed whatever the destination was; across devices they
are exactly where it was not there. -/
theorem commit_crossing_iff (disk : Disk) (filename : String) (mode : Nat) (name : String) (named : name ≠ "")
    (constructed : construct filename mode (.ok name) none disk = .ok (this, after))
    (writes : List (List UInt8)) :
    (Placed filename name writes.flatten (this.commit true calm (this.writeAll writes after)) ↔ filename ≠ name) ∧
      (Placed filename name writes.flatten (this.commit true crossing (this.writeAll writes after)) ↔
        disk.dir filename = none ∧ filename ≠ name) := by
  obtain ⟨rfl, rfl, opened, ready⟩ := construct_ready constructed
  have ready := ready.writeAll opened writes
  rw [List.nil_append] at ready
  have placed := ready.chmod this.mode
  constructor
  · rw [commit_open opened]
    exact @renamed_placed disk _ { this with fd := none } _ _ placed rfl
  · rw [commit_open opened]
    refine (@copied_placed disk _ { this with fd := none } _ _ placed named rfl).trans ?_
    simp only
    by_cases same : this.filename = this.tmpname
    · rw [same, ready.name]
      exact iff_of_false (by simp) fun both => both.2 rfl
    · rw [ready.dir _ same]
      exact ⟨fun absent => ⟨absent, same⟩, And.left⟩

def occupied : Disk := blank.create "out" ⟨[9], 0o600⟩

theorem commit_crossing_iff_blank : ".out.a" ≠ "" ∧
    ∃ this after, construct "out" 0o644 (.ok ".out.a") none blank = .ok (this, after) ∧
      Placed "out" ".out.a" [1, 2] (this.commit true crossing (this.writeAll [[1], [2]] after)) := by
  refine ⟨by decide, _, _, rfl, ?_⟩
  exact (commit_crossing_iff blank "out" 0o644 ".out.a" (by decide) rfl [[1], [2]]).2.mpr ⟨rfl, by decide⟩

/-- The copy does not replace the file, and the data are lost with the temporary one. -/
theorem commit_crossing_occupied : ∃ this after,
    construct "out" 0o644 (.ok ".out.a") none occupied = .ok (this, after) ∧
      let committed := this.commit true crossing (this.writeAll [[1, 2]] after)
      committed.1 = .thrown (.filesystem_error EEXIST) ∧ committed.2.2.file "out" = some ⟨[9], 0o600⟩ ∧
        committed.2.2.dir ".out.a" = none ∧ ¬ Placed "out" ".out.a" [1, 2] committed := by
  refine ⟨_, _, rfl, by decide, by decide, by decide, fun placed => ?_⟩
  cases (show Ended.thrown (.filesystem_error EEXIST) = .returned from placed.1)

end AtomicWriter

end Stdplus.Fd
