import Stdplus.Base.Tenure
import Stdplus.Base.Transition
import Stdplus.Fd.Atomic

/-! Any number of writers on one disk: each temporary file is with one writer until it
is renamed onto its destination or removed. -/

set_option linter.dupNamespace false

namespace Stdplus.Fd

open Stdplus.Base

structure Pool where
  writers : Nat → Option AtomicWriter
  disk : Disk

/-- What a program does with its writers; `close` works where no outcome is given. -/
inductive Action where
  | construct (this : Nat) (filename : String) (mode : Nat) (name : Except Nat String) (flags : Option Nat)
  | write (this : Nat) (data : List UInt8)
  | moveConstruct (this other : Nat)
  | moveAssign (this other : Nat)
  | commit (this : Nat) (allow_copy : Bool) (calls : Syscalls)
  | destroy (this : Nat)

namespace Pool

def put (this : Nat) (entry : Option AtomicWriter) (disk : Disk) (pool : Pool) : Pool where
  writers := Function.update pool.writers this entry
  disk := disk

/-- `mkstemp` gives a name that is new. -/
def grants (name : Except Nat String) (pool : Pool) : Bool :=
  match name with
  | .error _ => true
  | .ok name => name ≠ "" ∧ pool.disk.dir name = none

/-- A step of the program; there is none where the program has ended, or has no object
where it takes one. -/
def step (action : Action) (pool : Pool) : Option Pool :=
  match action with
  | .construct this filename mode name flags =>
    if pool.writers this = none ∧ pool.grants name then
      match AtomicWriter.construct filename mode name flags pool.disk with
      | .error (_, disk) => some { pool with disk := disk }
      | .ok (writer, disk) => some (pool.put this (some writer) disk)
    else
      none
  | .write this data =>
    match pool.writers this with
    | none => none
    | some writer => some (pool.put this (some writer) (writer.write data pool.disk))
  | .moveConstruct this other =>
    match pool.writers this, pool.writers other with
    | none, some source => some ((pool.put this (some source) pool.disk).put other (some source.moved) pool.disk)
    | _, _ => none
  | .moveAssign this other =>
    match pool.writers this, pool.writers other with
    | some _, some source =>
      if this = other then
        some pool
      else
        some ((pool.put this (some source) pool.disk).put other (some source.moved) pool.disk)
    | _, _ => none
  | .commit this allow_copy calls =>
    match pool.writers this with
    | none => none
    | some writer =>
      match writer.commit allow_copy calls pool.disk with
      | (.terminated, _, _) => none
      | (_, writer, disk) => some (pool.put this (some writer) disk)
  | .destroy this =>
    match pool.writers this with
    | none => none
    | some writer => some (pool.put this none (writer.destroy none pool.disk).2)

/-- The temporary file of a writer, with its destination. -/
def holding (disk : Disk) (writer : AtomicWriter) : Option (Nat × String) :=
  if writer.tmpname = "" then none else (disk.dir writer.tmpname).map fun n => (n, writer.filename)

def held (pool : Pool) (k : Nat) : Option (Nat × String) := (pool.writers k).bind (holding pool.disk)

/-- The commit gets to its rename. -/
def Renames (calls : Syscalls) (writer : AtomicWriter) : Prop :=
  writer.fd ≠ none ∧ calls.fsync = none ∧ calls.fchmod = none ∧ calls.rename = none

/-- What keeps a step from losing a file: no writer that still has one is assigned to,
a constructor with its file gets to its end, and no destination is another writer's
temporary file. -/
def Careful (pool : Pool) : Action → Prop
  | .construct _ _ _ name flags => flags = none ∨ ∃ code, name = .error code
  | .moveAssign this other => this = other ∨ ∀ writer, pool.writers this = some writer → writer.tmpname = ""
  | .commit this _ calls => ∀ writer, pool.writers this = some writer → Renames calls writer →
      ∀ other held, other ≠ this → pool.writers other = some held → held.tmpname ≠ "" →
        held.tmpname ≠ writer.filename
  | _ => True

/-- A writer with a temporary file has it on the disk, and is open on it if at all. -/
structure Sound (disk : Disk) (writer : AtomicWriter) : Prop where
  opened : writer.fd ≠ none → writer.tmpname ≠ ""
  there : writer.tmpname ≠ "" → ∃ n, disk.dir writer.tmpname = some n ∧ (writer.fd = none ∨ writer.fd = some n)

structure Kept (pool : Pool) : Prop where
  sane : pool.disk.Sane
  bounded : ∀ item ∈ pool.disk.created, item.1 < pool.disk.next
  sound : ∀ k writer, pool.writers k = some writer → Sound pool.disk writer
  tenure : Tenure pool.held pool.disk.created pool.disk.renamed pool.disk.removed
  found : pool.disk.missed = 0

variable {pool : Pool} {disk disk' : Disk} {writer : AtomicWriter} {this : Nat} {n : Nat}

@[simp] theorem put_self (this : Nat) (entry : Option AtomicWriter) (disk : Disk) (pool : Pool) :
    (pool.put this entry disk).writers this = entry :=
  Function.update_self _ _ _

theorem put_other {k this : Nat} (differ : k ≠ this) (entry : Option AtomicWriter) (disk : Disk) (pool : Pool) :
    (pool.put this entry disk).writers k = pool.writers k :=
  Function.update_of_ne differ _ _

@[simp] theorem put_put (this : Nat) (entry last : Option AtomicWriter) (disk disk' : Disk) (pool : Pool) :
    (pool.put this entry disk).put this last disk' = pool.put this last disk' := by
  rw [put, put, put, Function.update_idem]

/-- The names of the other writers are as they were. -/
def Spares (this : Nat) (disk : Disk) (pool : Pool) : Prop :=
  ∀ k writer, k ≠ this → pool.writers k = some writer → writer.tmpname ≠ "" →
    disk.dir writer.tmpname = pool.disk.dir writer.tmpname

theorem holding_unnamed (disk : Disk) (unnamed : writer.tmpname = "") : holding disk writer = none :=
  if_pos unnamed

theorem holding_named (named : writer.tmpname ≠ "") (there : disk.dir writer.tmpname = some n) :
    holding disk writer = some (n, writer.filename) := by
  rw [holding, if_neg named, there]
  rfl

theorem holding_congr (same : writer.tmpname ≠ "" → disk'.dir writer.tmpname = disk.dir writer.tmpname) :
    holding disk' writer = holding disk writer := by
  by_cases unnamed : writer.tmpname = ""
  · rw [holding_unnamed _ unnamed, holding_unnamed _ unnamed]
  · rw [holding, holding, same unnamed]

theorem Sound.congr (sound : Sound disk writer)
    (same : writer.tmpname ≠ "" → disk'.dir writer.tmpname = disk.dir writer.tmpname) : Sound disk' writer where
  opened := sound.opened
  there named := by
    rw [same named]
    exact sound.there named

theorem Sound.unnamed (disk : Disk) (unnamed : writer.tmpname = "") (shut : writer.fd = none) :
    Sound disk writer where
  opened opened := absurd shut opened
  there named := absurd unnamed named

theorem held_eq (found : pool.writers this = some writer) : pool.held this = holding pool.disk writer := by
  rw [held, found]
  rfl

theorem held_put (spares : pool.Spares this disk') (entry : Option AtomicWriter) :
    (pool.put this entry disk').held = Function.update pool.held this (entry.bind (holding disk')) := by
  funext k
  by_cases here : k = this
  · rw [here, Function.update_self, held, put_self]
    rfl
  · rw [Function.update_of_ne here, held, put_other here, held]
    cases found : pool.writers k with
    | none => rfl
    | some writer => exact holding_congr fun named => spares k writer here found named

namespace Kept

theorem put (kept : Kept pool) (entry : Option AtomicWriter) (spares : pool.Spares this disk')
    (sane : disk'.Sane) (bounded : ∀ item ∈ disk'.created, item.1 < disk'.next)
    (sound : ∀ writer, entry = some writer → Sound disk' writer)
    (tenure : Tenure (Function.update pool.held this (entry.bind (holding disk'))) disk'.created disk'.renamed
      disk'.removed)
    (found : disk'.missed = 0) : Kept (pool.put this entry disk') where
  sane := sane
  bounded := bounded
  sound k writer there := by
    by_cases here : k = this
    · rw [here, put_self] at there
      exact sound writer there
    · rw [put_other here] at there
      exact (kept.sound k writer there).congr fun named => spares k writer here there named
  tenure := by
    rw [held_put spares]
    exact tenure
  found := found

theorem touched (kept : Kept pool) (found : pool.writers this = some writer) (inode : Nat → File)
    (fd : Option Nat) (left : fd = none ∨ fd = writer.fd) :
    Kept (pool.put this (some { writer with fd := fd }) { pool.disk with inode := inode }) := by
  have here : (some { writer with fd := fd }).bind (holding { pool.disk with inode := inode }) =
      pool.held this := (held_eq found).symm
  have sound := kept.sound this writer found
  refine kept.put _ (fun _ _ _ _ _ => rfl) kept.sane kept.bounded ?_ ?_ kept.found
  · rintro _ ⟨⟩
    constructor
    · intro opened
      rcases left with rfl | rfl
      · exact absurd rfl opened
      · exact sound.opened opened
    · intro named
      obtain ⟨n, there, opened⟩ := sound.there named
      refine ⟨n, there, ?_⟩
      rcases left with rfl | rfl
      · exact .inl rfl
      · exact opened
  · rw [here, Function.update_eq_self]
    exact kept.tenure

theorem spares_new (kept : Kept pool) {name : String} (new : pool.disk.dir name = none) (entry : Option Nat) :
    ∀ k writer, pool.writers k = some writer → writer.tmpname ≠ "" →
      Function.update pool.disk.dir name entry writer.tmpname = pool.disk.dir writer.tmpname := by
  intro k writer found named
  refine Function.update_of_ne ?_ _ _
  rintro rfl
  obtain ⟨n, there, -⟩ := (kept.sound k writer found).there named
  rw [new] at there
  cases there

theorem differ (kept : Kept pool) (found : pool.writers this = some writer) (named : writer.tmpname ≠ "")
    {k : Nat} {other : AtomicWriter} (away : k ≠ this) (elsewhere : pool.writers k = some other)
    (both : other.tmpname ≠ "") : other.tmpname ≠ writer.tmpname := by
  intro same
  obtain ⟨n, there, -⟩ := (kept.sound this writer found).there named
  have mine : pool.held this = some (n, writer.filename) := (held_eq found).trans (holding_named named there)
  have theirs : pool.held k = some (n, other.filename) :=
    (held_eq elsewhere).trans (holding_named both (same ▸ there))
  exact away (kept.tenure.alone k this n _ _ theirs mine)

theorem created (kept : Kept pool) {name : String} (new : pool.disk.dir name = none) (file : File)
    (found : pool.writers this = some writer) :
    Kept (pool.put this (some writer) (pool.disk.create name file)) := by
  have spares := kept.spares_new new (some pool.disk.next)
  have here : (some writer).bind (holding (pool.disk.create name file)) = pool.held this := by
    rw [held_eq found]
    exact holding_congr fun named => spares this writer found named
  refine kept.put _ (fun k other _ there named => spares k other there named)
    (kept.sane.update (Nat.le_succ _) _ _ ?_) (fun item made => Nat.lt_succ_of_lt (kept.bounded item made))
    ?_ ?_ kept.found
  · rintro n ⟨⟩
    exact Nat.lt_succ_self _
  · rintro _ ⟨⟩
    exact (kept.sound this writer found).congr fun named => spares this writer found named
  · rw [here, Function.update_eq_self]
    exact kept.tenure

theorem removed (kept : Kept pool) (found : pool.writers this = some writer) (named : writer.tmpname ≠ "") :
    Kept (pool.put this (some { writer with fd := none, tmpname := "" }) (pool.disk.remove writer.tmpname)) := by
  obtain ⟨n, there, -⟩ := (kept.sound this writer found).there named
  rw [Disk.remove_found there]
  have mine : pool.held this = some (n, writer.filename) := (held_eq found).trans (holding_named named there)
  refine kept.put _ ?_ (kept.sane.update (le_refl _) _ _ nofun) kept.bounded ?_ ?_ kept.found
  · intro k other away elsewhere both
    exact Function.update_of_ne (kept.differ found named away elsewhere both) _ _
  · rintro _ ⟨⟩
    exact .unnamed _ rfl rfl
  · exact kept.tenure.drop mine

theorem placed (kept : Kept pool) (found : pool.writers this = some writer) (named : writer.tmpname ≠ "")
    (shut : writer.fd = none)
    (apart : ∀ k other, k ≠ this → pool.writers k = some other → other.tmpname ≠ "" →
      other.tmpname ≠ writer.filename) (there : pool.disk.dir writer.tmpname = some n) :
    Kept (pool.put this (some { writer with tmpname := "" }) { pool.disk with
      dir := Function.update (Function.update pool.disk.dir writer.tmpname none) writer.filename (some n)
      renamed := pool.disk.renamed ++ [(n, writer.filename)] }) := by
  have mine : pool.held this = some (n, writer.filename) := (held_eq found).trans (holding_named named there)
  refine kept.put _ ?_ ?_ kept.bounded ?_ ?_ kept.found
  · intro k other away elsewhere both
    refine (Function.update_of_ne (apart k other away elsewhere both) _ _).trans ?_
    exact Function.update_of_ne (kept.differ found named away elsewhere both) _ _
  · have gone : ({ pool.disk with dir := Function.update pool.disk.dir writer.tmpname none } : Disk).Sane :=
      kept.sane.update (le_refl _) _ _ nofun
    refine gone.update (le_refl _) _ _ ?_
    rintro _ ⟨⟩
    exact kept.sane _ _ there
  · rintro _ ⟨⟩
    exact .unnamed _ rfl shut
  · exact kept.tenure.place mine

theorem forgotten (kept : Kept pool) (found : pool.writers this = some writer) (unnamed : writer.tmpname = "") :
    Kept (pool.put this none pool.disk) := by
  have empty : pool.held this = none := (held_eq found).trans (holding_unnamed _ unnamed)
  refine kept.put _ (fun _ _ _ _ _ => rfl) kept.sane kept.bounded nofun ?_ kept.found
  rw [Option.bind_none, ← empty, Function.update_eq_self]
  exact kept.tenure

theorem passed (kept : Kept pool) {other : Nat} {source : AtomicWriter} (differ : other ≠ this)
    (found : pool.writers other = some source)
    (empty : ∀ writer, pool.writers this = some writer → writer.tmpname = "") :
    Kept ((pool.put this (some source) pool.disk).put other (some source.moved) pool.disk) := by
  have free : pool.held this = none := by
    rw [held]
    cases there : pool.writers this with
    | none => rfl
    | some writer => exact holding_unnamed _ (empty writer there)
  have books : ((pool.put this (some source) pool.disk).put other (some source.moved) pool.disk).held =
      Function.update (Function.update pool.held other none) this (pool.held other) := by
    have last : (some source.moved).bind (holding pool.disk) = none := holding_unnamed _ rfl
    have moved : ((pool.put this (some source) pool.disk).put other (some source.moved) pool.disk).held =
        Function.update (pool.put this (some source) pool.disk).held other none :=
      last ▸ held_put (fun _ _ _ _ _ => rfl) _
    rw [moved, held_put (fun _ _ _ _ _ => rfl), Function.update_comm differ, held_eq found]
    rfl
  exact {
    sane := kept.sane
    bounded := kept.bounded
    sound := by
      intro k writer there
      by_cases gone : k = other
      · rw [gone, put_self] at there
        cases there
        exact .unnamed _ rfl rfl
      · rw [put_other gone] at there
        by_cases here : k = this
        · rw [here, put_self] at there
          cases there
          exact kept.sound other source found
        · rw [put_other here] at there
          exact kept.sound k writer there
    tenure := by
      rw [books]
      exact kept.tenure.pass free
    found := kept.found }

theorem constructed (kept : Kept pool) (free : pool.writers this = none) {filename name : String} {mode : Nat}
    {writer : AtomicWriter} {disk : Disk} (named : name ≠ "") (new : pool.disk.dir name = none)
    (made : AtomicWriter.construct filename mode (.ok name) none pool.disk = .ok (writer, disk)) :
    Kept (pool.put this (some writer) disk) := by
  cases made
  have spares := kept.spares_new new (some pool.disk.next)
  have there : (pool.disk.create name { data := [], mode := 0o600 }).dir name = some pool.disk.next :=
    Function.update_self _ _ _
  have empty : pool.held this = none := by
    rw [held, free]
    rfl
  have holds : pool.disk.next ∉ pool.disk.created.map Prod.fst := by
    intro inside
    obtain ⟨item, inside, same⟩ := List.mem_map.mp inside
    exact absurd (kept.bounded item inside) (by omega)
  refine kept.put _ (fun k other _ there named => spares k other there named)
    (kept.sane.update (Nat.le_succ _) _ _ ?_) ?_ ?_ ?_ kept.found
  · rintro n ⟨⟩
    exact Nat.lt_succ_self _
  · intro item inside
    rcases List.mem_append.mp inside with inside | inside
    · exact Nat.lt_succ_of_lt (kept.bounded item inside)
    · rw [List.mem_singleton.mp inside]
      exact Nat.lt_succ_self _
  · rintro _ ⟨⟩
    exact ⟨fun _ => named, fun _ => ⟨_, there, .inr rfl⟩⟩
  · have mine : holding { pool.disk.create name { data := [], mode := 0o600 } with
          created := pool.disk.created ++ [(pool.disk.next, filename)] }
        { filename := filename, mode := mode, tmpname := name, fd := some pool.disk.next } =
        some (pool.disk.next, filename) := holding_named named there
    rw [Option.bind_some, mine]
    exact kept.tenure.take empty holds

theorem same (kept : Kept pool) (found : pool.writers this = some writer) :
    Kept (pool.put this (some writer) pool.disk) :=
  kept.touched found pool.disk.inode writer.fd (.inr rfl)

theorem cleaned (kept : Kept pool) (found : pool.writers this = some writer) (close : Option Nat)
    (ended : (writer.cleanup close pool.disk).1 = false) :
    Kept (pool.put this (some (writer.cleanup close pool.disk).2.1) (writer.cleanup close pool.disk).2.2) := by
  rw [AtomicWriter.cleanup] at ended ⊢
  by_cases named : writer.tmpname ≠ ""
  · rw [if_pos named] at ended ⊢
    cases closes : AtomicWriter.dropFd writer.fd close with
    | true =>
      rw [closes] at ended
      cases ended
    | false => exact kept.removed found named
  · rw [if_neg named]
    exact kept.same found

theorem rethrown (kept : Kept pool) (found : pool.writers this = some writer) (thrown : Thrown)
    (close : Option Nat) (ended : (writer.rethrow thrown close pool.disk).1 ≠ .terminated) :
    Kept (pool.put this (some (writer.rethrow thrown close pool.disk).2.1)
      (writer.rethrow thrown close pool.disk).2.2) := by
  refine kept.cleaned found close ?_
  cases stops : (writer.cleanup close pool.disk).1 with
  | true => exact absurd (by rw [AtomicWriter.rethrow, stops]; rfl) ended
  | false => rfl

theorem shut_goesOn (shut : writer.fd = none) (thrown : Thrown) (close : Option Nat) (disk : Disk) :
    (writer.rethrow thrown close disk).1 ≠ .terminated := by
  have stays : (writer.cleanup close disk).1 = false := by
    rw [AtomicWriter.cleanup, shut, AtomicWriter.dropFd_none]
    by_cases named : writer.tmpname ≠ ""
    · rw [if_pos named]
      rfl
    · rw [if_neg named]
  rw [AtomicWriter.rethrow, stays]
  nofun

/-- From the rename on: it is renamed, or its copy may be made before it is removed. -/
theorem place (kept : Kept pool) (found : pool.writers this = some writer) (named : writer.tmpname ≠ "")
    (shut : writer.fd = none) (allow_copy : Bool) (calls : Syscalls)
    (apart : calls.rename = none → ∀ k other, k ≠ this → pool.writers k = some other → other.tmpname ≠ "" →
      other.tmpname ≠ writer.filename) :
    Kept (pool.put this (some (writer.place allow_copy calls pool.disk).2.1)
      (writer.place allow_copy calls pool.disk).2.2) := by
  obtain ⟨n, there, -⟩ := (kept.sound this writer found).there named
  have file : pool.disk.file writer.tmpname = some (pool.disk.inode n) := by
    rw [Disk.file, there]
    rfl
  have rethrown (thrown : Thrown) := kept.rethrown found thrown calls.close (shut_goesOn shut _ _ _)
  unfold AtomicWriter.place
  cases renames : calls.rename with
  | none =>
    rw [Disk.rename_ok there]
    exact kept.placed found named shut (apart renames) there
  | some code =>
    rw [Disk.rename_failed there]
    by_cases stops : ¬ allow_copy ∨ code ≠ EXDEV
    · simp only [if_pos stops]
      exact rethrown _
    · simp only [if_neg stops]
      cases target : pool.disk.dir writer.filename with
      | some taken =>
        rw [Disk.copy_exists file target]
        exact rethrown _
      | none =>
        rw [Disk.copy_absent file target]
        rcases calls.copy with - | ⟨- | count, code⟩
        · exact kept.created target _ found
        · exact rethrown _
        · have copied := kept.created target { pool.disk.inode n with
            data := (pool.disk.inode n).data.take count } found
          have removed := copied.rethrown (put_self _ _ _ _) (.filesystem_error code) calls.close
            (shut_goesOn shut _ _ _)
          rwa [put_put] at removed

theorem committed (kept : Kept pool) (found : pool.writers this = some writer) (allow_copy : Bool)
    (calls : Syscalls) (ended : (writer.commit allow_copy calls pool.disk).1 ≠ .terminated)
    (apart : Renames calls writer → ∀ k other, k ≠ this → pool.writers k = some other → other.tmpname ≠ "" →
      other.tmpname ≠ writer.filename) :
    Kept (pool.put this (some (writer.commit allow_copy calls pool.disk).2.1)
      (writer.commit allow_copy calls pool.disk).2.2) := by
  cases opened : writer.fd with
  | none =>
    have unopened : writer.commit allow_copy calls pool.disk =
        writer.rethrow .bad_optional_access calls.close pool.disk := by
      unfold AtomicWriter.commit
      rw [opened]
    rw [unopened] at ended ⊢
    exact kept.rethrown found _ _ ended
  | some n =>
    rw [AtomicWriter.commit_open opened] at ended ⊢
    rcases syncs : calls.fsync with - | code
    · rcases modes : calls.fchmod with - | code
      · rcases closes : calls.close with - | code
        · have shut := kept.touched found (Function.update pool.disk.inode n
            { pool.disk.inode n with mode := writer.mode }) none (.inl rfl)
          have named := (kept.sound this writer found).opened (by rw [opened]; nofun)
          have placed := shut.place (put_self _ _ _ _) named rfl allow_copy calls (by
            intro renames k other away elsewhere
            rw [put_other away] at elsewhere
            exact apart ⟨by rw [opened]; nofun, syncs, modes, renames⟩ k other away elsewhere)
          rwa [put_put] at placed
        · rw [syncs, modes, closes] at ended
          exact absurd rfl ended
      · rw [syncs, modes] at ended
        exact kept.rethrown found _ _ ended
    · rw [syncs] at ended
      exact kept.rethrown found _ _ ended

theorem destroyed (kept : Kept pool) (found : pool.writers this = some writer) :
    Kept (pool.put this none (writer.destroy none pool.disk).2) := by
  have closes : AtomicWriter.dropFd writer.fd none = false := by simp [AtomicWriter.dropFd]
  by_cases named : writer.tmpname ≠ ""
  · have gone := (kept.removed found named).forgotten (put_self _ _ _ _) rfl
    rw [put_put] at gone
    rwa [AtomicWriter.destroy, AtomicWriter.cleanup, if_pos named, closes]
  · have gone := kept.forgotten found (not_not.mp named)
    rwa [AtomicWriter.destroy, AtomicWriter.cleanup, if_neg named]

variable {next : Pool} {other : Nat} {filename : String} {mode : Nat} {name : Except Nat String} {flags : Option Nat}
  {data : List UInt8} {allow_copy : Bool} {calls : Syscalls}

private theorem construct_kept (kept : Kept pool) (careful : pool.Careful (.construct this filename mode name flags))
    (stepped : pool.step (.construct this filename mode name flags) = some next) : Kept next := by
  simp only [Pool.step] at stepped
  by_cases able : pool.writers this = none ∧ pool.grants name
  · rw [if_pos able] at stepped
    obtain ⟨free, granted⟩ := able
    cases name with
    | error code =>
      cases stepped
      exact kept
    | ok name =>
      have works : flags = none := careful.resolve_right (by rintro ⟨code, fails⟩; cases fails)
      subst works
      cases stepped
      simp only [grants, ne_eq, decide_eq_true_eq] at granted
      exact kept.constructed free granted.1 granted.2 rfl
  · rw [if_neg able] at stepped
    cases stepped

private theorem write_kept (kept : Kept pool)
    (stepped : pool.step (.write this data) = some next) : Kept next := by
  simp only [Pool.step] at stepped
  cases found : pool.writers this with
  | none =>
    rw [found] at stepped
    cases stepped
  | some writer =>
    rw [found] at stepped
    cases stepped
    unfold AtomicWriter.write
    cases opened : writer.fd with
    | none => exact kept.same found
    | some n => exact kept.touched found _ writer.fd (.inr rfl)

private theorem moveConstruct_kept (kept : Kept pool)
    (stepped : pool.step (.moveConstruct this other) = some next) : Kept next := by
  simp only [Pool.step] at stepped
  cases there : pool.writers this with
  | some writer =>
    rw [there] at stepped
    cases stepped
  | none =>
    cases found : pool.writers other with
    | none =>
      rw [there, found] at stepped
      cases stepped
    | some source =>
      rw [there, found] at stepped
      cases stepped
      have differ : other ≠ this := by
        rintro rfl
        rw [found] at there
        cases there
      exact kept.passed differ found (fun writer taken => by rw [there] at taken; cases taken)

private theorem moveAssign_kept (kept : Kept pool) (careful : pool.Careful (.moveAssign this other))
    (stepped : pool.step (.moveAssign this other) = some next) : Kept next := by
  simp only [Pool.step] at stepped
  cases there : pool.writers this with
  | none =>
    rw [there] at stepped
    cases stepped
  | some writer =>
    cases found : pool.writers other with
    | none =>
      rw [there, found] at stepped
      cases stepped
    | some source =>
      rw [there, found] at stepped
      by_cases itself : this = other
      · simp only [if_pos itself] at stepped
        cases stepped
        exact kept
      · simp only [if_neg itself] at stepped
        cases stepped
        exact kept.passed (Ne.symm itself) found (careful.resolve_left itself)

private theorem commit_kept (kept : Kept pool) (careful : pool.Careful (.commit this allow_copy calls))
    (stepped : pool.step (.commit this allow_copy calls) = some next) : Kept next := by
  cases found : pool.writers this with
  | none =>
    simp only [Pool.step, found] at stepped
    cases stepped
  | some writer =>
    have committed := kept.committed found allow_copy calls
    rcases outcome : writer.commit allow_copy calls pool.disk with ⟨ended, later, disk⟩
    simp only [Pool.step, found, outcome] at stepped
    rw [outcome] at committed
    cases ended with
    | terminated => cases stepped
    | returned =>
      cases stepped
      exact committed nofun (careful writer found)
    | thrown error =>
      cases stepped
      exact committed nofun (careful writer found)

private theorem destroy_kept (kept : Kept pool)
    (stepped : pool.step (.destroy this) = some next) : Kept next := by
  simp only [Pool.step] at stepped
  cases found : pool.writers this with
  | none =>
    rw [found] at stepped
    cases stepped
  | some writer =>
    rw [found] at stepped
    cases stepped
    exact kept.destroyed found

theorem step (kept : Kept pool) (action : Action) (careful : pool.Careful action) {next : Pool}
    (stepped : pool.step action = some next) : Kept next := by
  cases action with
  | construct => exact kept.construct_kept careful stepped
  | write => exact kept.write_kept stepped
  | moveConstruct => exact kept.moveConstruct_kept stepped
  | moveAssign => exact kept.moveAssign_kept careful stepped
  | commit => exact kept.commit_kept careful stepped
  | destroy => exact kept.destroy_kept stepped

end Kept

/-- No writers yet, and no file of theirs. -/
structure Fresh (pool : Pool) : Prop where
  sane : pool.disk.Sane
  writers : ∀ k, pool.writers k = none
  created : pool.disk.created = []
  renamed : pool.disk.renamed = []
  removed : pool.disk.removed = []
  found : pool.disk.missed = 0

theorem Fresh.kept (fresh : Fresh pool) : Kept pool where
  sane := fresh.sane
  bounded := by
    rw [fresh.created]
    nofun
  sound k writer there := by
    rw [fresh.writers k] at there
    cases there
  tenure := by
    have held : pool.held = fun _ => none := by
      funext k
      rw [Pool.held, fresh.writers k]
      rfl
    rw [held, fresh.created, fresh.renamed, fresh.removed]
    exact .start
  found := fresh.found

/-- A step that meets the condition. -/
def CarefulStep (pool next : Pool) : Prop := ∃ action, pool.Careful action ∧ pool.step action = some next

/-- Every temporary file is at its destination, removed, or with exactly one writer;
none is removed twice or once it is placed. -/
structure NoneLost (pool : Pool) : Prop where
  accounted : ∀ item ∈ pool.disk.created, item ∈ pool.disk.renamed ∨ item.1 ∈ pool.disk.removed ∨
    ∃ k, pool.held k = some item ∧ ∀ m x, pool.held m = some (item.1, x) → m = k
  once : (pool.disk.renamed.map Prod.fst ++ pool.disk.removed).Nodup
  found : pool.disk.missed = 0
  gone : (∀ k, pool.writers k = none) →
    ∀ item ∈ pool.disk.created, item ∈ pool.disk.renamed ∨ item.1 ∈ pool.disk.removed

/-- Over whole runs. -/
theorem runs_noneLost (pool : Pool) (reached : Reachable Fresh CarefulStep pool) : NoneLost pool := by
  have kept : Kept pool := reached.invariant (fun _ fresh => fresh.kept)
    fun _ _ kept ⟨action, careful, stepped⟩ => kept.step action careful stepped
  have accounted (item : Nat × String) (made : item ∈ pool.disk.created) := kept.tenure.accounted item made
  refine ⟨fun item made => ?_, kept.tenure.once, kept.found, fun none item made => ?_⟩
  · rcases accounted item made with done | done | ⟨k, holds⟩
    · exact .inl done
    · exact .inr (.inl done)
    · exact .inr (.inr ⟨k, holds, fun m x theirs => kept.tenure.alone m k _ _ _ theirs holds⟩)
  · rcases accounted item made with done | done | ⟨k, holds⟩
    · exact .inl done
    · exact .inr done
    · rw [held, none k] at holds
      cases holds

def start : Pool where
  writers _ := none
  disk := { dir := fun _ => none, inode := fun _ => ⟨[], 0⟩, next := 0, created := [], renamed := [],
            removed := [], missed := 0 }

theorem start_fresh : Fresh start := ⟨nofun, fun _ => rfl, rfl, rfl, rfl, rfl⟩

theorem runs_noneLost_destroyed : ∃ pool, start.step (.construct 0 "out" 0o644 (.ok ".out.a") none) = some pool ∧
    ∃ last, pool.step (.destroy 0) = some last ∧ NoneLost last := by
  obtain ⟨pool, made⟩ : ∃ pool, start.step (.construct 0 "out" 0o644 (.ok ".out.a") none) = some pool := ⟨_, rfl⟩
  obtain ⟨last, gone⟩ : ∃ last, pool.step (.destroy 0) = some last := by
    cases made
    exact ⟨_, rfl⟩
  refine ⟨pool, made, last, gone, ?_⟩
  have first : CarefulStep start pool := ⟨.construct 0 "out" 0o644 (.ok ".out.a") none, .inl rfl, made⟩
  have second : CarefulStep pool last := ⟨.destroy 0, trivial, gone⟩
  exact runs_noneLost _ (.step (.step (.start start_fresh) first) second)

/-- A writer that is assigned to forgets its temporary file. -/
theorem moveAssign_loses :
    ∃ pool, [.construct 0 "a" 0o644 (.ok ".a.x") none, .construct 1 "b" 0o644 (.ok ".b.x") none, .moveAssign 0 1,
        .destroy 0, .destroy 1].foldlM (fun pool action => step action pool) start = some pool ∧
      (∀ k, pool.writers k = none) ∧ (0, "a") ∈ pool.disk.created ∧ pool.disk.renamed = [] ∧
      0 ∉ pool.disk.removed ∧ pool.disk.dir ".a.x" = some 0 := by
  refine ⟨_, rfl, ?_, by decide, by decide, by decide, by decide⟩
  intro k
  by_cases one : k = 1
  · rw [one]
    rfl
  · by_cases zero : k = 0
    · rw [zero]
      rfl
    · simp [put, start, one, zero]

end Pool

end Stdplus.Fd
