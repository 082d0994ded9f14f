import Stdplus.Base.Transition
import Stdplus.Fd.AtomicPool
import Stdplus.Fd.Commit

/-! What any number of writers make of their destinations: each name holds the data of
the last commit for it that returned, as if a commit assigned a register. -/

set_option linter.dupNamespace false

namespace Stdplus.Fd

open Stdplus.Base

/-- What has been written through each object, and the commits that returned, in order. -/
structure Shelf where
  given : Nat → List UInt8
  committed : List (String × File)

namespace Shelf

/-- The destinations as registers: a commit that returned assigns one. -/
def shown (first : String → Option File) (shelf : Shelf) : String → Option File :=
  shelf.committed.foldl (fun shown entry => Function.update shown entry.1 (some entry.2)) first

def give (this : Nat) (data : List UInt8) (shelf : Shelf) : Shelf :=
  { shelf with given := Function.update shelf.given this data }

/-- An action, seen from outside: what is given to which object, and whether a commit returns. -/
def after (pool : Pool) (action : Action) (shelf : Shelf) : Shelf :=
  match action with
  | .construct this _ _ _ _ => shelf.give this []
  | .write this data => shelf.give this (shelf.given this ++ data)
  | .moveConstruct this other => shelf.give this (shelf.given other)
  | .moveAssign this other => shelf.give this (shelf.given other)
  | .commit this allow_copy calls =>
    match pool.writers this with
    | none => shelf
    | some writer =>
      if (writer.commit allow_copy calls pool.disk).1 = .returned then
        { shelf with committed := shelf.committed ++ [(writer.filename, ⟨shelf.given this, writer.mode⟩)] }
      else
        shelf
  | .destroy _ => shelf

@[simp] theorem give_self (this : Nat) (data : List UInt8) (shelf : Shelf) :
    (shelf.give this data).given this = data :=
  Function.update_self _ _ _

theorem give_other {k this : Nat} (differ : k ≠ this) (data : List UInt8) (shelf : Shelf) :
    (shelf.give this data).given k = shelf.given k :=
  Function.update_of_ne differ _ _

@[simp] theorem shown_give (first : String → Option File) (this : Nat) (data : List UInt8) (shelf : Shelf) :
    (shelf.give this data).shown first = shelf.shown first :=
  rfl

theorem shown_committed (first : String → Option File) (shelf : Shelf) (filename : String) (file : File) :
    ({ shelf with committed := shelf.committed ++ [(filename, file)] } : Shelf).shown first =
      Function.update (shelf.shown first) filename (some file) := by
  rw [shown, List.foldl_append]
  rfl

end Shelf

namespace Disk

/-- Past the names and the file, the disk has what it had; the names are of the file, or of a new one. -/
structure Changes (names : Set String) (own : Option Nat) (disk disk' : Disk) : Prop where
  next : disk.next ≤ disk'.next
  sane : disk.Sane → disk'.Sane
  dir : ∀ name, name ∉ names → disk'.dir name = disk.dir name
  inode : ∀ n, n < disk.next → own ≠ some n → disk'.inode n = disk.inode n
  linked : ∀ name n, disk'.dir name = some n → disk.dir name = some n ∨ own = some n ∨ disk.next ≤ n

variable {disk disk' disk'' : Disk} {names : Set String} {own : Option Nat} {name : String} {n : Nat}

theorem update_cases {dir : String → Option Nat} {other : String} {entry : Option Nat}
    (there : Function.update dir name entry other = some n) : dir other = some n ∨ other = name ∧ entry = some n := by
  by_cases same : other = name
  · rw [same, Function.update_self] at there
    exact .inr ⟨same, there⟩
  · rw [Function.update_of_ne same] at there
    exact .inl there

namespace Changes

theorem refl (names : Set String) (own : Option Nat) (disk : Disk) : Changes names own disk disk where
  next := Nat.le_refl _
  sane sane := sane
  dir _ _ := rfl
  inode _ _ _ := rfl
  linked _ _ there := .inl there

theorem trans (first : Changes names own disk disk') (second : Changes names own disk' disk'') :
    Changes names own disk disk'' where
  next := first.next.trans second.next
  sane sane := second.sane (first.sane sane)
  dir name other := (second.dir name other).trans (first.dir name other)
  inode n old differ := (second.inode n (old.trans_le first.next) differ).trans (first.inode n old differ)
  linked name n there := by
    rcases second.linked name n there with there | mine | new
    · exact first.linked name n there
    · exact .inr (.inl mine)
    · exact .inr (.inr (first.next.trans new))

theorem mono {more : Set String} (changes : Changes names own disk disk')
    (among : names ⊆ more) : Changes more own disk disk' :=
  { changes with dir := fun name other => changes.dir name fun mine => other (among mine) }

theorem file (changes : Changes names own disk disk') (sane : disk.Sane) (other : name ∉ names)
    (apart : ∀ n, disk.dir name = some n → own ≠ some n) : disk'.file name = disk.file name := by
  rw [Disk.file, Disk.file, changes.dir name other]
  cases there : disk.dir name with
  | none => rfl
  | some n => exact congrArg some (changes.inode n (sane name n there) (apart n there))

theorem touch (names : Set String) (n : Nat) (file : File) (disk : Disk) :
    Changes names (some n) disk { disk with inode := Function.update disk.inode n file } where
  next := Nat.le_refl _
  sane sane := sane
  dir _ _ := rfl
  inode _ _ differ := Function.update_of_ne (fun same => differ (congrArg some same.symm)) _ _
  linked _ _ there := .inl there

theorem link {entry : Option Nat} (named : name ∈ names) (mine : ∀ n, entry = some n → own = some n ∧ n < disk.next)
    (dir : disk'.dir = Function.update disk.dir name entry) (inode : disk'.inode = disk.inode)
    (next : disk'.next = disk.next) : Changes names own disk disk' where
  next := next.ge
  sane sane := by
    rw [Sane, dir, next]
    exact sane.update (Nat.le_refl _) _ _ fun n there => (mine n there).2
  dir other apart := by
    rw [dir]
    exact Function.update_of_ne (ne_of_mem_of_not_mem named apart).symm _ _
  inode _ _ _ := by rw [inode]
  linked other n there := by
    rw [dir] at there
    exact (update_cases there).imp_right fun found => .inl (mine n found.2).1

theorem create (own : Option Nat) (named : name ∈ names) (file : File) (disk : Disk) :
    Changes names own disk (disk.create name file) where
  next := Nat.le_succ _
  sane sane := by
    refine sane.update (Nat.le_succ _) _ _ ?_
    rintro n ⟨⟩
    exact Nat.lt_succ_self _
  dir other apart := Function.update_of_ne (ne_of_mem_of_not_mem named apart).symm _ _
  inode n old _ := Function.update_of_ne (Nat.ne_of_lt old) _ _
  linked other n there := (update_cases there).imp_right fun found => .inr (Option.some.inj found.2).le

theorem remove (own : Option Nat) (named : name ∈ names) (disk : Disk) :
    Changes names own disk (disk.remove name) := by
  cases there : disk.dir name with
  | none =>
    rw [Disk.remove, there]
    exact { refl names own disk with }
  | some k =>
    rw [remove_found there]
    exact link named (fun _ gone => absurd gone.symm (Option.some_ne_none _)) rfl rfl rfl

end Changes

end Disk

namespace AtomicWriter

/-- The name of its temporary file, while it has one. -/
def hidden (this : AtomicWriter) : Set String := {name | name = this.tmpname ∧ name ≠ ""}

/-- What a commit comes to: it fails and the temporary file is gone, it returns and the file is at the
destination, the program ends with nothing renamed, or a copy stops half-way. -/
inductive Commits (this : AtomicWriter) (own : Option Nat) (file : File) (spoils : Prop) (disk : Disk) :
    Ended × AtomicWriter × Disk → Prop where
  | failed {thrown : Thrown} {disk' : Disk} :
      Disk.Changes this.hidden own disk disk' →
      Commits this own file spoils disk (.thrown thrown, { this with fd := none, tmpname := "" }, disk')
  | placed {tmpname : String} {disk' : Disk} :
      own ≠ none → Disk.Changes (insert this.filename this.hidden) own disk disk' →
      disk'.file this.filename = some file →
      (tmpname = "" ∨ tmpname = this.tmpname ∧ disk'.dir tmpname = disk.dir tmpname) →
      Commits this own file spoils disk (.returned, { this with fd := none, tmpname := tmpname }, disk')
  | ended {disk' : Disk} :
      Disk.Changes ∅ own disk disk' → Commits this own file spoils disk (.terminated, this, disk')
  | spoilt {thrown : Thrown} {left : AtomicWriter} {disk' : Disk} :
      spoils → Commits this own file spoils disk (.thrown thrown, left, disk')

variable {disk disk' : Disk} {this : AtomicWriter} {file : File} {own : Option Nat} {n : Nat}
  {spoils : Prop}

theorem Commits.behind {outcome : Ended × AtomicWriter × Disk} (changes : Disk.Changes ∅ own disk disk')
    (same : disk'.dir = disk.dir) (commits : Commits this own file spoils disk' outcome) :
    Commits this own file spoils disk outcome := by
  cases commits with
  | failed later => exact .failed ((changes.mono (Set.empty_subset _)).trans later)
  | placed opened later there left =>
    rw [same] at left
    exact .placed opened ((changes.mono (Set.empty_subset _)).trans later) there left
  | ended later => exact .ended (changes.trans later)
  | spoilt spoils => exact .spoilt spoils

theorem cleanup_ends (opened : this.fd ≠ none → this.tmpname ≠ "") (own : Option Nat) {close : Option Nat}
    (closes : dropFd this.fd close = false) (disk : Disk) :
    ∃ disk', this.cleanup close disk = (false, { this with fd := none, tmpname := "" }, disk') ∧
      Disk.Changes this.hidden own disk disk' := by
  rw [cleanup]
  by_cases named : this.tmpname ≠ ""
  · rw [if_pos named, closes]
    have mine : this.tmpname ∈ this.hidden := ⟨rfl, named⟩
    exact ⟨_, rfl, .remove own mine disk⟩
  · rw [if_neg named]
    have shut : this.fd = none := by_contra fun there => named (opened there)
    have same : { this with fd := none, tmpname := "" } = this := by
      rw [← shut, ← not_ne_iff.mp named]
    exact ⟨disk, by rw [same], .refl _ _ _⟩

theorem rethrow_fails (this : AtomicWriter) (opened : this.fd ≠ none → this.tmpname ≠ "") (own : Option Nat)
    {close : Option Nat} (closes : dropFd this.fd close = false) (thrown : Thrown) (disk : Disk) :
    ∃ disk', this.rethrow thrown close disk = (.thrown thrown, { this with fd := none, tmpname := "" }, disk') ∧
      Disk.Changes this.hidden own disk disk' := by
  obtain ⟨disk', cleans, changes⟩ := cleanup_ends opened own closes disk
  refine ⟨disk', ?_, changes⟩
  rw [rethrow, cleans]
  rfl

theorem rethrow_commits (opened : this.fd ≠ none → this.tmpname ≠ "") (own : Option Nat) (file : File)
    (spoils : Prop) (thrown : Thrown) (close : Option Nat) (disk : Disk) :
    Commits this own file spoils disk (this.rethrow thrown close disk) := by
  cases closes : dropFd this.fd close with
  | true =>
    have there : this.fd ≠ none := by
      intro shut
      rw [shut, dropFd_none] at closes
      cases closes
    rw [rethrow, cleanup, if_pos (opened there), closes]
    exact .ended (.refl _ _ _)
  | false =>
    obtain ⟨disk', fails, changes⟩ := this.rethrow_fails opened own closes thrown disk
    rw [fails]
    exact .failed changes

theorem place_commits (there : disk.dir this.tmpname = some n) (bounded : n < disk.next) (found : disk.inode n = file)
    (named : this.tmpname ≠ "") (differ : this.filename ≠ this.tmpname) {allow_copy : Bool} {calls : Syscalls}
    (spoilt : Spoils disk this.filename this.tmpname allow_copy calls → spoils) :
    Commits this (some n) file spoils disk ({ this with fd := none }.place allow_copy calls disk) := by
  subst found
  have fails (thrown : Thrown) :
      Commits this (some n) (disk.inode n) spoils disk ({ this with fd := none }.rethrow thrown calls.close disk) := by
    obtain ⟨disk', fails, changes⟩ :=
      rethrow_fails { this with fd := none } (absurd rfl) (some n) (dropFd_none calls.close) thrown disk
    rw [fails]
    exact .failed changes
  have file : disk.file this.tmpname = some (disk.inode n) := by
    rw [Disk.file, there]
    rfl
  unfold place
  cases renames : calls.rename with
  | none =>
    rw [Disk.rename_ok there]
    have gone : Disk.Changes (insert this.filename this.hidden) (some n) disk
        { disk with dir := Function.update disk.dir this.tmpname none } :=
      .link (Set.mem_insert_of_mem _ ⟨rfl, named⟩) (fun _ none => absurd none.symm (Option.some_ne_none _)) rfl rfl rfl
    refine .placed (Option.some_ne_none n)
      (gone.trans (.link (Set.mem_insert _ _) (fun k same => ⟨same, ?_⟩) rfl rfl rfl)) ?_ (.inl rfl)
    · cases same
      exact bounded
    · simp [Disk.file]
  | some code =>
    rw [Disk.rename_failed there]
    by_cases stops : ¬ allow_copy ∨ code ≠ EXDEV
    · simp only [if_pos stops]
      exact fails _
    · simp only [if_neg stops]
      cases taken : disk.dir this.filename with
      | some k =>
        rw [Disk.copy_exists file taken]
        exact fails _
      | none =>
        rw [Disk.copy_absent file taken]
        rcases copies : calls.copy with - | ⟨- | count, code'⟩
        · have kept : (disk.create this.filename (disk.inode n)).dir this.tmpname = disk.dir this.tmpname :=
            Function.update_of_ne differ.symm _ _
          refine .placed (Option.some_ne_none n) (.create _ (Set.mem_insert _ _) _ _) ?_ (.inr ⟨rfl, kept⟩)
          simp [Disk.file, Disk.create]
        · exact fails _
        · rw [not_or, not_not, not_not] at stops
          obtain ⟨disk', fails, -⟩ := rethrow_fails { this with fd := none } (absurd rfl) (some n)
            (dropFd_none calls.close) (.filesystem_error code')
            (disk.create this.filename { disk.inode n with data := (disk.inode n).data.take count })
          change Commits _ _ _ _ _ (rethrow _ _ _ _)
          rw [fails]
          exact .spoilt (spoilt ⟨stops.2 ▸ renames, stops.1, differ, taken, code', count, copies⟩)

theorem commit_commits (opened : this.fd ≠ none → this.tmpname ≠ "")
    (there : ∀ n, this.fd = some n → disk.dir this.tmpname = some n ∧ n < disk.next)
    (differ : this.fd ≠ none → this.filename ≠ this.tmpname) {data : List UInt8}
    (written : ∀ n, this.fd = some n → (disk.inode n).data = data) (allow_copy : Bool) (calls : Syscalls) :
    Commits this this.fd ⟨data, this.mode⟩ (Spoils disk this.filename this.tmpname allow_copy calls) disk
      (this.commit allow_copy calls disk) := by
  cases open_ : this.fd with
  | none =>
    rw [commit, open_]
    exact rethrow_commits opened none _ _ _ _ _
  | some n =>
    obtain ⟨there, bounded⟩ := there n open_
    rw [commit_open open_]
    cases calls.fsync with
    | some code => exact rethrow_commits opened _ _ _ _ _ _
    | none =>
      cases calls.fchmod with
      | some code => exact rethrow_commits opened _ _ _ _ _ _
      | none =>
        have changes : Disk.Changes ∅ (some n) disk { disk with
            inode := Function.update disk.inode n { disk.inode n with mode := this.mode } } := .touch _ _ _ _
        cases calls.close with
        | some code => exact .ended changes
        | none =>
          have found : Function.update disk.inode n { disk.inode n with mode := this.mode } n =
              ⟨data, this.mode⟩ :=
            (Function.update_self _ _ _).trans (congrArg (File.mk · this.mode) (written n open_))
          have named : this.fd ≠ none := open_ ▸ Option.some_ne_none n
          refine .behind changes rfl (place_commits ?_ ?_ found (opened named) (differ named) ?_)
          · exact there
          · exact bounded
          · exact id

end AtomicWriter

namespace Pool

/-- A writer whose file has the data that was written and no name but its own, one of the temporary ones. -/
structure Drafted (temporary : Set String) (disk : Disk) (given : List UInt8) (writer : AtomicWriter) : Prop where
  sound : Sound disk writer
  tmpname : writer.tmpname ≠ "" → writer.tmpname ∈ temporary
  filename : writer.fd ≠ none → writer.filename ∉ temporary
  data : ∀ n, writer.fd = some n → (disk.inode n).data = given
  alone : ∀ n name, writer.fd = some n → disk.dir name = some n → name = writer.tmpname

structure Shows (temporary : Set String) (first : String → Option File) (state : Pool × Shelf) : Prop where
  sane : state.1.disk.Sane
  drafted : ∀ k writer, state.1.writers k = some writer →
    Drafted temporary state.1.disk (state.2.given k) writer
  apart : ∀ j k mine theirs, j ≠ k → state.1.writers j = some mine → state.1.writers k = some theirs →
    mine.tmpname ≠ "" → mine.tmpname ≠ theirs.tmpname
  shown : ∀ name, name ∉ temporary → state.1.disk.file name = state.2.shown first name

variable {temporary names : Set String} {first : String → Option File} {pool : Pool} {shelf shelf' : Shelf}
  {disk disk' : Disk} {given : List UInt8} {writer : AtomicWriter} {own : Option Nat} {this : Nat}

namespace Drafted

theorem named (drafted : Drafted temporary disk given writer) {n : Nat} (opened : writer.fd = some n) :
    writer.tmpname ≠ "" :=
  drafted.sound.opened (opened ▸ Option.some_ne_none n)

theorem there (drafted : Drafted temporary disk given writer) {n : Nat} (opened : writer.fd = some n) :
    disk.dir writer.tmpname = some n := by
  obtain ⟨k, there, shut | same⟩ := drafted.sound.there (drafted.named opened)
  · rw [shut] at opened
    cases opened
  · rw [there, ← same, opened]

theorem shut (sound : Sound disk writer) (tmpname : writer.tmpname ≠ "" → writer.tmpname ∈ temporary)
    (shut : writer.fd = none) (given : List UInt8) : Drafted temporary disk given writer where
  sound := sound
  tmpname := tmpname
  filename opened := absurd shut opened
  data n opened := absurd (shut.symm.trans opened) (Option.some_ne_none n).symm
  alone n _ opened := absurd (shut.symm.trans opened) (Option.some_ne_none n).symm

theorem changed (drafted : Drafted temporary disk given writer) (sane : disk.Sane)
    (changes : disk.Changes names own disk') (other : writer.tmpname ≠ "" → writer.tmpname ∉ names)
    (differ : ∀ n, writer.fd = some n → own ≠ some n) : Drafted temporary disk' given writer where
  sound := drafted.sound.congr fun named => changes.dir _ (other named)
  tmpname := drafted.tmpname
  filename := drafted.filename
  data n opened := by
    rw [changes.inode n (sane _ n (drafted.there opened)) (differ n opened)]
    exact drafted.data n opened
  alone n name opened found := by
    rcases changes.linked name n found with found | mine | new
    · exact drafted.alone n name opened found
    · exact absurd mine (differ n opened)
    · exact absurd (sane _ n (drafted.there opened)) (Nat.not_lt.mpr new)

end Drafted

namespace Shows

/-- An operation on one object, of which no other writer has the names or the file. -/
theorem put (shows : Shows temporary first (pool, shelf)) (changes : pool.disk.Changes names own disk')
    (entry : Option AtomicWriter)
    (drafted : ∀ next, entry = some next → Drafted temporary disk' (shelf'.given this) next)
    (others : ∀ k other, k ≠ this → pool.writers k = some other →
      (other.tmpname ≠ "" → other.tmpname ∉ names ∧ ∀ next, entry = some next → other.tmpname ≠ next.tmpname) ∧
        ∀ n, other.fd = some n → own ≠ some n)
    (given : ∀ k, k ≠ this → shelf'.given k = shelf.given k)
    (shown : ∀ name, name ∉ temporary → disk'.file name = shelf'.shown first name) :
    Shows temporary first (pool.put this entry disk', shelf') where
  sane := changes.sane shows.sane
  drafted k writer found := by
    by_cases here : k = this
    · rw [here, put_self] at found
      rw [here]
      exact drafted writer found
    · rw [put_other here] at found
      obtain ⟨other, differ⟩ := others k writer here found
      rw [given k here]
      exact (shows.drafted k writer found).changed shows.sane changes (fun named => (other named).1) differ
  apart j k mine theirs differ found elsewhere named := by
    by_cases here : j = this
    · have away : k ≠ this := fun same => differ (here.trans same.symm)
      rw [here, put_self] at found
      rw [put_other away] at elsewhere
      intro same
      exact ((others k theirs away elsewhere).1 (same ▸ named)).2 mine found same.symm
    · rw [put_other here] at found
      by_cases there : k = this
      · rw [there, put_self] at elsewhere
        exact ((others j mine here found).1 named).2 theirs elsewhere
      · rw [put_other there] at elsewhere
        exact shows.apart j k mine theirs differ found elsewhere named
  shown := shown

theorem others (shows : Shows temporary first (pool, shelf)) (found : pool.writers this = some writer) {k : Nat}
    {other : AtomicWriter} (away : k ≠ this) (elsewhere : pool.writers k = some other) :
    (other.tmpname ≠ "" → other.tmpname ≠ writer.tmpname) ∧ ∀ n, other.fd = some n → writer.fd ≠ some n := by
  have apart := shows.apart k this other writer away elsewhere found
  refine ⟨apart, fun n opened same => ?_⟩
  have theirs := shows.drafted k other elsewhere
  exact apart (theirs.named opened)
    ((shows.drafted this writer found).alone n _ same (theirs.there opened))

theorem spared (shows : Shows temporary first (pool, shelf)) (found : pool.writers this = some writer)
    (changes : pool.disk.Changes names writer.fd disk') {name : String} (outer : name ∉ temporary)
    (other : name ∉ names) : disk'.file name = shelf.shown first name := by
  rw [← shows.shown name outer]
  refine changes.file shows.sane other fun n there opened => outer ?_
  have drafted := shows.drafted this writer found
  rw [drafted.alone n name opened there]
  exact drafted.tmpname (drafted.named opened)

theorem worked (shows : Shows temporary first (pool, shelf)) (found : pool.writers this = some writer)
    (changes : pool.disk.Changes names writer.fd disk')
    (mine : ∀ name ∈ names, name = writer.tmpname ∨ name ∉ temporary) (entry : Option AtomicWriter)
    (drafted : ∀ next, entry = some next → Drafted temporary disk' (shelf'.given this) next)
    (kept : ∀ next, entry = some next → next.tmpname = "" ∨ next.tmpname = writer.tmpname)
    (given : ∀ k, k ≠ this → shelf'.given k = shelf.given k)
    (shown : ∀ name, name ∉ temporary → disk'.file name = shelf'.shown first name) :
    Shows temporary first (pool.put this entry disk', shelf') := by
  refine shows.put changes entry drafted (fun k other away elsewhere => ?_) given shown
  obtain ⟨apart, differ⟩ := shows.others found away elsewhere
  refine ⟨fun named => ⟨fun among => ?_, fun next there same => ?_⟩, differ⟩
  · rcases mine _ among with same | outer
    · exact apart named same
    · exact outer ((shows.drafted k other elsewhere).tmpname named)
  · rcases kept next there with unnamed | left
    · exact named (same.trans unnamed)
    · exact apart named (same.trans left)

theorem constructed (shows : Shows temporary first (pool, shelf)) {filename : String} (mode : Nat)
    {name : Except Nat String} (flags : Option Nat) (free : pool.writers this = none)
    (granted : pool.grants name = true) (outer : filename ∉ temporary)
    (hidden : ∀ tmpname, name = .ok tmpname → tmpname ∈ temporary) :
    Shows temporary first (match AtomicWriter.construct filename mode name flags pool.disk with
      | .error (_, disk) => { pool with disk := disk }
      | .ok (writer, disk) => pool.put this (some writer) disk, shelf.give this []) := by
  have stays (disk : Disk) : { pool with disk := disk } = pool.put this none disk := by
    rw [Pool.put, ← free, Function.update_eq_self]
  have given (k : Nat) (away : k ≠ this) : (shelf.give this []).given k = shelf.given k := Shelf.give_other away _ _
  have gone {holds : AtomicWriter → Prop} (next : AtomicWriter) (made : none = some next) : holds next :=
    absurd made.symm (Option.some_ne_none next)
  have other {opened : Nat → Prop} (n : Nat) (_ : opened n) : none ≠ some n := (Option.some_ne_none n).symm
  cases name with
  | error code =>
    simp only [AtomicWriter.construct, stays]
    exact shows.put (.refl ∅ none _) none gone (fun _ _ _ _ => ⟨fun _ => ⟨id, gone⟩, other⟩) given shows.shown
  | ok name =>
    obtain ⟨named, new⟩ : name ≠ "" ∧ pool.disk.dir name = none := of_decide_eq_true granted
    have changes : pool.disk.Changes {name} none { pool.disk.create name { data := [], mode := 0o600 } with
        created := pool.disk.created ++ [(pool.disk.next, filename)] } :=
      { Disk.Changes.create none (Set.mem_singleton name) _ pool.disk with }
    have differ (k : Nat) (other : AtomicWriter) (elsewhere : pool.writers k = some other)
        (both : other.tmpname ≠ "") : other.tmpname ≠ name := by
      intro same
      obtain ⟨n, there, -⟩ := (shows.drafted k other elsewhere).sound.there both
      rw [same, new] at there
      cases there
    have shown (place : String) (away : place ∉ temporary) := by
      have apart : place ∉ ({name} : Set String) := by
        rintro rfl
        exact away (hidden _ rfl)
      exact (changes.file shows.sane apart other).trans (shows.shown place away)
    cases flags with
    | some code =>
      simp only [AtomicWriter.construct, stays]
      exact shows.put changes none gone (fun k writer _ elsewhere =>
        ⟨fun both => ⟨differ k writer elsewhere both, gone⟩, other⟩) given shown
    | none =>
      have there : (pool.disk.create name { data := [], mode := 0o600 }).dir name = some pool.disk.next :=
        Function.update_self _ _ _
      simp only [AtomicWriter.construct]
      refine shows.put changes _ ?_ (fun k writer _ elsewhere =>
        ⟨fun both => ⟨differ k writer elsewhere both, ?_⟩, other⟩) given shown
      · rintro _ ⟨⟩
        refine ⟨⟨fun _ => named, fun _ => ⟨_, there, .inr rfl⟩⟩, fun _ => hidden name rfl, fun _ => outer, ?_, ?_⟩
        · rintro _ ⟨⟩
          simp [Disk.create]
        · rintro _ place ⟨⟩ found
          rcases Disk.update_cases found with old | ⟨same, -⟩
          · exact absurd (shows.sane place _ old) (Nat.lt_irrefl _)
          · exact same
      · rintro _ ⟨⟩
        exact differ k writer elsewhere both

theorem written (shows : Shows temporary first (pool, shelf)) (found : pool.writers this = some writer)
    (data : List UInt8) :
    Shows temporary first
      (pool.put this (some writer) (writer.write data pool.disk), shelf.give this (shelf.given this ++ data)) := by
  have drafted := shows.drafted this writer found
  have given (k : Nat) (away : k ≠ this) : (shelf.give this (shelf.given this ++ data)).given k = shelf.given k :=
    Shelf.give_other away _ _
  have kept (next : AtomicWriter) (same : some writer = some next) :
      next.tmpname = "" ∨ next.tmpname = writer.tmpname := .inr (Option.some.inj same ▸ rfl)
  have mine (name : String) (among : name ∈ (∅ : Set String)) : name = writer.tmpname ∨ name ∉ temporary :=
    absurd among (Set.notMem_empty name)
  rw [AtomicWriter.write]
  cases opened : writer.fd with
  | none =>
    refine shows.worked found (.refl ∅ _ _) mine _ ?_ kept given shows.shown
    rintro _ ⟨⟩
    exact .shut drafted.sound drafted.tmpname opened _
  | some n =>
    have changes : pool.disk.Changes ∅ writer.fd { pool.disk with
        inode := Function.update pool.disk.inode n
          { pool.disk.inode n with data := (pool.disk.inode n).data ++ data } } := by
      rw [opened]
      exact .touch ∅ n _ pool.disk
    refine shows.worked found changes mine _ ?_ kept given fun name outer => shows.spared found changes outer id
    rintro _ ⟨⟩
    refine { drafted with sound := drafted.sound.congr fun _ => rfl, data := fun k same => ?_ }
    obtain rfl : n = k := Option.some.inj (opened.symm.trans same)
    rw [Shelf.give_self, ← drafted.data n opened]
    simp

/-- What `other` has goes to `this`, with what was written through it. -/
theorem passed (shows : Shows temporary first (pool, shelf)) {other : Nat} {source : AtomicWriter}
    (differ : other ≠ this) (found : pool.writers other = some source) :
    Shows temporary first ((pool.put this (some source) pool.disk).put other (some source.moved) pool.disk,
      shelf.give this (shelf.given other)) := by
  have left : Shows temporary first (pool.put other (some source.moved) pool.disk, shelf) := by
    refine shows.worked found (.refl ∅ _ _) (fun name among => absurd among (Set.notMem_empty name)) _ ?_
      (fun _ same => .inl (Option.some.inj same ▸ rfl)) (fun _ _ => rfl) shows.shown
    rintro _ ⟨⟩
    exact .shut (.unnamed _ rfl rfl) (absurd rfl) rfl _
  have swapped : (pool.put this (some source) pool.disk).put other (some source.moved) pool.disk =
      (pool.put other (some source.moved) pool.disk).put this (some source) pool.disk := by
    rw [Pool.put, Pool.put, Pool.put, Pool.put, Function.update_comm differ]
  rw [swapped]
  refine left.put (.refl ∅ none _) _ ?_ ?_ (fun k away => Shelf.give_other away _ _) shows.shown
  · rintro _ ⟨⟩
    rw [Shelf.give_self]
    exact shows.drafted other source found
  · intro k writer _ elsewhere
    refine ⟨fun named => ⟨id, ?_⟩, fun n _ => (Option.some_ne_none n).symm⟩
    rintro _ ⟨⟩
    by_cases here : k = other
    · rw [here, put_self] at elsewhere
      cases elsewhere
      exact absurd rfl named
    · rw [put_other here] at elsewhere
      exact (shows.others found here elsewhere).1 named

theorem committed (shows : Shows temporary first (pool, shelf)) (found : pool.writers this = some writer)
    (allow_copy : Bool) (calls : Syscalls) :
    writer.Commits writer.fd ⟨shelf.given this, writer.mode⟩
      (AtomicWriter.Spoils pool.disk writer.filename writer.tmpname allow_copy calls) pool.disk
      (writer.commit allow_copy calls pool.disk) := by
  have drafted := shows.drafted this writer found
  refine writer.commit_commits drafted.sound.opened (fun n opened => ?_) ?_ drafted.data allow_copy calls
  · exact ⟨drafted.there opened, shows.sane _ n (drafted.there opened)⟩
  · intro opened same
    exact drafted.filename opened (same ▸ drafted.tmpname (drafted.sound.opened opened))

theorem hidden (shows : Shows temporary first (pool, shelf)) (found : pool.writers this = some writer)
    {name : String} (mine : name ∈ writer.hidden) : name ∈ temporary := by
  obtain ⟨rfl, named⟩ := mine
  exact (shows.drafted this writer found).tmpname named

theorem cleaned (shows : Shows temporary first (pool, shelf)) (found : pool.writers this = some writer)
    (changes : pool.disk.Changes writer.hidden writer.fd disk') {entry : Option AtomicWriter}
    (lost : ∀ next, entry = some next → next.fd = none ∧ next.tmpname = "") :
    Shows temporary first (pool.put this entry disk', shelf) := by
  refine shows.worked found changes (fun name mine => .inl mine.1) entry (fun next same => ?_)
    (fun next same => .inl (lost next same).2) (fun _ _ => rfl)
    fun name outer => shows.spared found changes outer fun mine => outer (shows.hidden found mine)
  obtain ⟨shut, unnamed⟩ := lost next same
  exact .shut (.unnamed _ unnamed shut) (fun named => absurd unnamed named) shut _

theorem placed (shows : Shows temporary first (pool, shelf)) (found : pool.writers this = some writer)
    (opened : writer.fd ≠ none) {file : File} {tmpname : String}
    (changes : pool.disk.Changes (insert writer.filename writer.hidden) writer.fd disk')
    (there : disk'.file writer.filename = some file)
    (left : tmpname = "" ∨ tmpname = writer.tmpname ∧ disk'.dir tmpname = pool.disk.dir tmpname) :
    Shows temporary first (pool.put this (some { writer with fd := none, tmpname := tmpname }) disk',
      { shelf with committed := shelf.committed ++ [(writer.filename, file)] }) := by
  have drafted := shows.drafted this writer found
  refine shows.worked found changes ?_ _ ?_ ?_ (fun _ _ => rfl) fun name outer => ?_
  · rintro name (rfl | mine)
    · exact .inr (drafted.filename opened)
    · exact .inl mine.1
  · rintro _ ⟨⟩
    refine .shut ⟨absurd rfl, fun named => ?_⟩ (fun named => ?_) rfl _
    · rcases left with rfl | ⟨rfl, same⟩
      · exact absurd rfl named
      · obtain ⟨n, there, -⟩ := drafted.sound.there named
        exact ⟨n, same.trans there, .inl rfl⟩
    · rcases left with rfl | ⟨rfl, -⟩
      · exact absurd rfl named
      · exact drafted.tmpname named
  · rintro _ ⟨⟩
    exact left.imp_right And.left
  · rw [Shelf.shown_committed]
    by_cases same : name = writer.filename
    · rw [same, Function.update_self, there]
    · rw [Function.update_of_ne same]
      refine shows.spared found changes outer ?_
      rintro (mine | mine)
      · exact same mine
      · exact outer (shows.hidden found mine)

end Shows

/-- Temporary files have names that no destination has, and no copy stops half-way. -/
def Orderly (temporary : Set String) (pool : Pool) : Action → Prop
  | .construct _ filename _ name _ => filename ∉ temporary ∧ ∀ tmpname, name = .ok tmpname → tmpname ∈ temporary
  | .commit this allow_copy calls => ∀ writer, pool.writers this = some writer →
      ¬ AtomicWriter.Spoils pool.disk writer.filename writer.tmpname allow_copy calls
  | _ => True

def performs (state : Pool × Shelf) (action : Action) : Option (Pool × Shelf) :=
  (state.1.step action).map fun next => (next, state.2.after state.1 action)

theorem Shows.step {next : Pool} (shows : Shows temporary first (pool, shelf)) (action : Action)
    (orderly : pool.Orderly temporary action) (stepped : pool.step action = some next) :
    Shows temporary first (next, shelf.after pool action) := by
  cases action with
  | construct this filename mode name flags =>
    rw [Pool.step] at stepped
    split at stepped
    · rename_i both
      have made := shows.constructed mode flags both.1 both.2 orderly.1 orderly.2
      rw [Shelf.after]
      split at stepped
      · rename_i fails
        rw [fails] at made
        cases stepped
        exact made
      · rename_i works
        rw [works] at made
        cases stepped
        exact made
    · cases stepped
  | write this data =>
    rw [Pool.step] at stepped
    split at stepped
    · cases stepped
    · rename_i writer found
      cases stepped
      exact shows.written found data
  | moveConstruct this other =>
    rw [Pool.step] at stepped
    split at stepped
    · rename_i source free found
      cases stepped
      refine shows.passed ?_ found
      rintro rfl
      rw [free] at found
      cases found
    · cases stepped
  | moveAssign this other =>
    rw [Pool.step] at stepped
    split at stepped
    · rename_i source there found
      split at stepped
      · rename_i same
        cases stepped
        have left : shelf.after pool (.moveAssign this other) = shelf := by
          rw [Shelf.after, ← same, Shelf.give, Function.update_eq_self]
        rwa [left]
      · rename_i differ
        cases stepped
        exact shows.passed (Ne.symm differ) found
    · cases stepped
  | commit this allow_copy calls =>
    rw [Pool.step] at stepped
    rw [Shelf.after]
    cases found : pool.writers this with
    | none =>
      rw [found] at stepped
      cases stepped
    | some writer =>
      rw [found] at stepped
      simp only at stepped ⊢
      have commits := shows.committed found allow_copy calls
      generalize writer.commit allow_copy calls pool.disk = outcome at commits stepped ⊢
      cases commits with
      | failed changes =>
        cases stepped
        refine shows.cleaned found changes ?_
        rintro _ ⟨⟩
        exact ⟨rfl, rfl⟩
      | placed opened changes there left =>
        cases stepped
        exact shows.placed found opened changes there left
      | ended changes => cases stepped
      | spoilt spoils => exact absurd spoils (orderly writer found)
  | destroy this =>
    rw [Pool.step] at stepped
    split at stepped
    · cases stepped
    · rename_i writer found
      cases stepped
      have closes : AtomicWriter.dropFd writer.fd none = false := by simp [AtomicWriter.dropFd]
      obtain ⟨disk', cleans, changes⟩ :=
        AtomicWriter.cleanup_ends (shows.drafted this writer found).sound.opened writer.fd closes pool.disk
      rw [AtomicWriter.destroy, cleans]
      exact shows.cleaned found changes fun next made => absurd made.symm (Option.some_ne_none next)

/-- The destinations are registers, also where the program ends inside a commit. -/
structure Published (temporary : Set String) (first : String → Option File) (state : Pool × Shelf) : Prop where
  file : ∀ name, name ∉ temporary → state.1.disk.file name = state.2.shown first name
  ended : ∀ this writer allow_copy calls, state.1.writers this = some writer →
    (writer.commit allow_copy calls state.1.disk).1 = .terminated →
    ∀ name, name ∉ temporary →
      (writer.commit allow_copy calls state.1.disk).2.2.file name = state.2.shown first name

/-- No writers yet, and what the disk has. -/
structure Blank (first : String → Option File) (state : Pool × Shelf) : Prop where
  sane : state.1.disk.Sane
  writers : ∀ k, state.1.writers k = none
  file : first = state.1.disk.file
  committed : state.2.committed = []

/-- Over whole runs. -/
theorem runs_published (temporary : Set String) (first : String → Option File) (state : Pool × Shelf)
    (reached : Reachable (Blank first)
      (fun state next => ∃ action, state.1.Orderly temporary action ∧ performs state action = some next) state) :
    Published temporary first state := by
  have shows : Shows temporary first state := by
    refine reached.invariant (fun state blank => ?_) fun state next shows ⟨action, orderly, performed⟩ => ?_
    · refine ⟨blank.sane, fun k writer found => ?_, fun j _ mine _ _ found => ?_, fun name _ => ?_⟩
      · rw [blank.writers k] at found
        cases found
      · rw [blank.writers j] at found
        cases found
      · rw [Shelf.shown, blank.committed, blank.file]
        rfl
    · obtain ⟨pool, stepped, rfl⟩ := Option.map_eq_some_iff.mp performed
      exact shows.step action orderly stepped
  refine ⟨shows.shown, fun this writer allow_copy calls found ended name outer => ?_⟩
  have commits := shows.committed found allow_copy calls
  generalize writer.commit allow_copy calls state.1.disk = outcome at commits ended ⊢
  cases commits with
  | failed changes => cases ended
  | placed opened changes there left => cases ended
  | ended changes => exact shows.spared found changes outer id
  | spoilt spoils => cases ended

/-- Two writers of one destination. -/
theorem runs_published_both :
    ∃ state, [.construct 0 "out" 0o644 (.ok ".out.a") none, .construct 1 "out" 0o600 (.ok ".out.b") none,
        .write 0 [1], .write 1 [2], .commit 1 false AtomicWriter.calm, .write 0 [3],
        .commit 0 false AtomicWriter.calm].foldlM performs (start, ⟨fun _ => [], []⟩) = some state ∧
      Published {".out.a", ".out.b"} start.disk.file state ∧ state.1.disk.file "out" = some ⟨[1, 3], 0o644⟩ := by
  have blank : Blank start.disk.file (start, ⟨fun _ => [], []⟩) := ⟨nofun, fun _ => rfl, rfl, rfl⟩
  obtain ⟨state, ran, file⟩ : ∃ state, [.construct 0 "out" 0o644 (.ok ".out.a") none,
      .construct 1 "out" 0o600 (.ok ".out.b") none, .write 0 [1], .write 1 [2], .commit 1 false AtomicWriter.calm,
      .write 0 [3], .commit 0 false AtomicWriter.calm].foldlM performs (start, ⟨fun _ => [], []⟩) = some state ∧
      state.1.disk.file "out" = some ⟨[1, 3], 0o644⟩ := ⟨_, rfl, by decide⟩
  refine ⟨state, ran, runs_published _ _ _ (.foldlM_allowed ?_ (.start blank) ran), file⟩
  simp only [List.forall_mem_cons, List.not_mem_nil, false_imp_iff, implies_true, and_true]
  have apart : "out" ∉ ({".out.a", ".out.b"} : Set String) := by simp
  refine ⟨fun _ => ⟨apart, ?_⟩, fun _ => ⟨apart, ?_⟩, fun _ => trivial, fun _ => trivial, fun _ writer _ spoils => ?_,
    fun _ => trivial, fun _ writer _ spoils => ?_⟩
  · rintro _ ⟨⟩
    exact Set.mem_insert _ _
  · rintro _ ⟨⟩
    exact Set.mem_insert_of_mem _ rfl
  · cases spoils.1
  · cases spoils.1

end Pool

end Stdplus.Fd
