import Stdplus.Base.Slots
import Stdplus.Base.Transition
import Stdplus.Uring.Files

namespace Stdplus.Uring

open Stdplus.Base

/-- A handle, with the file that was registered through it; the program does not keep
that. -/
structure FileHandle where
  slot : Option Nat
  file : Int
deriving DecidableEq

structure FilePool where
  ring : Files
  handles : Nat → Option FileHandle

/-- What a program does with its handles; all calls of the kernel work. -/
inductive FilesAction where
  | reserveFiles (num : Nat)
  | registerFile (this : Nat) (fd : Int)
  | moveConstruct (this other : Nat)
  | moveAssign (this other : Nat)
  | destroy (this : Nat)
deriving DecidableEq

namespace FilePool

def put (this : Nat) (entry : Option FileHandle) (ring : Files) (pool : FilePool) : FilePool where
  ring := ring
  handles := Function.update pool.handles this entry

/-- A step of the program; there is none where a call does not return, or has no object
where it takes one. -/
def step (action : FilesAction) (pool : FilePool) : Option FilePool :=
  match action with
  | .reserveFiles num =>
    match pool.ring.reserveFiles num none with
    | .error _ => none
    | .ok ring => some { pool with ring := ring }
  | .registerFile this fd =>
    match pool.handles this, pool.ring.registerFile fd none with
    | none, .ok (slot, ring) => some (pool.put this (some { slot := some slot, file := fd }) ring)
    | _, _ => none
  | .moveConstruct this other =>
    match pool.handles this, pool.handles other with
    | none, some source =>
      some ((pool.put this (some source) pool.ring).put other (some { source with slot := none }) pool.ring)
    | _, _ => none
  | .moveAssign this other =>
    match pool.handles this, pool.handles other with
    | some handle, some source =>
      if this = other then
        some pool
      else
        match pool.ring.drop handle.slot none with
        | .error _ => none
        | .ok ring => some ((pool.put this (some source) ring).put other (some { source with slot := none }) ring)
    | _, _ => none
  | .destroy this =>
    match pool.handles this with
    | none => none
    | some handle =>
      match pool.ring.drop handle.slot none with
      | .error _ => none
      | .ok ring => some (pool.put this none ring)

/-- The slot of a live handle with its file. -/
def held (pool : FilePool) (k : Nat) : Option (Nat × Int) :=
  (pool.handles k).bind fun handle => handle.slot.map (·, handle.file)

/-- What a step means for the handles: a registration has one slot, and only its
handle changes. -/
def meant (action : FilesAction) (slot : Nat) (held : Nat → Option (Nat × Int)) : Nat → Option (Nat × Int) :=
  match action with
  | .reserveFiles _ => held
  | .registerFile this fd => Function.update held this (some (slot, fd))
  | .moveConstruct this other => Function.update (Function.update held other none) this (held other)
  | .moveAssign this other =>
    if this = other then held else Function.update (Function.update held other none) this (held other)
  | .destroy this => Function.update held this none

/-- What keeps the sizes of the table in an `unsigned`; files are not negative. -/
def Careful (pool : FilePool) : FilesAction → Prop
  | .reserveFiles num => num + pool.ring.filesAllocated < unsignedSize
  | .registerFile _ fd => 0 ≤ fd ∧ (-1 ∉ pool.ring.files → pool.ring.files.length * 2 + 1 < unsignedSize)
  | _ => True

end FilePool

/-- The counter goes with the table, whose size is an `unsigned`. -/
structure Files.Counted (this : Files) : Prop where
  count : this.filesAllocated = taken (-1) this.files
  small : this.files.length < unsignedSize

/-- The kernel has the same table. -/
structure Files.Books (this : Files) : Prop extends Files.Counted this where
  kernel : this.registered.getD [] = this.files

namespace Files

variable {this : Files} {slot : Nat} {fd : Int}

theorem setFile_take (counted : this.Counted) (vacant : this.files[slot]? = some (-1)) (differ : fd ≠ -1) :
    this.setFile slot fd =
      { this with filesAllocated := this.filesAllocated + 1, files := this.files.set slot fd } := by
  have small := counted.small
  have bounded := taken_le (-1) this.files
  have old : this.files.getD slot 0 = -1 := by rw [List.getD_eq_getElem?_getD, vacant]; rfl
  have fits : (this.filesAllocated + 1) % size_tSize = this.filesAllocated + 1 := by
    rw [counted.count]
    unfold unsignedSize at small
    unfold size_tSize
    omega
  rw [setFile, old, if_pos ⟨rfl, Ne.symm differ⟩, fits]

theorem setFile_drop (counted : this.Counted) (there : this.files[slot]? = some fd) (differ : fd ≠ -1) :
    this.setFile slot (-1) =
      { this with filesAllocated := this.filesAllocated - 1, files := this.files.set slot (-1) } := by
  have small := counted.small
  have bounded := taken_le (-1) this.files
  have positive := taken_pos there differ
  have old : this.files.getD slot 0 = fd := by rw [List.getD_eq_getElem?_getD, there]; rfl
  have fits : (this.filesAllocated + (size_tSize - 1)) % size_tSize = this.filesAllocated - 1 := by
    rw [counted.count]
    unfold unsignedSize at small
    unfold size_tSize
    omega
  rw [setFile, old, if_neg (fun both => differ both.1), if_pos ⟨rfl, differ⟩, fits]

theorem Books.registered (books : this.Books) (inside : slot < this.files.length) :
    this.registered = some this.files := by
  have kernel := books.kernel
  cases has : this.registered with
  | none =>
    rw [has] at kernel
    rw [← kernel] at inside
    cases inside
  | some table =>
    rw [has] at kernel
    rw [← kernel]
    rfl

theorem updateFile_take (books : this.Books) (vacant : this.files[slot]? = some (-1)) (differ : fd ≠ -1) :
    this.updateFile slot fd none = .ok {
      files := this.files.set slot fd
      filesAllocated := this.filesAllocated + 1
      registered := some (this.files.set slot fd) } := by
  obtain ⟨inside, -⟩ := List.getElem?_eq_some_iff.mp vacant
  rw [updateFile, setFile_take books.toCounted vacant differ]
  unfold io_uring_register_files_update
  simp [books.registered inside, inside]

theorem updateFile_drop (books : this.Books) (there : this.files[slot]? = some fd) (differ : fd ≠ -1) :
    this.updateFile slot (-1) none = .ok {
      files := this.files.set slot (-1)
      filesAllocated := this.filesAllocated - 1
      registered := some (this.files.set slot (-1)) } := by
  obtain ⟨inside, -⟩ := List.getElem?_eq_some_iff.mp there
  rw [updateFile, setFile_drop books.toCounted there differ]
  unfold io_uring_register_files_update
  simp [books.registered inside, inside]

theorem fresh_books : fresh.Books := ⟨⟨rfl, by decide⟩, rfl⟩

theorem Counted.set_take (counted : this.Counted) (vacant : this.files[slot]? = some (-1)) (differ : fd ≠ -1)
    (registered : Option (List Int)) :
    Counted {
      files := this.files.set slot fd
      filesAllocated := this.filesAllocated + 1
      registered := registered } where
  count := by rw [taken_set_take vacant differ, ← counted.count]
  small := (List.length_set ..).trans_lt counted.small

theorem Counted.set_drop (counted : this.Counted) (there : this.files[slot]? = some fd) (differ : fd ≠ -1)
    (registered : Option (List Int)) :
    Counted {
      files := this.files.set slot (-1)
      filesAllocated := this.filesAllocated - 1
      registered := registered } where
  count := by rw [taken_set_free there differ, ← counted.count]
  small := (List.length_set ..).trans_lt counted.small

/-- The table with more slots, before it is registered. -/
def grown (more : Nat) (this : Files) : Files :=
  { this with files := this.files ++ List.replicate more (-1), registered := none }

theorem Counted.grown (counted : this.Counted) {more : Nat} (small : this.files.length + more < unsignedSize) :
    (this.grown more).Counted where
  count := counted.count.trans (taken_append_free _ _).symm
  small := by rwa [Files.grown, List.length_append, List.length_replicate]

theorem resize_ok {size : Nat} (small : size < unsignedSize) (this : Files) :
    this.io_uring_unregister_files.resize size = .ok (this.grown (size - this.files.length)) := by
  have fits : ¬ max_size < size := by
    unfold unsignedSize at small
    unfold max_size
    omega
  rw [resize, if_neg fits]
  rfl

theorem Counted.register (counted : this.Counted) :
    this.io_uring_register_files none = .ok { this with registered := some this.files } := by
  rw [io_uring_register_files, Nat.mod_eq_of_lt counted.small, List.take_length]

theorem reserveFiles_spec (books : this.Books) {num : Nat} (fits : num + this.filesAllocated < unsignedSize) :
    ∃ more ring, this.reserveFiles num none = .ok ring ∧ ring.Books ∧
      ring.files = this.files ++ List.replicate more (-1) ∧ num ≤ room (-1) ring.files := by
  have size : (num + this.filesAllocated) % size_tSize = num + this.filesAllocated :=
    Nat.mod_eq_of_lt (fits.trans (by decide))
  unfold reserveFiles
  rw [size]
  by_cases grows : this.files.length < max 7 (num + this.filesAllocated)
  · have small : max 7 (num + this.filesAllocated) < unsignedSize := max_lt (by decide) fits
    obtain ⟨more, length⟩ : ∃ more, max 7 (num + this.filesAllocated) - this.files.length = more := ⟨_, rfl⟩
    have counted := books.toCounted.grown (show this.files.length + more < unsignedSize by omega)
    have total := taken_add_room (-1) (this.grown more).files
    have long : (this.grown more).files.length = this.files.length + more := by
      rw [grown, List.length_append, List.length_replicate]
    have count : (this.grown more).filesAllocated = taken (-1) (this.grown more).files := counted.count
    have same : (this.grown more).filesAllocated = this.filesAllocated := rfl
    refine ⟨more, { this.grown more with registered := some (this.grown more).files }, ?_, ?_, rfl, ?_⟩
    · rw [if_pos grows, resize_ok small, length]
      exact counted.register
    · exact ⟨⟨counted.count, counted.small⟩, rfl⟩
    · show num ≤ room (-1) (this.grown more).files
      omega
  · have total := taken_add_room (-1) this.files
    have count := books.count
    refine ⟨0, this, if_neg grows, books, by simp, ?_⟩
    omega

/-- `registerFile` takes a free slot, of more where there was none. -/
theorem registerFile_spec (books : this.Books) (file : 0 ≤ fd)
    (fits : -1 ∉ this.files → this.files.length * 2 + 1 < unsignedSize) :
    ∃ more slot ring, this.registerFile fd none = .ok (slot, ring) ∧ ring.Books ∧
      (this.files ++ List.replicate more (-1))[slot]? = some (-1) ∧
      ring.files = (this.files ++ List.replicate more (-1)).set slot fd ∧
      (-1 ∈ this.files → more = 0) := by
  have differ : fd ≠ -1 := by omega
  have small := books.small
  rcases this.search_cases with ⟨slot, searched, vacant⟩ | ⟨searched, absent, -⟩ | ⟨-, long⟩
  · refine ⟨0, slot, _, ?_, ⟨books.toCounted.set_take vacant differ (some _), rfl⟩, by simpa using vacant, by simp,
      fun _ => rfl⟩
    rw [registerFile, searched]
    show (this.updateFile slot fd none >>= _) = _
    rw [updateFile_take books vacant differ]
    rfl
  · have fits := fits absent
    have size : (this.files.length * 2 + 1) % size_tSize = this.files.length * 2 + 1 :=
      Nat.mod_eq_of_lt (fits.trans (by decide))
    have bounded : max 7 (this.files.length * 2 + 1) < unsignedSize := max_lt (by decide) fits
    obtain ⟨more, length⟩ : ∃ more, max 7 (this.files.length * 2 + 1) - this.files.length = more := ⟨_, rfl⟩
    have counted := books.toCounted.grown (show this.files.length + more < unsignedSize by omega)
    have vacant : (this.grown more).files[this.files.length]? = some (-1) := by
      rw [grown, List.getElem?_append_right (le_refl _), List.getElem?_replicate_of_lt (by omega)]
    have taken := counted.set_take vacant differ (this.grown more).registered
    refine ⟨more, this.files.length, _, ?_, ⟨counted.set_take vacant differ (some _), rfl⟩, vacant, rfl,
      fun inside => absurd inside absent⟩
    rw [registerFile, searched]
    show (this.io_uring_unregister_files.resize _ >>= _) = _
    rw [size, resize_ok bounded, length]
    simp only [bind, Except.bind]
    rw [setFile_take counted vacant differ, taken.register]
  · exact absurd long (Nat.not_le_of_lt small)

theorem drop_spec (books : this.Books) (there : this.files[slot]? = some fd) (differ : fd ≠ -1) :
    ∃ ring, this.drop (some slot) none = .ok ring ∧ ring.Books ∧ ring.files = this.files.set slot (-1) := by
  refine ⟨_, ?_, ⟨books.toCounted.set_drop there differ (some _), rfl⟩, rfl⟩
  simp only [drop, updateFile_drop books there differ]

end Files

namespace FilePool

variable {pool next : FilePool} {this : Nat} {ring : Files}

def registrations : FilesAction → Nat
  | .registerFile _ _ => 1
  | _ => 0

structure Agrees (pool : FilePool) : Prop where
  books : pool.ring.Books
  slots : Slots (-1) pool.ring.files pool.held

/-- What a step does: the handles are as it means them, the table never shrinks, and
only registrations take room. -/
structure Advances (pool : FilePool) (action : FilesAction) (next : FilePool) : Prop where
  agrees : Agrees next
  held : ∃ slot, next.held = meant action slot pool.held
  longer : pool.ring.files.length ≤ next.ring.files.length
  room : room (-1) pool.ring.files ≤ room (-1) next.ring.files + registrations action

theorem put_self (this : Nat) (entry : Option FileHandle) (ring : Files) (pool : FilePool) :
    (pool.put this entry ring).handles this = entry :=
  Function.update_self _ _ _

theorem put_other {k this : Nat} (differ : k ≠ this) (entry : Option FileHandle) (ring : Files)
    (pool : FilePool) : (pool.put this entry ring).handles k = pool.handles k :=
  Function.update_of_ne differ _ _

theorem held_put (entry : Option FileHandle) (ring : Files) (pool : FilePool) :
    (pool.put this entry ring).held =
      Function.update pool.held this (entry.bind fun handle => handle.slot.map (·, handle.file)) := by
  funext k
  by_cases here : k = this
  · rw [here, Function.update_self, held, put_self]
  · rw [Function.update_of_ne here, held, put_other here, held]

/-- A move of `other`, once the ring has what it leaves. -/
theorem held_moved {source : FileHandle} {other : Nat} (differ : other ≠ this)
    (found : pool.handles other = some source) :
    ((pool.put this (some source) ring).put other (some { source with slot := none }) ring).held =
      Function.update (Function.update pool.held other none) this (pool.held other) := by
  have there : pool.held other = source.slot.map (·, source.file) := by
    rw [held, found]
    rfl
  rw [held_put, held_put, Function.update_comm differ, there]
  rfl

theorem held_none (absent : pool.handles this = none) : pool.held this = none := by
  rw [held, absent]
  rfl

theorem drop_slots (agrees : Agrees pool) {handle : FileHandle} (found : pool.handles this = some handle) :
    ∃ ring, pool.ring.drop handle.slot none = .ok ring ∧ ring.Books ∧
      Slots (-1) ring.files (Function.update pool.held this none) ∧
      pool.ring.files.length ≤ ring.files.length ∧ room (-1) pool.ring.files ≤ room (-1) ring.files := by
  have there : pool.held this = handle.slot.map (·, handle.file) := by
    rw [held, found]
    rfl
  cases owns : handle.slot with
  | none =>
    rw [owns] at there
    refine ⟨pool.ring, rfl, agrees.books, ?_, le_refl _, le_refl _⟩
    rw [← show pool.held this = none from there, Function.update_eq_self]
    exact agrees.slots
  | some slot =>
    rw [owns] at there
    obtain ⟨file, differ⟩ := agrees.slots.there this slot handle.file there
    obtain ⟨ring, dropped, books, files⟩ := Files.drop_spec agrees.books file differ
    refine ⟨ring, dropped, books, files ▸ agrees.slots.drop there, ?_, ?_⟩
    · rw [files, List.length_set]
    · rw [files, room_set_free file differ]
      exact Nat.le_succ _

private theorem Agrees.reserveFiles_advances {num : Nat} (agrees : Agrees pool)
    (careful : pool.Careful (.reserveFiles num))
    (stepped : pool.step (.reserveFiles num) = some next) : Advances pool (.reserveFiles num) next := by
  obtain ⟨more, ring, reserved, books, files, -⟩ := Files.reserveFiles_spec agrees.books careful
  simp only [FilePool.step, reserved] at stepped
  cases stepped
  refine ⟨⟨books, files ▸ agrees.slots.extend more⟩, ⟨0, rfl⟩, ?_, ?_⟩
  · rw [files, List.length_append]
    exact Nat.le_add_right _ _
  · rw [files, room_append_free]
    omega

private theorem Agrees.registerFile_advances {fd : Int} (agrees : Agrees pool)
    (careful : pool.Careful (.registerFile this fd))
    (stepped : pool.step (.registerFile this fd) = some next) : Advances pool (.registerFile this fd) next := by
  obtain ⟨more, slot, ring, registered, books, vacant, files, fits⟩ :=
    Files.registerFile_spec agrees.books careful.1 careful.2
  cases free : pool.handles this with
  | some handle =>
    simp only [FilePool.step, free] at stepped
    cases stepped
  | none =>
    simp only [FilePool.step, free, registered] at stepped
    cases stepped
    have differ : fd ≠ -1 := by
      have file := careful.1
      omega
    have slots := (agrees.slots.extend more).take (held_none free) vacant differ
    refine ⟨⟨books, ?_⟩, ⟨slot, held_put _ _ _⟩, ?_, ?_⟩
    · rw [held_put]
      exact files ▸ slots
    · show pool.ring.files.length ≤ ring.files.length
      rw [files, List.length_set, List.length_append]
      exact Nat.le_add_right _ _
    · show Base.room (-1) pool.ring.files ≤ Base.room (-1) ring.files + 1
      rw [files, room_set_take vacant differ, room_append_free]
      exact Nat.le_add_right _ _

private theorem Agrees.moveConstruct_advances (agrees : Agrees pool)
    (stepped : pool.step (.moveConstruct this other) = some next) :
    Advances pool (.moveConstruct this other) next := by
  cases free : pool.handles this with
  | some handle =>
    simp only [FilePool.step, free] at stepped
    cases stepped
  | none =>
    cases found : pool.handles other with
    | none =>
      simp only [FilePool.step, free, found] at stepped
      cases stepped
    | some source =>
      simp only [FilePool.step, free, found] at stepped
      cases stepped
      have differ : other ≠ this := by
        rintro rfl
        rw [found] at free
        cases free
      refine ⟨⟨agrees.books, ?_⟩, ⟨0, held_moved differ found⟩, le_refl _, le_refl _⟩
      rw [held_moved differ found]
      exact agrees.slots.pass differ (held_none free)

private theorem Agrees.moveAssign_advances (agrees : Agrees pool)
    (stepped : pool.step (.moveAssign this other) = some next) : Advances pool (.moveAssign this other) next := by
  cases there : pool.handles this with
  | none =>
    simp only [FilePool.step, there] at stepped
    cases stepped
  | some handle =>
    cases found : pool.handles other with
    | none =>
      simp only [FilePool.step, there, found] at stepped
      cases stepped
    | some source =>
      by_cases itself : this = other
      · simp only [FilePool.step, there, found, if_pos itself] at stepped
        cases stepped
        exact ⟨agrees, ⟨0, (if_pos itself).symm⟩, le_refl _, le_refl _⟩
      · obtain ⟨ring, dropped, books, slots, longer, room⟩ := drop_slots agrees there
        simp only [FilePool.step, there, found, if_neg itself, dropped] at stepped
        cases stepped
        have differ : other ≠ this := Ne.symm itself
        refine ⟨⟨books, ?_⟩, ⟨0, (held_moved differ found).trans (if_neg itself).symm⟩, longer, room⟩
        rw [held_moved differ found]
        have passed := slots.pass differ (Function.update_self _ _ _)
        rw [Function.update_of_ne differ, Function.update_comm differ, Function.update_idem,
          Function.update_comm itself] at passed
        exact passed

private theorem Agrees.destroy_advances (agrees : Agrees pool)
    (stepped : pool.step (.destroy this) = some next) : Advances pool (.destroy this) next := by
  cases there : pool.handles this with
  | none =>
    simp only [FilePool.step, there] at stepped
    cases stepped
  | some handle =>
    obtain ⟨ring, dropped, books, slots, longer, room⟩ := drop_slots agrees there
    simp only [FilePool.step, there, dropped] at stepped
    cases stepped
    refine ⟨⟨books, ?_⟩, ⟨0, held_put _ _ _⟩, longer, room⟩
    rw [held_put]
    exact slots

theorem Agrees.step (agrees : Agrees pool) (action : FilesAction) (careful : pool.Careful action)
    (stepped : pool.step action = some next) : Advances pool action next := by
  cases action with
  | reserveFiles => exact agrees.reserveFiles_advances careful stepped
  | registerFile => exact agrees.registerFile_advances careful stepped
  | moveConstruct => exact agrees.moveConstruct_advances stepped
  | moveAssign => exact agrees.moveAssign_advances stepped
  | destroy => exact agrees.destroy_advances stepped

def start : FilePool where
  ring := .fresh
  handles _ := none

theorem start_agrees : Agrees start := ⟨Files.fresh_books, .start (-1)⟩

/-- A step that meets the condition. -/
def CarefulStep (pool next : FilePool) : Prop := ∃ action, pool.Careful action ∧ pool.step action = some next

/-- Such steps, with how many slots they take. -/
inductive Continues (pool : FilePool) : Nat → FilePool → Prop where
  | here : Continues pool 0 pool
  | step {n : Nat} {middle next : FilePool} {action : FilesAction} : Continues pool n middle →
      middle.Careful action → middle.step action = some next → Continues pool (n + registrations action) next

theorem Continues.room (agrees : Agrees pool) {n : Nat} {later : FilePool} (continues : Continues pool n later) :
    Agrees later ∧ Base.room (-1) pool.ring.files ≤ Base.room (-1) later.ring.files + n := by
  induction continues with
  | here => exact ⟨agrees, le_refl _⟩
  | step _ careful stepped ih =>
    have advances := ih.1.step _ careful stepped
    have room := advances.room
    exact ⟨advances.agrees, by omega⟩

/-- The handles, the table, the counter and the kernel agree; slots never move, the
table never shrinks, and what is reserved is there. -/
structure Consistent (pool : FilePool) : Prop where
  distinct : ∀ i j slot x y, pool.held i = some (slot, x) → pool.held j = some (slot, y) → i = j
  files : ∀ i slot fd, pool.held i = some (slot, fd) → pool.ring.files[slot]? = some fd
  free : ∀ slot, slot < pool.ring.files.length → (∀ i fd, pool.held i ≠ some (slot, fd)) →
    pool.ring.files[slot]? = some (-1)
  count : pool.ring.filesAllocated = {k | pool.held k ≠ none}.ncard
  kernel : pool.ring.registered.getD [] = pool.ring.files
  steady : ∀ action next, pool.Careful action → pool.step action = some next →
    (∃ slot, next.held = meant action slot pool.held) ∧ pool.ring.files.length ≤ next.ring.files.length
  reserved : ∀ num, pool.Careful (.reserveFiles num) → ∃ next, pool.step (.reserveFiles num) = some next ∧
    ∀ n later fd, Continues next n later → n < num → 0 ≤ fd →
      ∃ slot ring, later.ring.registerFile fd none = .ok (slot, ring) ∧
        later.ring.files[slot]? = some (-1) ∧ ring.files.length = later.ring.files.length

theorem Agrees.reserved (agrees : Agrees pool) {num : Nat} (careful : pool.Careful (.reserveFiles num)) :
    ∃ next, pool.step (.reserveFiles num) = some next ∧
      ∀ n later fd, Continues next n later → n < num → 0 ≤ fd →
        ∃ slot ring, later.ring.registerFile fd none = .ok (slot, ring) ∧
          later.ring.files[slot]? = some (-1) ∧ ring.files.length = later.ring.files.length := by
  obtain ⟨more, ring, reserved, books, files, wide⟩ := Files.reserveFiles_spec agrees.books careful
  have stepped : pool.step (.reserveFiles num) = some { pool with ring := ring } := by
    simp only [FilePool.step, reserved]
  refine ⟨_, stepped, fun n later fd continues fewer file => ?_⟩
  obtain ⟨agrees, room⟩ := continues.room (agrees.step _ careful stepped).agrees
  have spare : 0 < Base.room (-1) later.ring.files := by
    have there : num ≤ Base.room (-1) ring.files := wide
    have kept : Base.room (-1) ring.files ≤ Base.room (-1) later.ring.files + n := room
    omega
  obtain ⟨entry, inside, free⟩ := List.countP_pos_iff.mp spare
  have inside : -1 ∈ later.ring.files := of_decide_eq_true free ▸ inside
  obtain ⟨more, slot, ring, registered, -, vacant, files, fits⟩ :=
    Files.registerFile_spec agrees.books file (fun absent => absurd inside absent)
  rw [fits inside, List.replicate_zero, List.append_nil] at vacant files
  exact ⟨slot, ring, registered, vacant, by rw [files, List.length_set]⟩

/-- Over whole runs. -/
theorem runs_consistent (pool : FilePool) (reached : Reachable (· = start) CarefulStep pool) :
    Consistent pool := by
  have agrees : Agrees pool := reached.invariant (fun _ started => started ▸ start_agrees)
    fun _ _ agrees ⟨action, careful, stepped⟩ => (agrees.step action careful stepped).agrees
  obtain ⟨live, members, card⟩ := agrees.slots.counted
  have handles : {k | pool.held k ≠ none} = ↑live := Set.ext fun k => (members k).symm
  exact {
    distinct := agrees.slots.alone
    files := fun i slot fd holds => (agrees.slots.there i slot fd holds).1
    free := agrees.slots.vacant
    count := by rw [handles, Set.ncard_coe_finset, card, agrees.books.count]
    kernel := agrees.books.kernel
    steady := fun action next careful stepped =>
      have advances := agrees.step action careful stepped
      ⟨advances.held, advances.longer⟩
    reserved := fun num careful => agrees.reserved careful }

theorem runs_consistent_registered : ∃ pool, start.step (.registerFile 0 3) = some pool ∧ Consistent pool := by
  obtain ⟨pool, stepped⟩ : ∃ pool, start.step (.registerFile 0 3) = some pool := ⟨_, rfl⟩
  have first : CarefulStep start pool := ⟨.registerFile 0 3, ⟨by decide, fun _ => by decide⟩, stepped⟩
  exact ⟨pool, stepped, runs_consistent pool (.step (.start rfl) first)⟩

/-- The sum in `reserveFiles` wraps around, so nothing is reserved. -/
theorem reserveFiles_wraps :
    ∃ pool, [.registerFile 0 2, .reserveFiles (2 ^ 64 - 1)].foldlM (fun pool action => step action pool) start =
        some pool ∧ pool.ring.files.length = 7 ∧
      ∃ later, ((List.range 7).map fun k => .registerFile (k + 1) 2).foldlM (fun pool action => step action pool)
        pool = some later ∧ later.ring.files.length = 15 := by
  refine ⟨_, rfl, by decide, _, rfl, by decide⟩

end FilePool

end Stdplus.Uring
