import Stdplus.Base.OutBuffer
import Stdplus.Str.Failed

/-! Text written behind what a buffer holds: `ToStrAdap` makes room for all that may be
written and gives the rest back, and `strAppend` makes room for all of its strings at once.
`ToStrHandle` writes into an array of its own. -/

namespace Stdplus.Str

open Stdplus.Base Store

/-- What is known of a `ToStr` for a value: its writer stays in the size it asks for. -/
structure ToStr (α : Type) where
  buf_size : Nat
  writer : Writer α
  text : List α
  room : ∃ reach, Emits writer text reach ∧ reach ≤ buf_size

theorem ToStr.fits {α : Type} (v : ToStr α) : v.text.length ≤ v.buf_size := by
  obtain ⟨reach, emits, room⟩ := v.room
  exact emits.covers.trans room

def ToStr.via {α β : Type} (forth : α → β) (back : β → α) (same : ∀ b, forth (back b) = b) (v : ToStr α) :
    ToStr β where
  buf_size := v.buf_size
  writer := v.writer.via forth back
  text := v.text.map forth
  room := by
    obtain ⟨reach, emits, room⟩ := v.room
    exact ⟨reach, emits.via same, room⟩

/-- `ToStrHandle` of a `ToStr` that writes through a pointer: the characters from the first one
of its array on, of which `buf_size` are the array. -/
structure ToStrHandle (α : Type) where
  buf : Nat → α

/-- `operator()`, with the characters of the view; undefined where the array does not do. -/
def ToStrHandle.call {α : Type} (buf_size : Nat) (writer : Writer α) (handle : ToStrHandle α) :
    Option (List α × ToStrHandle α) :=
  let (last, buffer) := writer 0 (OutBuffer.fresh handle.buf)
  if buffer.high ≤ buf_size ∧ last ≤ buf_size then some (buffer.text 0 last, { buf := buffer.mem }) else none

theorem ToStrHandle.call_spec {α : Type} {writer : Writer α} {text : List α} {reach buf_size : Nat}
    (emits : Emits writer text reach) (handle : ToStrHandle α) :
    (∃ next, handle.call buf_size writer = some (text, next)) ∧ reach ≤ buf_size ∨
      handle.call buf_size writer = none ∧ buf_size < reach := by
  have covers := emits.covers
  have high : (writer 0 (OutBuffer.fresh handle.buf)).2.high = reach := emits.touched handle.buf
  have last := emits.last handle.buf
  have shown := emits.shown handle.buf
  simp only [Writer.shown] at shown
  by_cases fits : reach ≤ buf_size
  · refine .inl ⟨⟨{ buf := (writer 0 (OutBuffer.fresh handle.buf)).2.mem }, ?_⟩, fits⟩
    simp only [call]
    rw [if_pos ⟨by rw [high]; exact fits, by rw [last]; omega⟩, shown]
  · refine .inr ⟨?_, Nat.lt_of_not_le fits⟩
    simp only [call, high]
    rw [if_neg (fun both => fits both.1)]

variable {l : Layout} {A σ : Type}

def Ptr.advance (count : Nat) : Ptr → Ptr
  | .inl index => .inl (index + count)
  | .block address index => .block address (index + count)

namespace Here

def cells (ptr : Ptr) (here : Here l A) (offset : Nat) : l.Char :=
  match ptr with
  | .inl index => getInlChar l (index + offset) here.store
  | .block address index => ((here.heap address).bind fun block => block.chars[index + offset]?).getD 0

/-- `out = std::copy(str.begin(), str.end(), out)` for one string after the other. -/
def copies : List (List l.Char) → Ptr → Here l A → Except (Stop σ) (Here l A)
  | [], _, here => .ok here
  | str :: strs, out, here => do
    let here ← here.fill out str
    copies strs (out.advance str.length) here

variable [DecidableEq A]

/-- `ToStrAdap::operator()` for a buffer. -/
def toStrAdap (v : ToStr l.Char) (grant : Option (Grant l)) (here : Here l A) :
    Except (Stop (Here l A)) (Here l A) := do
  let (here, ptr) ← here.append v.buf_size grant
  let (last, buffer) := v.writer 0 (OutBuffer.fresh (here.cells ptr))
  if buffer.high ≤ v.buf_size then do
    let here ← here.fill ptr (buffer.text 0 v.buf_size)
    .ok (here.shrink ((v.buf_size + 2 ^ 64 - last) % 2 ^ 64))
  else
    .error .bad

/-- `detail::strAppend` for a buffer. -/
def strAppend (strs : List (List l.Char)) (grant : Option (Grant l)) (here : Here l A) :
    Except (Stop (Here l A)) (Here l A) := do
  let (here, out) ← here.append ((strs.map List.length).sum % 2 ^ 64) grant
  here.copies strs out

end Here

theorem Store.putInlChars_append (index : Nat) (first second : List l.Char) (store : Store) :
    putInlChars l index (first ++ second) store =
      putInlChars l (index + first.length) second (putInlChars l index first store) := by
  induction first generalizing index store with
  | nil => rfl
  | cons char first ih =>
    rw [List.cons_append, putInlChars, ih, List.length_cons, Nat.add_right_comm, Nat.add_assoc]
    rfl

namespace Here

variable {here : Here l A} {chars : List l.Char}

theorem fill_append (ptr : Ptr) (first second : List l.Char) {here next : Here l A}
    (filled : here.fill ptr (first ++ second) = (.ok next : Except (Stop σ) _)) :
    ∃ between, here.fill ptr first = (.ok between : Except (Stop σ) _) ∧
      between.fill (ptr.advance first.length) second = (.ok next : Except (Stop σ) _) := by
  cases ptr with
  | inl index =>
    simp only [fill, writeInl] at filled
    split at filled
    · rename_i fits
      cases filled
      rw [List.length_append] at fits
      refine ⟨{ here with store := putInlChars l index first here.store }, ?_, ?_⟩
      · simp only [fill, writeInl, if_pos (show index + first.length ≤ l.buf_len by omega)]
        rfl
      · simp only [Ptr.advance, fill, writeInl, putInlChars_append,
          if_pos (show index + first.length + second.length ≤ l.buf_len by omega)]
        rfl
    · cases filled
  | block address index =>
    simp only [fill, Heap.write] at filled
    split at filled
    · cases filled
    · rename_i block there
      split at filled
      · rename_i fits
        cases filled
        have both := fits
        rw [List.length_append] at fits
        let middle : Block l A := { block with chars := overwrite block.chars index first }
        refine ⟨{ here with heap := Function.update here.heap address (some middle) }, ?_, ?_⟩
        · simp only [fill, Heap.write, there, if_pos (show index + first.length ≤ block.chars.length by omega)]
          rfl
        · simp only [Ptr.advance, fill, Heap.write, Function.update_self, middle, overwrite_length,
            if_pos (show index + first.length + second.length ≤ block.chars.length by omega),
            overwrite_append _ _ _ _ both, Function.update_idem]
          rfl
      · cases filled

theorem fill_nil (ptr : Ptr) {here next : Here l A}
    (filled : here.fill ptr [] = (.ok next : Except (Stop σ) _)) : next = here := by
  cases ptr with
  | inl index =>
    simp only [fill, writeInl] at filled
    split at filled <;> cases filled
    rfl
  | block address index =>
    simp only [fill, Heap.write] at filled
    split at filled
    · cases filled
    · rename_i block there
      split at filled <;> cases filled
      have same : overwrite block.chars index [] = block.chars := by simp [overwrite]
      rw [same]
      exact congrArg (Here.mk here.toStrBuf)
        ((congrArg _ there.symm).trans (Function.update_eq_self address here.heap))

theorem copies_eq (strs : List (List l.Char)) (ptr : Ptr) {here next : Here l A}
    (filled : here.fill ptr strs.flatten = (.ok next : Except (Stop σ) _)) :
    here.copies strs ptr = (.ok next : Except (Stop σ) _) := by
  induction strs generalizing ptr here with
  | nil => rw [copies, ← fill_nil ptr filled]
  | cons str strs ih =>
    obtain ⟨between, first, second⟩ := fill_append ptr str strs.flatten filled
    rw [copies, first]
    exact ih _ second

variable [DecidableEq A]

/-- The text is appended, or the allocator throws and nothing is changed. -/
def Adds (here : Here l A) (outcome : Except (Stop (Here l A)) (Here l A)) (chars : List l.Char) : Prop :=
  (∃ next, outcome = .ok next ∧ Becomes here next chars) ∨ outcome = .error (.thrown here)

/-- Room for characters is made, or the allocator throws; whatever they are then is stored. -/
theorem append_cases (holds : Holds here.heap here.toStrBuf chars) {amt : Nat} (small : chars.length + amt < 2 ^ 63)
    (grant : Option (Grant l)) :
    (∃ middle ptr, here.append amt grant = .ok (middle, ptr) ∧ ∀ more : List l.Char, more.length = amt →
      ∃ next, middle.fill ptr more = (.ok next : Except (Stop (Here l A)) _) ∧ Becomes here next (chars ++ more)) ∨
      here.append amt grant = .error (.thrown here) := by
  have spec (more : List l.Char) (length : more.length = amt) :
      Gives here (here.append amt grant >>= fun (middle, ptr) => middle.fill ptr more) (chars ++ more) := by
    subst length
    exact appendRange_spec holds small grant
  cases appended : here.append amt grant with
  | error stop =>
    rw [appended] at spec
    rcases spec (List.replicate amt 0) List.length_replicate with ⟨next, impossible, _⟩ | ⟨left, same⟩
    · cases impossible
    · cases same
      exact .inr (by rw [append_thrown appended])
  | ok made =>
    obtain ⟨middle, ptr⟩ := made
    refine .inl ⟨middle, ptr, rfl, fun more length => ?_⟩
    have given := spec more length
    rw [appended] at given
    rcases given with ⟨next, filled, becomes⟩ | ⟨left, thrown⟩
    · exact ⟨next, filled, becomes⟩
    · exact absurd thrown (silent_fill _ _ _ left)

theorem strAppend_spec (holds : Holds here.heap here.toStrBuf chars) {strs : List (List l.Char)}
    (small : chars.length + strs.flatten.length < 2 ^ 63) (grant : Option (Grant l)) :
    Adds here (here.strAppend strs grant) (chars ++ strs.flatten) := by
  have total : (strs.map List.length).sum % 2 ^ 64 = strs.flatten.length := by
    rw [← List.length_flatten, Nat.mod_eq_of_lt (by omega)]
  rw [strAppend, total]
  rcases append_cases holds small grant with ⟨middle, ptr, appended, fills⟩ | thrown
  · obtain ⟨next, filled, becomes⟩ := fills strs.flatten rfl
    refine .inl ⟨next, ?_, becomes⟩
    rw [appended]
    exact copies_eq strs ptr filled
  · rw [thrown]
    exact .inr rfl

theorem toStrAdap_spec (holds : Holds here.heap here.toStrBuf chars) {v : ToStr l.Char}
    (small : chars.length + v.buf_size < 2 ^ 63) (grant : Option (Grant l)) :
    Adds here (here.toStrAdap v grant) (chars ++ v.text) := by
  have fits := v.fits
  obtain ⟨reach, emits, room⟩ := v.room
  rcases append_cases holds small grant with ⟨middle, ptr, appended, fills⟩ | thrown
  · let window := (v.writer 0 (OutBuffer.fresh (middle.cells ptr))).2.text 0 v.buf_size
    obtain ⟨next, filled, becomes⟩ := fills window (OutBuffer.text_length _ _ _)
    have high : (v.writer 0 (OutBuffer.fresh (middle.cells ptr))).2.high ≤ v.buf_size :=
      (emits.touched (middle.cells ptr)).le.trans room
    have last := emits.last (middle.cells ptr)
    have spare : (v.buf_size + 2 ^ 64 - v.text.length) % 2 ^ 64 = v.buf_size - v.text.length := by omega
    have length : (chars ++ window).length = chars.length + v.buf_size := by
      rw [List.length_append]
      exact congrArg _ (OutBuffer.text_length _ _ _)
    have inside : v.buf_size - v.text.length ≤ (chars ++ window).length := by omega
    have left : chars.length + v.buf_size - (v.buf_size - v.text.length) = chars.length + v.text.length := by omega
    have kept : (chars ++ window).take ((chars ++ window).length - (v.buf_size - v.text.length)) =
        chars ++ v.text := by
      rw [length, left, List.take_length_add_append, emits.front _ fits]
    have shrunk := shrink_spec becomes.holds inside
    rw [kept] at shrunk
    refine .inl ⟨next.shrink (v.buf_size - v.text.length), ?_, shrunk.after becomes.allocator becomes.changed⟩
    rw [toStrAdap, appended]
    show (if (v.writer 0 (OutBuffer.fresh (middle.cells ptr))).2.high ≤ v.buf_size then do
        let here ← middle.fill ptr window
        .ok (here.shrink ((v.buf_size + 2 ^ 64 - (v.writer 0 (OutBuffer.fresh (middle.cells ptr))).1) % 2 ^ 64))
      else .error .bad) = _
    rw [if_pos high, filled, last, spare]
    rfl
  · rw [toStrAdap, thrown]
    exact .inr rfl

end Here

/-- What a program does with its buffers, with the texts it writes into them. -/
inductive Writing (l : Layout) (A : Type) where
  | plain (action : Action l A)
  | toStr (this : Nat) (v : ToStr l.Char) (grant : Option (Grant l))
  | strAppend (this : Nat) (strs : List (List l.Char)) (grant : Option (Grant l))
namespace Pool

variable [DecidableEq A]

def write (traits : Traits A) (writing : Writing l A) (pool : Pool l A) : Except (Stop (Pool l A)) (Pool l A) :=
  match writing with
  | .plain action => step traits action pool
  | .toStr this v grant => do
    let here ← pool.get this
    pool.within this (here.toStrAdap v grant)
  | .strAppend this strs grant => do
    let here ← pool.get this
    pool.within this (here.strAppend strs grant)

end Pool

namespace Strings

def write (writing : Writing l A) (strings : Strings l) : Option (Strings l) :=
  match writing with
  | .plain action => strings.step action
  | .toStr this v _ => do
    let chars ← strings this
    if chars.length + v.buf_size < 2 ^ 63 then
      some (Function.update strings this (some (chars ++ v.text)))
    else
      none
  | .strAppend this strs _ => do
    let chars ← strings this
    if chars.length + strs.flatten.length < 2 ^ 63 then
      some (Function.update strings this (some (chars ++ strs.flatten)))
    else
      none

end Strings

namespace Pool

variable {pool : Pool l A} {strings : Strings l}

private theorem Represents.put_becomes (represents : Represents pool strings) {this : Nat} {buf : StrBuf A}
    (object : pool.objs this = some buf) {next : Here l A} {chars : List l.Char}
    (becomes : Becomes { buf with heap := pool.heap } next chars) :
    Represents (pool.put this next) (Function.update strings this (some chars)) := by
  refine represents.change this _ _ _ ?_ ?_ (fun none => by cases none)
  · rw [owner, object]
    exact becomes.changed
  · intro made same
    cases same
    exact ⟨chars, rfl, becomes.holds⟩

private theorem Represents.adds (represents : Represents pool strings) {this : Nat} {buf : StrBuf A}
    (object : pool.objs this = some buf) {outcome : Except (Stop (Here l A)) (Here l A)} {more : List l.Char}
    (adds : Here.Adds { buf with heap := pool.heap } outcome more) :
    (∃ next, pool.within this outcome = .ok next ∧ Represents next (Function.update strings this (some more))) ∨
      pool.within this outcome = .error (.thrown pool) := by
  rcases adds with ⟨next, rfl, added⟩ | rfl
  · exact .inl ⟨_, rfl, represents.put_becomes object added⟩
  · exact .inr (congrArg (fun left => Except.error (Stop.thrown left)) (put_same object))

/-- Whether a program goes on behind the exception of a writing: `push_back` is `noexcept`, and a copy
assignment may have harmed its destination by then. -/
def GoesOn (pool : Pool l A) (writing : Writing l A) : Prop :=
  match writing with
  | .plain action => pool.Unharmed action ∧ ∀ this c grant, action ≠ .push_back this c grant
  | .toStr .. | .strAppend .. => True

variable [DecidableEq A] [Subsingleton A]

/-- How a writing ends: with the text written, or with an exception and what was there. -/
theorem Represents.write (represents : Represents pool strings) (traits : Traits A) {writing : Writing l A}
    {later : Strings l} (means : strings.write writing = some later) :
    (∃ next, pool.write traits writing = .ok next ∧ Represents next later) ∨
      ∃ left, pool.write traits writing = .error (.thrown left) ∧
        (pool.GoesOn writing → Represents left strings) := by
  cases writing with
  | plain action =>
    refine (represents.step traits means (matched _ action)).imp_right ?_
    rintro ⟨left, thrown⟩
    exact ⟨left, thrown, fun goes => unharmed_represents represents thrown goes.1⟩
  | toStr this v grant =>
    obtain ⟨chars, given, meaning⟩ := Option.bind_eq_some_iff.mp means
    obtain ⟨buf, object, holds⟩ := represents.found given
    split at meaning
    · rename_i small
      cases meaning
      simp only [Pool.write, get, object]
      exact (represents.adds object (Here.toStrAdap_spec holds small grant)).imp_right
        fun thrown => ⟨pool, thrown, fun _ => represents⟩
    · cases meaning
  | strAppend this strs grant =>
    obtain ⟨chars, given, meaning⟩ := Option.bind_eq_some_iff.mp means
    obtain ⟨buf, object, holds⟩ := represents.found given
    split at meaning
    · rename_i small
      cases meaning
      simp only [Pool.write, get, object]
      exact (represents.adds object (Here.strAppend_spec holds small grant)).imp_right
        fun thrown => ⟨pool, thrown, fun _ => represents⟩
    · cases meaning

/-- The program goes on, with the lists of characters its buffers should be. -/
def Goes (traits : Traits A) (state next : Pool l A × Strings l) : Prop :=
  ∃ writing later, state.2.write writing = some later ∧
    (state.1.write traits writing = .ok next.1 ∧ next.2 = later ∨
      state.1.write traits writing = .error (.thrown next.1) ∧ state.1.GoesOn writing ∧ next.2 = state.2)

theorem Goes.represents {traits : Traits A} {state next : Pool l A × Strings l} (goes : Goes traits state next)
    (represents : Represents state.1 state.2) : Represents next.1 next.2 := by
  obtain ⟨writing, later, means, outcome⟩ := goes
  rcases represents.write traits means with ⟨done, worked, written⟩ | ⟨left, threw, spared⟩
  · rcases outcome with ⟨works, same⟩ | ⟨throws, _⟩
    · cases worked.symm.trans works
      exact same ▸ written
    · cases worked.symm.trans throws
  · rcases outcome with ⟨works, _⟩ | ⟨throws, goesOn, same⟩
    · cases threw.symm.trans works
    · cases threw.symm.trans throws
      exact same ▸ spared goesOn

theorem runs_represents {traits : Traits A} {state : Pool l A × Strings l}
    (reached : Reachable (· = (empty, fun _ => none)) (Goes traits) state) : Represents state.1 state.2 := by
  refine reached.invariant ?_ fun _ _ represents goes => goes.represents represents
  rintro _ rfl
  exact Represents.empty

/-- A text of two characters that asks for room for four. -/
def roomy : ToStr smallest.Char where
  buf_size := 4
  writer := Writer.copy [104, 105]
  text := [104, 105]
  room := ⟨2, Emits.copy [104, 105], by decide⟩

end Pool

end Stdplus.Str
