import Stdplus.Fd.FormatPool
import Stdplus.Str.Refines

set_option linter.dupNamespace false

namespace Stdplus.Fd

open Stdplus.Base

/-- `StrBuf` on a host of either byte order. -/
def strBuf (order : ByteOrder) : Str.Layout where
  order := order
  charSize := 1
  objSize := 128
  allocSize := 0
  charSize_pos := Nat.one_pos
  charSize_le := Str.Pool.smallest.charSize_le
  buf_len_half := by decide
  little_rsvd _ := by decide
  little_ends _ := by decide
  big_size _ := by decide

variable {E : Type} {order : ByteOrder}

/-- New storage, and what the allocator has ready for each request. -/
structure Supply (order : ByteOrder) where
  raw : Str.Store
  grant : Nat → Option (Str.Grant (strBuf order))

def chars (order : ByteOrder) (text : List UInt8) : List (strBuf order).Char := text.map UInt8.toBitVec

@[simp] theorem chars_length (order : ByteOrder) (text : List UInt8) : (chars order text).length = text.length :=
  List.length_map _

/-- Formatting writes character by character through a `std::back_insert_iterator`;
`strAppend` makes room for all of its strings at once. -/
def FormatAction.adds (supply : Supply order) (this : Nat) : FormatAction → List (Str.Action (strBuf order) Unit)
  | .append text => (chars order text).mapIdx fun index c => .push_back this c (supply.grant index)
  | .appends texts => [.append this (chars order texts.flatten) (supply.grant 0)]
  | _ => []

namespace FormatPool

/-- The lists of characters that the buffers of the objects stand for. -/
def strings (order : ByteOrder) (pool : FormatPool E) : Str.Strings (strBuf order) :=
  fun k => (pool.objs k).map fun object => chars order object.buf

/-- A flush in an action has written what was there. -/
def clears (this : Nat) (action : FormatAction) (pool : FormatPool E) : Bool :=
  match pool.objs this with
  | none => false
  | some object =>
    object.buf ++ action.text ≠ [] ∧ (Formatting.work action (object.deref pool.fds)).2.buf = []

/-- What an operation asks of the `StrBuf`s. -/
def strActions (supply : Supply order) (op : FormatOp) (pool : FormatPool E) :
    List (Str.Action (strBuf order) Unit) :=
  match op with
  | .construct this _ _ => [.construct this () supply.raw]
  | .work this action => action.adds supply this ++
      ((if pool.clears this action then [.clear this] else []) ++
        if action = .destroy then [.destroy this] else [])
  | .moveConstruct this other => [.moveConstruct this other supply.raw]
  | .moveAssign this other => [.moveAssign this other]

end FormatPool

theorem FormatBuffer.flush_left (this : FormatBuffer E) : this.flush.2.buf = [] ∨ this.flush.2.buf = this.buf := by
  rw [flush]
  split
  · split
    · exact .inr rfl
    · exact .inl rfl
  · exact .inr rfl

theorem Formatting.work_left (action : FormatAction) (object : FormatBuffer E) :
    (work action object).2.buf = [] ∨ (work action object).2.buf = object.buf ++ action.text := by
  have added (text : List UInt8) :
      (FormatBuffer.writeIfNeeded { object with buf := object.buf ++ text }).2.buf = [] ∨
        (FormatBuffer.writeIfNeeded { object with buf := object.buf ++ text }).2.buf = object.buf ++ text := by
    rw [FormatBuffer.writeIfNeeded]
    split
    · exact FormatBuffer.flush_left _
    · exact .inr rfl
  have flushed : object.flush.2.buf = [] ∨ object.flush.2.buf = object.buf ++ [] := by
    rw [List.append_nil]
    exact object.flush_left
  cases action with
  | append text => exact added text
  | appends texts => exact added texts.flatten
  | flush => exact flushed
  | destroy => exact flushed

open Str in
theorem push_backs {l : Layout} (grant : Nat → Option (Grant l)) (this : Nat) (more : List l.Char)
    {strings : Strings l}
    {held : List l.Char} (found : strings this = some held) (small : held.length + more.length < 2 ^ 63) :
    (more.mapIdx fun index c => (.push_back this c (grant index) : Str.Action l Unit)).foldlM
        (fun strings action => strings.step action) strings =
      some (Function.update strings this (some (held ++ more))) := by
  induction more generalizing strings held grant with
  | nil =>
    rw [List.append_nil, ← found, Function.update_eq_self]
    rfl
  | cons c more ih =>
    rw [List.length_cons] at small
    have pushed : strings.step (.push_back this c (grant 0) : Str.Action l Unit) =
        some (Function.update strings this (some (held ++ [c]))) := by
      simp only [Strings.step, found, Option.bind_eq_bind, Option.bind_some]
      rw [if_pos (by omega)]
    rw [List.mapIdx_cons, List.foldlM_cons, pushed, Option.bind_eq_bind, Option.bind_some]
    have fits : (held ++ [c]).length + more.length < 2 ^ 63 := by
      rw [List.length_append, List.length_singleton]
      omega
    have rest := ih (fun index => grant (index + 1)) (Function.update_self this (some (held ++ [c])) strings) fits
    rw [Function.update_idem, List.append_assoc] at rest
    exact rest

namespace FormatPool

open Str

variable {pool next : FormatPool E}

private theorem adds_strings (supply : Supply order) (this : Nat) (action : FormatAction)
    {strings : Strings (strBuf order)} {buf : List UInt8} (found : strings this = some (chars order buf))
    (small : (buf ++ action.text).length < 2 ^ 63) :
    (action.adds supply this).foldlM (fun strings action => strings.step action) strings =
      some (Function.update strings this (some (chars order (buf ++ action.text)))) := by
  have joined : chars order (buf ++ action.text) = chars order buf ++ chars order action.text := List.map_append
  have fits : (chars order buf).length + (chars order action.text).length < 2 ^ 63 := by
    rw [chars_length, chars_length, ← List.length_append]
    exact small
  have nothing : action.text = [] → some strings =
      some (Function.update strings this (some (chars order (buf ++ action.text)))) := by
    intro none
    rw [none, List.append_nil, ← found, Function.update_eq_self]
  rw [joined] at nothing ⊢
  cases action with
  | append text => exact push_backs supply.grant this (chars order text) found fits
  | appends texts =>
    have same : (FormatAction.appends texts).text = texts.flatten := rfl
    rw [same] at fits ⊢
    simp only [FormatAction.adds, List.foldlM_cons, List.foldlM_nil, Strings.step, found, Option.bind_eq_bind,
      Option.bind_some]
    rw [if_pos fits]
    rfl
  | flush => exact nothing rfl
  | destroy => exact nothing rfl

private theorem strings_at {this : Nat} {entry : Option FormatObject} (found : pool.objs this = entry) :
    pool.strings order this = entry.map fun object => chars order object.buf := by
  rw [strings, found]

private theorem strings_updated (fds : Nat → Sink E) (objs : Nat → Option FormatObject) (this : Nat)
    (entry : Option FormatObject) :
    (⟨fds, Function.update objs this entry⟩ : FormatPool E).strings order =
      Function.update ((⟨fds, objs⟩ : FormatPool E).strings order) this
        (entry.map fun object => chars order object.buf) := by
  funext other
  by_cases same : other = this
  · rw [same, Function.update_self]
    exact congrArg _ (Function.update_self this entry objs)
  · rw [Function.update_of_ne same]
    exact congrArg _ (Function.update_of_ne same entry objs)

private theorem strings_moved (this other : Nat) (source : FormatObject) :
    (pool.move this other source).strings order =
      Function.update (Function.update (pool.strings order) this (some (chars order source.buf))) other (some []) := by
  rw [move, strings_updated, strings_updated]
  rfl

private theorem clears_strings {this : Nat} {object : FormatObject} (there : pool.objs this = some object)
    (action : FormatAction) :
    (if pool.clears this action then [(.clear this : Str.Action (strBuf order) Unit)] else []).foldlM
        (fun strings action => Strings.step action strings)
        (Function.update (pool.strings order) this (some (chars order (object.buf ++ action.text)))) =
      some (Function.update (pool.strings order) this
        (some (chars order (Formatting.work action (object.deref pool.fds)).2.buf))) := by
  simp only [clears, there]
  split
  · rename_i both
    rw [(of_decide_eq_true both).2]
    simp only [List.foldlM_cons, List.foldlM_nil, Strings.step, Function.update_self, Option.bind_eq_bind,
      Option.bind_some, Function.update_idem]
    rfl
  · rename_i neither
    have same : (Formatting.work action (object.deref pool.fds)).2.buf = object.buf ++ action.text := by
      rcases Formatting.work_left action (object.deref pool.fds) with none | whole
      · by_cases empty : object.buf ++ action.text = []
        · rw [none, empty]
        · exact absurd (decide_eq_true ⟨empty, none⟩) neither
      · exact whole
    rw [same]
    rfl

private theorem work_strings (supply : Supply order) {this : Nat} {action : FormatAction}
    (stepped : pool.step (.work this action) = some next)
    (small : ∀ object, pool.objs this = some object → (object.buf ++ action.text).length < 2 ^ 63) :
    (strActions supply (.work this action) pool).foldlM (fun strings action => strings.step action)
      (pool.strings order) = some (next.strings order) := by
  simp only [step] at stepped
  split at stepped
  · cases stepped
  · rename_i object there
    cases stepped
    have held : pool.strings order this = some (chars order object.buf) := strings_at there
    simp only [strActions]
    rw [List.foldlM_append, adds_strings supply this action held (small object there), Option.bind_eq_bind,
      Option.bind_some, List.foldlM_append, clears_strings there action, Option.bind_eq_bind, Option.bind_some]
    split
    · simp only [List.foldlM_cons, List.foldlM_nil, Strings.step, Function.update_self, Option.bind_eq_bind,
        Option.bind_some, Function.update_idem]
      exact congrArg some (strings_updated _ pool.objs this none).symm
    · exact congrArg some (strings_updated _ pool.objs this (some { object with buf := _ })).symm

/-- The buffers do what the operations of `BasicStrBuf` mean. -/
theorem step_strings (supply : Supply order) {op : FormatOp} (stepped : pool.step op = some next)
    (small : ∀ this action object, op = .work this action → pool.objs this = some object →
      (object.buf ++ action.text).length < 2 ^ 63) :
    (strActions supply op pool).foldlM (fun strings action => strings.step action) (pool.strings order) =
      some (next.strings order) := by
  cases op with
  | construct this fd max =>
    simp only [step] at stepped
    split at stepped
    · rename_i free
      cases stepped
      simp only [strActions, List.foldlM_cons, List.foldlM_nil, Strings.step, strings_at free, Option.map_none,
        Option.bind_eq_bind, Option.bind_some]
      exact congrArg some (strings_updated pool.fds pool.objs this (some { fd := fd, buf := [], max := max })).symm
    · cases stepped
  | work this action => exact work_strings supply stepped fun object => small this action object rfl
  | moveConstruct this other =>
    simp only [step] at stepped
    split at stepped
    · rename_i source free there
      cases stepped
      simp only [strActions, List.foldlM_cons, List.foldlM_nil, Strings.step, strings_at free, strings_at there,
        Option.map_none, Option.map_some, Option.bind_eq_bind, Option.bind_some]
      exact congrArg some (strings_moved this other source).symm
    · cases stepped
  | moveAssign this other =>
    simp only [step] at stepped
    split at stepped
    · rename_i object source here there
      simp only [strActions, List.foldlM_cons, List.foldlM_nil, Strings.step, strings_at here, strings_at there,
        Option.map_some, Option.bind_eq_bind]
      split at stepped
      · rename_i same
        cases stepped
        rw [if_pos same]
        rfl
      · rename_i differ
        cases stepped
        rw [if_neg differ]
        exact congrArg some (strings_moved this other source).symm
    · cases stepped

/-- Objects of `BasicStrBuf` that hold the texts go on holding them, unless the allocator
throws. -/
theorem step_represents (supply : Supply order) (traits : Str.Traits Unit) {op : FormatOp}
    {bufs : Str.Pool (strBuf order) Unit} (represents : Str.Pool.Represents bufs (pool.strings order))
    (stepped : pool.step op = some next)
    (small : ∀ this action object, op = .work this action → pool.objs this = some object →
      (object.buf ++ action.text).length < 2 ^ 63) :
    (∃ later, (strActions supply op pool).foldlM (fun bufs action => Str.Pool.step traits action bufs) bufs =
        .ok later ∧ Str.Pool.Represents later (next.strings order)) ∨
      ∃ left, (strActions supply op pool).foldlM (fun bufs action => Str.Pool.step traits action bufs) bufs =
        .error (.thrown left) := by
  let throws (outcome : Except (Stop (Str.Pool (strBuf order) Unit)) (Str.Pool (strBuf order) Unit)) : Prop :=
    ∃ left, outcome = .error (.thrown left)
  have stays (outcome : Except (Stop (Str.Pool (strBuf order) Unit)) (Str.Pool (strBuf order) Unit))
      (rest : Str.Pool (strBuf order) Unit → Except _ (Str.Pool (strBuf order) Unit))
      (thrown : throws outcome) : throws (outcome >>= rest) := by
    obtain ⟨left, rfl⟩ := thrown
    exact ⟨left, rfl⟩
  exact foldlM_follows throws stays
    (fun bufs _ action _ represents meaning => represents.step traits meaning (Str.Pool.matched bufs action))
    (strActions supply op pool) represents (step_strings supply stepped small)

end FormatPool

end Stdplus.Fd
