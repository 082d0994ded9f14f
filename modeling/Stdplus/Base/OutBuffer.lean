import Mathlib

/-! Output through a bare pointer. A buffer is addressed from its first cell and
remembers how far it has been stored into, so that writing past the advertised
end is visible. `Emits` says what a writer leaves behind and how far it reached
on the way; it composes along the sequencing of writers. -/

namespace Stdplus.Base

/-- Cells of a buffer, with one past the highest cell stored so far. -/
structure OutBuffer (α : Type) where
  mem : Nat → α
  high : Nat

namespace OutBuffer

/-- A buffer whose cells hold whatever was there before. -/
def fresh (mem : Nat → α) : OutBuffer α := { mem, high := 0 }

def store (buffer : OutBuffer α) (cell : Nat) (value : α) : OutBuffer α :=
  { mem := Function.update buffer.mem cell value, high := max buffer.high (cell + 1) }

/-- Store the values one after the other, starting at `cell`. -/
def copyTo (cell : Nat) : List α → OutBuffer α → OutBuffer α
  | [], buffer => buffer
  | value :: rest, buffer => copyTo (cell + 1) rest (buffer.store cell value)

/-- Fill the cells from `first` up to `last` with one value. -/
def fill (first last : Nat) (value : α) (buffer : OutBuffer α) : OutBuffer α :=
  copyTo first (List.replicate (last - first) value) buffer

/-- Reverse the cells from `first` up to `last` in place. At least two cells are
needed for an exchange to take place. -/
def reverse (first last : Nat) (buffer : OutBuffer α) : OutBuffer α :=
  { mem := fun cell =>
      if first ≤ cell ∧ cell < last then buffer.mem (first + last - 1 - cell) else buffer.mem cell
    high := if first + 1 < last then max buffer.high last else buffer.high }

/-- The cells from `first` up to `last`, in order. -/
def text (buffer : OutBuffer α) (first last : Nat) : List α :=
  (List.range (last - first)).map (fun offset => buffer.mem (first + offset))

theorem store_high (cell : Nat) (value : α) (buffer : OutBuffer α) :
    (buffer.store cell value).high = max buffer.high (cell + 1) := rfl

@[simp] theorem store_self (cell : Nat) (value : α) (buffer : OutBuffer α) :
    (buffer.store cell value).mem cell = value :=
  Function.update_self _ _ _

@[simp] theorem copyTo_nil (cell : Nat) (buffer : OutBuffer α) : copyTo cell [] buffer = buffer := rfl

theorem copyTo_append (cell : Nat) (front rest : List α) (buffer : OutBuffer α) :
    copyTo cell (front ++ rest) buffer =
      copyTo (cell + front.length) rest (copyTo cell front buffer) := by
  induction front generalizing cell buffer with
  | nil => simp
  | cons value front ih =>
    simp only [List.cons_append, copyTo, ih, List.length_cons]
    congr 1
    omega

theorem copyTo_outside (cell : Nat) (values : List α) (buffer : OutBuffer α) (other : Nat)
    (outside : other < cell ∨ cell + values.length ≤ other) :
    (copyTo cell values buffer).mem other = buffer.mem other := by
  induction values generalizing cell buffer with
  | nil => rfl
  | cons value rest ih =>
    simp only [List.length_cons] at outside
    rw [copyTo, ih (cell + 1) _ (by omega)]
    simp only [store]
    exact Function.update_of_ne (by omega) _ _

theorem copyTo_inside (cell : Nat) (values : List α) (buffer : OutBuffer α) (offset : Nat)
    (inside : offset < values.length) :
    (copyTo cell values buffer).mem (cell + offset) = values[offset] := by
  induction values generalizing cell buffer offset with
  | nil => simp at inside
  | cons value rest ih =>
    cases offset with
    | zero =>
      rw [copyTo, copyTo_outside (cell + 1) rest _ _ (by omega)]
      simp [store]
    | succ offset =>
      have shifted := ih (cell + 1) (buffer.store cell value) offset (by simpa using inside)
      simpa [copyTo, Nat.add_assoc, Nat.add_comm 1 offset] using shifted

theorem copyTo_high (cell : Nat) (values : List α) (buffer : OutBuffer α)
    (reached : cell ≤ buffer.high) :
    (copyTo cell values buffer).high = max buffer.high (cell + values.length) := by
  induction values generalizing cell buffer with
  | nil => simp [reached]
  | cons value rest ih =>
    rw [copyTo, ih (cell + 1) _ (Nat.le_max_right _ _)]
    simp only [store, List.length_cons]
    omega

@[simp] theorem text_length (buffer : OutBuffer α) (first last : Nat) :
    (buffer.text first last).length = last - first := by
  simp [text]

theorem text_head? (buffer : OutBuffer α) {first last : Nat} (some_text : first < last) :
    (buffer.text first last).head? = some (buffer.mem first) := by
  obtain ⟨count, size⟩ := Nat.exists_eq_succ_of_ne_zero (show last - first ≠ 0 by omega)
  rw [text, size, List.range_succ_eq_map]
  rfl

theorem text_copyTo_part (cell : Nat) (front part rest : List α) (buffer : OutBuffer α) :
    (copyTo cell (front ++ (part ++ rest)) buffer).text (cell + front.length)
      (cell + front.length + part.length) = part := by
  apply List.ext_getElem (by simp)
  intro offset _ inside
  have stored := copyTo_inside cell (front ++ (part ++ rest)) buffer (front.length + offset)
    (by simp; omega)
  have place : (front ++ (part ++ rest))[front.length + offset]? = part[offset]? := by
    rw [List.getElem?_append_right (by omega), Nat.add_sub_cancel_left,
      List.getElem?_append_left inside]
  rw [List.getElem?_eq_getElem (by simp; omega), List.getElem?_eq_getElem inside,
    Option.some.injEq] at place
  simp only [text, List.getElem_map, List.getElem_range, Nat.add_assoc, stored, place]

theorem text_copyTo (cell : Nat) (values : List α) (buffer : OutBuffer α) :
    (copyTo cell values buffer).text cell (cell + values.length) = values := by
  have whole := text_copyTo_part cell [] values [] buffer
  rwa [List.nil_append, List.append_nil] at whole

/-- Storing into a buffer of one value leaves that value behind what was stored. -/
theorem text_copyTo_fresh (values : List α) (value : α) {size : Nat} (fits : values.length ≤ size) :
    (copyTo 0 values (fresh fun _ => value)).text 0 size =
      values ++ List.replicate (size - values.length) value := by
  apply List.ext_getElem (by simp; omega)
  intro offset _ inside
  simp only [text, List.getElem_map, List.getElem_range]
  by_cases early : offset < values.length
  · rw [copyTo_inside 0 values _ offset early, List.getElem_append_left early]
  · rw [copyTo_outside 0 values _ _ (.inr (by omega)), List.getElem_append_right (by omega),
      List.getElem_replicate]
    rfl

end OutBuffer

/-- A writer takes the pointer it writes at and the buffer, and returns the end
of what it wrote with the buffer it leaves behind. -/
abbrev Writer (α : Type) := Nat → OutBuffer α → Nat × OutBuffer α

namespace Writer

/-- `*(buf++) = value`. -/
def put (value : α) : Writer α := fun cell buffer => (cell + 1, buffer.store cell value)

/-- `buf = std::copy(values.begin(), values.end(), buf)`. -/
def copy (values : List α) : Writer α := fun cell buffer =>
  (cell + values.length, buffer.copyTo cell values)

/-- `buf = first(buf); return second(buf)`. -/
def seq (first second : Writer α) : Writer α := fun cell buffer =>
  let (next, buffer) := first cell buffer
  second next buffer

/-- A writer that stores nothing. -/
def skip : Writer α := fun cell buffer => (cell, buffer)

/-- Store `raw`, keep `kept` of it, fill up to `width` with `pad`, and reverse
what is there. -/
def backwards (raw : List α) (kept width : Nat) (pad : α) : Writer α := fun cell buffer =>
  let last := cell + max kept width
  (last, ((buffer.copyTo cell raw).fill (cell + kept) last pad).reverse cell last)

def via {α β : Type} (forth : α → β) (back : β → α) (writer : Writer α) : Writer β := fun cell buffer =>
  let (last, left) := writer cell { mem := back ∘ buffer.mem, high := buffer.high }
  (last, { mem := forth ∘ left.mem, high := left.high })

/-- What a handle over its own buffer shows: everything up to the returned end. -/
def shown (writer : Writer α) (mem : Nat → α) : List α :=
  let (last, buffer) := writer 0 (OutBuffer.fresh mem)
  buffer.text 0 last

/-- One past the highest cell stored while the writer runs on a handle's buffer. -/
def touched (writer : Writer α) (mem : Nat → α) : Nat :=
  (writer 0 (OutBuffer.fresh mem)).2.high

end Writer

/-- A writer leaves exactly `text` behind its pointer and on the way stores into
the first `reach` cells from there, never below the pointer. -/
structure Emits (writer : Writer α) (text : List α) (reach : Nat) : Prop where
  covers : text.length ≤ reach
  stop : ∀ cell buffer, (writer cell buffer).1 = cell + text.length
  below : ∀ cell buffer other, other < cell → (writer cell buffer).2.mem other = buffer.mem other
  chars : ∀ cell buffer offset (inside : offset < text.length),
    (writer cell buffer).2.mem (cell + offset) = text[offset]
  high : ∀ cell buffer, cell ≤ buffer.high →
    (writer cell buffer).2.high = max buffer.high (cell + reach)

namespace Emits

theorem copy (values : List α) : Emits (Writer.copy values) values values.length where
  covers := Nat.le_refl _
  stop _ _ := rfl
  below cell buffer other lower := OutBuffer.copyTo_outside cell values buffer other (.inl lower)
  chars cell buffer offset inside := OutBuffer.copyTo_inside cell values buffer offset inside
  high cell buffer reached := OutBuffer.copyTo_high cell values buffer reached

theorem put (value : α) : Emits (Writer.put value) [value] 1 := copy [value]

theorem skip : Emits (Writer.skip : Writer α) [] 0 := copy []

/-- Sequencing appends the texts; the reach of the second part counts from where
the first part ended, not from where it reached. -/
theorem seq {first second : Writer α} {front rest : List α} {near far : Nat}
    (one : Emits first front near) (two : Emits second rest far) :
    Emits (first.seq second) (front ++ rest) (max near (front.length + far)) where
  covers := by
    have := two.covers
    simp only [List.length_append]
    omega
  stop cell buffer := by
    simp only [Writer.seq, two.stop, one.stop, List.length_append, Nat.add_assoc]
  below cell buffer other lower := by
    simp only [Writer.seq]
    rw [two.below _ _ _ (by rw [one.stop]; omega), one.below _ _ _ lower]
  chars cell buffer offset inside := by
    simp only [Writer.seq, one.stop]
    by_cases early : offset < front.length
    · rw [two.below _ _ _ (by omega), one.chars cell buffer offset early,
        List.getElem_append_left early]
    · simp only [List.length_append] at inside
      have later := two.chars (cell + front.length) (first cell buffer).2
        (offset - front.length) (by omega)
      rw [show cell + offset = cell + front.length + (offset - front.length) by omega, later,
        List.getElem_append_right (by omega)]
  high cell buffer reached := by
    have near_high := one.high cell buffer reached
    have covered := one.covers
    simp only [Writer.seq, one.stop]
    rw [two.high _ _ (by rw [near_high]; omega), near_high]
    omega

theorem seq_exact {first second : Writer α} {front rest : List α}
    (one : Emits first front front.length) (two : Emits second rest rest.length) :
    Emits (first.seq second) (front ++ rest) (front ++ rest).length := by
  have whole := one.seq two
  rwa [Nat.max_eq_right (by omega), ← List.length_append] at whole

theorem congr {writer other : Writer α} {text : List α} {reach : Nat}
    (emits : Emits writer text reach) (same : ∀ cell buffer, other cell buffer = writer cell buffer) :
    Emits other text reach := by
  have equal : other = writer := funext fun cell => funext (same cell)
  rw [equal]
  exact emits

private theorem padded_cell (raw : List α) (kept width : Nat) (pad : α) (within : kept ≤ raw.length)
    (cell : Nat) (buffer : OutBuffer α) (offset : Nat)
    (inside : offset < (raw.take kept ++ List.replicate (max kept width - kept) pad).length) :
    ((buffer.copyTo cell raw).fill (cell + kept) (cell + max kept width) pad).mem (cell + offset) =
      (raw.take kept ++ List.replicate (max kept width - kept) pad)[offset] := by
  have bound : offset < kept + (max kept width - kept) := by
    simpa [Nat.min_eq_left within] using inside
  simp only [OutBuffer.fill]
  by_cases early : offset < kept
  · rw [OutBuffer.copyTo_outside _ _ _ _ (.inl (by omega)),
      OutBuffer.copyTo_inside cell raw buffer offset (by omega),
      List.getElem_append_left (by simp; omega), List.getElem_take]
  · have padded := OutBuffer.copyTo_inside (cell + kept)
      (List.replicate (cell + max kept width - (cell + kept)) pad)
      (buffer.copyTo cell raw) (offset - kept) (by simp; omega)
    rw [show cell + offset = cell + kept + (offset - kept) by omega, padded,
      List.getElem_append_right (by simp; omega)]
    simp

/-- Writing backwards leaves the kept and padded part reversed, but has stored
all of the raw part on the way. -/
theorem backwards (raw : List α) (kept width : Nat) (pad : α) (within : kept ≤ raw.length) :
    Emits (Writer.backwards raw kept width pad)
      (raw.take kept ++ List.replicate (max kept width - kept) pad).reverse
      (max raw.length width) where
  covers := by
    simp only [List.length_reverse, List.length_append, List.length_take, List.length_replicate]
    omega
  stop cell buffer := by
    simp only [Writer.backwards, List.length_reverse, List.length_append, List.length_take,
      List.length_replicate]
    omega
  below cell buffer other lower := by
    simp only [Writer.backwards, OutBuffer.reverse, OutBuffer.fill]
    rw [if_neg (by omega), OutBuffer.copyTo_outside _ _ _ _ (.inl (by omega)),
      OutBuffer.copyTo_outside _ _ _ _ (.inl lower)]
  chars cell buffer offset inside := by
    simp only [List.length_reverse, List.length_append, List.length_take,
      List.length_replicate] at inside
    have mirrored := padded_cell raw kept width pad within cell buffer
      (kept + (max kept width - kept) - 1 - offset) (by simp; omega)
    simp only [Writer.backwards, OutBuffer.reverse, List.getElem_reverse, List.length_append,
      List.length_take, List.length_replicate, Nat.min_eq_left within]
    rw [if_pos (by omega), ← mirrored]
    congr 1
    omega
  high cell buffer reached := by
    have copied := OutBuffer.copyTo_high cell raw buffer reached
    simp only [Writer.backwards, OutBuffer.reverse, OutBuffer.fill]
    rw [OutBuffer.copyTo_high _ _ _ (by rw [copied]; omega), copied, List.length_replicate]
    split <;> omega

theorem shown {writer : Writer α} {text : List α} {reach : Nat} (emits : Emits writer text reach)
    (mem : Nat → α) : writer.shown mem = text := by
  apply List.ext_getElem
  · simp [Writer.shown, emits.stop]
  · intro offset _ inside
    simpa [Writer.shown, OutBuffer.text] using emits.chars 0 (OutBuffer.fresh mem) offset inside

theorem touched {writer : Writer α} {text : List α} {reach : Nat} (emits : Emits writer text reach)
    (mem : Nat → α) : writer.touched mem = reach := by
  have high := emits.high 0 (OutBuffer.fresh mem) (Nat.zero_le _)
  simpa [Writer.touched, OutBuffer.fresh] using high

theorem last {writer : Writer α} {text : List α} {reach : Nat} (emits : Emits writer text reach)
    (mem : Nat → α) : (writer 0 (OutBuffer.fresh mem)).1 = text.length := by
  simp [emits.stop]

theorem front {writer : Writer α} {text : List α} {reach : Nat} (emits : Emits writer text reach) (mem : Nat → α)
    {size : Nat} (fits : text.length ≤ size) :
    ((writer 0 (OutBuffer.fresh mem)).2.text 0 size).take text.length = text := by
  apply List.ext_getElem
  · simp [fits]
  · intro offset _ inside
    simpa [OutBuffer.text] using emits.chars 0 (OutBuffer.fresh mem) offset inside

theorem via {β : Type} {writer : Writer α} {text : List α} {reach : Nat} (emits : Emits writer text reach)
    {forth : α → β} {back : β → α} (same : ∀ b, forth (back b) = b) :
    Emits (Writer.via forth back writer) (text.map forth) reach where
  covers := by
    rw [List.length_map]
    exact emits.covers
  stop cell buffer := by
    rw [List.length_map]
    exact emits.stop cell _
  below cell buffer other lower := by
    have kept := emits.below cell { mem := back ∘ buffer.mem, high := buffer.high } other lower
    exact (congrArg forth kept).trans (same _)
  chars cell buffer offset inside := by
    rw [List.length_map] at inside
    rw [List.getElem_map]
    exact congrArg forth (emits.chars cell { mem := back ∘ buffer.mem, high := buffer.high } offset inside)
  high cell buffer reached := emits.high cell _ reached

end Emits

end Stdplus.Base
