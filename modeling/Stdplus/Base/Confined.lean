import Stdplus.Base.OutBuffer

/-! Writers that stay where they belong: they store into the first `size` cells from their
pointer and into no others, and move it by `advance` cells at most. -/

namespace Stdplus.Base

structure Confined (writer : Writer α) (advance size : Nat) : Prop where
  forward : ∀ cell buffer, cell ≤ (writer cell buffer).1
  stop : ∀ cell buffer, (writer cell buffer).1 ≤ cell + advance
  outside : ∀ cell buffer other, other < cell ∨ cell + size ≤ other →
    (writer cell buffer).2.mem other = buffer.mem other
  high : ∀ cell buffer, (writer cell buffer).2.high ≤ max buffer.high (cell + size)

theorem OutBuffer.copyTo_high_le (cell : Nat) (values : List α) (buffer : OutBuffer α) :
    (copyTo cell values buffer).high ≤ max buffer.high (cell + values.length) := by
  induction values generalizing cell buffer with
  | nil => exact Nat.le_max_left _ _
  | cons value rest ih =>
    have later := ih (cell + 1) (buffer.store cell value)
    rw [store_high] at later
    rw [copyTo, List.length_cons]
    omega

namespace Confined

variable {writer other first second : Writer α} {advance size front reach : Nat}

theorem copy (values : List α) : Confined (Writer.copy values) values.length values.length where
  forward _ _ := Nat.le_add_right _ _
  stop _ _ := Nat.le_refl _
  outside cell buffer _ away := OutBuffer.copyTo_outside cell values buffer _ away
  high := fun cell buffer => OutBuffer.copyTo_high_le cell values buffer

theorem put (value : α) : Confined (Writer.put value) 1 1 := copy [value]

theorem skip : Confined (Writer.skip : Writer α) 0 0 := copy []

theorem mono (confined : Confined writer advance size) {further larger : Nat} (stops : advance ≤ further)
    (room : size ≤ larger) : Confined writer further larger where
  forward := confined.forward
  stop cell buffer := Nat.le_trans (confined.stop cell buffer) (Nat.add_le_add_left stops cell)
  outside cell buffer other away := confined.outside cell buffer other (by omega)
  high cell buffer := by
    have high := confined.high cell buffer
    omega

theorem seq (one : Confined first front reach) (two : Confined second advance size) :
    Confined (first.seq second) (front + advance) (max reach (front + size)) where
  forward cell buffer := Nat.le_trans (one.forward cell buffer) (two.forward _ _)
  stop cell buffer := by
    have near := one.stop cell buffer
    have far := two.stop (first cell buffer).1 (first cell buffer).2
    simp only [Writer.seq]
    omega
  outside cell buffer other away := by
    have near := one.stop cell buffer
    have start := one.forward cell buffer
    simp only [Writer.seq]
    rw [two.outside _ _ _ (by omega), one.outside _ _ _ (by omega)]
  high cell buffer := by
    have near := one.stop cell buffer
    have low := one.high cell buffer
    have top := two.high (first cell buffer).1 (first cell buffer).2
    simp only [Writer.seq]
    omega

theorem congr (confined : Confined writer advance size)
    (same : ∀ cell buffer, other cell buffer = writer cell buffer) : Confined other advance size := by
  have equal : other = writer := funext fun cell => funext (same cell)
  rw [equal]
  exact confined

theorem of_emits (confined : Confined writer advance size) {text : List α} (emits : Emits writer text reach) :
    Confined writer text.length size where
  forward := confined.forward
  stop cell buffer := Nat.le_of_eq (emits.stop cell buffer)
  outside := confined.outside
  high := confined.high

theorem backwards (raw : List α) (kept width : Nat) (pad : α) (within : kept ≤ raw.length) :
    Confined (Writer.backwards raw kept width pad) (max kept width) (max raw.length width) where
  forward _ _ := Nat.le_add_right _ _
  stop _ _ := Nat.le_refl _
  outside cell buffer other away := by
    simp only [Writer.backwards, OutBuffer.reverse, OutBuffer.fill]
    rw [if_neg (by omega), OutBuffer.copyTo_outside _ _ _ _ (by simp; omega),
      OutBuffer.copyTo_outside _ _ _ _ (by omega)]
  high cell buffer := by
    have copied := OutBuffer.copyTo_high_le cell raw buffer
    have filled := OutBuffer.copyTo_high_le (cell + kept)
      (List.replicate (cell + max kept width - (cell + kept)) pad) (buffer.copyTo cell raw)
    rw [List.length_replicate] at filled
    simp only [Writer.backwards, OutBuffer.reverse, OutBuffer.fill]
    split <;> omega

end Confined

end Stdplus.Base
