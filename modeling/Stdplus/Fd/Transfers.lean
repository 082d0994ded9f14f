import Stdplus.Base.Transition
import Stdplus.Fd.Ops

set_option linter.dupNamespace false

namespace Stdplus.Fd

open Stdplus.Base

variable {E σ : Type}

section

variable {size : Nat} (wants : Nat → Prop)
  (fun_ : (offset : Nat) → σ → Except (Error E) (Fin (size - offset + 1)) × σ)

/-- A call on what is behind the data that were transferred transfers some more. -/
def Transfers (here next : Nat × σ) : Prop :=
  wants here.1 ∧ ∃ r : Fin (size - here.1 + 1), fun_ here.1 here.2 = (.ok r, next.2) ∧ r.val ≠ 0 ∧
    next.1 = here.1 + r.val

abbrev Transferred (s : σ) : Nat × σ → Prop := Reachable (· = (0, s)) (Transfers wants fun_)

end

/-- Calls for as long as bytes are left, the data whole or the rest missing. -/
inductive Exact (name : String) {size : Nat}
    (fun_ : (offset : Nat) → σ → Except (Error E) (Fin (size - offset + 1)) × σ) (s : σ) :
    Except (Error E) Unit × σ → Prop where
  | whole {after : σ} (moved : Transferred (· < size) fun_ s (size, after)) :
      Exact name fun_ s (.ok (), after)
  | blocked {total : Nat} {middle after : σ} {r : Fin (size - total + 1)}
      (moved : Transferred (· < size) fun_ s (total, middle)) (more : total < size)
      (stalled : fun_ total middle = (.ok r, after)) (nothing : r.val = 0) :
      Exact name fun_ s (.error (if total = 0 then .wouldBlock (name ++ " missing") else
        .incomplete (name ++ " is " ++ toString total ++ "B/" ++ toString size ++ "B")), after)
  | failed {total : Nat} {middle after : σ} {thrown : Error E}
      (moved : Transferred (· < size) fun_ s (total, middle)) (more : total < size)
      (threw : fun_ total middle = (.error thrown, after)) :
      Exact name fun_ s (.error (if total = 0 then thrown else
        .incomplete (name ++ " is " ++ toString total ++ "B/" ++ toString size ++ "B")), after)

/-- The first call, and more of them for as long as an element is cut. -/
def Cut (size align total : Nat) : Prop := total = 0 ∨ total % align ≠ 0 ∧ total < size

instance (size align total : Nat) : Decidable (Cut size align total) :=
  inferInstanceAs (Decidable (_ ∨ _))

/-- Whole elements, or the end of the data in the middle of one. -/
inductive Aligned (name : String) {size : Nat}
    (fun_ : (offset : Nat) → σ → Except (Error E) (Fin (size - offset + 1)) × σ) (align : Nat) (s : σ) :
    Except (Error E) Nat × σ → Prop where
  | whole {total : Nat} {after : σ} (moved : Transferred (Cut size align) fun_ s (total, after))
      (someBytes : total ≠ 0) (aligned : total % align = 0) (inside : total ≤ size) :
      Aligned name fun_ align s (.ok total, after)
  | nothing {after : σ} {r : Fin (size - 0 + 1)} (stalled : fun_ 0 s = (.ok r, after)) (empty : r.val = 0) :
      Aligned name fun_ align s (.ok 0, after)
  | failed {after : σ} {thrown : Error E} (threw : fun_ 0 s = (.error thrown, after)) :
      Aligned name fun_ align s (.error thrown, after)
  | cut {total : Nat} {middle after : σ} (moved : Transferred (Cut size align) fun_ s (total, middle))
      (partly : total % align ≠ 0) (inside : total < size)
      (stopped : (∃ r : Fin (size - total + 1), fun_ total middle = (.ok r, after) ∧ r.val = 0) ∨
        ∃ thrown, fun_ total middle = (.error thrown, after)) :
      Aligned name fun_ align s (.error (.incomplete (missing name align total)), after)

abbrev Calls {size : Nat} (fun_ : (offset : Nat) → σ → Except (Error E) (Fin (size - offset + 1)) × σ)
    (offsets : Nat → Prop) (s : σ) : σ → Prop :=
  Reachable (· = s) fun state next => ∃ offset, offsets offset ∧ next = (fun_ offset state).2

section

variable {size : Nat} {wants : Nat → Prop}
  {fun_ : (offset : Nat) → σ → Except (Error E) (Fin (size - offset + 1)) × σ} {s : σ}

theorem Transferred.le {state : Nat × σ} (moved : Transferred wants fun_ s state) : state.1 ≤ size := by
  induction moved with
  | start first =>
    cases first
    exact Nat.zero_le size
  | step _ moves inside =>
    obtain ⟨_, r, _, _, more⟩ := moves
    have bound := r.isLt
    omega

theorem Transferred.calls {state : Nat × σ} (moved : Transferred wants fun_ s state) :
    Calls fun_ wants s state.2 := by
  refine Reachable.map Prod.snd ?_ ?_ moved
  · rintro _ rfl
    rfl
  · rintro here next ⟨wanted, r, called, _⟩
    exact ⟨here.1, wanted, by rw [called]⟩

theorem Transferred.first {middle : σ} (moved : Transferred wants fun_ s (0, middle)) : middle = s := by
  cases moved with
  | start first => exact congrArg Prod.snd first
  | step _ moves =>
    obtain ⟨_, r, _, some, more⟩ := moves
    simp only at more
    omega

/-- The calls go on until nothing more is wanted, or one of them transfers nothing. -/
theorem Transferred.stops (bounded : ∀ total, wants total → total = 0 ∨ total < size) :
    ∃ total middle, Transferred wants fun_ s (total, middle) ∧
      (¬ wants total ∨ (∃ r after, fun_ total middle = (.ok r, after) ∧ r.val = 0) ∨
        ∃ thrown after, fun_ total middle = (.error thrown, after)) := by
  have shrinks (here next : Nat × σ) (moves : Transfers wants fun_ here next) :
      size + 1 - next.1 < size + 1 - here.1 := by
    obtain ⟨wanted, r, _, moved, more⟩ := moves
    rcases bounded here.1 wanted with first | inside <;> omega
  have start : Transferred wants fun_ s (0, s) := .start rfl
  obtain ⟨⟨total, middle⟩, moved, last⟩ := Reachable.ends _ shrinks start
  refine ⟨total, middle, moved, ?_⟩
  by_cases wanted : wants total
  · right
    cases called : fun_ total middle with
    | mk outcome after =>
      cases outcome with
      | error thrown => exact .inr ⟨thrown, after, rfl⟩
      | ok r =>
        refine .inl ⟨r, after, rfl, ?_⟩
        by_contra moves
        exact last (total + r.val, after) ⟨wanted, r, called, moves, rfl⟩
  · exact .inl wanted

/-- The loop of `opExact` goes through what was transferred. -/
theorem opExact_transferred (name : String) {state : Nat × σ} (moved : Transferred (· < size) fun_ s state) :
    opExact name size fun_ 0 s = opExact name size fun_ state.1 state.2 := by
  induction moved with
  | start first =>
    cases first
    rfl
  | @step here next _ moves ih =>
    obtain ⟨total, middle⟩ := here
    obtain ⟨wanted, r, called, moves, more⟩ := moves
    simp only at wanted called more ih
    rw [ih, opExact, dif_pos wanted, called, more]
    simp only [dif_neg moves]

theorem opExact_spec (name : String)
    (system : ∀ offset s thrown, (fun_ offset s).1 = .error thrown → thrown.isSystem = true) (s : σ) :
    Exact name fun_ s (opExact name size fun_ 0 s) := by
  obtain ⟨total, middle, moved, stop⟩ :
      ∃ total middle, Transferred (· < size) fun_ s (total, middle) ∧ _ := Transferred.stops fun _ => .inr
  rw [opExact_transferred name moved, opExact]
  by_cases more : total < size
  · rw [dif_pos more]
    rcases stop with enough | ⟨r, after, called, nothing⟩ | ⟨thrown, after, called⟩
    · exact absurd more enough
    · simp only [called, dif_pos nothing]
      have blocked := @Exact.blocked E σ name size fun_ s _ _ _ _ moved more called nothing
      by_cases first : total = 0
      · rw [if_pos first] at blocked
        rwa [rethrowExact, if_neg (fun both => both.2 first)]
      · rw [if_neg first] at blocked
        rwa [rethrowExact, if_pos ⟨rfl, first⟩]
    · simp only [called]
      have failed := @Exact.failed E σ name size fun_ s _ _ _ _ moved more called
      have known := system total middle thrown (by rw [called])
      by_cases first : total = 0
      · rw [if_pos first] at failed
        rwa [rethrowExact, if_neg (fun both => both.2 first)]
      · rw [if_neg first] at failed
        rwa [rethrowExact, if_pos ⟨known, first⟩]
  · rw [dif_neg more]
    have full : total = size := Nat.le_antisymm (Transferred.le moved) (Nat.le_of_not_lt more)
    exact .whole (full ▸ moved)

theorem Exact.calls {name : String} {result : Except (Error E) Unit × σ} (spec : Exact name fun_ s result) :
    Calls fun_ (· < size) s result.2 := by
  cases spec with
  | whole moved => exact Transferred.calls moved
  | blocked moved more stalled => exact .step (Transferred.calls moved) ⟨_, more, by rw [stalled]⟩
  | failed moved more threw => exact .step (Transferred.calls moved) ⟨_, more, by rw [threw]⟩

theorem opExact_ok_iff (name : String)
    (system : ∀ offset s thrown, (fun_ offset s).1 = .error thrown → thrown.isSystem = true) (s : σ) :
    (opExact name size fun_ 0 s).1 = .ok () ↔ ∃ after, Transferred (· < size) fun_ s (size, after) := by
  constructor
  · intro returned
    have spec := opExact_spec name system s
    generalize opExact name size fun_ 0 s = result at returned spec
    cases spec with
    | whole moved => exact ⟨_, moved⟩
    | blocked => cases returned
    | failed => cases returned
  · rintro ⟨after, moved⟩
    rw [opExact_transferred name moved, opExact, dif_neg (Nat.lt_irrefl size)]

/-- The loop of `opAligned` goes through what was transferred, as long as elements are cut. -/
theorem opAligned_transferred (name : String) {align : Nat} (whole : size % align = 0) {state : Nat × σ}
    (moved : Transferred (Cut size align) fun_ s state) :
    opAligned name size fun_ align 0 s =
      if Cut size align state.1 then opAligned name size fun_ align state.1 state.2
      else (.ok state.1, state.2) := by
  induction moved with
  | start first =>
    cases first
    rw [if_pos (.inl rfl)]
  | @step here next before moves ih =>
    obtain ⟨total, middle⟩ := here
    obtain ⟨later, after⟩ := next
    obtain ⟨wanted, r, called, moves, more⟩ := moves
    simp only at wanted called more ih
    rw [ih, if_pos wanted, opAligned, called, more]
    simp only [moves, and_false, dite_false]
    by_cases partly : (total + r.val) % align ≠ 0
    · have inside : total + r.val < size := by
        have bound := r.isLt
        have small := Transferred.le before
        have uneven : total + r.val ≠ size := by
          intro same
          rw [same] at partly
          exact partly whole
        omega
      rw [dif_pos partly, if_pos (.inr ⟨partly, inside⟩)]
    · rw [dif_neg partly, if_neg]
      rintro (first | ⟨cut, _⟩)
      · omega
      · exact partly cut

theorem opAligned_spec (name : String) {align : Nat} (whole : size % align = 0)
    (system : ∀ offset s thrown, (fun_ offset s).1 = .error thrown → thrown.isSystem = true) (s : σ) :
    Aligned name fun_ align s (opAligned name size fun_ align 0 s) := by
  obtain ⟨total, middle, moved, stop⟩ :
      ∃ total middle, Transferred (Cut size align) fun_ s (total, middle) ∧ _ :=
    Transferred.stops fun _ wanted => wanted.imp_right And.right
  rw [opAligned_transferred name whole moved]
  have inside := Transferred.le moved
  by_cases cut : Cut size align total
  · rw [if_pos cut, opAligned]
    rcases stop with enough | ⟨r, after, called, nothing⟩ | ⟨thrown, after, called⟩
    · exact absurd cut enough
    · rw [called]
      by_cases first : total = 0
      · subst first
        cases Transferred.first moved
        simp only [ne_eq, not_true_eq_false, false_and, dite_false, nothing]
        exact .nothing called nothing
      · obtain ⟨partly, more⟩ := cut.resolve_left first
        simp only [dif_pos (show total ≠ 0 ∧ r.val = 0 from ⟨first, nothing⟩)]
        rw [rethrow, if_pos ⟨rfl, partly⟩]
        exact .cut moved partly more (.inl ⟨r, called, nothing⟩)
    · rw [called]
      have known := system total middle thrown (by rw [called])
      by_cases first : total = 0
      · subst first
        cases Transferred.first moved
        simp only [rethrow, Nat.zero_mod, ne_eq, not_true_eq_false, and_false, if_false]
        exact .failed called
      · obtain ⟨partly, more⟩ := cut.resolve_left first
        simp only [rethrow, if_pos (show thrown.isSystem ∧ total % align ≠ 0 from ⟨known, partly⟩)]
        exact .cut moved partly more (.inr ⟨thrown, called⟩)
  · rw [if_neg cut]
    have someBytes : total ≠ 0 := fun first => cut (.inl first)
    have aligned : total % align = 0 := by
      by_contra partly
      have uneven : total ≠ size := by
        rintro rfl
        exact partly whole
      exact cut (.inr ⟨partly, by omega⟩)
    exact .whole moved someBytes aligned inside

theorem Aligned.calls {name : String} {align : Nat} {result : Except (Error E) Nat × σ}
    (spec : Aligned name fun_ align s result) :
    Calls fun_ (fun offset => offset ≠ 0 ∧ offset < size) (fun_ 0 s).2 result.2 := by
  have later {state : Nat × σ} (moved : Transferred (Cut size align) fun_ s state) (some : state.1 ≠ 0) :
      Calls fun_ (fun offset => offset ≠ 0 ∧ offset < size) (fun_ 0 s).2 state.2 := by
    induction moved with
    | start first =>
      cases first
      exact absurd rfl some
    | @step here next before moves ih =>
      obtain ⟨total, middle⟩ := here
      obtain ⟨wanted, r, called, _⟩ := moves
      simp only at called
      by_cases first : total = 0
      · subst first
        cases Transferred.first before
        exact .start (by rw [called])
      · exact .step (ih first) ⟨total, ⟨first, (wanted.resolve_left first).2⟩, by rw [called]⟩
  cases spec with
  | whole moved some => exact later moved some
  | nothing stalled => exact .start (by rw [stalled])
  | failed threw => exact .start (by rw [threw])
  | @cut total middle after moved partly inside stopped =>
    have some : total ≠ 0 := by
      rintro rfl
      exact partly (Nat.zero_mod align)
    refine .step (later moved some) ⟨total, ⟨some, inside⟩, ?_⟩
    rcases stopped with ⟨r, called, _⟩ | ⟨thrown, called⟩ <;> rw [called]

end

end Stdplus.Fd
