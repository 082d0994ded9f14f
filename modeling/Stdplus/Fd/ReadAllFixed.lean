import Stdplus.Fd.ReadAll

set_option linter.dupNamespace false

namespace Stdplus.Fd

open Stdplus.Base

variable {E σ : Type}

/-- What a read is offered: a part of the buffer, or the byte `b`. -/
inductive Place where
  | subspan (offset count : Nat)
  | b
deriving DecidableEq

def Place.count : Place → Nat
  | .subspan _ count => count
  | .b => 1

def Place.Inside (size : Nat) : Place → Prop
  | .subspan offset count => offset + count ≤ size
  | .b => False

/-- The locals of `readAllFixed`, the descriptor, and what its reads were offered. -/
structure ReadAllFixed (σ : Type) where
  totalB : Nat
  buf : List UInt8
  fd : σ
  offered : List Place

namespace ReadAllFixed

variable (input : Input E σ)

def fill (this : ReadAllFixed σ) : Option (Error E) × ReadAllFixed σ :=
  if _more : this.totalB < this.buf.length then
    let count := min maxStrideB (this.buf.length - this.totalB)
    let offered := this.offered ++ [.subspan this.totalB count]
    match input.call count this.fd with
    | (.error thrown, fd) => (some thrown, { this with fd, offered })
    | (.ok r, fd) =>
      let buf := overwrite this.buf this.totalB r.val
      if _stalled : r.val.length = 0 then
        (some (.wouldBlock "readAllFixed"), { this with buf, fd, offered })
      else
        fill { totalB := this.totalB + r.val.length, buf, fd, offered }
  else
    (none, this)
termination_by this.buf.length - this.totalB
decreasing_by
  rw [overwrite_length]
  omega

/-- A read behind the full buffer, which only throws. -/
def probe (value_too_large : String → E) (this : ReadAllFixed σ) : Error E × ReadAllFixed σ :=
  let offered := this.offered ++ [.b]
  match input.call 1 this.fd with
  | (.error thrown, fd) => (thrown, { this with fd, offered })
  | (.ok r, fd) =>
    if r.val.length = 0 then
      (.wouldBlock "readAllFixed", { this with fd, offered })
    else
      (.system (value_too_large "readAllFixed overflow"), { this with fd, offered })

def validateSize (align totalB : Nat) : Except (Error E) Unit :=
  if totalB % align ≠ 0 then
    .error (.incomplete ("readAllFixed partial " ++ toString (totalB % align) ++ "B/" ++ toString align ++ "B"))
  else
    .ok ()

/-- The `catch` clauses. -/
def caught (align totalB : Nat) (thrown : Error E) : Except (Error E) Nat :=
  if thrown.isSystem then
    match validateSize (E := E) align totalB with
    | .error partly => .error partly
    | .ok () =>
      match thrown with
      | .eof _ => .ok totalB
      | thrown => .error thrown
  else
    .error thrown

/-- The body of the `try` block. -/
def tried (value_too_large : String → E) (this : ReadAllFixed σ) : Error E × ReadAllFixed σ :=
  match this.fill input with
  | (some thrown, this) => (thrown, this)
  | (none, this) => this.probe input value_too_large

end ReadAllFixed

/-- How many bytes the front of the buffer has, or an exception. -/
def readAllFixed (value_too_large : String → E) (input : Input E σ) (align : Nat) (buf : List UInt8) (fd : σ) :
    Except (Error E) Nat × ReadAllFixed σ :=
  let start : ReadAllFixed σ := { totalB := 0, buf, fd, offered := [] }
  let ended := start.tried input value_too_large
  (ReadAllFixed.caught align ended.2.totalB ended.1, ended.2)

def verifyExact (expected actual : Nat) : Except (Error E) Unit :=
  if expected ≠ actual then .error (.wouldBlock "verifyExact") else .ok ()

def readAllExact (value_too_large : String → E) (input : Input E σ) (t : List UInt8) (fd : σ) :
    Except (Error E) Unit × ReadAllFixed σ :=
  let result := readAllFixed value_too_large input 1 t fd
  (result.1.bind (verifyExact t.length), result.2)

def Strides (size total offered : Nat) : Prop := total < size ∧ offered = min maxStrideB (size - total)

/-- The buffer has what was received in front, and no read was offered anything else. -/
structure ReadAllFixed.Keeps (buf got : List UInt8) (this : ReadAllFixed σ) : Prop where
  total : this.totalB = got.length
  content : this.buf = got ++ buf.drop got.length
  inside : got.length ≤ buf.length
  offered : ∀ place ∈ this.offered, place.Inside buf.length ∧ place.count ≤ maxStrideB

namespace ReadAllFixed

variable {input : Input E σ} {buf got : List UInt8} {fd : σ} {this : ReadAllFixed σ}

theorem Keeps.length (keeps : Keeps buf got this) : this.buf.length = buf.length := by
  have inside := keeps.inside
  rw [keeps.content, List.length_append, List.length_drop]
  omega

/-- A read in the loop is offered a part of the buffer, and what it gives is kept. -/
theorem Keeps.read (keeps : Keeps buf got this) (more : got.length < buf.length) (data : List UInt8) (s : σ)
    (fits : data.length ≤ min maxStrideB (buf.length - got.length)) :
    Keeps buf (got ++ data)
      { totalB := got.length + data.length, buf := overwrite this.buf got.length data, fd := s,
        offered := this.offered ++ [.subspan got.length (min maxStrideB (buf.length - got.length))] } where
  total := List.length_append.symm
  content := by
    rw [keeps.content, overwrite_behind (fits.trans (Nat.min_le_right _ _)), List.length_append]
  inside := by
    rw [List.length_append]
    omega
  offered place among := by
    rcases List.mem_append.mp among with before | last
    · exact keeps.offered place before
    · rw [List.mem_singleton.mp last]
      refine ⟨?_, Nat.min_le_left _ _⟩
      rw [Place.Inside]
      omega

theorem Keeps.fill (keeps : Keeps buf got this)
    (received : Received input (Strides buf.length) fd (got, this.fd)) :
    ∃ all last, Keeps buf all last ∧
      (this.fill input = (none, last) ∧ Received input (Strides buf.length) fd (all, last.fd) ∧
          all.length = buf.length ∨
        ∃ thrown s, this.fill input = (some thrown, last) ∧ Received input (Strides buf.length) fd (all, s) ∧
          all.length < buf.length ∧
          input.Stops "readAllFixed" (min maxStrideB (buf.length - all.length)) s thrown last.fd) := by
  induction left : buf.length - got.length using Nat.strong_induction_on generalizing got this with
  | _ left ih =>
    have length := keeps.length
    by_cases more : got.length < buf.length
    · have goesOn : this.totalB < this.buf.length := by
        rwa [keeps.total, length]
      have read := keeps.read more
      obtain ⟨totalB, held, s, offered⟩ := this
      have total := keeps.total
      simp only at total length read
      subst total
      rw [ReadAllFixed.fill, dif_pos goesOn]
      dsimp only
      generalize held.length = size at length ⊢
      subst length
      cases replied : input.call (min maxStrideB (buf.length - got.length)) s with
      | mk outcome after =>
        cases outcome with
        | error thrown =>
          have kept := read [] after (Nat.zero_le _)
          refine ⟨got, _, ?_, .inr ⟨thrown, s, rfl, received, more, .inr replied⟩⟩
          exact ⟨keeps.total, keeps.content, keeps.inside, kept.offered⟩
        | ok r =>
          have kept := read r.val after r.property
          by_cases stalled : r.val.length = 0
          · simp only [dif_pos stalled]
            obtain ⟨bytes, fits⟩ := r
            obtain rfl : bytes = [] := List.length_eq_zero_iff.mp stalled
            rw [List.append_nil] at kept
            exact ⟨got, _, kept, .inr ⟨_, s, rfl, received, more, .inl ⟨replied, rfl⟩⟩⟩
          · simp only [dif_neg stalled]
            have nonempty : r.val ≠ [] := fun nothing => stalled (List.length_eq_zero_iff.mpr nothing)
            have less : buf.length - (got ++ r.val).length < buf.length - got.length := by
              rw [List.length_append]
              omega
            exact ih _ (left ▸ less) kept (.step received ⟨_, r, ⟨more, rfl⟩, replied, nonempty, rfl⟩) rfl
    · have full : got.length = buf.length := Nat.le_antisymm keeps.inside (Nat.le_of_not_lt more)
      refine ⟨got, this, keeps, .inl ⟨?_, received, full⟩⟩
      rw [ReadAllFixed.fill, dif_neg]
      rwa [keeps.total, length]

end ReadAllFixed

def Asks (size total : Nat) : Nat := if total < size then min maxStrideB (size - total) else 1

/-- What `readAllFixed` comes to with the bytes received until a call gave nothing, threw, or
gave a byte too many. -/
inductive ReadsAllFixed (value_too_large : String → E) (input : Input E σ) (align size : Nat) (fd : σ)
    (got : List UInt8) : Except (Error E) Nat × σ → Prop where
  | whole {s after : σ} {what : String} (received : Received input (Strides size) fd (got, s))
      (inside : got.length ≤ size) (ended : input.call (Asks size got.length) s = (.error (.eof what), after))
      (aligned : got.length % align = 0) :
      ReadsAllFixed value_too_large input align size fd got (.ok got.length, after)
  | overflow {s after : σ} {byte : UInt8} (received : Received input (Strides size) fd (got, s))
      (full : got.length = size) (more : input.call 1 s = (.ok ⟨[byte], Nat.le_refl 1⟩, after)) :
      ReadsAllFixed value_too_large input align size fd got
        (.error (.system (value_too_large "readAllFixed overflow")), after)
  | partly {s after : σ} {thrown : Error E} (received : Received input (Strides size) fd (got, s))
      (inside : got.length ≤ size)
      (stopped : input.Stops "readAllFixed" (Asks size got.length) s thrown after)
      (cut : got.length % align ≠ 0) :
      ReadsAllFixed value_too_large input align size fd got (.error (.incomplete
        ("readAllFixed partial " ++ toString (got.length % align) ++ "B/" ++ toString align ++ "B")), after)
  | failed {s after : σ} {thrown : Error E} (received : Received input (Strides size) fd (got, s))
      (inside : got.length ≤ size)
      (stopped : input.Stops "readAllFixed" (Asks size got.length) s thrown after)
      (aligned : got.length % align = 0) (notEof : ∀ what, thrown ≠ .eof what) :
      ReadsAllFixed value_too_large input align size fd got (.error thrown, after)

section

variable {value_too_large : String → E} {input : Input E σ} {align size : Nat} {fd : σ} {got : List UInt8}

private theorem validateSize_ok {totalB : Nat} (whole : totalB % align = 0) :
    ReadAllFixed.validateSize (E := E) align totalB = .ok () :=
  if_neg fun cut => cut whole

theorem ReadAllFixed.caught_spec {s after : σ} {thrown : Error E}
    (received : Received input (Strides size) fd (got, s)) (inside : got.length ≤ size)
    (stopped : input.Stops "readAllFixed" (Asks size got.length) s thrown after) :
    ReadsAllFixed value_too_large input align size fd got (caught align got.length thrown, after) := by
  unfold caught
  rw [if_pos stopped.system]
  by_cases cut : got.length % align = 0
  · rw [validateSize_ok cut]
    cases thrown with
    | eof what =>
      rcases stopped with ⟨_, other⟩ | ended
      · cases other
      · exact .whole received inside ended cut
    | wouldBlock => exact .failed received inside stopped cut (by simp)
    | incomplete => exact .failed received inside stopped cut (by simp)
    | system => exact .failed received inside stopped cut (by simp)
    | other => exact .failed received inside stopped cut (by simp)
  · rw [validateSize, if_pos cut]
    exact .partly received inside stopped cut

private theorem asks_full (size : Nat) : Asks size size = 1 := if_neg (Nat.lt_irrefl size)

theorem ReadAllFixed.probe_spec {this : ReadAllFixed σ} (whole : size % align = 0)
    (received : Received input (Strides size) fd (got, this.fd)) (full : got.length = size) :
    ReadsAllFixed value_too_large input align size fd got
      (caught align got.length (this.probe input value_too_large).1,
        (this.probe input value_too_large).2.fd) := by
  subst full
  have stops {thrown : Error E} {after : σ} (stopped : input.Stops "readAllFixed" 1 this.fd thrown after) :
      ReadsAllFixed value_too_large input align got.length fd got (caught align got.length thrown, after) := by
    rw [← asks_full got.length] at stopped
    exact caught_spec received (Nat.le_refl _) stopped
  rw [probe]
  cases replied : input.call 1 this.fd with
  | mk outcome after =>
    cases outcome with
    | error thrown => exact stops (.inr replied)
    | ok r =>
      obtain ⟨bytes, fits⟩ := r
      cases bytes with
      | nil => exact stops (.inl ⟨replied, rfl⟩)
      | cons byte rest =>
        obtain rfl : rest = [] := List.length_eq_zero_iff.mp (Nat.le_zero.mp (Nat.le_of_succ_le_succ fits))
        have overflows : caught align got.length (.system (value_too_large "readAllFixed overflow")) =
            .error (.system (value_too_large "readAllFixed overflow")) := by
          unfold caught
          rw [validateSize_ok whole]
          rfl
        simp only [List.length_cons, List.length_nil, Nat.add_one_ne_zero, if_false, overflows]
        exact .overflow received rfl replied

/-- A bounded read comes to what it should, with what was received in front of the buffer;
only one more read, of a byte that is not in it, follows those of its parts. -/
structure FillsFixed (value_too_large : String → E) (input : Input E σ) (align : Nat) (buf : List UInt8) (fd : σ)
    (got : List UInt8) (result : Except (Error E) Nat × ReadAllFixed σ) : Prop where
  outcome : ReadsAllFixed value_too_large input align buf.length fd got (result.1, result.2.fd)
  content : result.2.buf = got ++ buf.drop got.length
  offered : ∃ parts : List Place, (∀ place ∈ parts, place.Inside buf.length ∧ place.count ≤ maxStrideB) ∧
    (result.2.offered = parts ∨ got.length = buf.length ∧ result.2.offered = parts ++ [.b])

theorem readAllFixed_fills (value_too_large : String → E) (input : Input E σ) {align : Nat} {buf : List UInt8}
    (fd : σ) (whole : buf.length % align = 0) :
    ∃ got, FillsFixed value_too_large input align buf fd got
      (readAllFixed value_too_large input align buf fd) := by
  have start : ReadAllFixed.Keeps buf [] { totalB := 0, buf, fd, offered := [] } :=
    ⟨rfl, rfl, Nat.zero_le _, fun _ none => absurd none List.not_mem_nil⟩
  have nothing : Received input (Strides buf.length) fd ([], fd) := .start rfl
  obtain ⟨got, last, keeps, ⟨full, received, length⟩ | ⟨thrown, s, stopped, received, more, stops⟩⟩ :=
    start.fill nothing
  · have same : (last.probe input value_too_large).2.totalB = got.length ∧
        (last.probe input value_too_large).2.buf = got ++ buf.drop got.length ∧
        (last.probe input value_too_large).2.offered = last.offered ++ [.b] := by
      rw [ReadAllFixed.probe]
      split
      · exact ⟨keeps.total, keeps.content, rfl⟩
      · split <;> exact ⟨keeps.total, keeps.content, rfl⟩
    refine ⟨got, ?_⟩
    rw [readAllFixed, ReadAllFixed.tried, full]
    refine ⟨?_, same.2.1, last.offered, keeps.offered, .inr ⟨length, same.2.2⟩⟩
    simp only [same.1]
    exact ReadAllFixed.probe_spec whole received length
  · refine ⟨got, ?_⟩
    rw [readAllFixed, ReadAllFixed.tried, stopped]
    refine ⟨?_, keeps.content, last.offered, keeps.offered, .inl rfl⟩
    simp only [keeps.total]
    refine ReadAllFixed.caught_spec received keeps.inside ?_
    rwa [Asks, if_pos more]

theorem stuck {s : σ} (stopped : got.length < size → ∀ data after,
      input.call (Asks size got.length) s = (.ok data, after) → data.val = []) :
    ∀ next, ¬ Receives input (Strides size) (got, s) next := by
  rintro next ⟨_, data, ⟨more, rfl⟩, replied, nonempty, _⟩
  simp only at more
  rw [Asks, if_pos more] at stopped
  exact nonempty (stopped more data next.2 replied)

theorem single {here next later : List UInt8 × σ} (receives : Receives input (Strides size) here next)
    (gets : Receives input (Strides size) here later) : next = later := by
  obtain ⟨_, data, ⟨_, rfl⟩, replied, _, got⟩ := receives
  obtain ⟨_, bytes, ⟨_, rfl⟩, gave, _, held⟩ := gets
  obtain ⟨same, after⟩ := Prod.mk.inj (replied.symm.trans gave)
  cases Except.ok.inj same
  exact Prod.ext (got.trans held.symm) after

theorem stuck_of_stops {s after : σ} {thrown : Error E}
    (stops : input.Stops "readAllFixed" (Asks size got.length) s thrown after) :
    ∀ next, ¬ Receives input (Strides size) (got, s) next := by
  refine stuck fun _ data last replied => ?_
  rcases stops with ⟨nothing, _⟩ | threw
  · cases nothing.symm.trans replied
    rfl
  · cases threw.symm.trans replied

theorem ReadsAllFixed.ok_iff {result : Except (Error E) Nat × σ} {k : Nat}
    (reads : ReadsAllFixed value_too_large input align size fd got result) :
    result.1 = .ok k ↔ ∃ all s after what, Received input (Strides size) fd (all, s) ∧ all.length = k ∧ k ≤ size ∧
      k % align = 0 ∧ input.call (Asks size k) s = (.error (.eof what), after) := by
  constructor
  · intro returned
    cases reads with
    | @whole s after what received inside ended aligned =>
      cases returned
      exact ⟨got, s, after, what, received, rfl, inside, aligned, ended⟩
    | overflow => cases returned
    | partly => cases returned
    | failed => cases returned
  · rintro ⟨all, s, after, what, received, rfl, inside, aligned, ended⟩
    have last := stuck_of_stops (.inr ended)
    have same {other : σ} (gets : Received input (Strides size) fd (got, other))
        (ended : ∀ next, ¬ Receives input (Strides size) (got, other) next) : all = got ∧ s = other :=
      Prod.mk.inj (received.unique last gets ended fun _ _ _ => single)
    cases reads with
    | whole gets _ threw =>
      obtain ⟨rfl, _⟩ := same gets (stuck_of_stops (.inr threw))
      rfl
    | overflow gets full more =>
      obtain ⟨rfl, rfl⟩ := same gets (stuck fun short => absurd full short.ne)
      rw [full, asks_full] at ended
      cases ended.symm.trans more
    | partly gets _ stopped cut =>
      obtain ⟨rfl, rfl⟩ := same gets (stuck_of_stops stopped)
      exact absurd aligned cut
    | failed gets _ stopped _ notEof =>
      obtain ⟨rfl, rfl⟩ := same gets (stuck_of_stops stopped)
      rcases stopped with ⟨nothing, _⟩ | threw
      · cases nothing.symm.trans ended
      · cases threw.symm.trans ended
        exact absurd rfl (notEof what)

end

/-- It returns exactly when the bytes received are as many as were asked for, and the file
ends behind them. -/
theorem readAllExact_ok_iff (value_too_large : String → E) (input : Input E σ) (t : List UInt8) (fd : σ) :
    (readAllExact value_too_large input t fd).1 = .ok () ↔ ∃ got s after what,
      Received input (Strides t.length) fd (got, s) ∧ got.length = t.length ∧
        input.call 1 s = (.error (.eof what), after) := by
  obtain ⟨_, fills⟩ := readAllFixed_fills value_too_large input fd (Nat.mod_one t.length)
  have returned : (readAllExact value_too_large input t fd).1 = .ok () ↔
      (readAllFixed value_too_large input 1 t fd).1 = .ok t.length := by
    rw [readAllExact]
    cases (readAllFixed value_too_large input 1 t fd).1 with
    | error thrown => simp [Except.bind]
    | ok actual =>
      by_cases same : t.length = actual
      · simp [Except.bind, verifyExact, same]
      · simp [Except.bind, verifyExact, same, Ne.symm same]
  rw [returned, fills.outcome.ok_iff, asks_full]
  constructor
  · rintro ⟨got, s, after, what, received, length, _, _, ended⟩
    exact ⟨got, s, after, what, received, length, ended⟩
  · rintro ⟨got, s, after, what, received, length, ended⟩
    exact ⟨got, s, after, what, received, length, Nat.le_refl _, Nat.mod_one _, ended⟩

/-- The byte that shows whether there is more is not one of the buffer. -/
theorem probe_outside : ¬ ∀ place ∈
    (readAllFixed (fun text => (75, text)) (FdImpl.device file).read 1 [0] [7]).2.offered,
      place.Inside 1 ∧ place.count ≤ maxStrideB := by
  intro all
  have offered : Place.b ∈
      (readAllFixed (fun text => (75, text)) (FdImpl.device file).read 1 [0] [7]).2.offered := by
    simp [readAllFixed, ReadAllFixed.tried, ReadAllFixed.fill, ReadAllFixed.probe, FdImpl.device, FdImpl.input,
      file, fret, maxStrideB, overwrite]
  exact (all .b offered).1

/-- A bounded read fills the buffer as it should, returns exactly the whole elements in front
of an end of the file, and an exact one returns exactly for a stream of its size. -/
theorem readAllFixed_spec (value_too_large : String → E) (input : Input E σ) {align : Nat} {buf : List UInt8}
    (fd : σ) (whole : buf.length % align = 0) :
    (∃ got, FillsFixed value_too_large input align buf fd got (readAllFixed value_too_large input align buf fd)) ∧
      (∀ k, (readAllFixed value_too_large input align buf fd).1 = .ok k ↔ ∃ got s after what,
        Received input (Strides buf.length) fd (got, s) ∧ got.length = k ∧ k ≤ buf.length ∧ k % align = 0 ∧
          input.call (Asks buf.length k) s = (.error (.eof what), after)) ∧
      ((readAllExact value_too_large input buf fd).1 = .ok () ↔ ∃ got s after what,
        Received input (Strides buf.length) fd (got, s) ∧ got.length = buf.length ∧
          input.call 1 s = (.error (.eof what), after)) := by
  have ⟨got, fills⟩ := readAllFixed_fills value_too_large input fd whole
  exact ⟨⟨got, fills⟩, fun _ => fills.outcome.ok_iff, readAllExact_ok_iff value_too_large input buf fd⟩

theorem readAllFixed_spec_file : ∃ got,
    FillsFixed (fun text => (75, text)) (FdImpl.device file).read 2 [0, 0] [7] got
      (readAllFixed (fun text => (75, text)) (FdImpl.device file).read 2 [0, 0] [7]) :=
  (readAllFixed_spec (fun text => (75, text)) (FdImpl.device file).read [7] rfl).1

end Stdplus.Fd
