import Stdplus.Fd.Device

set_option linter.dupNamespace false

namespace Stdplus.Fd

open Stdplus.Base

variable {E σ : Type}

/-- The bytes of a container of elements of some size, whose `resize` keeps the elements
that are left. -/
structure Container where
  sizeofData : Nat
  positive : 0 < sizeofData
  resize : List UInt8 → Nat → List UInt8
  size : ∀ ret count, (resize ret count).length = count * sizeofData
  keeps : ∀ ret count, ret.take (count * sizeofData) <+: resize ret count

namespace Container

/-- `std::vector` fills up with zeros. -/
def vector (sizeofData : Nat) (positive : 0 < sizeofData) : Container where
  sizeofData
  positive
  resize ret count := ret.take (count * sizeofData) ++ List.replicate (count * sizeofData - ret.length) 0
  size ret count := by
    rw [List.length_append, List.length_take, List.length_replicate]
    omega
  keeps _ _ := List.prefix_append _ _

variable (c : Container)

/-- The `resize` that `readAll` calls back for at least `req` bytes. -/
def fit (req : Nat) (ret : List UInt8) : List UInt8 := c.resize ret ((req + c.sizeofData - 1) / c.sizeofData)

/-- Whole elements take what was asked for, and one that is cut takes all it needs. -/
theorem fit_length (req : Nat) (ret : List UInt8) :
    (c.fit req ret).length = req + if req % c.sizeofData = 0 then 0 else c.sizeofData - req % c.sizeofData := by
  have positive := c.positive
  have split := Nat.div_add_mod req c.sizeofData
  have rest := Nat.mod_lt req positive
  rw [fit, c.size]
  by_cases whole : req % c.sizeofData = 0
  · have count : (req + c.sizeofData - 1) / c.sizeofData = req / c.sizeofData := by
      apply Nat.div_eq_of_lt_le
      · rw [Nat.mul_comm]
        omega
      · rw [Nat.succ_mul, Nat.mul_comm]
        omega
    rw [if_pos whole, count, Nat.mul_comm]
    omega
  · have count : (req + c.sizeofData - 1) / c.sizeofData = req / c.sizeofData + 1 := by
      apply Nat.div_eq_of_lt_le
      · rw [Nat.succ_mul, Nat.mul_comm]
        omega
      · rw [Nat.succ_mul, Nat.succ_mul, Nat.mul_comm]
        omega
    rw [if_neg whole, count, Nat.succ_mul, Nat.mul_comm]
    omega

theorem prefix_fit {got ret : List UInt8} {req : Nat} (held : got <+: ret) (fits : got.length ≤ req) :
    got <+: c.fit req ret := by
  have room : got.length ≤ (c.fit req ret).length := by
    rw [fit_length]
    exact Nat.le_add_right_of_le fits
  rw [fit, c.size] at room
  refine List.IsPrefix.trans ?_ (c.keeps _ _)
  rw [List.prefix_iff_eq_take.mp held]
  exact List.take_prefix_take_left room

end Container

def maxStrideB : Nat := 65536

/-- The locals of `readAll`, its container and the descriptor. -/
structure ReadAll (σ : Type) where
  strideB : Nat
  totalB : Nat
  ret : List UInt8
  fd : σ

namespace ReadAll

variable (c : Container) (input : Input E σ)

/-- What `resize` leaves for a read. -/
def buf (this : ReadAll σ) : List UInt8 := c.fit (this.totalB + this.strideB) this.ret

def doRead (this : ReadAll σ) : Except (Error E) Unit × ReadAll σ :=
  let buf := this.buf c
  match input.call (buf.length - this.totalB) this.fd with
  | (.error thrown, fd) => (.error thrown, { this with ret := buf, fd })
  | (.ok r, fd) =>
    let this := { this with ret := overwrite buf this.totalB r.val, fd }
    if r.val.length = 0 then
      (.error (.wouldBlock "readAll"), this)
    else
      (.ok (), { this with totalB := this.totalB + r.val.length })

def validateSize (this : ReadAll σ) : Except (Error E) Unit × ReadAll σ :=
  let buf := c.fit this.totalB this.ret
  let this := { this with ret := buf }
  if this.totalB ≠ buf.length then
    (.error (.incomplete ("readAll extra " ++ toString (buf.length - this.totalB) ++ "B")), this)
  else
    (.ok (), this)

/-- The end of the first loop's body; the second loop starts where the stride has stopped
to grow. -/
def grow (this : ReadAll σ) : ReadAll σ :=
  if this.strideB < maxStrideB ∧ this.strideB ≤ this.totalB then
    { this with strideB := this.strideB <<< 1 }
  else
    this

def loop : Nat → ReadAll σ → Option (Error E × ReadAll σ)
  | 0, _ => none
  | fuel + 1, this =>
    match this.doRead c input with
    | (.error thrown, this) => some (thrown, this)
    | (.ok (), this) => loop fuel this.grow

/-- The `catch` clauses. -/
def caught (thrown : Error E) (this : ReadAll σ) : Except (Error E) (List UInt8) × σ :=
  if thrown.isSystem then
    match this.validateSize (E := E) c with
    | (.error partly, this) => (.error partly, this.fd)
    | (.ok (), this) =>
      match thrown with
      | .eof _ => (.ok this.ret, this.fd)
      | thrown => (.error thrown, this.fd)
  else
    (.error thrown, this.fd)

def start (fd : σ) : ReadAll σ := { strideB := 256, totalB := 0, ret := [], fd }

end ReadAll

/-- The container with what the descriptor gave, or an exception, if that many turns of the
loops are enough. -/
def readAll (c : Container) (input : Input E σ) (fd : σ) (fuel : Nat) :
    Option (Except (Error E) (List UInt8) × σ) :=
  (ReadAll.loop c input fuel (.start fd)).map fun last => last.2.caught c last.1

def Window (_total size : Nat) : Prop := 256 ≤ size

/-- The container has what was received in front. -/
structure ReadAll.Holds (input : Input E σ) (fd : σ) (got : List UInt8) (this : ReadAll σ) : Prop where
  received : Received input Window fd (got, this.fd)
  total : this.totalB = got.length
  front : got <+: this.ret
  stride : 256 ≤ this.strideB

namespace ReadAll

variable {c : Container} {input : Input E σ} {fd : σ} {got : List UInt8} {this next : ReadAll σ}

theorem start_holds : Holds input fd [] (start fd) where
  received := .start rfl
  total := rfl
  front := List.nil_prefix
  stride := Nat.le_refl 256

/-- The resize before a read keeps what was received and leaves a window behind it. -/
theorem Holds.buf (holds : Holds input fd got this) :
    got <+: this.buf c ∧ 256 ≤ (this.buf c).length - got.length := by
  have stride := holds.stride
  rw [ReadAll.buf, holds.total]
  refine ⟨c.prefix_fit holds.front (Nat.le_add_right _ _), ?_⟩
  rw [c.fit_length]
  omega

theorem Holds.grow (holds : Holds input fd got this) : Holds input fd got this.grow := by
  rw [ReadAll.grow]
  split
  · refine ⟨holds.received, holds.total, holds.front, ?_⟩
    have stride := holds.stride
    simp only [Nat.shiftLeft_succ, Nat.shiftLeft_zero]
    omega
  · exact holds

private theorem prefix_overwrite {front data : List UInt8} (held : got <+: front)
    (fits : data.length ≤ front.length - got.length) : got ++ data <+: overwrite front got.length data := by
  obtain ⟨rest, rfl⟩ := held
  rw [List.length_append, Nat.add_sub_cancel_left] at fits
  have part : data.length = (rest.take data.length).length := by
    rw [List.length_take, Nat.min_eq_left fits]
  have written := overwrite_part got (rest.take data.length) (rest.drop data.length) data part
  rw [List.append_assoc got, List.take_append_drop] at written
  exact ⟨_, written.symm⟩

theorem Holds.doRead_ok (holds : Holds input fd got this) (worked : this.doRead c input = (.ok (), next)) :
    ∃ data, data ≠ [] ∧ Holds input fd (got ++ data) next := by
  have ⟨front, window⟩ := holds.buf (c := c)
  obtain ⟨strideB, totalB, ret, s⟩ := this
  obtain ⟨received, rfl, _, stride⟩ := holds
  rw [doRead] at worked
  split at worked
  · cases worked
  · rename_i r after replied
    split at worked
    · cases worked
    · rename_i some
      cases worked
      have nonempty : r.val ≠ [] := fun nothing => some (List.length_eq_zero_iff.mpr nothing)
      exact ⟨r.val, nonempty, .step received ⟨_, r, window, replied, nonempty, rfl⟩,
        List.length_append.symm, prefix_overwrite front r.property, stride⟩

theorem Holds.doRead_error {thrown : Error E} (holds : Holds input fd got this)
    (threw : this.doRead c input = (.error thrown, next)) :
    (∃ size, Window got.length size ∧ input.Stops "readAll" size this.fd thrown next.fd) ∧
      next.totalB = got.length ∧ got <+: next.ret := by
  have ⟨front, window⟩ := holds.buf (c := c)
  obtain ⟨strideB, totalB, ret, s⟩ := this
  obtain ⟨received, rfl, _, stride⟩ := holds
  rw [doRead] at threw
  split at threw
  · rename_i replied
    cases threw
    exact ⟨⟨_, window, .inr replied⟩, rfl, front⟩
  · rename_i r after replied
    split at threw
    · rename_i nothing
      cases threw
      obtain ⟨bytes, fits⟩ := r
      obtain rfl : bytes = [] := List.length_eq_zero_iff.mp nothing
      have written := prefix_overwrite front fits
      rw [List.append_nil] at written
      exact ⟨⟨_, window, .inl ⟨replied, rfl⟩⟩, rfl, written⟩
    · cases threw

/-- As many turns as there is fuel give a byte each, or an exception ends them. -/
theorem Holds.loop (holds : Holds input fd got this) (fuel : Nat) :
    (this.loop c input fuel = none ∧
        ∃ more s, Received input Window fd (more, s) ∧ got.length + fuel ≤ more.length) ∨
      ∃ thrown last all s size, this.loop c input fuel = some (thrown, last) ∧
        Received input Window fd (all, s) ∧ Window all.length size ∧ input.Stops "readAll" size s thrown last.fd ∧
        last.totalB = all.length ∧ all <+: last.ret := by
  induction fuel generalizing this got with
  | zero => exact .inl ⟨rfl, got, this.fd, holds.received, Nat.le_refl _⟩
  | succ fuel ih =>
    cases turn : this.doRead c input with
    | mk outcome next =>
      cases outcome with
      | error thrown =>
        obtain ⟨⟨size, window, stops⟩, total, front⟩ := holds.doRead_error turn
        right
        refine ⟨thrown, next, got, this.fd, size, ?_, holds.received, window, stops, total, front⟩
        rw [ReadAll.loop, turn]
      | ok =>
        obtain ⟨data, nonempty, later⟩ := holds.doRead_ok turn
        have goesOn : this.loop c input (fuel + 1) = next.grow.loop c input fuel := by
          rw [ReadAll.loop, turn]
        rw [goesOn]
        rcases ih later.grow with ⟨none, more, s, received, long⟩ | ended
        · refine .inl ⟨none, more, s, received, ?_⟩
          have positive := List.length_pos_iff.mpr nonempty
          rw [List.length_append] at long
          omega
        · exact .inr ended

theorem loop_mono {fuel more : Nat} {last : Error E × ReadAll σ} (enough : fuel ≤ more)
    (ended : this.loop c input fuel = some last) : this.loop c input more = some last := by
  induction fuel generalizing this more with
  | zero => cases ended
  | succ fuel ih =>
    obtain ⟨more, rfl⟩ : ∃ rest, more = rest + 1 := ⟨more - 1, by omega⟩
    rw [loop] at ended ⊢
    cases turn : this.doRead c input with
    | mk outcome next =>
      rw [turn] at ended
      cases outcome with
      | error thrown => exact ended
      | ok => exact ih (Nat.le_of_succ_le_succ enough) ended

end ReadAll

/-- What `readAll` comes to with all the bytes received until a call gave nothing or threw. -/
inductive ReadsAll (sizeofData : Nat) (input : Input E σ) (fd : σ) :
    Except (Error E) (List UInt8) × σ → Prop where
  | whole {got : List UInt8} {s after : σ} {size : Nat} {what : String}
      (received : Received input Window fd (got, s)) (window : Window got.length size)
      (ended : input.call size s = (.error (.eof what), after)) (aligned : got.length % sizeofData = 0) :
      ReadsAll sizeofData input fd (.ok got, after)
  | partly {got : List UInt8} {s after : σ} {size : Nat} {thrown : Error E}
      (received : Received input Window fd (got, s)) (window : Window got.length size)
      (stopped : input.Stops "readAll" size s thrown after) (cut : got.length % sizeofData ≠ 0) :
      ReadsAll sizeofData input fd (.error (.incomplete
        ("readAll extra " ++ toString (sizeofData - got.length % sizeofData) ++ "B")), after)
  | failed {got : List UInt8} {s after : σ} {size : Nat} {thrown : Error E}
      (received : Received input Window fd (got, s)) (window : Window got.length size)
      (stopped : input.Stops "readAll" size s thrown after) (aligned : got.length % sizeofData = 0)
      (notEof : ∀ what, thrown ≠ .eof what) : ReadsAll sizeofData input fd (.error thrown, after)

namespace ReadAll

variable {c : Container} {input : Input E σ} {fd : σ}

theorem caught_spec {thrown : Error E} {got : List UInt8} {s : σ} {size : Nat} {last : ReadAll σ}
    (received : Received input Window fd (got, s)) (window : Window got.length size)
    (stopped : input.Stops "readAll" size s thrown last.fd) (total : last.totalB = got.length)
    (front : got <+: last.ret) : ReadsAll c.sizeofData input fd (last.caught c thrown) := by
  obtain ⟨strideB, totalB, ret, after⟩ := last
  simp only at total stopped front
  subst total
  have kept := c.prefix_fit front (Nat.le_refl _)
  have length := c.fit_length got.length ret
  rw [caught, if_pos stopped.system, validateSize]
  by_cases cut : got.length % c.sizeofData = 0
  · rw [if_pos cut, Nat.add_zero] at length
    have same : c.fit got.length ret = got := (kept.eq_of_length length.symm).symm
    simp only [same, ne_eq, not_true_eq_false, if_false]
    cases thrown with
    | eof what =>
      rcases stopped with ⟨_, other⟩ | ended
      · cases other
      · exact .whole received window ended cut
    | wouldBlock => exact .failed received window stopped cut (by simp)
    | incomplete => exact .failed received window stopped cut (by simp)
    | system => exact .failed received window stopped cut (by simp)
    | other => exact .failed received window stopped cut (by simp)
  · rw [if_neg cut] at length
    have rest := Nat.mod_lt got.length c.positive
    have extra : (c.fit got.length ret).length - got.length = c.sizeofData - got.length % c.sizeofData := by omega
    have differs : got.length ≠ (c.fit got.length ret).length := by omega
    simp only [if_pos differs, extra]
    exact .partly received window stopped cut

/-- The turns of the loops that read something. -/
abbrev Reached (c : Container) (input : Input E σ) (fd : σ) : ReadAll σ → Prop :=
  Reachable (· = start fd) fun here next => ∃ read, here.doRead c input = (.ok (), read) ∧ next = read.grow

theorem Reached.holds {this : ReadAll σ} (reached : Reached c input fd this) :
    ∃ got, Holds input fd got this := by
  induction reached with
  | start started =>
    cases started
    exact ⟨[], start_holds⟩
  | step _ stepped ih =>
    obtain ⟨got, holds⟩ := ih
    obtain ⟨read, worked, rfl⟩ := stepped
    obtain ⟨data, _, later⟩ := holds.doRead_ok worked
    exact ⟨got ++ data, later.grow⟩

end ReadAll

theorem readAll_fuel (c : Container) (input : Input E σ) (fd : σ) (fuel : Nat) :
    (readAll c input fd fuel = none ∧ ∃ got s, Received input Window fd (got, s) ∧ fuel ≤ got.length) ∨
      ∃ result, (∀ more, fuel ≤ more → readAll c input fd more = some result) ∧
        ReadsAll c.sizeofData input fd result := by
  have start : ReadAll.Holds input fd [] (.start fd) := ReadAll.start_holds
  rcases start.loop (c := c) fuel with
    ⟨none, got, s, received, long⟩ | ⟨thrown, last, got, s, size, ended, received, window, stopped, total, front⟩
  · refine .inl ⟨?_, got, s, received, ?_⟩
    · rw [readAll, none]
      rfl
    · rwa [List.length_nil, Nat.zero_add] at long
  · refine .inr ⟨last.caught c thrown, fun more enough => ?_,
      ReadAll.caught_spec received window stopped total front⟩
    rw [readAll, ReadAll.loop_mono enough ended]
    rfl

/-- The loops go on for as long as each read gives bytes, with those received in front of
the container and a window behind them, and then come to what they should. -/
theorem readAll_spec (c : Container) (input : Input E σ) (fd : σ) :
    (∀ fuel, (readAll c input fd fuel = none ∧ ∃ got s, Received input Window fd (got, s) ∧ fuel ≤ got.length) ∨
      ∃ result, (∀ more, fuel ≤ more → readAll c input fd more = some result) ∧
        ReadsAll c.sizeofData input fd result) ∧
    ∀ this, ReadAll.Reached c input fd this → ∃ got, Received input Window fd (got, this.fd) ∧
      this.totalB = got.length ∧ got <+: this.ret ∧ got <+: this.buf c ∧
        256 ≤ (this.buf c).length - this.totalB := by
  refine ⟨readAll_fuel c input fd, fun this reached => ?_⟩
  obtain ⟨got, holds⟩ := reached.holds
  have ⟨front, window⟩ := holds.buf (c := c)
  refine ⟨got, holds.received, holds.total, holds.front, front, ?_⟩
  rw [holds.total]
  exact window

end Stdplus.Fd
