import Stdplus.Base.Separated
import Stdplus.Numeric.Stops

/-! Texts that lead the decoder out of its table, because it stops at a character that is
negative as a `char`, alone or behind other numbers and their separators. -/

namespace Stdplus.Numeric

open Stdplus.Base

/-- The text stops at a character that the table has no entry for. -/
def StraysBelow (base limit : Nat) (text : List CharT) : Prop := ∃ c, Stops base limit text c ∧ 128 ≤ c.toNat

/-- In a `uintptr_t`, where all of the parsers decode. -/
abbrev Strays (base : Nat) (text : List CharT) : Prop := StraysBelow base (2 ^ 64) text

theorem strToUInt_strays_iff (radix : Radix) {bits : Nat} (wide : 8 ≤ bits) (text : List CharT) :
    strToUInt radix bits text = .error .outOfBounds ↔ StraysBelow radix.base (2 ^ bits) text := by
  rw [strToUInt_stops radix wide text (by simp)]
  simp only [stopFault_outOfBounds, StraysBelow, reduceCtorEq, and_false, false_or]

theorem strToIntUnsigned_strays_iff (radix : Radix) (bits : Nat) (text : List CharT) :
    strToIntUnsigned (some radix) bits text = .error .outOfBounds ↔ Strays radix.base text := by
  rw [strToIntUnsigned_stops radix bits text (by simp)]
  simp only [stopFault_outOfBounds, StraysBelow, reduceCtorEq, and_false, false_or]

/-- All lookups are in the table, and a character that is no digit is an invalid argument unless
an overflow comes first. -/
def InTable (radix : Radix) (bits : Nat) (text : List CharT) : Prop :=
  strToUInt radix bits text ≠ .error .outOfBounds ∧
    ∀ c, Stops radix.base (2 ^ bits) text c → strToUInt radix bits text = .error (.invalidArgument "Invalid numeral")

theorem inTable_iff (radix : Radix) {bits : Nat} (wide : 8 ≤ bits) (text : List CharT) :
    InTable radix bits text ↔ ¬ StraysBelow radix.base (2 ^ bits) text := by
  rw [InTable, ne_eq, strToUInt_strays_iff radix wide]
  refine and_iff_left_of_imp ?_
  intro stays c stops
  rw [strToUInt_stops radix wide text (by simp)]
  have low : c.toNat < 128 := by
    by_contra high
    exact stays ⟨c, stops, by omega⟩
  exact .inr ⟨c, stops, stopFault_invalidArgument.mpr ⟨rfl, low⟩⟩

variable {base : Nat} {sep : CharT}

theorem not_strays_nil : ¬ Strays base [] := by
  rintro ⟨c, stops, _⟩
  exact not_stopsFrom_nil stops

theorem Fault.thrown_iff {fault : Fault} : fault.Thrown ↔ fault ≠ .outOfBounds := by
  cases fault <;> simp [Fault.Thrown]

theorem Ascii.not_strays {text : List CharT} (ascii : Ascii text) : ¬ Strays base text := by
  rintro ⟨c, ⟨digits, rest, rfl, _⟩, high⟩
  have low := ascii c (by simp)
  omega

/-- At a separator the decoder stops in its table, so what is behind one does not matter. -/
theorem strays_append_sep (other : digitValue sep = none) (low : sep.toNat < 128) (front rest : List CharT) :
    Strays base (front ++ sep :: rest) ↔ Strays base front := by
  constructor
  · rintro ⟨c, ⟨digits, tail, split, valid, none, below⟩, high⟩
    rcases List.append_eq_append_iff.mp split with ⟨more, rfl, later⟩ | ⟨more, rfl, later⟩
    · cases more with
      | nil =>
        obtain ⟨rfl, _⟩ := List.cons.inj later
        omega
      | cons first more =>
        obtain ⟨rfl, _⟩ := List.cons.inj later
        obtain ⟨digit, value, _⟩ := valid sep (by simp)
        rw [other] at value
        cases value
    · cases more with
      | nil =>
        obtain ⟨rfl, _⟩ := List.cons.inj later
        omega
      | cons first more =>
        obtain ⟨rfl, _⟩ := List.cons.inj later
        exact ⟨c, ⟨digits, more, rfl, valid, none, below⟩, high⟩
  · rintro ⟨c, ⟨digits, tail, rfl, valid, none, below⟩, high⟩
    exact ⟨c, ⟨digits, tail ++ sep :: rest, by simp, valid, none, below⟩, high⟩

private theorem foldl_numeralStep_lt {digits : List CharT} (valid : ∀ d ∈ digits, IsDigit base d) (acc : Nat) :
    digits.foldl (numeralStep base) acc < base ^ digits.length * (acc + 1) := by
  induction digits generalizing acc with
  | nil => simp
  | cons d digits ih =>
    obtain ⟨⟨digit, value, small⟩, others⟩ := List.forall_mem_cons.mp valid
    rw [List.foldl_cons, List.length_cons, pow_succ, Nat.mul_assoc]
    refine Nat.lt_of_lt_of_le (ih others _) (Nat.mul_le_mul_left _ ?_)
    rw [numeralStep, value, Option.getD_some, Nat.mul_succ]
    omega

private theorem strays_iff_short {text : List CharT} (short : text.length ≤ 16) :
    Strays 16 text ↔ ∃ digits c rest, text = digits ++ c :: rest ∧ (∀ d ∈ digits, IsDigit 16 d) ∧
      ¬ IsDigit 16 c ∧ 128 ≤ c.toNat := by
  constructor
  · rintro ⟨c, ⟨digits, rest, split, valid, other, _⟩, high⟩
    exact ⟨digits, c, rest, split, valid, other, high⟩
  · rintro ⟨digits, c, rest, rfl, valid, other, high⟩
    refine ⟨c, ⟨digits, rest, rfl, valid, other, ?_⟩, high⟩
    rw [List.length_append, List.length_cons] at short
    have below := foldl_numeralStep_lt valid 0
    rw [Nat.zero_add, Nat.mul_one] at below
    have power : 16 ^ digits.length ≤ 16 ^ 16 := Nat.pow_le_pow_right (by decide) (by omega)
    exact Nat.lt_of_lt_of_le below power

theorem strays_cons (c : CharT) {text : List CharT} (short : text.length < 16) :
    Strays 16 (c :: text) ↔ IsDigit 16 c ∧ Strays 16 text ∨ ¬ IsDigit 16 c ∧ 128 ≤ c.toNat := by
  rw [strays_iff_short (show (c :: text).length ≤ 16 from short), strays_iff_short (Nat.le_of_lt short)]
  constructor
  · rintro ⟨digits, stop, rest, split, valid, other, high⟩
    cases digits with
    | nil =>
      obtain ⟨rfl, _⟩ := List.cons.inj split
      exact .inr ⟨other, high⟩
    | cons first digits =>
      obtain ⟨rfl, rfl⟩ := List.cons.inj split
      obtain ⟨digit, others⟩ := List.forall_mem_cons.mp valid
      exact .inl ⟨digit, digits, stop, rest, rfl, others, other, high⟩
  · rintro (⟨digit, digits, stop, rest, rfl, valid, other, high⟩ | ⟨other, high⟩)
    · exact ⟨c :: digits, stop, rest, rfl, List.forall_mem_cons.mpr ⟨digit, valid⟩, other, high⟩
    · exact ⟨[], c, text, rfl, by simp, other, high⟩

/-- The text strays behind at most `count` valid pieces that have a separator behind them. -/
def StraysBehind (valid : List CharT → Prop) (sep : CharT) (base count : Nat) (sv : List CharT) : Prop :=
  ∃ (pieces : List (List CharT)) (tail : List CharT), pieces.length ≤ count ∧ (∀ piece ∈ pieces, valid piece) ∧
    sv = pieces.flatMap (· ++ [sep]) ++ tail ∧ Strays base tail

variable {valid : List CharT → Prop} {count : Nat}

theorem straysBehind_zero {sv : List CharT} : StraysBehind valid sep base 0 sv ↔ Strays base sv := by
  constructor
  · rintro ⟨pieces, tail, none_left, _, rfl, strays⟩
    obtain rfl : pieces = [] := List.eq_nil_of_length_eq_zero (by omega)
    exact strays
  · exact fun strays => ⟨[], sv, by simp, by simp, by simp, strays⟩

theorem straysBehind_uncut {sv : List CharT} (absent : sep ∉ sv) :
    StraysBehind valid sep base count sv ↔ Strays base sv := by
  constructor
  · rintro ⟨pieces, tail, _, _, rfl, strays⟩
    cases pieces with
    | nil => exact strays
    | cons piece pieces => simp at absent
  · exact fun strays => ⟨[], sv, by simp, by simp, by simp, strays⟩

theorem not_straysBehind_nil : ¬ StraysBehind valid sep base count [] :=
  fun strays => not_strays_nil ((straysBehind_uncut List.not_mem_nil).mp strays)

theorem Ascii.not_straysBehind {sv : List CharT} (ascii : Ascii sv) : ¬ StraysBehind valid sep base count sv := by
  rintro ⟨pieces, tail, _, _, rfl, strays⟩
  exact Ascii.not_strays (fun c member => ascii c (List.mem_append_right _ member)) strays

theorem straysBehind_cut (other : digitValue sep = none) (low : sep.toNat < 128)
    (clean : ∀ piece, valid piece → sep ∉ piece) {front : List CharT} (absent : sep ∉ front) (rest : List CharT) :
    StraysBehind valid sep base (count + 1) (front ++ sep :: rest) ↔
      Strays base front ∨ valid front ∧ StraysBehind valid sep base count rest := by
  constructor
  · rintro ⟨pieces, tail, bounded, all_valid, split, strays⟩
    cases pieces with
    | nil =>
      rw [List.flatMap_nil, List.nil_append] at split
      rw [← split] at strays
      exact .inl ((strays_append_sep other low front rest).mp strays)
    | cons piece pieces =>
      obtain ⟨first, others⟩ := List.forall_mem_cons.mp all_valid
      have cut : front ++ sep :: rest = piece ++ sep :: (pieces.flatMap (· ++ [sep]) ++ tail) := by
        rw [split]
        simp
      obtain ⟨rfl, rfl⟩ := append_sep_inj absent (clean piece first) cut
      exact .inr ⟨first, pieces, tail, by simpa using bounded, others, rfl, strays⟩
  · rintro (strays | ⟨first, pieces, tail, bounded, others, rfl, strays⟩)
    · exact ⟨[], _, by simp, by simp, rfl, (strays_append_sep other low front rest).mpr strays⟩
    · exact ⟨front :: pieces, tail, by simpa using bounded, List.forall_mem_cons.mpr ⟨first, others⟩, by simp, strays⟩

theorem bind_outOfBounds {State Result : Type} {outcome : Except Fault State} {next : State → Except Fault Result} :
    (outcome >>= next) = .error .outOfBounds ↔
      outcome = .error .outOfBounds ∨ ∃ state, outcome = .ok state ∧ next state = .error .outOfBounds := by
  cases outcome <;> simp [bind, Except.bind]

/-- What a parser of numbers does with the texts of one kind. -/
structure PieceParser (valid : List CharT → Prop) (base : Nat) {Value : Type}
    (parse : List CharT → Except Fault Value) : Prop where
  accepts (text : List CharT) : (∃ value, parse text = .ok value) ↔ valid text
  strays (text : List CharT) : parse text = .error .outOfBounds ↔ Strays base text

/-- One turn of a loop that takes pieces with separators: the piece strays, or it is taken and
the loop strays later. -/
theorem turn_strays {Value State Result : Type} {parse : List CharT → Except Fault Value}
    (parser : PieceParser valid base parse) (other : digitValue sep = none) (low : sep.toNat < 128)
    (clean : ∀ piece, valid piece → sep ∉ piece) {next : Value → List CharT → Except Fault State}
    {finish : State → Except Fault Result} (later : ∀ value sv,
      (next value sv >>= finish) = .error .outOfBounds ↔ StraysBehind valid sep base count sv)
    (what : String) (sv : List CharT) :
    ((do
        let value ← parse (before (find sep sv) sv)
        if (behind (find sep sv) sv).isEmpty then .error (.invalidArgument what)
        else next value (behind (find sep sv) sv)) >>= finish) = .error .outOfBounds ↔
      StraysBehind valid sep base (count + 1) sv := by
  rcases find_cases sep sv with ⟨missing, absent⟩ | ⟨front, rest, rfl, absent, found⟩
  · rw [straysBehind_uncut absent, ← parser.strays]
    simp only [missing, before, behind]
    cases parse sv <;> simp [bind, Except.bind]
  · rw [straysBehind_cut other low clean absent, ← parser.strays, ← parser.accepts]
    simp only [found, before, behind, take_at_sep, drop_after_sep]
    cases parse front with
    | error fault => simp [bind, Except.bind]
    | ok value =>
      cases rest with
      | nil => simp [bind, Except.bind, not_straysBehind_nil]
      | cons c rest =>
        have goes_on := later value (c :: rest)
        simpa [bind, Except.bind] using goes_on

end Stdplus.Numeric
