import Stdplus.Zstring.Traits

/-! Strings without a stored length: `basic_zstring` and its comparisons. An array is the list
of its characters, and a read behind its end has no result. -/

namespace Stdplus

variable {CharT : Type} [Zero CharT] [DecidableEq CharT]

/-- The position of the terminator; it may not stand in the first `min` characters. -/
def zstringFindTerm (str : List CharT) (min max : Nat) : Option Nat :=
  if 0 ∈ str.take min then none
  else (((str.take max).drop min).findIdx? (· = 0)).map (min + ·)

/-- The exceptions of the string classes. -/
inductive StringFault where
  | invalidArgument (what : String)
  | outOfRange (what : String)
deriving DecidableEq

def zstringValidate (str : List CharT) (min max : Nat) : Except StringFault Nat :=
  match zstringFindTerm str min max with
  | none => .error (.invalidArgument "stdplus::zstring")
  | some ret => .ok ret

theorem zstringFindTerm_eq_some {str : List CharT} {min max ret : Nat}
    (found : zstringFindTerm str min max = some ret) : 0 ∈ str ∧ 0 ∉ str.take ret := by
  unfold zstringFindTerm at found
  split at found
  · cases found
  · rename_i before
    obtain ⟨i, position, rfl⟩ := Option.map_eq_some_iff.mp found
    obtain ⟨inside, null, earlier⟩ := List.findIdx?_eq_some_iff_getElem.mp position
    constructor
    · have member := List.getElem_mem inside
      rw [of_decide_eq_true null] at member
      exact List.mem_of_mem_take (List.mem_of_mem_drop member)
    · intro member
      rw [List.take_add, List.mem_append] at member
      rcases member with front | between
      · exact before front
      · obtain ⟨j, bound, zero⟩ := List.mem_iff_getElem.mp between
        rw [List.length_take] at bound
        have skipped := earlier j (by omega)
        simp only [List.getElem_drop, List.getElem_take] at skipped zero
        exact skipped (decide_eq_true zero)

theorem zstringFindTerm_concat (str : List CharT) :
    zstringFindTerm (str ++ [0]) str.length (str.length + 1) = if 0 ∈ str then none else some str.length := by
  rw [zstringFindTerm, List.take_left, List.take_of_length_le (by simp), List.drop_left]
  simp

theorem zstringValidate_ok {str : List CharT} {min max ret : Nat} (valid : zstringValidate str min max = .ok ret) :
    0 ∈ str ∧ 0 ∉ str.take ret := by
  unfold zstringValidate at valid
  split at valid
  · cases valid
  · rename_i found
    cases valid
    exact zstringFindTerm_eq_some found

/-- What `data_` points at: an array with a terminator in it. -/
structure Zstring (CharT : Type) [Zero CharT] where
  cells : List CharT
  terminated : 0 ∈ cells

/-- The characters in front of the first terminator. -/
def charsOf (cells : List CharT) : List CharT := cells.takeWhile (· ≠ 0)

theorem charsOf_zero (cells : List CharT) : charsOf (0 :: cells) = [] := by
  simp [charsOf]

theorem charsOf_cons {c : CharT} (other : c ≠ 0) (cells : List CharT) :
    charsOf (c :: cells) = c :: charsOf cells := by
  simp [charsOf, other]

theorem charsOf_append {text : List CharT} (free : 0 ∉ text) (cells : List CharT) :
    charsOf (text ++ 0 :: cells) = text := by
  induction text with
  | nil => exact charsOf_zero cells
  | cons c text ih =>
    rw [List.mem_cons, not_or] at free
    rw [List.cons_append, charsOf_cons (Ne.symm free.1), ih free.2]

theorem zero_notMem_charsOf (cells : List CharT) : 0 ∉ charsOf cells := by
  intro member
  simpa using List.mem_takeWhile_imp member

namespace Zstring

variable (traits : CharTraits CharT)

/-- The constructor from an array, with the check that debug builds make. -/
def ofArray (str : List CharT) : Except StringFault (Zstring CharT) :=
  match valid : zstringValidate str 0 str.length with
  | .error fault => .error fault
  | .ok _ => .ok ⟨str, (zstringValidate_ok valid).1⟩

/-- The constructor from a `std::basic_string`, whose `data()` ends with a terminator. -/
def ofString (str : List CharT) : Except StringFault (Zstring CharT) :=
  match valid : zstringValidate (str ++ [0]) str.length (str.length + 1) with
  | .error fault => .error fault
  | .ok _ => .ok ⟨str ++ [0], (zstringValidate_ok valid).1⟩

def chars (a : Zstring CharT) : List CharT := charsOf a.cells

def ofText (text : List CharT) : Zstring CharT := ⟨text ++ [0], by simp⟩

/-- The same string in an array that ends with the terminator. -/
def exact (a : Zstring CharT) : Zstring CharT := ofText a.chars

/-- The loop of `compare(other, other_size)` with `left` turns to go. -/
def compareLoop (data other : List CharT) (otherSize : Nat) : Nat → Option Int
  | 0 => do
    let c ← data[otherSize]?
    if c = 0 then some 0 else some 1
  | left + 1 => do
    let i := otherSize - (left + 1)
    let c ← data[i]?
    if c = 0 then some (-1)
    else do
      let o ← other[i]?
      if !traits.eq o c then some (if traits.lt o c then 1 else -1)
      else compareLoop data other otherSize left

def compareSized (a : Zstring CharT) (other : List CharT) (otherSize : Nat) : Option Int :=
  compareLoop traits a.cells other otherSize otherSize

/-- The loop of `compare(other)`: both pointers move on together. -/
def compareCells : List CharT → List CharT → Option Int
  | [], _ => none
  | d :: data, other =>
    if d = 0 then
      match other with
      | [] => none
      | o :: _ => if o = 0 then some 0 else some (-1)
    else
      match other with
      | [] => none
      | o :: other =>
        if o = 0 then some 1
        else if !traits.eq o d then some (if traits.lt o d then 1 else -1)
        else compareCells data other

def compare (a other : Zstring CharT) : Option Int := compareCells traits a.cells other.cells

/-- `operator<=>` with another zstring or a pointer. -/
def spaceship (a rhs : Zstring CharT) : Option Ordering :=
  (a.compare traits rhs).map (Ord.compare · 0)

/-- `operator<=>` with a string or a string view. -/
def spaceshipSized (a : Zstring CharT) (rhs : List CharT) : Option Ordering :=
  (a.compareSized traits rhs rhs.length).map (Ord.compare · 0)

def equal (a rhs : Zstring CharT) : Option Bool := (a.spaceship traits rhs).map (· = .eq)

def equalSized (a : Zstring CharT) (rhs : List CharT) : Option Bool :=
  (a.spaceshipSized traits rhs).map (· = .eq)

theorem ofArray_ok_iff {str : List CharT} {a : Zstring CharT} : ofArray str = .ok a ↔ a.cells = str := by
  constructor
  · intro accepted
    unfold ofArray at accepted
    split at accepted
    · cases accepted
    · cases accepted
      rfl
  · rintro rfl
    unfold ofArray
    split
    · rename_i fault refused
      obtain ⟨i, found⟩ := Option.isSome_iff_exists.mp
        (List.findIdx?_isSome (p := (· = (0 : CharT))) ▸ List.any_eq_true.mpr ⟨0, a.terminated, by simp⟩)
      simp [zstringValidate, zstringFindTerm, found] at refused
    · rfl

/-- A `std::basic_string` is taken if it has no terminator in it, and then as it is. -/
theorem ofString_ok_iff {str : List CharT} {a : Zstring CharT} :
    ofString str = .ok a ↔ 0 ∉ str ∧ a = ofText str := by
  have found := zstringFindTerm_concat str
  by_cases free : 0 ∈ str
  · refine iff_of_false ?_ (fun parts => parts.1 free)
    intro accepted
    unfold ofString at accepted
    split at accepted
    · cases accepted
    · rename_i valid
      simp [zstringValidate, found, free] at valid
  · unfold ofString
    split
    · rename_i refused
      simp [zstringValidate, found, free] at refused
    · simp [free, ofText, eq_comm]

/-- The number that says how a comparison ended. -/
def signOf : Ordering → Int
  | .lt => -1
  | .eq => 0
  | .gt => 1

@[simp] theorem compare_signOf (o : Ordering) : Ord.compare (signOf o) 0 = o := by
  cases o <;> rfl

omit [Zero CharT] [DecidableEq CharT] in
private theorem read_of_drop {data cells : List CharT} {i : Nat} {c : CharT} (rest : data.drop i = c :: cells) :
    data[i]? = some c ∧ data.drop (i + 1) = cells := by
  rw [← List.head?_drop, ← List.tail_drop, rest]
  exact ⟨rfl, rfl⟩

/-- The sized loop compares what is left of both strings, as long as the terminator is still
ahead. -/
theorem compareLoop_eq (data : List CharT) {other : List CharT} (extra : List CharT) {left : Nat}
    (bounded : left ≤ other.length) (ahead : 0 ∈ data.drop (other.length - left)) :
    compareLoop traits data (other ++ extra) other.length left =
      some (signOf (traits.lexicographic (charsOf (data.drop (other.length - left)))
        (other.drop (other.length - left)))) := by
  induction left with
  | zero =>
    rw [Nat.sub_zero] at *
    cases rest : data.drop other.length with
    | nil => simp [rest] at ahead
    | cons c cells =>
      obtain ⟨read, _⟩ := read_of_drop rest
      simp only [compareLoop, read, bind, Option.bind, List.drop_length]
      split
      · rename_i null
        rw [null, charsOf_zero]
        rfl
      · rename_i char
        rw [charsOf_cons char]
        rfl
  | succ left ih =>
    generalize position : other.length - (left + 1) = i at *
    have next : other.length - left = i + 1 := by omega
    have inside : i < other.length := by omega
    cases rest : data.drop i with
    | nil => simp [rest] at ahead
    | cons c cells =>
      obtain ⟨read, tail⟩ := read_of_drop rest
      have present : (other ++ extra)[i]? = some other[i] := by
        rw [List.getElem?_append_left inside, List.getElem?_eq_getElem inside]
      rw [List.drop_eq_getElem_cons inside]
      simp only [compareLoop, position, read, present, bind, Option.bind]
      by_cases null : c = 0
      · rw [if_pos null, null, charsOf_zero]
        rfl
      · rw [if_neg null, charsOf_cons null]
        cases same : traits.eq other[i] c with
        | false =>
          rw [traits.lexicographic_cons_other same]
          simp only [Bool.not_false, if_true]
          split <;> rfl
        | true =>
          rw [next, tail] at ih
          rw [rest, List.mem_cons] at ahead
          have later : 0 ∈ cells := ahead.resolve_left (Ne.symm null)
          rw [traits.lexicographic_cons_eq ((traits.eq_comm _ _).trans same)]
          simpa using ih (by omega) later

theorem compareCells_eq {data other : List CharT} (terminated : 0 ∈ data) (ended : 0 ∈ other) :
    compareCells traits data other =
      some (signOf (traits.lexicographic (charsOf data) (charsOf other))) := by
  induction data generalizing other with
  | nil => simp at terminated
  | cons d data ih =>
    cases other with
    | nil => simp at ended
    | cons o other =>
      simp only [compareCells]
      by_cases null : d = 0
      · rw [if_pos null, null, charsOf_zero]
        split
        · rename_i last
          rw [last, charsOf_zero]
          rfl
        · rename_i char
          rw [charsOf_cons char]
          rfl
      · rw [if_neg null, charsOf_cons null]
        split
        · rename_i last
          rw [last, charsOf_zero]
          rfl
        · rename_i char
          rw [charsOf_cons char]
          cases same : traits.eq o d with
          | false =>
            rw [traits.lexicographic_cons_other same]
            simp only [Bool.not_false, if_true]
            split <;> rfl
          | true =>
            rw [List.mem_cons] at terminated ended
            rw [traits.lexicographic_cons_eq ((traits.eq_comm _ _).trans same)]
            simpa using ih (terminated.resolve_left (Ne.symm null)) (ended.resolve_left (Ne.symm char))

theorem compareSized_eq (a : Zstring CharT) (other extra : List CharT) :
    a.compareSized traits (other ++ extra) other.length =
      some (signOf (traits.lexicographic a.chars other)) := by
  have whole := compareLoop_eq traits a.cells extra (Nat.le_refl other.length)
  rw [Nat.sub_self, List.drop_zero, List.drop_zero] at whole
  exact whole a.terminated

theorem compare_eq (a b : Zstring CharT) :
    a.compare traits b = some (signOf (traits.lexicographic a.chars b.chars)) :=
  compareCells_eq traits a.terminated b.terminated

theorem chars_ofText {text : List CharT} (free : 0 ∉ text) : (ofText text).chars = text :=
  charsOf_append free []

@[simp] theorem chars_exact (a : Zstring CharT) : a.exact.chars = a.chars :=
  chars_ofText (zero_notMem_charsOf a.cells)

theorem spaceship_eq (a b : Zstring CharT) :
    a.spaceship traits b = some (traits.lexicographic a.chars b.chars) := by
  rw [spaceship, compare_eq, Option.map_some, compare_signOf]

theorem spaceshipSized_eq (a : Zstring CharT) (s : List CharT) :
    a.spaceshipSized traits s = some (traits.lexicographic a.chars s) := by
  have sized := a.compareSized_eq traits s []
  rw [List.append_nil] at sized
  rw [spaceshipSized, sized, Option.map_some, compare_signOf]

/-- The order of the strings that two zstrings hold. -/
def order (a b : Zstring CharT) : Ordering := traits.lexicographic a.chars b.chars

instance : Std.TransCmp (order traits : Zstring CharT → Zstring CharT → Ordering) where
  eq_swap {a b} := (Std.OrientedCmp.eq_swap : traits.lexicographic a.chars b.chars = _)
  isLE_trans {a _ c} first second :=
    (Std.TransCmp.isLE_trans first second : (traits.lexicographic a.chars c.chars).isLE)

/-- Comparison is the lexicographic order. It reads neither behind a terminator (arrays that end
there give the same answer) nor behind the end of a sized string (what follows does not
matter, and nothing has to follow); both overloads agree on a string without a terminator in
it, and `<=>` is a total order. -/
theorem comparison_lexicographic :
    (∀ a b : Zstring CharT, a.compare traits b = some (signOf (traits.lexicographic a.chars b.chars)) ∧
        a.exact.compare traits b.exact = a.compare traits b) ∧
      (∀ (a : Zstring CharT) (s extra : List CharT),
        a.compareSized traits (s ++ extra) s.length = some (signOf (traits.lexicographic a.chars s)) ∧
          a.exact.compareSized traits s s.length = a.compareSized traits (s ++ extra) s.length) ∧
      (∀ (a : Zstring CharT) (s : List CharT), 0 ∉ s →
        a.compareSized traits s s.length = a.compare traits (ofText s) ∧
          a.spaceshipSized traits s = a.spaceship traits (ofText s)) ∧
      Std.TransCmp (order traits : Zstring CharT → Zstring CharT → Ordering) ∧ ∀ a b : Zstring CharT,
        a.spaceship traits b = some (order traits a b) ∧
          a.equal traits b = some (decide (order traits a b = .eq)) ∧
          (order traits a b = .eq ↔ List.Forall₂ (fun c d => traits.eq c d = true) a.chars b.chars) := by
  have sized (a : Zstring CharT) (s : List CharT) :
      a.compareSized traits s s.length = some (signOf (traits.lexicographic a.chars s)) := by
    have compared := a.compareSized_eq traits s []
    rwa [List.append_nil] at compared
  refine ⟨?_, ?_, ?_, inferInstance, ?_⟩
  · intro a b
    simp only [compare_eq, chars_exact, and_self]
  · intro a s extra
    simp only [compareSized_eq, sized, chars_exact, and_self]
  · intro a s free
    rw [sized, compare_eq, spaceshipSized_eq, spaceship_eq, chars_ofText free]
    exact ⟨rfl, rfl⟩
  · intro a b
    refine ⟨a.spaceship_eq traits b, ?_, traits.lexicographic_eq_iff⟩
    rw [equal, spaceship_eq, Option.map_some]
    rfl

end Zstring

end Stdplus
