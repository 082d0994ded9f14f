import Stdplus.Zstring.Compare

/-! The queries of `std::basic_string_view`, as the standard describes them. -/

namespace Stdplus

variable {CharT : Type}

/-- A pointer with the number of characters that may be read behind it. -/
structure Span (CharT : Type) where
  cells : List CharT
  count : Nat
  inside : count ≤ cells.length

def Span.view (s : Span CharT) : List CharT := s.cells.take s.count

/-- The overloads of `starts_with` and `ends_with`. -/
inductive HasArg (CharT : Type) [Zero CharT] where
  | view (v : List CharT)
  | char (c : CharT)
  | pointer (s : Zstring CharT)

/-- The overloads of the six searches; a position that is left out takes its default. -/
inductive FindArg (CharT : Type) [Zero CharT] where
  | view (v : List CharT) (pos : Option Nat)
  | char (ch : CharT) (pos : Option Nat)
  | counted (s : Span CharT) (pos : Nat)
  | pointer (s : Zstring CharT) (pos : Option Nat)

/-- The overloads of `compare`. -/
inductive CompareArg (CharT : Type) [Zero CharT] where
  | view (v : List CharT)
  | partView (pos1 count1 : Nat) (v : List CharT)
  | partPart (pos1 count1 : Nat) (v : List CharT) (pos2 count2 : Nat)
  | pointer (s : Zstring CharT)
  | partPointer (pos1 count1 : Nat) (s : Zstring CharT)
  | partCounted (pos1 count1 : Nat) (s : Span CharT)

namespace StringView

def npos : Nat := 2 ^ 64 - 1

variable [Zero CharT] (traits : CharTraits CharT)

/-- The characters a pointer stands for, up to what `Traits::length` counts. -/
def ofPointer (s : Zstring CharT) : List CharT := s.cells.takeWhile (fun c => !traits.eq c 0)

/-- `operator==`. -/
def same (text x : List CharT) : Bool := traits.lexicographic text x = .eq

def substr (text : List CharT) (pos count : Nat) : Except StringFault (List CharT) :=
  if text.length < pos then .error (.outOfRange "basic_string_view::substr")
  else .ok ((text.drop pos).take count)

/-- The sign of the number is what the standard fixes. -/
def compare (text : List CharT) : CompareArg CharT → Except StringFault Ordering
  | .view v => .ok (traits.lexicographic text v)
  | .partView pos1 count1 v => do
    let part ← substr text pos1 count1
    .ok (traits.lexicographic part v)
  | .partPart pos1 count1 v pos2 count2 => do
    let part ← substr text pos1 count1
    let other ← substr v pos2 count2
    .ok (traits.lexicographic part other)
  | .pointer s => .ok (traits.lexicographic text (ofPointer traits s))
  | .partPointer pos1 count1 s => do
    let part ← substr text pos1 count1
    .ok (traits.lexicographic part (ofPointer traits s))
  | .partCounted pos1 count1 s => do
    let part ← substr text pos1 count1
    .ok (traits.lexicographic part s.view)

def startsWith (text : List CharT) : HasArg CharT → Bool
  | .view x => same traits (text.take x.length) x
  | .char x => text.head?.any (traits.eq · x)
  | .pointer x => same traits (text.take (ofPointer traits x).length) (ofPointer traits x)

def endsWithView (text x : List CharT) : Bool :=
  x.length ≤ text.length && same traits (text.drop (text.length - x.length)) x

def endsWith (text : List CharT) : HasArg CharT → Bool
  | .view x => endsWithView traits text x
  | .char x => text.getLast?.any (traits.eq · x)
  | .pointer x => endsWithView traits text (ofPointer traits x)

/-- The lowest position from `pos` on that passes. -/
def lowest (text : List CharT) (pos : Nat) (passes : Nat → Bool) : Nat :=
  ((List.range (text.length + 1)).find? (fun xpos => pos ≤ xpos && passes xpos)).getD npos

/-- The highest position up to `pos` that passes. -/
def highest (text : List CharT) (pos : Nat) (passes : Nat → Bool) : Nat :=
  ((List.range (text.length + 1)).reverse.find? (fun xpos => xpos ≤ pos && passes xpos)).getD npos

def occursAt (text str : List CharT) (xpos : Nat) : Bool :=
  xpos + str.length ≤ text.length && same traits ((text.drop xpos).take str.length) str

def oneOf (text str : List CharT) (xpos : Nat) : Bool :=
  text[xpos]?.any (fun c => str.any (traits.eq · c))

def noneOf (text str : List CharT) (xpos : Nat) : Bool :=
  text[xpos]?.any (fun c => !str.any (traits.eq · c))

/-- The overloads of a search all search for a view. -/
def overloads (search : List CharT → Nat → Nat) (start : Nat) : FindArg CharT → Nat
  | .view str pos => search str (pos.getD start)
  | .char c pos => search [c] (pos.getD start)
  | .counted s pos => search s.view pos
  | .pointer s pos => search (ofPointer traits s) (pos.getD start)

def find (text : List CharT) : FindArg CharT → Nat :=
  overloads traits (fun str pos => lowest text pos (occursAt traits text str)) 0

def rfind (text : List CharT) : FindArg CharT → Nat :=
  overloads traits (fun str pos => highest text pos (occursAt traits text str)) npos

def findFirstOf (text : List CharT) : FindArg CharT → Nat :=
  overloads traits (fun str pos => lowest text pos (oneOf traits text str)) 0

def findLastOf (text : List CharT) : FindArg CharT → Nat :=
  overloads traits (fun str pos => highest text pos (oneOf traits text str)) npos

def findFirstNotOf (text : List CharT) : FindArg CharT → Nat :=
  overloads traits (fun str pos => lowest text pos (noneOf traits text str)) 0

def findLastNotOf (text : List CharT) : FindArg CharT → Nat :=
  overloads traits (fun str pos => highest text pos (noneOf traits text str)) npos

end StringView

/-- A query with its arguments, one for each overload. -/
inductive Query (CharT : Type) [Zero CharT] where
  | substr (pos count : Option Nat)
  | compare (a : CompareArg CharT)
  | startsWith (a : HasArg CharT)
  | endsWith (a : HasArg CharT)
  | find (a : FindArg CharT)
  | rfind (a : FindArg CharT)
  | findFirstOf (a : FindArg CharT)
  | findLastOf (a : FindArg CharT)
  | findFirstNotOf (a : FindArg CharT)
  | findLastNotOf (a : FindArg CharT)

inductive Answer (CharT : Type) where
  | part (sub : Except StringFault (List CharT))
  | ordering (o : Except StringFault Ordering)
  | truth (b : Bool)
  | position (n : Nat)

variable [Zero CharT] (traits : CharTraits CharT)

def StringView.ask (text : List CharT) : Query CharT → Answer CharT
  | .substr pos count => .part (substr text (pos.getD 0) (count.getD npos))
  | .compare a => .ordering (compare traits text a)
  | .startsWith a => .truth (startsWith traits text a)
  | .endsWith a => .truth (endsWith traits text a)
  | .find a => .position (find traits text a)
  | .rfind a => .position (rfind traits text a)
  | .findFirstOf a => .position (findFirstOf traits text a)
  | .findLastOf a => .position (findLastOf traits text a)
  | .findFirstNotOf a => .position (findFirstNotOf traits text a)
  | .findLastNotOf a => .position (findLastNotOf traits text a)

namespace StringView

/-- The text begins with characters the traits do not tell from the others. -/
def BeginsWith (text x : List CharT) : Prop :=
  ∃ front rest, text = front ++ rest ∧ List.Forall₂ (fun c d => traits.eq c d = true) front x

def FinishesWith (text x : List CharT) : Prop :=
  ∃ front rest, text = front ++ rest ∧ List.Forall₂ (fun c d => traits.eq c d = true) rest x

omit [Zero CharT] in
theorem same_iff {text x : List CharT} :
    same traits text x = true ↔ List.Forall₂ (fun c d => traits.eq c d = true) text x := by
  rw [same, decide_eq_true_eq, traits.lexicographic_eq_iff]

theorem startsWith_view_iff {text x : List CharT} :
    startsWith traits text (.view x) = true ↔ BeginsWith traits text x := by
  refine (same_iff traits).trans ?_
  constructor
  · intro pairs
    exact ⟨_, _, (List.take_append_drop x.length text).symm, pairs⟩
  · rintro ⟨front, rest, rfl, pairs⟩
    rwa [← pairs.length_eq, List.take_left]

omit [Zero CharT] in
theorem endsWithView_iff {text x : List CharT} : endsWithView traits text x = true ↔ FinishesWith traits text x := by
  rw [endsWithView, Bool.and_eq_true, decide_eq_true_eq, same_iff]
  constructor
  · rintro ⟨_, pairs⟩
    exact ⟨_, _, (List.take_append_drop _ text).symm, pairs⟩
  · rintro ⟨front, rest, rfl, pairs⟩
    have long := pairs.length_eq
    refine ⟨by simp [← long], ?_⟩
    rwa [← long, List.length_append, Nat.add_sub_cancel, List.drop_left]

theorem ofPointer_ofText {text : List CharT} (free : ∀ c ∈ text, traits.eq c 0 = false) :
    ofPointer traits (Zstring.ofText text) = text := by
  simp only [ofPointer, Zstring.ofText]
  rw [List.takeWhile_append_of_pos (by simpa using free), List.takeWhile_cons_of_neg (by simp [traits.eq_refl]),
    List.append_nil]

end StringView

end Stdplus
