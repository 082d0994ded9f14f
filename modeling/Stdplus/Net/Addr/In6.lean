import Stdplus.Net.Addr.In4

namespace Stdplus.Net

open Stdplus.Base Stdplus.Numeric

structure In6Addr where
  s6_addr : List UInt8
  size : s6_addr.length = 16
deriving DecidableEq

namespace In6Addr

/-- `In6Addr ret = {}`. -/
def zero : In6Addr := ⟨List.replicate 16 0, rfl⟩

def hextet (native : ByteOrder) (addr : In6Addr) (i : Fin 8) : Nat :=
  decode native ((addr.s6_addr.drop (2 * i)).take 2)

def setHextet (native : ByteOrder) (addr : In6Addr) (i : Fin 8) (v : Nat) : In6Addr :=
  ⟨overwrite addr.s6_addr (2 * i) (encode native 2 v), by simp [addr.size]⟩

def word (native : ByteOrder) (addr : In6Addr) (i : Fin 4) : Nat :=
  decode native ((addr.s6_addr.drop (4 * i)).take 4)

def setWord (native : ByteOrder) (addr : In6Addr) (i : Fin 4) (v : Nat) : In6Addr :=
  ⟨overwrite addr.s6_addr (4 * i) (encode native 4 v), by simp [addr.size]⟩

/-- `loc + 1`, which wraps around to 0 for `npos`. -/
def succLoc (loc : Option Nat) : Nat :=
  match loc with
  | none => 0
  | some loc => loc + 1

/-- How the forward loop is left: by a `return`, or by its condition or `break`. -/
inductive Forward where
  | returned (ret : In6Addr)
  | done (i : Nat) (sv : List CharT) (ret : In6Addr)

theorem behind_shorter (sep : CharT) {sv : List CharT} (filled : ¬ sv.isEmpty = true) :
    (behind (find sep sv) sv).length < sv.length := by
  have positive : 0 < sv.length := List.length_pos_of_ne_nil (by simpa using filled)
  cases find sep sv with
  | none => simpa [behind] using positive
  | some loc =>
    simp only [behind, List.length_drop]
    omega

/-- The `while (i < 8)` loop. -/
def fromStrForward (native : ByteOrder) (i : Nat) (sv : List CharT) (ret : In6Addr) :
    Except Fault Forward :=
  if more : i < 8 then
    let loc := find (ch ':') sv
    if i = 6 ∧ loc = none then do
      let v4 ← In4Addr.fromStr native sv
      .ok (.returned (ret.setWord native 3 (v4.word native)))
    else do
      let (i, ret) ←
        if loc ≠ some 0 ∧ ¬ sv.isEmpty then do
          let group ← strToIntUnsigned (some hexadecimal) 16 (before loc sv)
          Except.ok (i + 1, ret.setHextet native ⟨i, more⟩ (hton native 2 group))
        else
          Except.ok (i, ret)
      if i < 8 ∧ succLoc loc < sv.length ∧ sv[succLoc loc]? = some (ch ':') then
        .ok (.done i (sv.drop (succLoc loc + 1)) ret)
      else if sv.isEmpty then
        .error (.invalidArgument "IPv6 Data")
      else
        fromStrForward native i (behind loc sv) ret
  else
    .ok (.done i sv ret)
termination_by sv.length
decreasing_by exact behind_shorter _ (by assumption)

/-- The `while (!sv.empty() && j > i)` loop. -/
def fromStrBackward (native : ByteOrder) (i : Nat) (j : Fin 8) (sv : List CharT) (ret : In6Addr) :
    Except Fault (List CharT × In6Addr) :=
  if more : ¬ sv.isEmpty ∧ i < j.val then do
    let loc := rfind (ch ':') sv
    let group ← strToIntUnsigned (some hexadecimal) 16 (lastPart loc sv)
    fromStrBackward native i ⟨j.val - 1, by omega⟩ (initPart loc sv)
      (ret.setHextet native j (hton native 2 group))
  else
    .ok (sv, ret)
termination_by j.val
decreasing_by omega

/-- The backward loop and the check of what it left. -/
def fromStrFinish (native : ByteOrder) (i : Nat) (j : Fin 8) (sv : List CharT) (ret : In6Addr) :
    Except Fault In6Addr := do
  let (sv, ret) ← fromStrBackward native i j sv ret
  if sv.isEmpty then .ok ret else .error (.invalidArgument "Too much data")

/-- What follows the forward loop. -/
def fromStrRest (native : ByteOrder) (i : Nat) (sv : List CharT) (ret : In6Addr) :
    Except Fault In6Addr :=
  if sv.head? = some (ch ':') then
    .error (.invalidArgument "Extra separator")
  else if ¬ sv.isEmpty ∧ i < 6 ∧ find (ch '.') sv ≠ none then do
    let loc := rfind (ch ':') sv
    let v4 ← In4Addr.fromStr native (lastPart loc sv)
    fromStrFinish native i 5 (initPart loc sv) (ret.setWord native 3 (v4.word native))
  else
    fromStrFinish native i 7 sv ret

/-- `FromStr<In6Addr>`. -/
def fromStr (native : ByteOrder) (sv : List CharT) : Except Fault In6Addr := do
  match ← fromStrForward native 0 sv zero with
  | .returned ret => .ok ret
  | .done i sv ret => fromStrRest native i sv ret

def isMapped (native : ByteOrder) (v : In6Addr) : Bool :=
  v.word native 0 = 0 ∧ v.word native 1 = 0 ∧ v.hextet native 4 = 0 ∧ v.hextet native 5 = 0xffff

/-- `in_addr{v.word(3)}`. -/
def mappedAddr (native : ByteOrder) (v : In6Addr) : In4Addr := In4Addr.ofWord native (v.word native 3)

end In6Addr

/-- A nonempty string of hex digits of value at most `0xffff`. -/
structure Group where
  text : List CharT
  numeral : IsNumeral 16 text
  small : numeralValue 16 text < 2 ^ 16

def Group.value (group : Group) : Nat := numeralValue 16 group.text

def Group.bytes (group : Group) : List UInt8 := encode .big 2 group.value

/-- The three shapes of an IPv6 text, each with its count of groups; a dotted
tail counts as two. -/
inductive In6Text where
  | full (groups : List Group) (count : groups.length = 8)
  | tailed (groups : List Group) (tail : Dotted) (count : groups.length = 6)
  | gapped (left right : List Group) (tail : Option Dotted)
      (room : left.length + right.length + (if tail.isSome then 2 else 0) ≤ 7)

namespace In6Text

def segments (right : List Group) (tail : Option Dotted) : List (List CharT) :=
  right.map Group.text ++ (tail.map Dotted.render).toList

def tailBytes (tail : Option Dotted) : List UInt8 := (tail.map Dotted.bytes).getD []

def render : In6Text → List CharT
  | full groups _ => joined (ch ':') (groups.map Group.text)
  | tailed groups tail _ => joined (ch ':') (segments groups (some tail))
  | gapped left right tail _ =>
    joined (ch ':') (left.map Group.text) ++ ch ':' :: ch ':' :: joined (ch ':') (segments right tail)

/-- The groups left of the gap from the first byte, the groups and the dotted
tail right of it up to the last byte, and zeros between them. -/
def bytes : In6Text → List UInt8
  | full groups _ => groups.flatMap Group.bytes
  | tailed groups tail _ => groups.flatMap Group.bytes ++ tail.bytes
  | gapped left right tail _ =>
    left.flatMap Group.bytes ++
      List.replicate (16 - 2 * left.length - 2 * right.length - (tailBytes tail).length) 0 ++
      (right.flatMap Group.bytes ++ tailBytes tail)

end In6Text

theorem Dotted.bytes_length (dotted : Dotted) : dotted.bytes.length = 4 := by
  simp [Dotted.bytes, dotted.count]

@[simp] theorem groupBytes_length (groups : List Group) :
    (groups.flatMap Group.bytes).length = 2 * groups.length := by
  induction groups with
  | nil => rfl
  | cons group groups ih =>
    simp only [List.flatMap_cons, List.length_append, ih, Group.bytes, encode_length,
      List.length_cons]
    omega

theorem tailBytes_length (tail : Option Dotted) :
    (In6Text.tailBytes tail).length = if tail.isSome then 4 else 0 := by
  cases tail with
  | none => rfl
  | some dotted => exact dotted.bytes_length

theorem In6Text.bytes_length (text : In6Text) : text.bytes.length = 16 := by
  cases text with
  | full groups count => rw [In6Text.bytes, groupBytes_length, count]
  | tailed groups tail count =>
    rw [In6Text.bytes, List.length_append, groupBytes_length, count, tail.bytes_length]
  | gapped left right tail room =>
    have tailed := tailBytes_length tail
    simp only [In6Text.bytes, List.length_append, groupBytes_length, List.length_replicate, tailed]
    cases tail with
    | none =>
      simp only [Option.isSome_none, Bool.false_eq_true, if_false] at room ⊢
      omega
    | some dotted =>
      simp only [Option.isSome_some, if_true] at room ⊢
      omega

def In6Text.addr (text : In6Text) : In6Addr := ⟨text.bytes, text.bytes_length⟩

/-- The strings of the IPv6 text grammar. -/
def InGrammar (sv : List CharT) : Prop := ∃ text : In6Text, text.render = sv

end Stdplus.Net
