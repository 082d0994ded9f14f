import Stdplus.Net.Addr.Ether
import Stdplus.Net.Addr.SockText
import Stdplus.Net.Addr.StrayIn6
import Stdplus.Net.Addr.SubnetText

namespace Stdplus.Net

open Stdplus.Base Stdplus.Numeric

/-- Which texts of addresses are read, and which ones lead out of the table. -/
class StrayAddr (Addr : Type) [TextAddr Addr] where
  Reads : List CharT → Prop
  Strays : List CharT → Prop
  reads_iff : ∀ native sv, (∃ addr : Addr, TextAddr.fromStr native sv = .ok addr) ↔ Reads sv
  strays_iff : ∀ native sv, (TextAddr.fromStr native sv : Except Fault Addr) = .error .outOfBounds ↔ Strays sv

def In4Addr.Reads (sv : List CharT) : Prop := ∃ dotted : Dotted, dotted.render = sv

def In6Addr.Reads (sv : List CharT) : Prop := InGrammar sv ∨ LoneColon sv

def InAnyAddr.Reads (sv : List CharT) : Prop := if ch ':' ∈ sv then In6Addr.Reads sv else In4Addr.Reads sv

def InAnyAddr.Strays (sv : List CharT) : Prop := if ch ':' ∈ sv then In6Addr.Strays sv else In4Addr.Strays sv

theorem map_outOfBounds {Value Other : Type} {outcome : Except Fault Value} {convert : Value → Other} :
    outcome.map convert = .error .outOfBounds ↔ outcome = .error .outOfBounds := by
  cases outcome <;> simp [Except.map]

theorem map_accepted {Value Other : Type} {outcome : Except Fault Value} {convert : Value → Other} :
    (∃ other, outcome.map convert = .ok other) ↔ ∃ value, outcome = .ok value := by
  cases outcome <;> simp [Except.map]

theorem In4Addr.fromStr_accepts_iff (native : ByteOrder) (sv : List CharT) :
    (∃ addr, fromStr native sv = .ok addr) ↔ Reads sv := by
  refine (exists_congr (fromStr_ok_iff native sv)).trans ?_
  constructor
  · rintro ⟨_, dotted, render, _⟩
    exact ⟨dotted, render⟩
  · rintro ⟨dotted, render⟩
    exact ⟨_, dotted, render, rfl⟩

instance : StrayAddr In4Addr where
  Reads := In4Addr.Reads
  Strays := In4Addr.Strays
  reads_iff := In4Addr.fromStr_accepts_iff
  strays_iff := In4Addr.fromStr_strays_iff

instance : StrayAddr In6Addr where
  Reads := In6Addr.Reads
  Strays := In6Addr.Strays
  reads_iff := In6Addr.fromStr_accepts_iff
  strays_iff := In6Addr.fromStr_strays_iff

theorem InAnyAddr.fromStr_accepts_iff (native : ByteOrder) (sv : List CharT) :
    (∃ addr, fromStr native sv = .ok addr) ↔ Reads sv := by
  rw [fromStr, Reads]
  by_cases colon : ch ':' ∈ sv
  · rw [if_neg (fun missing => find_eq_none.mp missing colon), if_pos colon, map_accepted]
    exact In6Addr.fromStr_accepts_iff native sv
  · rw [if_pos (find_eq_none.mpr colon), if_neg colon, map_accepted]
    exact In4Addr.fromStr_accepts_iff native sv

theorem InAnyAddr.fromStr_strays_iff (native : ByteOrder) (sv : List CharT) :
    fromStr native sv = .error .outOfBounds ↔ Strays sv := by
  rw [fromStr, Strays]
  by_cases colon : ch ':' ∈ sv
  · rw [if_neg (fun missing => find_eq_none.mp missing colon), if_pos colon, map_outOfBounds]
    exact In6Addr.fromStr_strays_iff native sv
  · rw [if_pos (find_eq_none.mpr colon), if_neg colon, map_outOfBounds]
    exact In4Addr.fromStr_strays_iff native sv

instance : StrayAddr InAnyAddr where
  Reads := InAnyAddr.Reads
  Strays := InAnyAddr.Strays
  reads_iff := InAnyAddr.fromStr_accepts_iff
  strays_iff := InAnyAddr.fromStr_strays_iff

/-- The address strays, or it is read and the number behind it strays. -/
def NumberedStrays (Addr : Type) [TextAddr Addr] [StrayAddr Addr] (front digits : List CharT) : Prop :=
  StrayAddr.Strays Addr front ∨ StrayAddr.Reads Addr front ∧ Numeric.Strays 10 digits

/-- Behind the last separator stands the number. -/
def CutStrays (sep : CharT) (Addr : Type) [TextAddr Addr] [StrayAddr Addr] (sv : List CharT) : Prop :=
  ∃ front digits, sv = front ++ sep :: digits ∧ sep ∉ digits ∧ NumberedStrays Addr front digits

theorem cutStrays_iff {sep : CharT} {Addr : Type} [TextAddr Addr] [StrayAddr Addr] {front digits : List CharT}
    (absent : sep ∉ digits) : CutStrays sep Addr (front ++ sep :: digits) ↔ NumberedStrays Addr front digits := by
  constructor
  · rintro ⟨other, tail, same, missing, strays⟩
    obtain ⟨rfl, rfl⟩ := append_sep_inj_right absent missing same
    exact strays
  · exact fun strays => ⟨front, digits, rfl, absent, strays⟩

theorem not_cutStrays {sep : CharT} {Addr : Type} [TextAddr Addr] [StrayAddr Addr] {sv : List CharT}
    (absent : sep ∉ sv) : ¬ CutStrays sep Addr sv := by
  rintro ⟨front, digits, rfl, _⟩
  exact absent (by simp)

theorem numbered_strays_iff {Addr Number Result : Type} [TextAddr Addr] [StrayAddr Addr] (native : ByteOrder)
    {parse : List CharT → Except Fault Number}
    (number : ∀ sv, parse sv = .error .outOfBounds ↔ Numeric.Strays 10 sv) {make : Addr → Number → Except Fault Result}
    (made : ∀ addr n, make addr n ≠ .error .outOfBounds) (front digits : List CharT) :
    (do
      let addr ← TextAddr.fromStr native front
      let n ← parse digits
      make addr n) = .error .outOfBounds ↔ NumberedStrays Addr front digits := by
  rw [NumberedStrays, bind_outOfBounds, StrayAddr.strays_iff, ← StrayAddr.reads_iff native]
  simp only [bind_outOfBounds, number]
  refine or_congr_right ?_
  constructor
  · rintro ⟨addr, parsed, strays | ⟨n, _, failed⟩⟩
    · exact ⟨⟨addr, parsed⟩, strays⟩
    · exact absurd failed (made addr n)
  · rintro ⟨⟨addr, parsed⟩, strays⟩
    exact ⟨addr, parsed, .inl strays⟩

theorem portFromStr_strays_iff (sv : List CharT) : portFromStr sv = .error .outOfBounds ↔ Numeric.Strays 10 sv :=
  map_outOfBounds.trans (strToIntUnsigned_strays_iff decimal 16 sv)

theorem Subnet.pfxFromStr_strays_iff (sv : List CharT) :
    pfxFromStr sv = .error .outOfBounds ↔ Numeric.Strays 10 sv :=
  map_outOfBounds.trans (strToIntUnsigned_strays_iff decimal 8 sv)

theorem Subnet.fromStr_strays_iff {Sub Addr : Type} [TextAddr Addr] [StrayAddr Addr] [Subnet Sub Addr]
    (native : ByteOrder) (sv : List CharT) :
    (fromStr native sv : Except Fault Sub) = .error .outOfBounds ↔ CutStrays (ch '/') Addr sv := by
  rcases rfind_cases (ch '/') sv with ⟨missing, absent⟩ | ⟨front, digits, rfl, absent, _⟩
  · rw [fromStr, missing]
    exact iff_of_false (by simp) (not_cutStrays absent)
  · have safe (addr : Addr) (pfx : UInt8) : (make addr pfx : Except Fault Sub) ≠ .error .outOfBounds := by
      by_cases fits : pfx.toNat ≤ TextAddr.addrBits addr
      · obtain ⟨sub, made⟩ := (accepted addr pfx fits : ∃ sub : Sub, make addr pfx = .ok sub)
        simp [made]
      · simp [refused addr pfx (Nat.not_le.mp fits), invalidSubnetPfx]
    rw [fromStr_cut native front absent, cutStrays_iff absent]
    exact numbered_strays_iff native pfxFromStr_strays_iff safe front digits

def Sock4Addr.Strays (sv : List CharT) : Prop := CutStrays (ch ':') In4Addr sv

theorem Sock4Addr.fromStr_strays_iff (native : ByteOrder) (sv : List CharT) :
    fromStr native sv = .error .outOfBounds ↔ Strays sv := by
  rw [fromStr]
  rcases rfind_cases (ch ':') sv with ⟨missing, absent⟩ | ⟨front, digits, rfl, absent, found⟩
  · rw [missing]
    exact iff_of_false (by simp) (not_cutStrays absent)
  · rw [Strays, cutStrays_iff absent, found]
    simp only [take_at_sep, drop_after_sep]
    exact numbered_strays_iff native portFromStr_strays_iff (by simp) front digits

/-- The address stands in brackets. -/
def Sock6Addr.Strays (sv : List CharT) : Prop :=
  ∃ inner digits, sv = ch '[' :: (inner ++ [ch ']']) ++ ch ':' :: digits ∧ ch ':' ∉ digits ∧
    NumberedStrays In6Addr inner digits

theorem brackets_iff {seg : List CharT} : ¬ (seg.head? ≠ some (ch '[') ∨ seg.getLast? ≠ some (ch ']')) ↔
    ∃ inner, seg = ch '[' :: (inner ++ [ch ']']) := by
  rw [not_or, ne_eq, not_not, ne_eq, not_not]
  constructor
  · rintro ⟨first, last⟩
    obtain ⟨front, rfl⟩ := List.getLast?_eq_some_iff.mp last
    cases front with
    | nil => exact absurd first (by decide)
    | cons c inner =>
      obtain rfl : c = ch '[' := by simpa using first
      exact ⟨inner, rfl⟩
  · rintro ⟨inner, rfl⟩
    rw [← List.cons_append, List.getLast?_concat]
    exact ⟨rfl, rfl⟩

theorem Sock6Addr.fromStr_strays_iff (native : ByteOrder) (sv : List CharT) :
    fromStr native sv = .error .outOfBounds ↔ Strays sv := by
  rw [fromStr]
  rcases rfind_cases (ch ':') sv with ⟨missing, absent⟩ | ⟨seg, digits, rfl, absent, found⟩
  · rw [missing]
    refine iff_of_false (by simp) ?_
    rintro ⟨inner, digits, rfl, _⟩
    exact absent (by simp)
  · rw [found]
    simp only [take_at_sep, drop_after_sep]
    by_cases other : seg.head? ≠ some (ch '[') ∨ seg.getLast? ≠ some (ch ']')
    · rw [if_pos other]
      refine iff_of_false (by simp) ?_
      rintro ⟨inner, tail, same, missing, _⟩
      obtain ⟨rfl, _⟩ := append_sep_inj_right absent missing same
      exact brackets_iff.mpr ⟨inner, rfl⟩ other
    · obtain ⟨inner, rfl⟩ := brackets_iff.mp other
      have cut :
          ((ch '[' :: (inner ++ [ch ']'])).drop 1).take ((ch '[' :: (inner ++ [ch ']'])).length - 2) = inner := by
        simp
      rw [if_neg other, cut]
      refine (numbered_strays_iff native portFromStr_strays_iff (by simp) inner digits).trans ?_
      constructor
      · exact fun strays => ⟨inner, digits, rfl, absent, strays⟩
      · rintro ⟨others, tail, same, missing, strays⟩
        obtain ⟨segs, rfl⟩ := append_sep_inj_right absent missing same
        rw [List.cons.injEq, List.append_cancel_right_eq] at segs
        rwa [segs.2]

/-- The first character says which parser reads the text. -/
def SockInAddr.Strays (sv : List CharT) : Prop :=
  if sv.head? = some (ch '[') then Sock6Addr.Strays sv else Sock4Addr.Strays sv

theorem SockInAddr.fromStr_strays_iff (native : ByteOrder) (sv : List CharT) :
    fromStr native sv = .error .outOfBounds ↔ Strays sv := by
  rw [fromStr, Strays]
  split
  · rw [map_outOfBounds, Sock6Addr.fromStr_strays_iff]
  · rw [map_outOfBounds, Sock4Addr.fromStr_strays_iff]

/-- No number is read behind `unix:`. -/
def SockAnyAddr.Strays (sv : List CharT) : Prop :=
  if sv.head? = some (ch '[') then Sock6Addr.Strays sv else ¬ upfx <+: sv ∧ Sock4Addr.Strays sv

theorem SockUAddr.ofPath_inTable (path : List CharT) : ofPath path ≠ .error .outOfBounds := by
  intro failed
  cases path with
  | nil => cases failed
  | cons first rest =>
    rw [ofPath] at failed
    by_cases long : maxLen + (if IsAbstract (first :: rest) then 1 else 0) ≤ (first :: rest).length
    · rw [if_pos long] at failed
      cases failed
    · rw [if_neg long] at failed
      by_cases nul : ¬ IsAbstract (first :: rest) ∧ 0 ∈ first :: rest
      · rw [if_pos nul] at failed
        cases failed
      · rw [if_neg nul] at failed
        cases failed

theorem SockAnyAddr.fromStr_strays_iff (native : ByteOrder) (sv : List CharT) :
    fromStr native sv = .error .outOfBounds ↔ Strays sv := by
  rw [fromStr, Strays]
  split
  · rw [map_outOfBounds, Sock6Addr.fromStr_strays_iff]
  · by_cases unix : upfx <+: sv
    · rw [if_pos unix, map_outOfBounds, SockUAddr.fromStr]
      exact iff_of_false (SockUAddr.ofPath_inTable _) (fun parts => parts.1 unix)
    · rw [if_neg unix, map_outOfBounds, Sock4Addr.fromStr_strays_iff, and_iff_right unix]

/-- The decoder stays in its table, and so do the parsers of addresses, subnets and socket
addresses, exactly as long as no number that is read stops at a character from `0x80` on. -/
theorem parsers_inTable_iff (native : ByteOrder) (sv : List CharT) :
    (∀ (radix : Radix) (bits : Nat), 8 ≤ bits →
        (InTable radix bits sv ↔ ¬ StraysBelow radix.base (2 ^ bits) sv)) ∧
      (In4Addr.fromStr native sv ≠ .error .outOfBounds ↔ ¬ In4Addr.Strays sv) ∧
      (In6Addr.fromStr native sv ≠ .error .outOfBounds ↔ ¬ In6Addr.Strays sv) ∧
      (InAnyAddr.fromStr native sv ≠ .error .outOfBounds ↔ ¬ InAnyAddr.Strays sv) ∧
      (EtherAddr.fromStr sv ≠ .error .outOfBounds ↔ ¬ EtherAddr.Strays sv) ∧
      (Sock4Addr.fromStr native sv ≠ .error .outOfBounds ↔ ¬ Sock4Addr.Strays sv) ∧
      (Sock6Addr.fromStr native sv ≠ .error .outOfBounds ↔ ¬ Sock6Addr.Strays sv) ∧
      (SockInAddr.fromStr native sv ≠ .error .outOfBounds ↔ ¬ SockInAddr.Strays sv) ∧
      (SockAnyAddr.fromStr native sv ≠ .error .outOfBounds ↔ ¬ SockAnyAddr.Strays sv) ∧
      ((Subnet.fromStr native sv : Except Fault Subnet4) ≠ .error .outOfBounds ↔ ¬ CutStrays (ch '/') In4Addr sv) ∧
      ((Subnet.fromStr native sv : Except Fault Subnet6) ≠ .error .outOfBounds ↔ ¬ CutStrays (ch '/') In6Addr sv) ∧
      ((Subnet.fromStr native sv : Except Fault SubnetAny) ≠ .error .outOfBounds ↔
        ¬ CutStrays (ch '/') InAnyAddr sv) :=
  ⟨fun radix _ wide => inTable_iff radix wide sv,
    not_congr (In4Addr.fromStr_strays_iff native sv),
    not_congr (In6Addr.fromStr_strays_iff native sv),
    not_congr (InAnyAddr.fromStr_strays_iff native sv),
    not_congr (EtherAddr.fromStr_strays_iff sv),
    not_congr (Sock4Addr.fromStr_strays_iff native sv),
    not_congr (Sock6Addr.fromStr_strays_iff native sv),
    not_congr (SockInAddr.fromStr_strays_iff native sv),
    not_congr (SockAnyAddr.fromStr_strays_iff native sv),
    not_congr (Subnet.fromStr_strays_iff native sv),
    not_congr (Subnet.fromStr_strays_iff native sv),
    not_congr (Subnet.fromStr_strays_iff native sv)⟩

/-- A single character from the upper half leads every parser out of the table. -/
theorem parsers_highByte : ¬ InTable decimal 64 [0x80] ∧ In4Addr.fromStr .little [0x80] = .error .outOfBounds ∧
    In6Addr.fromStr .little [0x80] = .error .outOfBounds ∧ EtherAddr.fromStr [0x80] = .error .outOfBounds := by
  refine ⟨?_, by decide +kernel, by decide +kernel, by decide +kernel⟩
  rintro ⟨inside, _⟩
  exact inside (by decide +kernel)

end Stdplus.Net
