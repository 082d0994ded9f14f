import Stdplus.Numeric.Stray

namespace Stdplus.Net

open Stdplus.Base Stdplus.Numeric

structure EtherAddr where
  ether_addr_octet : List UInt8
  size : ether_addr_octet.length = 6
deriving DecidableEq

namespace EtherAddr

/-- `EtherAddr ret;`. -/
def zero : EtherAddr := ⟨List.replicate 6 0, rfl⟩

def setOctet (addr : EtherAddr) (i : Fin 6) (v : UInt8) : EtherAddr :=
  ⟨addr.ether_addr_octet.set i v, by simp [addr.size]⟩

/-- `StrToInt<16, std::uint8_t>`. -/
def sti (sv : List CharT) : Except Fault UInt8 := (strToIntUnsigned (some hexadecimal) 8 sv).map UInt8.ofNat

def fromStrPairs (i : Nat) (sv : List CharT) (ret : EtherAddr) : Except Fault EtherAddr :=
  if more : i < 6 then do
    let octet ← sti ((sv.drop (i * 2)).take 2)
    fromStrPairs (i + 1) sv (ret.setOctet ⟨i, more⟩ octet)
  else
    .ok ret
termination_by 6 - i

/-- The loop over the first five octets that each have a separator behind them. -/
def fromStrLoop (i : Nat) (sv : List CharT) (ret : EtherAddr) : Except Fault (List CharT × EtherAddr) :=
  if more : i < 5 then do
    let loc := find (ch ':') sv
    let octet ← sti (before loc sv)
    let sv := behind loc sv
    if sv.isEmpty then .error (.invalidArgument "Missing mac data")
    else fromStrLoop (i + 1) sv (ret.setOctet ⟨i, by omega⟩ octet)
  else
    .ok (sv, ret)
termination_by 5 - i

/-- `FromStr<EtherAddr>`. -/
def fromStr (sv : List CharT) : Except Fault EtherAddr :=
  if sv.length = 12 ∧ find (ch ':') sv = none then
    fromStrPairs 0 sv zero
  else do
    let (sv, ret) ← fromStrLoop 0 sv zero
    let octet ← sti sv
    .ok (ret.setOctet 5 octet)

/-- `ToStr<EtherAddr>::buf_size`. -/
def bufSize : Nat := 15 + intToStrBufSize hexadecimal (2 ^ 8 - 1) false

/-- `ToHex{}(ptr, octet, 2)`. -/
def toHex (octet : UInt8) : Writer CharT := uintToStr hexadecimal octet.toNat 2

def toStrSeps (last ptr : Nat) (buffer : OutBuffer CharT) : OutBuffer CharT :=
  if ptr < last then toStrSeps last (ptr + 3) (buffer.store ptr (ch ':')) else buffer
termination_by last - ptr

def toStrOctets : List UInt8 → Nat → OutBuffer CharT → OutBuffer CharT
  | [], _, buffer => buffer
  | octet :: rest, ptr, buffer => toStrOctets rest (ptr + 3) (toHex octet ptr buffer).2

/-- `ToStr<EtherAddr>`. -/
def toStr (v : EtherAddr) : Writer CharT := fun buf buffer =>
  (buf + bufSize, toStrOctets v.ether_addr_octet buf (toStrSeps (buf + bufSize) (buf + 2) buffer))

/-- A nonempty string of hex digits of value at most `0xff`. -/
def IsHexOctet (text : List CharT) : Prop := IsNumeral 16 text ∧ numeralValue 16 text < 256

def hexValue (text : List CharT) : UInt8 := UInt8.ofNat (numeralValue 16 text)

def pairs (text : List CharT) : List (List CharT) := (List.range 6).map fun i => (text.drop (i * 2)).take 2

/-- Twelve digits, or six groups of digits with separators between them. -/
inductive IsText (text : List CharT) (octets : List UInt8) : Prop where
  | digits (count : text.length = 12) (valid : ∀ c ∈ text, IsDigit 16 c) (values : octets = (pairs text).map hexValue)
  | separated (groups : List (List CharT)) (count : groups.length = 6) (valid : ∀ group ∈ groups, IsHexOctet group)
      (render : text = joined (ch ':') groups) (values : octets = groups.map hexValue)

theorem sti_ok_iff (sv : List CharT) (octet : UInt8) : sti sv = .ok octet ↔ IsHexOctet sv ∧ hexValue sv = octet := by
  have decoded (n : Nat) : strToIntUnsigned (some hexadecimal) 8 sv = .ok n ↔ _ :=
    strToIntUnsigned_ok_iff hexadecimal (by decide) sv n
  rw [sti]
  cases outcome : strToIntUnsigned (some hexadecimal) 8 sv with
  | error fault =>
    refine iff_of_false (by simp [Except.map]) ?_
    rintro ⟨⟨numeral, below⟩, _⟩
    have accepted := (decoded _).mpr ⟨numeral, rfl, below⟩
    rw [outcome] at accepted
    cases accepted
  | ok n =>
    obtain ⟨numeral, rfl, below⟩ := (decoded n).mp outcome
    rw [Except.map, Except.ok.injEq]
    exact (and_iff_right ⟨numeral, below⟩).symm

theorem IsHexOctet.colon_not_mem {text : List CharT} (octet : IsHexOctet text) : ch ':' ∉ text :=
  octet.1.not_mem (by decide)

/-- The first octets are in place, the others still zero. -/
structure Holds (ret : EtherAddr) (front : List UInt8) : Prop where
  room : front.length ≤ 6
  content : ret.ether_addr_octet = front ++ List.replicate (6 - front.length) 0

theorem zero_holds : zero.Holds [] := ⟨by simp, rfl⟩

theorem Holds.setOctet {ret : EtherAddr} {front : List UInt8} (held : ret.Holds front) {i : Fin 6}
    (place : front.length = i.val) (v : UInt8) : (ret.setOctet i v).Holds (front ++ [v]) where
  room := by
    simp only [List.length_append, List.length_singleton]
    omega
  content := by
    obtain ⟨count, more⟩ := Nat.exists_eq_succ_of_ne_zero (show 6 - front.length ≠ 0 by omega)
    rw [EtherAddr.setOctet]
    simp only [held.content, ← place, more, List.replicate_succ, List.length_append, List.length_singleton]
    rw [List.set_append_right _ _ (Nat.le_refl _), Nat.sub_self, List.set_cons_zero, List.append_assoc,
      show 6 - (front.length + 1) = count by omega]
    rfl

theorem Holds.full {ret : EtherAddr} {front : List UInt8} (held : ret.Holds front) (full : front.length = 6) :
    ret.ether_addr_octet = front := by
  rw [held.content, full, Nat.sub_self, List.replicate_zero, List.append_nil]

private theorem fromStrPairs_ok_iff {i : Nat} {sv : List CharT} {ret addr : EtherAddr} {front : List UInt8}
    (held : ret.Holds front) (place : front.length = i) (within : i ≤ 6) :
    fromStrPairs i sv ret = .ok addr ↔ (∀ pair ∈ (pairs sv).drop i, IsHexOctet pair) ∧
      addr.ether_addr_octet = front ++ ((pairs sv).drop i).map hexValue := by
  have size : (pairs sv).length = 6 := by simp [pairs]
  induction turns : 6 - i generalizing i ret front with
  | zero =>
    obtain rfl : i = 6 := by omega
    rw [fromStrPairs, dif_neg (by decide), List.drop_eq_nil_of_le (by omega)]
    have content := held.full place
    simp only [List.not_mem_nil, false_implies, implies_true, true_and, List.map_nil, List.append_nil, Except.ok.injEq]
    constructor
    · rintro rfl
      exact content
    · intro same
      cases ret
      cases addr
      exact (mk.injEq ..).mpr (content.trans same.symm)
  | succ turns ih =>
    have more : i < 6 := by omega
    have first : (pairs sv).drop i = (sv.drop (i * 2)).take 2 :: (pairs sv).drop (i + 1) := by
      rw [List.drop_eq_getElem_cons (by omega)]
      simp [pairs]
    rw [fromStrPairs, dif_pos more, first, List.forall_mem_cons, List.map_cons]
    cases outcome : sti ((sv.drop (i * 2)).take 2) with
    | error fault =>
      refine iff_of_false (by simp [bind, Except.bind]) ?_
      rintro ⟨⟨octet, _⟩, _⟩
      have accepted := (sti_ok_iff _ _).mpr ⟨octet, rfl⟩
      rw [outcome] at accepted
      cases accepted
    | ok octet =>
      obtain ⟨valid, rfl⟩ := (sti_ok_iff _ _).mp outcome
      have next := ih (held.setOctet (i := ⟨i, more⟩) place (hexValue ((sv.drop (i * 2)).take 2))) (by simp [place])
        more (by omega)
      refine next.trans ?_
      rw [and_iff_right valid, List.append_assoc]
      rfl

theorem pair_valid_iff (a b : CharT) : IsHexOctet [a, b] ↔ IsDigit 16 a ∧ IsDigit 16 b := by
  constructor
  · rintro ⟨numeral, _⟩
    exact ⟨numeral.2 a (by simp), numeral.2 b (by simp)⟩
  · rintro ⟨⟨high, highValue, highSmall⟩, ⟨low, lowValue, lowSmall⟩⟩
    refine ⟨⟨by simp, ?_⟩, ?_⟩
    · rintro c member
      rcases List.mem_pair.mp member with rfl | rfl
      · exact ⟨high, highValue, highSmall⟩
      · exact ⟨low, lowValue, lowSmall⟩
    · simp only [numeralValue, List.foldl_cons, List.foldl_nil, numeralStep, highValue, lowValue, Option.getD_some]
      omega

private theorem pairs_valid_iff {sv : List CharT} (count : sv.length = 12) :
    (∀ pair ∈ pairs sv, IsHexOctet pair) ↔ ∀ c ∈ sv, IsDigit 16 c := by
  match sv, count with
  | [c0, c1, c2, c3, c4, c5, c6, c7, c8, c9, c10, c11], _ =>
    have cut : pairs [c0, c1, c2, c3, c4, c5, c6, c7, c8, c9, c10, c11] =
        [[c0, c1], [c2, c3], [c4, c5], [c6, c7], [c8, c9], [c10, c11]] := rfl
    rw [cut]
    simp only [List.forall_mem_cons, pair_valid_iff, List.not_mem_nil, false_implies, implies_true, and_true,
      and_assoc]

private theorem fromStrLoop_turn {i : Nat} (more : i < 5) (sv : List CharT) (ret : EtherAddr)
    (result : List CharT × EtherAddr) : fromStrLoop i sv ret = .ok result ↔
      ∃ group rest, IsHexOctet group ∧ sv = group ++ ch ':' :: rest ∧ rest ≠ [] ∧
        fromStrLoop (i + 1) rest (ret.setOctet ⟨i, by omega⟩ (hexValue group)) = .ok result := by
  rw [fromStrLoop, dif_pos more]
  rcases find_cases (ch ':') sv with ⟨missing, absent⟩ | ⟨front, rest, rfl, absent, found⟩
  · refine iff_of_false ?_ ?_
    · simp only [missing, before, behind]
      cases sti sv <;> simp [bind, Except.bind]
    · rintro ⟨group, rest, _, rfl, _⟩
      exact absent (by simp)
  · simp only [found, before, behind, take_at_sep, drop_after_sep]
    have same (group tail : List CharT) (valid : IsHexOctet group)
        (cut : front ++ ch ':' :: rest = group ++ ch ':' :: tail) : front = group ∧ rest = tail :=
      append_sep_inj absent valid.colon_not_mem cut
    cases outcome : sti front with
    | error fault =>
      refine iff_of_false (by simp [bind, Except.bind]) ?_
      rintro ⟨group, tail, valid, cut, _⟩
      obtain ⟨rfl, rfl⟩ := same group tail valid cut
      have accepted := (sti_ok_iff front _).mpr ⟨valid, rfl⟩
      rw [outcome] at accepted
      cases accepted
    | ok octet =>
      obtain ⟨valid, rfl⟩ := (sti_ok_iff front octet).mp outcome
      simp only [bind, Except.bind]
      constructor
      · intro accepted
        split at accepted
        · cases accepted
        · rename_i filled
          exact ⟨front, rest, valid, rfl, by simpa using filled, accepted⟩
      · rintro ⟨group, tail, other, cut, filled, accepted⟩
        obtain ⟨rfl, rfl⟩ := same group tail other cut
        rw [if_neg (by simpa using filled)]
        exact accepted

private theorem fromStrLoop_ok_iff {i : Nat} {sv rest : List CharT} {ret addr : EtherAddr} {front : List UInt8}
    (held : ret.Holds front) (place : front.length = i) (within : i ≤ 5) (filled : rest ≠ []) :
    fromStrLoop i sv ret = .ok (rest, addr) ↔ ∃ groups : List (List CharT), groups.length = 5 - i ∧
      (∀ group ∈ groups, IsHexOctet group) ∧ sv = groups.flatMap (· ++ [ch ':']) ++ rest ∧
      addr.Holds (front ++ groups.map hexValue) := by
  induction turns : 5 - i generalizing i sv ret front with
  | zero =>
    rw [fromStrLoop, dif_neg (by omega)]
    constructor
    · intro accepted
      cases accepted
      exact ⟨[], rfl, by simp, by simp, by simpa using held⟩
    · rintro ⟨groups, none_left, _, rfl, holds⟩
      obtain rfl : groups = [] := List.eq_nil_of_length_eq_zero none_left
      have same : ret.ether_addr_octet = addr.ether_addr_octet := by
        rw [held.content, holds.content, List.map_nil, List.append_nil]
      cases ret
      cases addr
      obtain rfl := same
      rfl
  | succ turns ih =>
    have more : i < 5 := by omega
    have next (group : List CharT) := held.setOctet (i := ⟨i, by omega⟩) place (hexValue group)
    rw [fromStrLoop_turn more]
    constructor
    · rintro ⟨group, tail, valid, rfl, _, accepted⟩
      obtain ⟨groups, count, all_valid, rfl, holds⟩ :=
        (ih (next group) (by simp [place]) more (by omega)).mp accepted
      refine ⟨group :: groups, by simp [count], List.forall_mem_cons.mpr ⟨valid, all_valid⟩, by simp, ?_⟩
      rwa [List.append_assoc] at holds
    · rintro ⟨groups, count, all_valid, rfl, holds⟩
      cases groups with
      | nil => simp at count
      | cons group groups =>
        obtain ⟨valid, others⟩ := List.forall_mem_cons.mp all_valid
        refine ⟨group, groups.flatMap (· ++ [ch ':']) ++ rest, valid, by simp, by simp [filled], ?_⟩
        refine (ih (next group) (by simp [place]) more (by omega)).mpr
          ⟨groups, by simpa using count, others, rfl, ?_⟩
        rwa [List.append_assoc]

private theorem find_colon_digits {sv : List CharT} (valid : ∀ c ∈ sv, IsDigit 16 c) : find (ch ':') sv = none := by
  refine find_eq_none.mpr fun member => ?_
  obtain ⟨digit, value, _⟩ := valid _ member
  exact absurd value (by simp [show digitValue (ch ':') = none by decide])

private theorem colon_mem_joined {groups : List (List CharT)} (count : groups.length = 6) :
    ch ':' ∈ joined (ch ':') groups := by
  match groups with
  | group :: next :: rest =>
    rw [joined_cons group (by simp)]
    simp

theorem fromStr_ok_iff (sv : List CharT) (addr : EtherAddr) :
    fromStr sv = .ok addr ↔ IsText sv addr.ether_addr_octet := by
  rw [fromStr]
  split
  · rename_i plain
    obtain ⟨count, missing⟩ := plain
    rw [fromStrPairs_ok_iff (i := 0) zero_holds rfl (by decide), List.drop_zero, pairs_valid_iff count,
      List.nil_append]
    constructor
    · rintro ⟨valid, values⟩
      exact .digits count valid values
    · rintro (⟨_, valid, values⟩ | ⟨groups, six, _, rfl, _⟩)
      · exact ⟨valid, values⟩
      · exact absurd (colon_mem_joined six) (find_eq_none.mp missing)
  · rename_i split
    have last (groups : List (List CharT)) (group : List CharT) :
        joined (ch ':') (groups ++ [group]) = groups.flatMap (· ++ [ch ':']) ++ group := joined_concat _ _ _
    constructor
    · intro accepted
      cases looped : fromStrLoop 0 sv zero with
      | error fault => simp [looped, bind, Except.bind] at accepted
      | ok state =>
        obtain ⟨rest, ret⟩ := state
        rw [looped] at accepted
        cases outcome : sti rest with
        | error fault => simp [outcome, bind, Except.bind] at accepted
        | ok octet =>
          obtain ⟨valid, rfl⟩ := (sti_ok_iff rest octet).mp outcome
          obtain ⟨groups, count, all_valid, rfl, holds⟩ :=
            (fromStrLoop_ok_iff (i := 0) zero_holds rfl (by decide) valid.1.1).mp looped
          have five : (groups.map hexValue).length = 5 := by rw [List.length_map, count]
          rw [List.nil_append] at holds
          have whole := (holds.setOctet (i := 5) five (hexValue rest)).full (by simp [five])
          simp only [outcome, bind, Except.bind, Except.ok.injEq] at accepted
          refine .separated (groups ++ [rest]) (by simp [count]) ?_ (last groups rest).symm ?_
          · intro group member
            rcases List.mem_append.mp member with early | late
            · exact all_valid group early
            · rw [List.mem_singleton.mp late]
              exact valid
          · rw [← accepted, whole, List.map_append]
            rfl
    · rintro (⟨count, valid, _⟩ | ⟨all, six, valid, rfl, values⟩)
      · exact absurd ⟨count, find_colon_digits valid⟩ split
      · rcases List.eq_nil_or_concat all with rfl | ⟨groups, group, rfl⟩
        · simp at six
        · rw [List.concat_eq_append] at six valid values ⊢
          have count : groups.length = 5 := by simpa using six
          have octet : IsHexOctet group := valid group (by simp)
          obtain ⟨filled, holds⟩ : ∃ filled : EtherAddr, filled.Holds (groups.map hexValue) := by
            refine ⟨⟨groups.map hexValue ++ [0], by simp [count]⟩, by simp [count], ?_⟩
            simp [count]
          have looped : fromStrLoop 0 (joined (ch ':') (groups ++ [group])) zero = .ok (group, filled) :=
            (fromStrLoop_ok_iff zero_holds rfl (by decide) octet.1.1).mpr
              ⟨groups, count, fun other member => valid other (by simp [member]), last groups group, holds⟩
          have read := (sti_ok_iff group _).mpr ⟨octet, rfl⟩
          have whole := (holds.setOctet (i := 5) (by simp [count]) (hexValue group)).full (by simp [count])
          simp only [looped, read, bind, Except.bind, Except.ok.injEq]
          have same : (filled.setOctet 5 (hexValue group)).ether_addr_octet = addr.ether_addr_octet := by
            rw [whole, values, List.map_append]
            rfl
          cases addr
          exact (mk.injEq ..).mpr same

/-- At most five octets with their separators, and behind them a number that strays. -/
def Strays (sv : List CharT) : Prop := StraysBehind IsHexOctet (ch ':') 16 5 sv

theorem octetParser : PieceParser IsHexOctet 16 sti where
  accepts text := by
    simp only [sti_ok_iff]
    constructor
    · rintro ⟨_, octet, _⟩
      exact octet
    · exact fun octet => ⟨_, octet, rfl⟩
  strays text := by
    refine Iff.trans ?_ (strToIntUnsigned_strays_iff hexadecimal 8 text)
    rw [sti]
    cases strToIntUnsigned (some hexadecimal) 8 text <;> simp [Except.map]

private theorem loop_strays {i : Nat} (within : i ≤ 5) (sv : List CharT) (ret : EtherAddr) :
    (fromStrLoop i sv ret >>= fun state => do
        let octet ← sti state.1
        .ok (state.2.setOctet 5 octet)) = .error .outOfBounds ↔
      StraysBehind IsHexOctet (ch ':') 16 (5 - i) sv := by
  induction turns : 5 - i generalizing i sv ret with
  | zero =>
    rw [fromStrLoop, dif_neg (by omega), straysBehind_zero, ← octetParser.strays]
    change (sti sv >>= fun octet => .ok (ret.setOctet 5 octet)) = _ ↔ _
    rw [bind_outOfBounds]
    simp
  | succ turns ih =>
    have more : i < 5 := by omega
    rw [fromStrLoop, dif_pos more]
    exact turn_strays octetParser (by decide) (by decide) (fun piece octet => octet.colon_not_mem)
      (fun octet rest => ih more rest (ret.setOctet ⟨i, by omega⟩ octet) (by omega)) "Missing mac data" sv

private theorem pairs_strays {i : Nat} (within : i ≤ 6) {sv : List CharT} (count : sv.length = 12) (ret : EtherAddr) :
    fromStrPairs i sv ret = .error .outOfBounds ↔ Numeric.Strays 16 (sv.drop (i * 2)) := by
  induction turns : 6 - i generalizing i ret with
  | zero =>
    obtain rfl : i = 6 := by omega
    rw [fromStrPairs, dif_neg (by decide), List.drop_eq_nil_of_le (by omega)]
    exact iff_of_false (by simp) not_strays_nil
  | succ turns ih =>
    have more : i < 6 := by omega
    have later (octet : UInt8) := ih more (ret.setOctet ⟨i, more⟩ octet) (by omega)
    have length : (sv.drop (i * 2)).length = 12 - i * 2 := by rw [List.length_drop, count]
    have next : sv.drop ((i + 1) * 2) = (sv.drop (i * 2)).drop 2 := by
      rw [List.drop_drop]
      congr 1
      omega
    obtain ⟨a, behind_a, first⟩ := List.exists_cons_of_length_pos (l := sv.drop (i * 2)) (by omega)
    rw [first, List.length_cons] at length
    obtain ⟨b, text, rfl⟩ := List.exists_cons_of_length_pos (l := behind_a) (by omega)
    rw [List.length_cons] at length
    rw [next, first] at later
    have both : Numeric.Strays 16 (a :: b :: text) ↔
        Numeric.Strays 16 [a, b] ∨ IsHexOctet [a, b] ∧ Numeric.Strays 16 text := by
      rw [strays_cons a (by simp; omega), strays_cons b (by omega), strays_cons a (by simp),
        strays_cons b (by simp), pair_valid_iff]
      have empty : ¬ Numeric.Strays 16 [] := not_strays_nil
      by_cases high : IsDigit 16 a
      · by_cases low : IsDigit 16 b <;> simp [high, low, empty]
      · simp [high]
    rw [fromStrPairs, dif_pos more, first, both, ← octetParser.strays, ← octetParser.accepts, bind_outOfBounds]
    simp only [List.take_succ_cons, List.take_zero, later, List.drop_succ_cons, List.drop_zero]
    refine or_congr_right ?_
    constructor
    · rintro ⟨octet, accepted, strays⟩
      exact ⟨⟨octet, accepted⟩, strays⟩
    · rintro ⟨⟨octet, accepted⟩, strays⟩
      exact ⟨octet, accepted, strays⟩

theorem fromStr_strays_iff (sv : List CharT) : fromStr sv = .error .outOfBounds ↔ Strays sv := by
  rw [fromStr]
  split
  · rename_i plain
    rw [Strays, straysBehind_uncut (find_eq_none.mp plain.2)]
    exact pairs_strays (by decide) plain.1 zero
  · exact loop_strays (by decide) sv zero

/-- On 7-bit characters the parser throws one of its two exceptions or returns. -/
theorem fromStr_thrown {sv : List CharT} (ascii : Ascii sv) {fault : Fault} (failed : fromStr sv = .error fault) :
    fault.Thrown := by
  rw [Fault.thrown_iff]
  rintro rfl
  exact ascii.not_straysBehind ((fromStr_strays_iff sv).mp failed)

def hexPair (octet : UInt8) : List CharT :=
  [ch (octet.toNat / 16).digitChar, ch (octet.toNat % 16).digitChar]

def text (addr : EtherAddr) : List CharT := joined (ch ':') (addr.ether_addr_octet.map hexPair)

private theorem numeral_hexPair : ∀ v, v < 256 →
    numeral hexadecimal v 2 = [ch (v / 16).digitChar, ch (v % 16).digitChar] := by
  decide +kernel

private theorem blocks_hexPair : ∀ v, v < 256 → max (blockDigits 16 1 v).length 2 = 2 := by
  decide +kernel

theorem toHex_emits (octet : UInt8) : Emits (toHex octet) (hexPair octet) 2 := by
  have emits := uintToStr_emits hexadecimal octet.toNat 2
  change Emits _ _ (max (blockDigits 16 1 octet.toNat).length 2) at emits
  rwa [numeral_hexPair _ octet.toNat_lt, blocks_hexPair _ octet.toNat_lt] at emits

theorem toHex_confined (octet : UInt8) : Confined (toHex octet) 2 2 := by
  have confined := uintToStr_confined hexadecimal octet.toNat 2
  change Confined _ _ (max (blockDigits 16 1 octet.toNat).length 2) at confined
  rwa [numeral_hexPair _ octet.toNat_lt, blocks_hexPair _ octet.toNat_lt] at confined

theorem toHex_other (octet : UInt8) (ptr : Nat) (buffer : OutBuffer CharT) {other : Nat} (first : other ≠ ptr)
    (second : other ≠ ptr + 1) : (toHex octet ptr buffer).2.mem other = buffer.mem other :=
  (toHex_confined octet).outside ptr buffer other (by omega)

theorem toStrSeps_mem (last ptr : Nat) (buffer : OutBuffer CharT) (other : Nat) :
    (toStrSeps last ptr buffer).mem other =
      if ptr ≤ other ∧ other < last ∧ (other - ptr) % 3 = 0 then ch ':' else buffer.mem other := by
  rw [toStrSeps]
  split
  · rename_i more
    rw [toStrSeps_mem]
    by_cases here : other = ptr
    · subst here
      rw [if_neg (by omega), if_pos (by omega), OutBuffer.store_self]
    · have elsewhere : (buffer.store ptr (ch ':')).mem other = buffer.mem other := Function.update_of_ne here _ _
      rw [elsewhere]
      congr 1
      simp only [eq_iff_iff]
      omega
  · rename_i done
    rw [if_neg (by omega)]
termination_by last - ptr

/-- The loop of the octets fills the gaps between the separators and leaves these alone. -/
theorem toStrOctets_other (octets : List UInt8) (ptr : Nat) (buffer : OutBuffer CharT) {other : Nat}
    (outside : other < ptr ∨ ptr + 3 * octets.length ≤ other + 1 ∨ (other - ptr) % 3 = 2) :
    (toStrOctets octets ptr buffer).mem other = buffer.mem other := by
  induction octets generalizing ptr buffer with
  | nil => rfl
  | cons octet octets ih =>
    rw [List.length_cons] at outside
    rw [toStrOctets, ih _ _ (by omega), toHex_other octet ptr buffer (by omega) (by omega)]

theorem toStrOctets_high (octets : List UInt8) (ptr : Nat) (buffer : OutBuffer CharT) (filled : octets ≠ [])
    (reached : ptr + 3 * octets.length ≤ buffer.high + 3) :
    (toStrOctets octets ptr buffer).high = max buffer.high (ptr + 3 * octets.length - 1) := by
  induction octets generalizing ptr buffer with
  | nil => exact absurd rfl filled
  | cons octet octets ih =>
    rw [List.length_cons] at reached ⊢
    have high := (toHex_emits octet).high ptr buffer (by omega)
    by_cases alone : octets = []
    · subst alone
      exact high
    · have some_left : 0 < octets.length := List.length_pos_of_ne_nil alone
      rw [toStrOctets, ih _ _ alone (by omega), high]
      omega

theorem toStrOctets_text (octets : List UInt8) (ptr : Nat) (buffer : OutBuffer CharT)
    (seps : ∀ k, k + 1 < octets.length → buffer.mem (ptr + 3 * k + 2) = ch ':') (offset : Nat)
    (inside : offset < (joined (ch ':') (octets.map hexPair)).length) :
    (toStrOctets octets ptr buffer).mem (ptr + offset) = (joined (ch ':') (octets.map hexPair))[offset] := by
  induction octets generalizing ptr buffer offset with
  | nil => simp at inside
  | cons octet octets ih =>
    have emits := toHex_emits octet
    have two : (hexPair octet).length = 2 := rfl
    have own (early : offset < 2) : (toStrOctets (octet :: octets) ptr buffer).mem (ptr + offset) =
        (hexPair octet)[offset] := by
      rw [toStrOctets, toStrOctets_other octets _ _ (.inl (by omega)), emits.chars ptr buffer offset early]
    by_cases alone : octets = []
    · subst alone
      simp only [List.map_cons, List.map_nil, joined, List.intercalate_singleton] at inside ⊢
      exact own (by omega)
    · have text : joined (ch ':') ((octet :: octets).map hexPair) =
          hexPair octet ++ ch ':' :: joined (ch ':') (octets.map hexPair) := joined_cons _ (by simpa using alone)
      have some_left : 0 < octets.length := List.length_pos_of_ne_nil alone
      simp only [text] at inside ⊢
      rw [List.length_append, List.length_cons, two] at inside
      rcases Nat.lt_trichotomy offset 2 with early | rfl | late
      · rw [List.getElem_append_left (show offset < (hexPair octet).length from early)]
        exact own early
      · rw [toStrOctets, toStrOctets_other octets _ _ (.inl (by omega)),
          toHex_other octet ptr buffer (by omega) (by omega), List.getElem_append_right (by omega)]
        exact seps 0 (by rw [List.length_cons]; omega)
      · have rest := ih (ptr + 3) (toHex octet ptr buffer).2 (fun k below => by
          rw [toHex_other octet ptr buffer (by omega) (by omega), ← seps (k + 1) (by rw [List.length_cons]; omega)]
          congr 1
          omega) (offset - 3) (by omega)
        rw [List.getElem_append_right (by omega), List.getElem_cons, dif_neg (by omega), toStrOctets]
        rw [show ptr + 3 + (offset - 3) = ptr + offset by omega] at rest
        exact rest

theorem toStrSeps_high (cell : Nat) (buffer : OutBuffer CharT) :
    (toStrSeps (cell + 17) (cell + 2) buffer).high = max buffer.high (cell + 15) := by
  rw [toStrSeps, if_pos (by omega), toStrSeps, if_pos (by omega), toStrSeps, if_pos (by omega), toStrSeps,
    if_pos (by omega), toStrSeps, if_pos (by omega), toStrSeps, if_neg (by omega)]
  simp only [OutBuffer.store_high]
  omega

theorem bufSize_eq : bufSize = 17 := by decide +kernel

theorem text_length (addr : EtherAddr) : addr.text.length = 17 := by
  obtain ⟨octets, size⟩ := addr
  match octets, size with
  | [a, b, c, d, e, f], _ => rfl

theorem toStr_emits (v : EtherAddr) : Emits v.toStr v.text 17 where
  covers := by rw [text_length]
  stop cell buffer := by rw [text_length, toStr, bufSize_eq]
  below cell buffer other lower := by
    rw [toStr, toStrOctets_other _ _ _ (.inl lower), toStrSeps_mem, if_neg (by omega)]
  chars cell buffer offset inside := by
    refine toStrOctets_text v.ether_addr_octet cell _ (fun k below => ?_) offset inside
    rw [v.size] at below
    rw [toStrSeps_mem, bufSize_eq, if_pos (by omega)]
  high cell buffer reached := by
    have some_octet : v.ether_addr_octet ≠ [] := List.ne_nil_of_length_pos (by rw [v.size]; decide)
    rw [toStr, bufSize_eq]
    rw [toStrOctets_high _ _ _ some_octet (by rw [toStrSeps_high, v.size]; omega), toStrSeps_high, v.size]
    omega

private theorem hexPair_value : ∀ v, v < 256 →
    IsHexOctet [ch (v / 16).digitChar, ch (v % 16).digitChar] ∧
      numeralValue 16 [ch (v / 16).digitChar, ch (v % 16).digitChar] = v := by
  have numeral (v : Nat) (small : v < 256) : IsNumeral 16 [ch (v / 16).digitChar, ch (v % 16).digitChar] ∧
      numeralValue 16 [ch (v / 16).digitChar, ch (v % 16).digitChar] = v := by
    rw [← numeral_hexPair v small]
    exact ⟨numeral_isNumeral hexadecimal v 2, numeralValue_numeral hexadecimal v 2⟩
  intro v small
  obtain ⟨valid, value⟩ := numeral v small
  exact ⟨⟨valid, by omega⟩, value⟩

theorem hexPair_isHexOctet (octet : UInt8) : IsHexOctet (hexPair octet) := (hexPair_value _ octet.toNat_lt).1

theorem hexValue_hexPair (octet : UInt8) : hexValue (hexPair octet) = octet := by
  have value : numeralValue 16 (hexPair octet) = octet.toNat := (hexPair_value _ octet.toNat_lt).2
  rw [hexValue, value, UInt8.ofNat_toNat]

theorem fromStr_text (addr : EtherAddr) : fromStr addr.text = .ok addr := by
  refine (fromStr_ok_iff addr.text addr).mpr (.separated _ (by simp [addr.size]) ?_ rfl ?_)
  · intro group member
    obtain ⟨octet, _, rfl⟩ := List.mem_map.mp member
    exact hexPair_isHexOctet octet
  · rw [List.map_map]
    exact ((List.map_congr_left fun octet _ => hexValue_hexPair octet).trans (List.map_id _)).symm

/-- While the octets are written, the separators stay where they were laid down. -/
theorem separators_stand (v : EtherAddr) (count buf : Nat) (buffer : OutBuffer CharT) {k : Nat} (inside : k < 5) :
    (toStrOctets (v.ether_addr_octet.take count) buf (toStrSeps (buf + bufSize) (buf + 2) buffer)).mem
      (buf + 3 * k + 2) = ch ':' := by
  rw [toStrOctets_other _ _ _ (.inr (.inr (by omega))), toStrSeps_mem, bufSize_eq, if_pos (by omega)]

/-- Exactly the two forms are read, and the other 7-bit texts refused with one of the two
exceptions; the printer writes the separated form, no digit of it over a separator, and that
reads back as the address. -/
theorem both_forms :
    (∀ sv addr, fromStr sv = .ok addr ↔ IsText sv addr.ether_addr_octet) ∧
      (∀ sv, Ascii sv → (¬ ∃ octets, IsText sv octets) → ∃ fault, fromStr sv = .error fault ∧ fault.Thrown) ∧
      (∀ addr : EtherAddr, Emits addr.toStr addr.text 17 ∧
        ∀ mem, addr.toStr.shown mem = addr.text ∧ fromStr (addr.toStr.shown mem) = .ok addr) ∧
      (∀ (addr : EtherAddr) (count buf : Nat) (buffer : OutBuffer CharT) (k : Nat), k < 5 →
        (toStrOctets (addr.ether_addr_octet.take count) buf (toStrSeps (buf + bufSize) (buf + 2) buffer)).mem
          (buf + 3 * k + 2) = ch ':') ∧
      ∀ (octet : UInt8) (ptr : Nat) (buffer : OutBuffer CharT) (other : Nat), other ≠ ptr → other ≠ ptr + 1 →
        (toHex octet ptr buffer).2.mem other = buffer.mem other := by
  refine ⟨fromStr_ok_iff, ?_, ?_, ?_, ?_⟩
  · intro sv ascii other
    cases outcome : fromStr sv with
    | error fault => exact ⟨fault, rfl, fromStr_thrown ascii outcome⟩
    | ok addr => exact absurd ⟨_, (fromStr_ok_iff sv addr).mp outcome⟩ other
  · intro addr
    refine ⟨addr.toStr_emits, fun mem => ?_⟩
    rw [addr.toStr_emits.shown mem]
    exact ⟨rfl, addr.fromStr_text⟩
  · intro addr count buf buffer k inside
    exact addr.separators_stand count buf buffer inside
  · intro octet ptr buffer other first second
    exact toHex_other octet ptr buffer first second

example : fromStr ("0123456789aB".toList.map ch) = fromStr ("1:23:045:67:89:AB".toList.map ch) := by decide +kernel

end EtherAddr

end Stdplus.Net
