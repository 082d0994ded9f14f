import Stdplus.Numeric.Endian
import Stdplus.Numeric.Stray

namespace Stdplus.Net

open Stdplus.Base Stdplus.Numeric

/-- An IPv4 address as the union holds it. -/
structure In4Addr where
  s4_addr : List UInt8
  size : s4_addr.length = 4
deriving DecidableEq

/-- The bytes read as one `uint32_t` of the host. -/
def In4Addr.word (native : ByteOrder) (addr : In4Addr) : Nat := decode native addr.s4_addr

/-- `In4Addr(in_addr{v})`. -/
def In4Addr.ofWord (native : ByteOrder) (v : Nat) : In4Addr := ⟨encode native 4 v, by simp⟩

/-- The three turns that each take one octet and its dot, in a `uint32_t`. -/
def In4Addr.fromStrLoop : Nat → Nat → List CharT → Except Fault (Nat × List CharT)
  | 0, addr, sv => .ok (addr, sv)
  | turns + 1, addr, sv => do
    let loc := find (ch '.') sv
    let octet ← strToIntUnsigned (some decimal) 8 (before loc sv)
    let addr := (addr ||| octet) <<< 8 % 2 ^ 32
    let sv := behind loc sv
    if sv.isEmpty then .error (.invalidArgument "Missing addr data")
    else In4Addr.fromStrLoop turns addr sv

/-- `FromStr<In4Addr>`. -/
def In4Addr.fromStr (native : ByteOrder) (sv : List CharT) : Except Fault In4Addr := do
  let (addr, sv) ← In4Addr.fromStrLoop 3 0 sv
  let octet ← strToIntUnsigned (some decimal) 8 sv
  .ok (In4Addr.ofWord native (hton native 4 (addr ||| octet)))

def In4Addr.toStrLoop : Nat → Nat → Writer CharT
  | 0, n => uintToStr decimal (n &&& 0xff) 0
  | turns + 1, n =>
    (uintToStr decimal (n &&& 0xff) 0).seq
      ((Writer.put (ch '.')).seq (In4Addr.toStrLoop turns (n >>> 8)))

/-- `ToStr<In4Addr>::buf_size`. -/
def In4Addr.bufSize : Nat := 12 + intToStrBufSize decimal (2 ^ 8 - 1) false

/-- `ToStr<In4Addr>`. -/
def In4Addr.toStr (native : ByteOrder) (v : In4Addr) : Writer CharT :=
  In4Addr.toStrLoop 3 (bswap 4 (ntoh native 4 (v.word native)))

/-- A nonempty string of decimal digits of value at most 255. -/
def IsOctet (text : List CharT) : Prop := IsNumeral 10 text ∧ numeralValue 10 text < 256

def octetValue (text : List CharT) : UInt8 := UInt8.ofNat (numeralValue 10 text)

structure Dotted where
  octets : List (List CharT)
  count : octets.length = 4
  valid : ∀ text ∈ octets, IsOctet text

def Dotted.render (dotted : Dotted) : List CharT := joined (ch '.') dotted.octets

def Dotted.bytes (dotted : Dotted) : List UInt8 := dotted.octets.map octetValue

def Dotted.addr (dotted : Dotted) : In4Addr := ⟨dotted.bytes, by simp [Dotted.bytes, dotted.count]⟩

theorem IsOctet.not_mem {text : List CharT} (octet : IsOctet text) {c : CharT}
    (other : digitValue c = none) : c ∉ text := octet.1.not_mem other

private theorem octet_ok_iff (text : List CharT) (n : Nat) :
    strToIntUnsigned (some decimal) 8 text = .ok n ↔ IsOctet text ∧ numeralValue 10 text = n := by
  rw [strToIntUnsigned_ok_iff decimal (by decide)]
  constructor
  · rintro ⟨numeral, rfl, below⟩
    exact ⟨⟨numeral, below⟩, rfl⟩
  · rintro ⟨⟨numeral, below⟩, rfl⟩
    exact ⟨numeral, rfl, below⟩

private theorem fromStrLoop_succ (turns addr : Nat) (sv : List CharT) (result : Nat × List CharT) :
    In4Addr.fromStrLoop (turns + 1) addr sv = .ok result ↔
      ∃ octet rest, IsOctet octet ∧ sv = octet ++ ch '.' :: rest ∧ rest ≠ [] ∧
        In4Addr.fromStrLoop turns ((addr ||| numeralValue 10 octet) <<< 8 % 2 ^ 32) rest = .ok result := by
  have dot : digitValue (ch '.') = none := by decide
  rcases find_cases (ch '.') sv with ⟨missing, absent⟩ | ⟨front, rest, split, absent, found⟩
  · have stuck : ∀ outcome, In4Addr.fromStrLoop (turns + 1) addr sv ≠ .ok outcome := by
      intro outcome
      simp only [In4Addr.fromStrLoop, missing, before, behind]
      cases strToIntUnsigned (some decimal) 8 sv <;> simp [bind, Except.bind]
    constructor
    · intro accepted
      exact absurd accepted (stuck result)
    · rintro ⟨octet, rest, _, split, _⟩
      exact absurd (by simp [split]) absent
  · have same (octet tail : List CharT) (valid : IsOctet octet)
        (cut : sv = octet ++ ch '.' :: tail) : front = octet ∧ rest = tail :=
      append_sep_inj absent (valid.not_mem dot) (split.symm.trans cut)
    simp only [In4Addr.fromStrLoop, found, before, behind]
    rw [split, take_at_sep, drop_after_sep]
    cases outcome : strToIntUnsigned (some decimal) 8 front with
    | error fault =>
      simp only [bind, Except.bind, reduceCtorEq, false_iff]
      rintro ⟨octet, tail, valid, cut, _⟩
      obtain ⟨rfl, rfl⟩ := same octet tail valid (split.trans cut)
      have accepted := (octet_ok_iff front _).mpr ⟨valid, rfl⟩
      rw [outcome] at accepted
      cases accepted
    | ok n =>
      obtain ⟨valid, rfl⟩ := (octet_ok_iff front n).mp outcome
      simp only [bind, Except.bind]
      constructor
      · intro accepted
        split at accepted
        · cases accepted
        · rename_i more
          exact ⟨front, rest, valid, rfl, by simpa using more, accepted⟩
      · rintro ⟨octet, tail, other, cut, more, accepted⟩
        obtain ⟨rfl, rfl⟩ := same octet tail other (split.trans cut)
        rw [if_neg (by simpa using more)]
        exact accepted

private theorem shift_octet {addr octet : Nat} (room : addr < 2 ^ 24) (small : octet < 256) :
    addr <<< 8 % 2 ^ 32 ||| octet = addr * 256 + octet := by
  rw [Nat.mod_eq_of_lt (by rw [Nat.shiftLeft_eq]; omega), ← Nat.shiftLeft_add_eq_or_of_lt small,
    Nat.shiftLeft_eq]

private theorem assemble_octets {a b c d : Nat} (ha : a < 256) (hb : b < 256) (hc : c < 256)
    (hd : d < 256) :
    encode .big 4 ((((0 ||| a) <<< 8 % 2 ^ 32 ||| b) <<< 8 % 2 ^ 32 ||| c) <<< 8 % 2 ^ 32 ||| d) =
      [UInt8.ofNat a, UInt8.ofNat b, UInt8.ofNat c, UInt8.ofNat d] := by
  rw [Nat.zero_or, shift_octet (by omega) hb, shift_octet (by omega) hc, shift_octet (by omega) hd]
  have back := encode_decode .big [UInt8.ofNat a, UInt8.ofNat b, UInt8.ofNat c, UInt8.ofNat d]
  simp only [List.length_cons, List.length_nil, decode, List.reverse_cons, List.reverse_nil,
    List.nil_append, List.cons_append, valueLE, UInt8.toNat_ofNat', Nat.mod_eq_of_lt ha,
    Nat.mod_eq_of_lt hb, Nat.mod_eq_of_lt hc, Nat.mod_eq_of_lt hd] at back
  rw [← back]
  congr 1
  omega

theorem In4Addr.fromStr_ok_iff (native : ByteOrder) (sv : List CharT) (addr : In4Addr) :
    In4Addr.fromStr native sv = .ok addr ↔
      ∃ dotted : Dotted, dotted.render = sv ∧ dotted.addr = addr := by
  constructor
  · intro accepted
    simp only [In4Addr.fromStr] at accepted
    cases looped : In4Addr.fromStrLoop 3 0 sv with
    | error fault => simp [looped, bind, Except.bind] at accepted
    | ok state =>
      obtain ⟨word, last⟩ := state
      rw [looped] at accepted
      cases outcome : strToIntUnsigned (some decimal) 8 last with
      | error fault => simp [outcome, bind, Except.bind] at accepted
      | ok n =>
        simp only [outcome, bind, Except.bind, Except.ok.injEq] at accepted
        obtain ⟨valid4, rfl⟩ := (octet_ok_iff last n).mp outcome
        obtain ⟨one, rest, valid1, rfl, _, looped⟩ := (fromStrLoop_succ _ _ _ _).mp looped
        obtain ⟨two, rest, valid2, rfl, _, looped⟩ := (fromStrLoop_succ _ _ _ _).mp looped
        obtain ⟨three, rest, valid3, rfl, _, looped⟩ := (fromStrLoop_succ _ _ _ _).mp looped
        simp only [In4Addr.fromStrLoop, Except.ok.injEq, Prod.mk.injEq] at looped
        obtain ⟨rfl, rfl⟩ := looped
        refine ⟨⟨[one, two, three, rest], rfl, by simp [valid1, valid2, valid3, valid4]⟩, ?_, ?_⟩
        · simp [Dotted.render]
        · rw [← accepted]
          simp only [Dotted.addr, Dotted.bytes, In4Addr.ofWord, In4Addr.mk.injEq,
            encode_hton native (show 4 ≠ 1 by decide),
            assemble_octets valid1.2 valid2.2 valid3.2 valid4.2]
          rfl
  · rintro ⟨⟨octets, count, valid⟩, rfl, rfl⟩
    obtain ⟨one, two, three, four, rfl⟩ : ∃ one two three four, octets = [one, two, three, four] := by
      match octets, count with
      | [one, two, three, four], _ => exact ⟨one, two, three, four, rfl⟩
    simp only [List.mem_cons, List.not_mem_nil, or_false, forall_eq_or_imp, forall_eq] at valid
    obtain ⟨valid1, valid2, valid3, valid4⟩ := valid
    have looped : In4Addr.fromStrLoop 3 0 (joined (ch '.') [one, two, three, four]) =
        .ok ((((0 ||| numeralValue 10 one) <<< 8 % 2 ^ 32 ||| numeralValue 10 two) <<< 8 % 2 ^ 32 |||
          numeralValue 10 three) <<< 8 % 2 ^ 32, four) := by
      apply (fromStrLoop_succ _ _ _ _).mpr
      refine ⟨one, joined (ch '.') [two, three, four], valid1, joined_cons _ (by simp),
        by simp, ?_⟩
      apply (fromStrLoop_succ _ _ _ _).mpr
      refine ⟨two, joined (ch '.') [three, four], valid2, joined_cons _ (by simp),
        by simp, ?_⟩
      apply (fromStrLoop_succ _ _ _ _).mpr
      exact ⟨three, four, valid3, by simp, valid4.1.1, rfl⟩
    have last := (octet_ok_iff four _).mpr ⟨valid4, rfl⟩
    simp only [In4Addr.fromStr, Dotted.render, looped, last, bind, Except.bind, Except.ok.injEq,
      Dotted.addr, Dotted.bytes, In4Addr.ofWord, In4Addr.mk.injEq,
      encode_hton native (show 4 ≠ 1 by decide), assemble_octets valid1.2 valid2.2 valid3.2 valid4.2]
    rfl

namespace In4Addr

/-- At most three octets with their dots, and behind them a number that strays. -/
def Strays (sv : List CharT) : Prop := StraysBehind IsOctet (ch '.') 10 3 sv

theorem octetParser : PieceParser IsOctet 10 (strToIntUnsigned (some decimal) 8) where
  accepts text := by
    simp only [octet_ok_iff]
    exact ⟨fun ⟨_, octet, _⟩ => octet, fun octet => ⟨_, octet, rfl⟩⟩
  strays := strToIntUnsigned_strays_iff decimal 8

private theorem loop_strays (native : ByteOrder) (turns addr : Nat) (sv : List CharT) :
    (fromStrLoop turns addr sv >>= fun state => do
        let octet ← strToIntUnsigned (some decimal) 8 state.2
        .ok (ofWord native (hton native 4 (state.1 ||| octet)))) = .error .outOfBounds ↔
      StraysBehind IsOctet (ch '.') 10 turns sv := by
  induction turns generalizing addr sv with
  | zero =>
    rw [straysBehind_zero, ← octetParser.strays]
    change (strToIntUnsigned (some decimal) 8 sv >>= fun octet =>
      .ok (ofWord native (hton native 4 (addr ||| octet)))) = _ ↔ _
    rw [bind_outOfBounds]
    simp
  | succ turns ih =>
    exact turn_strays octetParser (by decide) (by decide) (fun piece octet => octet.not_mem (by decide))
      (fun octet rest => ih ((addr ||| octet) <<< 8 % 2 ^ 32) rest) "Missing addr data" sv

theorem fromStr_strays_iff (native : ByteOrder) (sv : List CharT) :
    fromStr native sv = .error .outOfBounds ↔ Strays sv :=
  loop_strays native 3 0 sv

/-- On 7-bit characters the parser throws one of its two exceptions or returns. -/
theorem fromStr_thrown (native : ByteOrder) {sv : List CharT} (ascii : Ascii sv) {fault : Fault}
    (failed : fromStr native sv = .error fault) : fault.Thrown := by
  rw [Fault.thrown_iff]
  rintro rfl
  exact ascii.not_straysBehind ((fromStr_strays_iff native sv).mp failed)

end In4Addr

def octetText (byte : UInt8) : List CharT := numeral decimal byte.toNat 0

def In4Addr.text (addr : In4Addr) : List CharT := joined (ch '.') (addr.s4_addr.map octetText)

theorem octetText_isOctet (byte : UInt8) : IsOctet (octetText byte) :=
  ⟨numeral_isNumeral decimal byte.toNat 0, by
    have value := numeralValue_numeral decimal byte.toNat 0
    change numeralValue 10 (octetText byte) = _ at value
    rw [value]
    exact byte.toNat_lt⟩

theorem octetValue_octetText (byte : UInt8) : octetValue (octetText byte) = byte := by
  have value := numeralValue_numeral decimal byte.toNat 0
  change numeralValue 10 (octetText byte) = _ at value
  rw [octetValue, value, UInt8.ofNat_toNat]

def In4Addr.dotted (addr : In4Addr) : Dotted where
  octets := addr.s4_addr.map octetText
  count := by simp [addr.size]
  valid text member := by
    obtain ⟨byte, _, rfl⟩ := List.mem_map.mp member
    exact octetText_isOctet byte

theorem In4Addr.dotted_addr (addr : In4Addr) : addr.dotted.addr = addr := by
  obtain ⟨bytes, size⟩ := addr
  simp only [Dotted.addr, Dotted.bytes, In4Addr.dotted, List.map_map, In4Addr.mk.injEq]
  exact (List.map_congr_left fun byte _ => octetValue_octetText byte).trans (List.map_id bytes)

theorem In4Addr.fromStr_text (native : ByteOrder) (addr : In4Addr) :
    In4Addr.fromStr native addr.text = .ok addr :=
  (In4Addr.fromStr_ok_iff native addr.text addr).mpr ⟨addr.dotted, rfl, addr.dotted_addr⟩

private theorem toStrLoop_emits (byte : UInt8) (rest : List UInt8) :
    ∃ reach, Emits (In4Addr.toStrLoop rest.length (valueLE (byte :: rest)))
        (joined (ch '.') ((byte :: rest).map octetText)) reach ∧
      reach ≤ 4 * (rest.length + 1) ∧
      (joined (ch '.') ((byte :: rest).map octetText)).length ≤ 4 * rest.length + 3 := by
  induction rest generalizing byte with
  | nil =>
    have bound := byte.toNat_lt
    have masked : valueLE [byte] &&& 0xff = byte.toNat := by
      have low := Nat.and_two_pow_sub_one_eq_mod (valueLE [byte]) 8
      simp only [valueLE] at low ⊢
      simpa [Nat.mod_eq_of_lt bound] using low
    have text : joined (ch '.') ([byte].map octetText) = numeral decimal byte.toNat 0 := by
      simp [octetText]
    rw [text]
    refine ⟨decimalReach byte.toNat, ?_, decimalReach_le 2 (by decide) (show byte.toNat < 100 ^ 2 by omega),
      numeral_length_le decimal 3 (by decide) (show byte.toNat < 10 ^ 3 by omega)⟩
    simpa only [In4Addr.toStrLoop, List.length_nil, masked] using decimal_emits byte.toNat
  | cons next rest ih =>
    obtain ⟨reach, emits, bounded, short⟩ := ih next
    have bound := byte.toNat_lt
    have masked : valueLE (byte :: next :: rest) &&& 0xff = byte.toNat := by
      have low := Nat.and_two_pow_sub_one_eq_mod (valueLE (byte :: next :: rest)) 8
      rw [show 2 ^ 8 - 1 = 0xff by rfl] at low
      rw [low, valueLE]
      omega
    have shifted : valueLE (byte :: next :: rest) >>> 8 = valueLE (next :: rest) := by
      rw [Nat.shiftRight_eq_div_pow, valueLE]
      omega
    have digits := numeral_length_le decimal 3 (by decide) (show byte.toNat < 10 ^ 3 by omega)
    have stored := decimalReach_le 2 (by decide) (show byte.toNat < 100 ^ 2 by omega)
    have whole := (decimal_emits byte.toNat).seq ((Emits.put (ch '.')).seq emits)
    have text : joined (ch '.') ((byte :: next :: rest).map octetText) =
        numeral decimal byte.toNat 0 ++ ([ch '.'] ++ joined (ch '.') ((next :: rest).map octetText)) :=
      joined_cons _ (by simp)
    rw [← text] at whole
    refine ⟨_, by simpa only [In4Addr.toStrLoop, List.length_cons, masked, shifted] using whole, ?_, ?_⟩
    · simp only [List.length_cons, List.length_nil]
      omega
    · rw [text]
      simp only [List.length_append, List.length_cons, List.length_nil] at short ⊢
      omega

theorem In4Addr.toStr_emits (native : ByteOrder) (addr : In4Addr) :
    ∃ reach, Emits (addr.toStr native) addr.text reach ∧ reach ≤ 16 ∧ addr.text.length ≤ 15 := by
  have swapped : bswap 4 (ntoh native 4 (addr.word native)) = valueLE addr.s4_addr := by
    rw [In4Addr.word, ntoh_decode native (by decide) addr.size, bswap_decode_big (by decide) addr.size]
    rfl
  obtain ⟨bytes, size⟩ := addr
  cases bytes with
  | nil => cases size
  | cons byte rest =>
    have turns : rest.length = 3 := by simpa using size
    obtain ⟨reach, emits, bounded, short⟩ := toStrLoop_emits byte rest
    rw [turns] at emits bounded short
    refine ⟨reach, ?_, bounded, short⟩
    simp only [In4Addr.toStr, swapped]
    exact emits

end Stdplus.Net
