import Stdplus.Net.Addr.Sock
import Stdplus.Net.Addr.Subnet

namespace Stdplus.Net

open Stdplus.Base Stdplus.Numeric

/-- An address with a text form that its parser reads back. -/
class TextAddr (Addr : Type) where
  addrBits : Addr → Nat
  fromStr : ByteOrder → List CharT → Except Fault Addr
  toStr : ByteOrder → Addr → Writer CharT
  bufSize : Nat
  text : ByteOrder → Addr → List CharT
  emits : ∀ native addr, ∃ reach, Emits (toStr native addr) (text native addr) reach ∧ reach ≤ bufSize
  reads : ∀ native addr, fromStr native (text native addr) = .ok addr
  throws : ∀ native sv, Ascii sv → ∀ fault, fromStr native sv = .error fault → fault.Thrown

/-- The types of subnets, by their constructor from an address and a prefix. -/
class Subnet (Sub : Type) (Addr : outParam Type) [TextAddr Addr] where
  make : Addr → UInt8 → Except Fault Sub
  getAddr : Sub → Addr
  getPfx : Sub → UInt8
  made : ∀ addr pfx sub, make addr pfx = .ok sub ↔ getAddr sub = addr ∧ getPfx sub = pfx
  accepted : ∀ addr pfx, pfx.toNat ≤ TextAddr.addrBits addr → ∃ sub, make addr pfx = .ok sub
  refused : ∀ addr pfx, TextAddr.addrBits addr < pfx.toNat → make addr pfx = .error (invalidSubnetPfx pfx.toNat)
  valid : ∀ sub, (getPfx sub).toNat ≤ TextAddr.addrBits (getAddr sub)

namespace Subnet

/-- `StrToInt<10, std::uint8_t>`. -/
def pfxFromStr (sv : List CharT) : Except Fault UInt8 := (strToIntUnsigned (some decimal) 8 sv).map UInt8.ofNat

def pfxBufSize : Nat := intToStrBufSize decimal (2 ^ 8 - 1) false

section

variable {Sub Addr : Type} [TextAddr Addr] [Subnet Sub Addr]

/-- `FromStr<Sub>`; the address is parsed before the prefix. -/
def fromStr (native : ByteOrder) (sv : List CharT) : Except Fault Sub :=
  match rfind (ch '/') sv with
  | none => .error (.invalidArgument "Invalid subnet")
  | some pos => do
    let addr ← TextAddr.fromStr native (sv.take pos)
    let pfx ← pfxFromStr (sv.drop (pos + 1))
    make addr pfx

/-- `ToStr<Sub>`. -/
def toStr (native : ByteOrder) (v : Sub) : Writer CharT :=
  (TextAddr.toStr native (getAddr v)).seq
    ((Writer.put (ch '/')).seq (uintToStr decimal (getPfx v).toNat 0))

end

/-- `ToStr<Sub>::buf_size`. -/
def bufSize (Sub : Type) {Addr : Type} [TextAddr Addr] [Subnet Sub Addr] : Nat :=
  TextAddr.bufSize Addr + 1 + pfxBufSize

end Subnet

theorem In6Addr.toStr_room (native : ByteOrder) (v : In6Addr) :
    ∃ reach, Emits (v.toStr native) (v.text native) reach ∧ reach ≤ In6Addr.bufSize := by
  obtain ⟨reach, emits, mapped, plain⟩ := v.toStr_emits native
  have limit := v.text_length_le native
  refine ⟨reach, emits, ?_⟩
  rw [In6Addr.bufSize_eq]
  by_cases dotted : v.isMapped native = true
  · have short := mapped dotted
    omega
  · rw [plain dotted]
    exact limit

instance : TextAddr In4Addr where
  addrBits _ := InAddr.addrBits In4Addr
  fromStr := In4Addr.fromStr
  toStr native addr := addr.toStr native
  bufSize := In4Addr.bufSize
  text _ addr := addr.text
  emits native addr := by
    obtain ⟨reach, emits, bounded, _⟩ := addr.toStr_emits native
    exact ⟨reach, emits, In4Addr.bufSize_eq ▸ bounded⟩
  reads native addr := addr.fromStr_text native
  throws native _ ascii _ failed := In4Addr.fromStr_thrown native ascii failed

instance : TextAddr In6Addr where
  addrBits _ := InAddr.addrBits In6Addr
  fromStr := In6Addr.fromStr
  toStr native addr := addr.toStr native
  bufSize := In6Addr.bufSize
  text native addr := addr.text native
  emits native addr := addr.toStr_room native
  reads native addr := addr.fromStr_text native
  throws native _ ascii _ failed := In6Addr.fromStr_thrown native ascii failed

theorem InAnyAddr.toStr_room (native : ByteOrder) (v : InAnyAddr) :
    ∃ reach, Emits (v.toStr native) (v.text native) reach ∧ reach ≤ InAnyAddr.bufSize := by
  cases v with
  | in4 addr =>
    obtain ⟨reach, emits, bounded⟩ := TextAddr.emits native addr
    exact ⟨reach, emits, Nat.le_trans bounded (Nat.le_max_left _ _)⟩
  | in6 addr =>
    obtain ⟨reach, emits, bounded⟩ := TextAddr.emits native addr
    exact ⟨reach, emits, Nat.le_trans bounded (Nat.le_max_right _ _)⟩

theorem map_failed {Value Other : Type} {outcome : Except Fault Value} {convert : Value → Other} {fault : Fault}
    (failed : outcome.map convert = .error fault) : outcome = .error fault := by
  cases outcome with
  | ok value => cases failed
  | error other =>
    cases failed
    rfl

theorem InAnyAddr.fromStr_thrown (native : ByteOrder) {sv : List CharT} (ascii : Ascii sv) {fault : Fault}
    (failed : InAnyAddr.fromStr native sv = .error fault) : fault.Thrown := by
  rw [InAnyAddr.fromStr] at failed
  split at failed
  · exact In4Addr.fromStr_thrown native ascii (map_failed failed)
  · exact In6Addr.fromStr_thrown native ascii (map_failed failed)

instance : TextAddr InAnyAddr where
  addrBits := InAnyAddr.addrBits
  fromStr := InAnyAddr.fromStr
  toStr native addr := addr.toStr native
  bufSize := InAnyAddr.bufSize
  text native addr := addr.text native
  emits native addr := addr.toStr_room native
  reads native addr := addr.fromStr_text native
  throws native _ ascii _ failed := InAnyAddr.fromStr_thrown native ascii failed

theorem Subnet46.make_ok_iff {Addr : Type} [InAddr Addr] (addr : Addr) (pfx : UInt8) (sub : Subnet46 Addr) :
    make addr pfx = .ok sub ↔ sub.addr = addr ∧ sub.pfx = pfx := by
  rw [make]
  constructor
  · intro made
    split at made
    · cases made
      exact ⟨rfl, rfl⟩
    · cases made
  · rintro ⟨rfl, rfl⟩
    exact dif_pos sub.valid

theorem SubnetAny.make_ok_iff (addr : InAnyAddr) (pfx : UInt8) (sub : SubnetAny) :
    make addr pfx = .ok sub ↔ sub.addr = addr ∧ sub.pfx = pfx := by
  rw [make]
  constructor
  · intro made
    split at made
    · cases made
      exact ⟨rfl, rfl⟩
    · cases made
  · rintro ⟨rfl, rfl⟩
    exact dif_pos sub.valid

instance : Subnet Subnet4 In4Addr where
  make := Subnet46.make
  getAddr := Subnet46.addr
  getPfx := Subnet46.pfx
  made := Subnet46.make_ok_iff
  accepted _ _ small := ⟨_, dif_pos small⟩
  refused _ _ large := dif_neg (Nat.not_le.mpr large)
  valid := Subnet46.valid

instance : Subnet Subnet6 In6Addr where
  make := Subnet46.make
  getAddr := Subnet46.addr
  getPfx := Subnet46.pfx
  made := Subnet46.make_ok_iff
  accepted _ _ small := ⟨_, dif_pos small⟩
  refused _ _ large := dif_neg (Nat.not_le.mpr large)
  valid := Subnet46.valid

instance : Subnet SubnetAny InAnyAddr where
  make := SubnetAny.make
  getAddr := SubnetAny.addr
  getPfx := SubnetAny.pfx
  made := SubnetAny.make_ok_iff
  accepted _ _ small := ⟨_, dif_pos small⟩
  refused _ _ large := dif_neg (Nat.not_le.mpr large)
  valid := SubnetAny.valid

namespace Subnet

theorem pfxFromStr_ok_iff (sv : List CharT) (pfx : UInt8) :
    pfxFromStr sv = .ok pfx ↔ IsNumeral 10 sv ∧ numeralValue 10 sv = pfx.toNat := by
  have decoded (n : Nat) : strToIntUnsigned (some decimal) 8 sv = .ok n ↔ _ :=
    strToIntUnsigned_ok_iff decimal (by decide) sv n
  rw [pfxFromStr]
  cases outcome : strToIntUnsigned (some decimal) 8 sv with
  | error fault =>
    refine iff_of_false (by simp [Except.map]) ?_
    rintro ⟨numeral, value⟩
    have accepted := (decoded pfx.toNat).mpr ⟨numeral, value, pfx.toNat_lt⟩
    rw [outcome] at accepted
    cases accepted
  | ok n =>
    obtain ⟨numeral, value, below⟩ := (decoded n).mp outcome
    have value : numeralValue 10 sv = n := value
    have back : (UInt8.ofNat n).toNat = n := by rw [UInt8.toNat_ofNat', Nat.mod_eq_of_lt below]
    rw [Except.map, Except.ok.injEq, value]
    constructor
    · rintro rfl
      exact ⟨numeral, back.symm⟩
    · rintro ⟨_, rfl⟩
      exact UInt8.ofNat_toNat

theorem pfxFromStr_thrown {sv : List CharT} (ascii : Ascii sv) {fault : Fault}
    (failed : pfxFromStr sv = .error fault) : fault.Thrown :=
  strToIntUnsigned_thrown decimal ascii (map_failed failed)

theorem pfxBufSize_eq : pfxBufSize = 4 := by decide +kernel

/-- A text of an address, a slash and a prefix in decimal. -/
def IsSubnet {Addr : Type} [TextAddr Addr] (native : ByteOrder) (text : List CharT) (addr : Addr) (pfx : Nat) :
    Prop :=
  ∃ front digits, text = front ++ ch '/' :: digits ∧ TextAddr.fromStr native front = .ok addr ∧
    IsNumeral 10 digits ∧ numeralValue 10 digits = pfx

section

variable {Sub Addr : Type} [TextAddr Addr] [Subnet Sub Addr] (native : ByteOrder)

theorem fromStr_cut (front : List CharT) {digits : List CharT} (absent : ch '/' ∉ digits) :
    (fromStr native (front ++ ch '/' :: digits) : Except Fault Sub) = (do
      let addr : Addr ← TextAddr.fromStr native front
      let pfx ← pfxFromStr digits
      make addr pfx) := by
  rw [fromStr, rfind_append front absent]
  simp only [take_at_sep, drop_after_sep]

theorem fromStr_ok_iff (text : List CharT) (sub : Sub) : fromStr native text = .ok sub ↔
    IsSubnet native text (getAddr sub) (getPfx sub).toNat := by
  have slash : digitValue (ch '/') = none := by decide
  constructor
  · intro accepted
    rcases rfind_cases (ch '/') text with ⟨missing, _⟩ | ⟨front, digits, rfl, absent, _⟩
    · rw [fromStr, missing] at accepted
      cases accepted
    · rw [fromStr_cut native front absent] at accepted
      cases parsed : (TextAddr.fromStr native front : Except Fault Addr) with
      | error fault =>
        rw [parsed] at accepted
        cases accepted
      | ok addr =>
        cases decoded : pfxFromStr digits with
        | error fault =>
          rw [parsed, decoded] at accepted
          cases accepted
        | ok pfx =>
          rw [parsed, decoded] at accepted
          obtain ⟨rfl, rfl⟩ := (made addr pfx sub).mp accepted
          have ⟨numeral, value⟩ := (pfxFromStr_ok_iff digits _).mp decoded
          exact ⟨front, digits, rfl, parsed, numeral, value⟩
  · rintro ⟨front, digits, rfl, parsed, numeral, value⟩
    have decoded := (pfxFromStr_ok_iff digits _).mpr ⟨numeral, value⟩
    rw [fromStr_cut native front (numeral.not_mem slash), parsed, decoded]
    exact (made _ _ sub).mpr ⟨rfl, rfl⟩

theorem fromStr_thrown {text : List CharT} (ascii : Ascii text) {fault : Fault}
    (failed : (fromStr native text : Except Fault Sub) = .error fault) : fault.Thrown := by
  rcases rfind_cases (ch '/') text with ⟨missing, _⟩ | ⟨front, digits, rfl, absent, _⟩
  · rw [fromStr, missing] at failed
    cases failed
    trivial
  · have before : Ascii front := fun c member => ascii c (List.mem_append_left _ member)
    have behind : Ascii digits := fun c member =>
      ascii c (List.mem_append_right _ (List.mem_cons_of_mem _ member))
    rw [fromStr_cut native front absent] at failed
    cases parsed : (TextAddr.fromStr native front : Except Fault Addr) with
    | error other =>
      rw [parsed] at failed
      cases failed
      exact TextAddr.throws native front before _ parsed
    | ok addr =>
      cases decoded : pfxFromStr digits with
      | error other =>
        rw [parsed, decoded] at failed
        cases failed
        exact pfxFromStr_thrown behind decoded
      | ok pfx =>
        rw [parsed, decoded] at failed
        change (make addr pfx : Except Fault Sub) = .error fault at failed
        by_cases fits : pfx.toNat ≤ TextAddr.addrBits addr
        · obtain ⟨sub, made⟩ := (accepted addr pfx fits : ∃ sub : Sub, make addr pfx = .ok sub)
          rw [made] at failed
          cases failed
        · rw [refused addr pfx (Nat.not_le.mp fits)] at failed
          cases failed
          trivial

def text (v : Sub) : List CharT :=
  TextAddr.text native (getAddr v) ++ ch '/' :: numeral decimal (getPfx v).toNat 0

theorem toStr_emits (v : Sub) : ∃ reach, Emits (toStr native v) (text native v) reach ∧ reach ≤ bufSize Sub := by
  obtain ⟨reach, emits, bounded⟩ := TextAddr.emits native (getAddr v)
  have pfx : decimalReach (getPfx v).toNat ≤ 4 :=
    decimalReach_le 2 (by decide) (by have := (getPfx v).toNat_lt; omega)
  have whole := emits.seq ((Emits.put (ch '/')).seq (decimal_emits (getPfx v).toNat))
  have covers := emits.covers
  refine ⟨_, whole, ?_⟩
  rw [bufSize, pfxBufSize_eq, List.length_singleton]
  omega

theorem text_isSubnet (v : Sub) : IsSubnet native (text native v) (getAddr v) (getPfx v).toNat :=
  ⟨_, _, rfl, TextAddr.reads native (getAddr v), numeral_isNumeral decimal _ 0, numeralValue_numeral decimal _ 0⟩

/-- Text of the subnets of one type, in both directions. -/
structure TextSound (native : ByteOrder) (Sub : Type) {Addr : Type} [TextAddr Addr] [Subnet Sub Addr] : Prop where
  survives (s : Sub) (mem : Nat → CharT) : fromStr native ((toStr native s).shown mem) = .ok s
  within (s : Sub) (mem : Nat → CharT) : Within (toStr native s) (bufSize Sub) mem
  read (t : List CharT) (s : Sub) : fromStr native t = .ok s ↔ IsSubnet native t (getAddr s) (getPfx s).toNat
  accepts (t : List CharT) : (∃ s : Sub, fromStr native t = .ok s) ↔
    ∃ (addr : Addr) (pfx : Nat), IsSubnet native t addr pfx ∧ pfx ≤ TextAddr.addrBits addr
  throws (t : List CharT) : Ascii t → ∀ fault, (fromStr native t : Except Fault Sub) = .error fault → fault.Thrown

theorem sound (narrow : ∀ addr : Addr, TextAddr.addrBits addr < 256) : TextSound native Sub where
  survives s mem := by
    obtain ⟨reach, emits, _⟩ := toStr_emits native s
    rw [emits.shown mem]
    exact (fromStr_ok_iff native _ s).mpr (text_isSubnet native s)
  within s mem := by
    obtain ⟨reach, emits, bounded⟩ := toStr_emits native s
    exact (within_iff emits _ mem).mpr bounded
  read := fromStr_ok_iff native
  accepts t := by
    constructor
    · rintro ⟨s, accepted⟩
      exact ⟨_, _, (fromStr_ok_iff native t s).mp accepted, valid s⟩
    · rintro ⟨addr, pfx, subnet, fits⟩
      have byte : (UInt8.ofNat pfx).toNat = pfx := by
        have limit := narrow addr
        rw [UInt8.toNat_ofNat', Nat.mod_eq_of_lt (by omega)]
      rw [← byte] at fits
      obtain ⟨s, made⟩ : ∃ s : Sub, make addr (UInt8.ofNat pfx) = .ok s := accepted addr _ fits
      obtain ⟨rfl, same⟩ := (Subnet.made addr _ s).mp made
      refine ⟨s, (fromStr_ok_iff native t s).mpr ?_⟩
      rwa [same, byte]
  throws _ ascii _ failed := fromStr_thrown native ascii failed

end

end Subnet

theorem InAnyAddr.addrBits_lt (addr : InAnyAddr) : addr.addrBits < 256 := by
  cases addr with
  | in4 _ => exact (by decide : 32 < 256)
  | in6 _ => exact (by decide : 128 < 256)

/-- Subnets of either family and of any survive their text, host bits, prefix and family; a
text is read only where it is that of an address, a slash and a prefix that fits the address. -/
theorem subnets_text (native : ByteOrder) : Subnet.TextSound native Subnet4 ∧ Subnet.TextSound native Subnet6 ∧
    Subnet.TextSound native SubnetAny :=
  have narrow4 (_ : In4Addr) : 32 < 256 := by decide
  have narrow6 (_ : In6Addr) : 128 < 256 := by decide
  ⟨Subnet.sound native narrow4, Subnet.sound native narrow6, Subnet.sound native InAnyAddr.addrBits_lt⟩

example : (Subnet.fromStr .little ("::ffff:1.2.3.4/97".toList.map ch)).map SubnetAny.addr =
    .ok (.in6 ⟨[0, 0, 0, 0, 0, 0, 0, 0, 0, 0, 255, 255, 1, 2, 3, 4], rfl⟩) := by decide +kernel

end Stdplus.Net
