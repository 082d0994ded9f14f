import Stdplus.Net.Addr.SubnetText

/-! The literals of addresses and subnets: the compile step collects what it parsed and a flag
over the exceptions it swallows, and the operator builds the value from that later. -/

namespace Stdplus.Net

open Stdplus.Base Stdplus.Numeric

/-- `try { … } catch (...) { … }`: what is no exception is not caught. In C++23 nothing is caught while a constant
is evaluated, so there a literal whose parser throws does not compile at all. -/
def catchAll {State : Type} (attempt : Except Fault State) (handled : State) : Except Fault State :=
  match attempt with
  | .ok state => .ok state
  | .error (.invalidArgument _) => .ok handled
  | .error (.overflowError _) => .ok handled
  | .error .outOfBounds => .error .outOfBounds

/-- Where nothing but exceptions fails, either the result is stored or the handler runs. -/
theorem catchAll_map {Value State : Type} {attempt : Except Fault Value}
    (throws : ∀ fault, attempt = .error fault → fault.Thrown) (store : Value → State) (handled : State) :
    (∃ value, attempt = .ok value ∧ catchAll (attempt.map store) handled = .ok (store value)) ∨
      (∃ fault, attempt = .error fault) ∧ catchAll (attempt.map store) handled = .ok handled := by
  cases attempt with
  | ok value => exact .inl ⟨value, rfl, rfl⟩
  | error fault =>
    refine .inr ⟨⟨fault, rfl⟩, ?_⟩
    cases fault with
    | invalidArgument _ => rfl
    | overflowError _ => rfl
    | outOfBounds => exact (throws _ rfl).elim

/-- `CompileInAddrInt`: the members of a literal's argument while it is compiled, and what
the operators read of them; `none` where that is not a constant. -/
class CompileInAddrInt (Addr : Type) (State : outParam Type) [TextAddr Addr] where
  fresh : State
  valid : State → Bool
  invalidate : State → State
  compile : ByteOrder → List CharT → State → Except Fault State
  read : State → Option Addr
  started : valid fresh = true
  cleared : ∀ state, valid (invalidate state) = false
  compiled : ∀ native sv, Ascii sv → ∀ state, state = fresh ∨ state = invalidate fresh → ∃ next,
    compile native sv state = .ok next ∧
      (valid next = true ↔ valid state = true ∧ ∃ addr : Addr, TextAddr.fromStr native sv = .ok addr) ∧
      ∀ addr, TextAddr.fromStr native sv = .ok addr → read next = some addr

/-- The members for one family. -/
structure CompileAddr (Addr : Type) where
  addr : Addr
  valid : Bool

def CompileAddr.compile {Addr : Type} [TextAddr Addr] (native : ByteOrder) (sv : List CharT)
    (self : CompileAddr Addr) : Except Fault (CompileAddr Addr) :=
  catchAll ((TextAddr.fromStr native sv).map fun addr => { self with addr }) { self with valid := false }

/-- The union, by the member that is active. -/
inductive AddrUnion where
  | addr4 (addr : In4Addr)
  | addr6 (addr : In6Addr)

namespace AddrUnion

def read4 : AddrUnion → Option In4Addr
  | addr4 addr => some addr
  | addr6 _ => none

def read6 : AddrUnion → Option In6Addr
  | addr4 _ => none
  | addr6 addr => some addr

end AddrUnion

/-- The members for either family. -/
structure CompileAnyAddr where
  u : AddrUnion
  v4 : Bool
  valid : Bool

namespace CompileAnyAddr

def compile (native : ByteOrder) (sv : List CharT) (self : CompileAnyAddr) : Except Fault CompileAnyAddr :=
  catchAll
    (if find (ch ':') sv = none then
      (In4Addr.fromStr native sv).map fun addr => { self with u := .addr4 addr }
    else
      (In6Addr.fromStr native sv).map fun addr => { self with u := .addr6 addr, v4 := false })
    { self with valid := false }

/-- `Str.v4 ? InAnyAddr(Str.u.addr4) : InAnyAddr(Str.u.addr6)`. -/
def read (self : CompileAnyAddr) : Option InAnyAddr :=
  if self.v4 then self.u.read4.map .in4 else self.u.read6.map .in6

end CompileAnyAddr

theorem CompileAddr.compiled {Addr : Type} [TextAddr Addr] (native : ByteOrder) {sv : List CharT}
    (ascii : Ascii sv) (self : CompileAddr Addr) : ∃ next, compile native sv self = .ok next ∧
      (next.valid = true ↔ self.valid = true ∧ ∃ addr : Addr, TextAddr.fromStr native sv = .ok addr) ∧
      ∀ addr, TextAddr.fromStr native sv = .ok addr → next.addr = addr := by
  rcases catchAll_map (TextAddr.throws native sv ascii) (fun addr => { self with addr })
    { self with valid := false } with ⟨addr, parsed, stored⟩ | ⟨⟨fault, parsed⟩, handled⟩
  · rw [parsed]
    exact ⟨_, stored, by simp, fun other same => Except.ok.inj same⟩
  · rw [parsed]
    exact ⟨_, handled, by simp, by simp⟩

private theorem CompileAnyAddr.branch {Addr : Type} {attempt : Except Fault Addr}
    (throws : ∀ fault, attempt = .error fault → fault.Thrown) {self : CompileAnyAddr} (wrap : Addr → InAnyAddr)
    {store : Addr → CompileAnyAddr} (reads : ∀ addr, (store addr).read = some (wrap addr))
    (flag : ∀ addr, (store addr).valid = self.valid) :
    ∃ next, catchAll (attempt.map store) { self with valid := false } = .ok next ∧
      (next.valid = true ↔ self.valid = true ∧ ∃ addr, attempt.map wrap = .ok addr) ∧
      ∀ addr, attempt.map wrap = .ok addr → next.read = some addr := by
  rcases catchAll_map throws store { self with valid := false } with
    ⟨addr, parsed, stored⟩ | ⟨⟨fault, parsed⟩, handled⟩
  · rw [parsed] at stored ⊢
    refine ⟨_, stored, by simp [Except.map, flag], ?_⟩
    rintro _ ⟨⟩
    exact reads addr
  · rw [parsed] at handled ⊢
    exact ⟨_, handled, by simp [Except.map], by simp [Except.map]⟩

/-- The flag `v4` says which member of the union is active. -/
theorem CompileAnyAddr.compiled (native : ByteOrder) {sv : List CharT} (ascii : Ascii sv)
    (self : CompileAnyAddr) (started : self.v4 = true) : ∃ next, compile native sv self = .ok next ∧
      (next.valid = true ↔ self.valid = true ∧ ∃ addr, InAnyAddr.fromStr native sv = .ok addr) ∧
      ∀ addr, InAnyAddr.fromStr native sv = .ok addr → next.read = some addr := by
  rw [compile, InAnyAddr.fromStr]
  by_cases plain : find (ch ':') sv = none
  · rw [if_pos plain, if_pos plain]
    apply branch (fun _ => In4Addr.fromStr_thrown native ascii) InAnyAddr.in4
    · intro addr
      simp [read, started, AddrUnion.read4]
    · intro addr
      rfl
  · rw [if_neg plain, if_neg plain]
    apply branch (fun _ => In6Addr.fromStr_thrown native ascii) InAnyAddr.in6
    · intro addr
      simp [read, AddrUnion.read6]
    · intro addr
      rfl

/-- `In4Addr{}`. -/
def In4Addr.zero : In4Addr := ⟨[0, 0, 0, 0], rfl⟩

instance : CompileInAddrInt In4Addr (CompileAddr In4Addr) where
  fresh := { addr := In4Addr.zero, valid := true }
  valid := CompileAddr.valid
  invalidate self := { self with valid := false }
  compile := CompileAddr.compile
  read self := some self.addr
  started := rfl
  cleared _ := rfl
  compiled native sv ascii self _ := by
    simpa only [Option.some.injEq] using CompileAddr.compiled native ascii self

instance : CompileInAddrInt In6Addr (CompileAddr In6Addr) where
  fresh := { addr := In6Addr.zero, valid := true }
  valid := CompileAddr.valid
  invalidate self := { self with valid := false }
  compile := CompileAddr.compile
  read self := some self.addr
  started := rfl
  cleared _ := rfl
  compiled native sv ascii self _ := by
    simpa only [Option.some.injEq] using CompileAddr.compiled native ascii self

instance : CompileInAddrInt InAnyAddr CompileAnyAddr where
  fresh := { u := .addr4 In4Addr.zero, v4 := true, valid := true }
  valid := CompileAnyAddr.valid
  invalidate self := { self with valid := false }
  compile := CompileAnyAddr.compile
  read := CompileAnyAddr.read
  started := rfl
  cleared _ := rfl
  compiled native sv ascii self initial := by
    rcases initial with rfl | rfl
    · exact CompileAnyAddr.compiled native ascii _ rfl
    · exact CompileAnyAddr.compiled native ascii _ rfl

/-- The members for a subnet: those for its address, and the prefix. -/
structure CompileSubnet (State : Type) where
  base : State
  pfx : UInt8

namespace CompileSubnet

section

variable (Addr : Type) {State : Type} [TextAddr Addr] [CompileInAddrInt Addr State]

def fresh : CompileSubnet State := { base := CompileInAddrInt.fresh Addr, pfx := 0 }

/-- The `try` block for the prefix. -/
def compilePfx (sv : List CharT) (self : CompileSubnet State) : Except Fault (CompileSubnet State) :=
  catchAll ((Subnet.pfxFromStr sv).map fun pfx => { self with pfx })
    { self with base := CompileInAddrInt.invalidate Addr self.base }

/-- Without a slash both parts are the whole text. -/
def compile (native : ByteOrder) (sv : List CharT) (self : CompileSubnet State) :
    Except Fault (CompileSubnet State) := do
  let pos := rfind (ch '/') sv
  let base := if pos = none then CompileInAddrInt.invalidate Addr self.base else self.base
  let base ← CompileInAddrInt.compile Addr native (before pos sv) base
  compilePfx Addr (lastPart pos sv) { self with base }

/-- The constructor is called with what was collected. -/
def operator {Sub : Type} [Subnet Sub Addr] (self : CompileSubnet State) : Option (Except Fault Sub) :=
  if CompileInAddrInt.valid Addr self.base then
    (CompileInAddrInt.read self.base).map fun addr => Subnet.make addr self.pfx
  else
    none

end

end CompileSubnet

/-- A literal: the compile step of its text, the flag it asserts and the operator, with
`none` where the program does not compile. -/
structure Literal (X : Type) where
  State : Type
  compile : ByteOrder → List CharT → Except Fault State
  valid : State → Bool
  operator : State → Option (Except Fault X)

def addrLiteral (Addr : Type) {State : Type} [TextAddr Addr] [CompileInAddrInt Addr State] : Literal Addr where
  State := State
  compile native sv := CompileInAddrInt.compile Addr native sv (CompileInAddrInt.fresh Addr)
  valid := CompileInAddrInt.valid Addr
  operator state := if CompileInAddrInt.valid Addr state then (CompileInAddrInt.read state).map .ok else none

def subnetLiteral (Sub : Type) {Addr State : Type} [TextAddr Addr] [Subnet Sub Addr]
    [CompileInAddrInt Addr State] : Literal Sub where
  State := CompileSubnet State
  compile native sv := CompileSubnet.compile Addr native sv (CompileSubnet.fresh Addr)
  valid state := CompileInAddrInt.valid Addr state.base
  operator := CompileSubnet.operator Addr

namespace Literal

def ip4 : Literal In4Addr := addrLiteral In4Addr
def ip6 : Literal In6Addr := addrLiteral In6Addr
def ip : Literal InAnyAddr := addrLiteral InAnyAddr
def sub4 : Literal Subnet4 := subnetLiteral Subnet4
def sub6 : Literal Subnet6 := subnetLiteral Subnet6
def sub : Literal SubnetAny := subnetLiteral SubnetAny

/-- The flag says whether the parser returns, and where it does the operator has its value. -/
def Agrees {X : Type} (literal : Literal X) (fromStr : ByteOrder → List CharT → Except Fault X)
    (native : ByteOrder) (sv : List CharT) : Prop :=
  ∃ state, literal.compile native sv = .ok state ∧
    (literal.valid state = true ↔ ∃ x, fromStr native sv = .ok x) ∧
    ∀ x, fromStr native sv = .ok x → literal.operator state = some (.ok x)

end Literal

/-- An address and a prefix of one byte, but of more bits than the address has. -/
def Oversized (Addr : Type) [TextAddr Addr] (native : ByteOrder) (sv : List CharT) : Prop :=
  ∃ (addr : Addr) (pfx : Nat), Subnet.IsSubnet native sv addr pfx ∧ TextAddr.addrBits addr < pfx ∧ pfx < 256

namespace Subnet

variable {Addr : Type} [TextAddr Addr] {native : ByteOrder}

theorem IsSubnet.slash {sv : List CharT} {addr : Addr} {pfx : Nat} (subnet : IsSubnet native sv addr pfx) :
    ch '/' ∈ sv := by
  obtain ⟨front, digits, rfl, _⟩ := subnet
  simp

theorem isSubnet_cut (front : List CharT) {digits : List CharT} (absent : ch '/' ∉ digits) (addr : Addr)
    (pfx : Nat) : IsSubnet native (front ++ ch '/' :: digits) addr pfx ↔
      TextAddr.fromStr native front = .ok addr ∧ IsNumeral 10 digits ∧ numeralValue 10 digits = pfx := by
  constructor
  · rintro ⟨other, rest, cut, parsed, numeral, value⟩
    have missing : ch '/' ∉ rest := numeral.not_mem (by decide)
    have place := congrArg (rfind (ch '/')) cut
    rw [rfind_append front absent, rfind_append other missing, Option.some.injEq] at place
    obtain ⟨rfl, tail⟩ := List.append_inj cut place
    obtain rfl : digits = rest := (List.cons.inj tail).2
    exact ⟨parsed, numeral, value⟩
  · rintro ⟨parsed, numeral, value⟩
    exact ⟨front, digits, rfl, parsed, numeral, value⟩

end Subnet

/-- What the compile step collected of a text: the flag stands for an address, a slash and a
byte, and the members are those. -/
structure CompileSubnet.Collects (Addr : Type) {State : Type} [TextAddr Addr] [CompileInAddrInt Addr State]
    (native : ByteOrder) (sv : List CharT) (state : CompileSubnet State) : Prop where
  flag : CompileInAddrInt.valid Addr state.base = true ↔
    ∃ (addr : Addr) (pfx : UInt8), Subnet.IsSubnet native sv addr pfx.toNat
  members : ∀ (addr : Addr) (pfx : UInt8), Subnet.IsSubnet native sv addr pfx.toNat →
    CompileInAddrInt.read state.base = some addr ∧ state.pfx = pfx

section

variable {Addr State : Type} [TextAddr Addr] [CompileInAddrInt Addr State] (native : ByteOrder) {sv : List CharT}

namespace CompileSubnet

variable (Addr) in
theorem compilePfx_cases (ascii : Ascii sv) (self : CompileSubnet State) :
    (∃ pfx, Subnet.pfxFromStr sv = .ok pfx ∧ compilePfx Addr sv self = .ok { self with pfx }) ∨
      (∃ fault, Subnet.pfxFromStr sv = .error fault) ∧
        compilePfx Addr sv self = .ok { self with base := CompileInAddrInt.invalidate Addr self.base } :=
  catchAll_map (fun _ => Subnet.pfxFromStr_thrown ascii) _ _

theorem Collects.down {state : CompileSubnet State} (invalid : ¬ CompileInAddrInt.valid Addr state.base = true)
    (other : ∀ (addr : Addr) (pfx : UInt8), ¬ Subnet.IsSubnet native sv addr pfx.toNat) :
    Collects Addr native sv state where
  flag := by
    refine iff_of_false invalid ?_
    rintro ⟨addr, pfx, subnet⟩
    exact other addr pfx subnet
  members addr pfx subnet := (other addr pfx subnet).elim

private theorem compiled_plain (ascii : Ascii sv) (absent : ch '/' ∉ sv) :
    ∃ state, compile Addr native sv (fresh Addr) = .ok state ∧ Collects Addr native sv state := by
  have other (addr : Addr) (pfx : UInt8) : ¬ Subnet.IsSubnet native sv addr pfx.toNat :=
    fun subnet => absent subnet.slash
  obtain ⟨base, compiled, flag, _⟩ := CompileInAddrInt.compiled native sv ascii
    (CompileInAddrInt.invalidate Addr (CompileInAddrInt.fresh Addr)) (.inr rfl)
  have down : ¬ CompileInAddrInt.valid Addr base = true := by
    rw [flag, CompileInAddrInt.cleared]
    simp
  have stepped : compile Addr native sv (fresh Addr) =
      compilePfx Addr sv { base, pfx := 0 } := by
    simp only [compile, fresh, rfind_eq_none.mpr absent, before, lastPart, if_true, compiled]
    rfl
  rw [stepped]
  rcases compilePfx_cases Addr ascii { base, pfx := 0 } with ⟨pfx, _, stored⟩ | ⟨_, handled⟩
  · exact ⟨_, stored, Collects.down native down other⟩
  · refine ⟨_, handled, Collects.down native ?_ other⟩
    rw [CompileInAddrInt.cleared]
    simp

private theorem compiled_cut {front digits : List CharT} (ascii : Ascii (front ++ ch '/' :: digits))
    (absent : ch '/' ∉ digits) :
    ∃ state, compile Addr native (front ++ ch '/' :: digits) (fresh Addr) = .ok state ∧
      Collects Addr native (front ++ ch '/' :: digits) state := by
  obtain ⟨base, compiled, flag, read⟩ := CompileInAddrInt.compiled native front
    (fun c member => ascii c (List.mem_append_left _ member)) (CompileInAddrInt.fresh Addr) (.inl rfl)
  rw [CompileInAddrInt.started, eq_self, true_and] at flag
  have behind : Ascii digits := fun c member => ascii c (List.mem_append_right _ (List.mem_cons_of_mem _ member))
  have parts (addr : Addr) (pfx : UInt8) :
      Subnet.IsSubnet native (front ++ ch '/' :: digits) addr pfx.toNat ↔ _ :=
    Subnet.isSubnet_cut front absent addr pfx.toNat
  have stepped : compile Addr native (front ++ ch '/' :: digits) (fresh Addr) =
      compilePfx Addr digits { base, pfx := 0 } := by
    simp only [compile, fresh, rfind_append front absent, before, lastPart, reduceCtorEq, if_false, take_at_sep,
      drop_after_sep, compiled]
    rfl
  rw [stepped]
  rcases compilePfx_cases Addr behind { base, pfx := 0 } with
    ⟨pfx, decoded, stored⟩ | ⟨⟨fault, refused⟩, handled⟩
  · obtain ⟨numeral, value⟩ := (Subnet.pfxFromStr_ok_iff digits pfx).mp decoded
    refine ⟨_, stored, ⟨flag.trans ⟨?_, ?_⟩, fun addr other subnet => ?_⟩⟩
    · rintro ⟨addr, parsed⟩
      exact ⟨addr, pfx, (parts addr _).mpr ⟨parsed, numeral, value⟩⟩
    · rintro ⟨addr, other, subnet⟩
      exact ⟨addr, ((parts addr _).mp subnet).1⟩
    · obtain ⟨parsed, _, same⟩ := (parts addr _).mp subnet
      exact ⟨read addr parsed, UInt8.toNat_inj.mp (value.symm.trans same)⟩
  · refine ⟨_, handled, Collects.down native ?_ fun addr pfx subnet => ?_⟩
    · rw [CompileInAddrInt.cleared]
      simp
    · obtain ⟨_, numeral, value⟩ := (parts addr _).mp subnet
      rw [(Subnet.pfxFromStr_ok_iff digits pfx).mpr ⟨numeral, value⟩] at refused
      cases refused

variable (Addr) in
theorem compiled (ascii : Ascii sv) :
    ∃ state, compile Addr native sv (fresh Addr) = .ok state ∧ Collects Addr native sv state := by
  rcases rfind_cases (ch '/') sv with ⟨_, absent⟩ | ⟨front, digits, rfl, absent, _⟩
  · exact compiled_plain native ascii absent
  · exact compiled_cut native ascii absent

end CompileSubnet

variable (Addr) in
theorem addrLiteral_agrees (ascii : Ascii sv) : (addrLiteral Addr).Agrees TextAddr.fromStr native sv := by
  obtain ⟨state, compiled, flag, read⟩ :=
    CompileInAddrInt.compiled native sv ascii (CompileInAddrInt.fresh Addr) (.inl rfl)
  rw [CompileInAddrInt.started, eq_self, true_and] at flag
  refine ⟨state, compiled, flag, fun addr parsed => ?_⟩
  have valid := flag.mpr ⟨addr, parsed⟩
  change (if CompileInAddrInt.valid Addr state then (CompileInAddrInt.read state).map Except.ok else none) = _
  rw [if_pos valid, read addr parsed]
  rfl

/-- A prefix of one byte that is too long for its address is refused by the constructor alone,
so the flag stays up and the operator throws. -/
theorem subnetLiteral_oversized (Sub : Type) [Subnet Sub Addr] (ascii : Ascii sv) {addr : Addr} {pfx : Nat}
    (subnet : Subnet.IsSubnet native sv addr pfx) (large : TextAddr.addrBits addr < pfx) (byte : pfx < 256) :
    (∃ state, (subnetLiteral Sub).compile native sv = .ok state ∧ (subnetLiteral Sub).valid state = true ∧
        (subnetLiteral Sub).operator state = some (.error (invalidSubnetPfx pfx))) ∧
      (Subnet.fromStr native sv : Except Fault Sub) = .error (invalidSubnetPfx pfx) := by
  have same : (UInt8.ofNat pfx).toNat = pfx := by rw [UInt8.toNat_ofNat', Nat.mod_eq_of_lt byte]
  have refused : (Subnet.make addr (UInt8.ofNat pfx) : Except Fault Sub) = .error (invalidSubnetPfx pfx) := by
    have thrown : (Subnet.make addr (UInt8.ofNat pfx) : Except Fault Sub) = _ :=
      Subnet.refused addr (UInt8.ofNat pfx) (same.symm ▸ large)
    rwa [same] at thrown
  have read : Subnet.IsSubnet native sv addr (UInt8.ofNat pfx).toNat := same.symm ▸ subnet
  obtain ⟨state, compiled, flag, members⟩ := CompileSubnet.compiled Addr native ascii
  obtain ⟨address, bits⟩ := members addr _ read
  have valid := flag.mpr ⟨addr, _, read⟩
  refine ⟨⟨state, compiled, valid, ?_⟩, ?_⟩
  · change CompileSubnet.operator Addr state = _
    rw [CompileSubnet.operator, if_pos valid, address, bits, Option.map_some, refused]
  · obtain ⟨front, digits, rfl, parsed, numeral, value⟩ := read
    rw [Subnet.fromStr_cut native front (numeral.not_mem (by decide)), parsed,
      (Subnet.pfxFromStr_ok_iff digits _).mpr ⟨numeral, value⟩]
    exact refused

/-- The compile step never compares the prefix with the address, so just the prefixes that
are too long for it and fit a byte pass. -/
theorem subnetLiteral_agrees_iff (Sub : Type) [Subnet Sub Addr] (ascii : Ascii sv) :
    (subnetLiteral Sub).Agrees Subnet.fromStr native sv ↔ ¬ Oversized Addr native sv := by
  constructor
  · rintro ⟨state, compiled, agrees, _⟩ ⟨addr, pfx, subnet, large, byte⟩
    obtain ⟨⟨other, again, valid, _⟩, thrown⟩ := subnetLiteral_oversized native Sub ascii subnet large byte
    obtain rfl : state = other := Except.ok.inj (compiled.symm.trans again)
    obtain ⟨x, accepted⟩ := agrees.mp valid
    rw [thrown] at accepted
    cases accepted
  · intro fitting
    obtain ⟨state, compiled, flag, members⟩ := CompileSubnet.compiled Addr native ascii
    refine ⟨state, compiled, flag.trans ⟨?_, ?_⟩, fun x accepted => ?_⟩
    · rintro ⟨addr, pfx, subnet⟩
      have fits : pfx.toNat ≤ TextAddr.addrBits addr := by
        by_contra large
        exact fitting ⟨addr, pfx.toNat, subnet, Nat.lt_of_not_le large, pfx.toNat_lt⟩
      obtain ⟨x, made⟩ : ∃ x : Sub, Subnet.make addr pfx = .ok x := Subnet.accepted addr pfx fits
      obtain ⟨rfl, rfl⟩ := (Subnet.made addr pfx x).mp made
      exact ⟨x, (Subnet.fromStr_ok_iff native sv x).mpr subnet⟩
    · rintro ⟨x, accepted⟩
      exact ⟨_, _, (Subnet.fromStr_ok_iff native sv x).mp accepted⟩
    · have subnet := (Subnet.fromStr_ok_iff native sv x).mp accepted
      obtain ⟨read, pfx⟩ := members _ _ subnet
      change CompileSubnet.operator Addr state = _
      rw [CompileSubnet.operator, if_pos (flag.mpr ⟨_, _, subnet⟩), read, pfx]
      exact congrArg some ((Subnet.made _ _ x).mpr ⟨rfl, rfl⟩)

end

/-- The literals of addresses agree with their parsers on every text, those of subnets unless
the prefix is longer than the address and still a byte. -/
theorem literals_agree_iff (native : ByteOrder) (sv : List CharT) (ascii : Ascii sv) :
    Literal.ip4.Agrees In4Addr.fromStr native sv ∧ Literal.ip6.Agrees In6Addr.fromStr native sv ∧
      Literal.ip.Agrees InAnyAddr.fromStr native sv ∧
      (Literal.sub4.Agrees Subnet.fromStr native sv ↔ ¬ Oversized In4Addr native sv) ∧
      (Literal.sub6.Agrees Subnet.fromStr native sv ↔ ¬ Oversized In6Addr native sv) ∧
      (Literal.sub.Agrees Subnet.fromStr native sv ↔ ¬ Oversized InAnyAddr native sv) :=
  ⟨addrLiteral_agrees In4Addr native ascii, addrLiteral_agrees In6Addr native ascii,
    addrLiteral_agrees InAnyAddr native ascii, subnetLiteral_agrees_iff native Subnet4 ascii,
    subnetLiteral_agrees_iff native Subnet6 ascii, subnetLiteral_agrees_iff native SubnetAny ascii⟩

theorem literals_agree_iff_v4 : Literal.sub4.Agrees Subnet.fromStr .little ("0.0.0.0/30".toList.map ch) := by
  have agree := literals_agree_iff .little ("0.0.0.0/30".toList.map ch) (by decide +kernel)
  apply agree.2.2.2.1.mpr
  rintro ⟨addr, pfx, subnet, large, _⟩
  have absent : ch '/' ∉ "30".toList.map ch := by decide
  have cut := (Subnet.isSubnet_cut ("0.0.0.0".toList.map ch) absent addr pfx).mp subnet
  have value : numeralValue 10 ("30".toList.map ch) = 30 := by decide
  have bits : 32 < pfx := large
  omega

/-- The flag of `"1.2.3.4/33"_sub4` is up, but the constructor throws out of the operator, and
the parser throws as well. -/
theorem sub4_throws :
    (∃ state, Literal.sub4.compile .little ("1.2.3.4/33".toList.map ch) = .ok state ∧
        Literal.sub4.valid state = true ∧
        Literal.sub4.operator state = some (.error (.invalidArgument "Invalid subnet prefix 33"))) ∧
      (Subnet.fromStr .little ("1.2.3.4/33".toList.map ch) : Except Fault Subnet4) =
        .error (.invalidArgument "Invalid subnet prefix 33") ∧
      ¬ Literal.sub4.Agrees Subnet.fromStr .little ("1.2.3.4/33".toList.map ch) := by
  have ascii : Ascii ("1.2.3.4/33".toList.map ch) := by decide +kernel
  have subnet : Subnet.IsSubnet .little ("1.2.3.4/33".toList.map ch) (⟨[1, 2, 3, 4], rfl⟩ : In4Addr) 33 :=
    ⟨"1.2.3.4".toList.map ch, "33".toList.map ch, rfl, by decide +kernel, by decide +kernel, by decide⟩
  have large : InAddr.addrBits In4Addr < 33 := by decide
  have byte : 33 < 256 := by decide
  obtain ⟨thrown, refused⟩ := subnetLiteral_oversized .little Subnet4 ascii subnet large byte
  refine ⟨thrown, refused, fun agrees => ?_⟩
  exact (subnetLiteral_agrees_iff .little Subnet4 ascii).mp agrees ⟨_, 33, subnet, large, byte⟩

end Stdplus.Net
