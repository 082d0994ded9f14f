import Stdplus.Net.Addr.SockDecode

namespace Stdplus.Net

open Stdplus.Base Stdplus.Numeric

/-- `StrToInt<10, std::uint16_t>`. -/
def portFromStr (sv : List CharT) : Except Fault UInt16 :=
  (strToIntUnsigned (some decimal) 16 sv).map UInt16.ofNat

/-- `FromStr<Sock4Addr>`. -/
def Sock4Addr.fromStr (native : ByteOrder) (sv : List CharT) : Except Fault Sock4Addr :=
  match rfind (ch ':') sv with
  | none => .error (.invalidArgument "Invalid string for Sock4Addr")
  | some pos => do
    let addr ← In4Addr.fromStr native (sv.take pos)
    let port ← portFromStr (sv.drop (pos + 1))
    .ok { addr, port }

/-- `FromStr<Sock6Addr>`. -/
def Sock6Addr.fromStr (native : ByteOrder) (sv : List CharT) : Except Fault Sock6Addr :=
  match rfind (ch ':') sv with
  | none => .error (.invalidArgument "Invalid string for Sock6Addr")
  | some pos =>
    let v6seg := sv.take pos
    if v6seg.head? ≠ some (ch '[') ∨ v6seg.getLast? ≠ some (ch ']') then
      .error (.invalidArgument "Invalid string for Sock6Addr")
    else do
      let addr ← In6Addr.fromStr native ((v6seg.drop 1).take (v6seg.length - 2))
      let port ← portFromStr (sv.drop (pos + 1))
      .ok { addr, port, scope := 0 }

/-- `FromStr<SockUAddr>`. -/
def SockUAddr.fromStr (sv : List CharT) : Except Fault SockUAddr :=
  SockUAddr.ofPath (if upfx <+: sv then sv.drop upfx.length else sv)

/-- `FromStr<SockInAddr>`. -/
def SockInAddr.fromStr (native : ByteOrder) (sv : List CharT) : Except Fault SockInAddr :=
  if sv.head? = some (ch '[') then (Sock6Addr.fromStr native sv).map .sock6
  else (Sock4Addr.fromStr native sv).map .sock4

/-- `FromStr<SockAnyAddr>`. -/
def SockAnyAddr.fromStr (native : ByteOrder) (sv : List CharT) : Except Fault SockAnyAddr :=
  if sv.head? = some (ch '[') then (Sock6Addr.fromStr native sv).map .sock6
  else if upfx <+: sv then (SockUAddr.fromStr sv).map .sockU
  else (Sock4Addr.fromStr native sv).map .sock4

def portText (port : UInt16) : List CharT := numeral decimal port.toNat 0

def Sock4Addr.text (v : Sock4Addr) : List CharT := v.addr.text ++ ch ':' :: portText v.port

def Sock6Addr.text (native : ByteOrder) (v : Sock6Addr) : List CharT :=
  ch '[' :: (v.addr.text native ++ [ch ']']) ++ ch ':' :: portText v.port

def SockUAddr.text (v : SockUAddr) : List CharT := upfx ++ v.path

def SockInAddr.text (native : ByteOrder) : SockInAddr → List CharT
  | .sock4 v => v.text
  | .sock6 v => v.text native

def SockAnyAddr.text (native : ByteOrder) : SockAnyAddr → List CharT
  | .sock4 v => v.text
  | .sock6 v => v.text native
  | .sockU v => v.text

theorem Sock4Addr.text_emits (native : ByteOrder) (v : Sock4Addr) :
    ∃ reach, Emits (v.toStr native) v.text reach := by
  obtain ⟨reach, emits, _⟩ := v.addr.toStr_emits native
  exact ⟨_, emits.seq ((Emits.put (ch ':')).seq (decimal_emits v.port.toNat))⟩

theorem Sock6Addr.text_emits (native : ByteOrder) (v : Sock6Addr) :
    ∃ reach, Emits (v.toStr native) (v.text native) reach := by
  obtain ⟨reach, emits, _⟩ := v.addr.toStr_emits native
  have whole := (Emits.put (ch '[')).seq (emits.seq ((Emits.put (ch ']')).seq
    ((Emits.put (ch ':')).seq (decimal_emits v.port.toNat))))
  have same : [ch '['] ++ (v.addr.text native ++ ([ch ']'] ++ ([ch ':'] ++ numeral decimal v.port.toNat 0))) =
      v.text native := by
    simp [Sock6Addr.text, portText]
  rw [same] at whole
  exact ⟨_, whole⟩

theorem SockUAddr.text_emits (v : SockUAddr) : Emits v.toStr v.text (upfx.length + v.path.length) := by
  have whole := (Emits.copy upfx).seq (Emits.copy v.path)
  rwa [Nat.max_eq_right (Nat.le_add_right _ _)] at whole

theorem SockInAddr.shown_toStr (native : ByteOrder) (x : SockInAddr) (mem : Nat → CharT) :
    (x.toStr native).shown mem = x.text native := by
  cases x with
  | sock4 v =>
    obtain ⟨_, emits⟩ := v.text_emits native
    exact emits.shown mem
  | sock6 v =>
    obtain ⟨_, emits⟩ := v.text_emits native
    exact emits.shown mem

theorem SockAnyAddr.shown_toStr (native : ByteOrder) (x : SockAnyAddr) (mem : Nat → CharT) :
    (x.toStr native).shown mem = x.text native := by
  cases x with
  | sock4 v =>
    obtain ⟨_, emits⟩ := v.text_emits native
    exact emits.shown mem
  | sock6 v =>
    obtain ⟨_, emits⟩ := v.text_emits native
    exact emits.shown mem
  | sockU v => exact v.text_emits.shown mem

theorem colon_not_mem_portText (port : UInt16) : ch ':' ∉ portText port :=
  (numeral_isNumeral decimal port.toNat 0).not_mem (by decide)

theorem portFromStr_portText (port : UInt16) : portFromStr (portText port) = .ok port := by
  have numeral := numeral_isNumeral decimal port.toNat 0
  have value := numeralValue_numeral decimal port.toNat 0
  have read := (strToIntUnsigned_ok_iff decimal (by decide) (portText port) port.toNat).mpr
    ⟨numeral, value, port.toNat_lt⟩
  rw [portFromStr, read, Except.map, UInt16.ofNat_toNat]

theorem Sock4Addr.fromStr_text (native : ByteOrder) (v : Sock4Addr) : fromStr native v.text = .ok v := by
  have split := rfind_append v.addr.text (colon_not_mem_portText v.port)
  rw [fromStr, text, split]
  simp only [take_at_sep, drop_after_sep, v.addr.fromStr_text, portFromStr_portText, bind, Except.bind]

theorem Sock6Addr.fromStr_text (native : ByteOrder) (v : Sock6Addr) :
    fromStr native (v.text native) = .ok { v with scope := 0 } := by
  have split := rfind_append (ch '[' :: (v.addr.text native ++ [ch ']'])) (colon_not_mem_portText v.port)
  have brackets : ¬ ((ch '[' :: (v.addr.text native ++ [ch ']'])).head? ≠ some (ch '[') ∨
      (ch '[' :: (v.addr.text native ++ [ch ']'])).getLast? ≠ some (ch ']')) := by
    rw [← List.cons_append, List.getLast?_concat]
    simp
  have inner : ((ch '[' :: (v.addr.text native ++ [ch ']'])).drop 1).take
      ((ch '[' :: (v.addr.text native ++ [ch ']'])).length - 2) = v.addr.text native := by
    simp
  rw [fromStr, text, split]
  simp only [take_at_sep, drop_after_sep, if_neg brackets, inner, v.addr.fromStr_text, portFromStr_portText,
    bind, Except.bind]

theorem SockUAddr.ofPath_path {v : SockUAddr} (constructed : v.Constructed) : ofPath v.path = .ok v := by
  obtain ⟨path, made⟩ := constructed
  obtain ⟨_, _, room⟩ := ofPath_ok made
  have held := ofPath_holds made
  by_cases abstract : IsAbstract path
  · rw [if_pos abstract] at room
    have shape : stored path = ch '@' :: path.tail := if_pos abstract
    have sign : IsAbstract (ch '@' :: path.tail) := .inl rfl
    have some_path : path ≠ [] := fun empty => absurd abstract (by rw [empty]; decide)
    have length := stored_length path some_path
    rw [shape] at held length
    obtain ⟨w, again⟩ := ofPath_accepts (by rw [if_pos sign, length]; omega) (.inl sign)
    have same := ofPath_holds again
    rw [stored_sign] at same
    rw [held.path, again, same.eq held]
  · rw [held.path, stored, if_neg abstract, made]

theorem SockUAddr.fromStr_text {v : SockUAddr} (constructed : v.Constructed) : fromStr v.text = .ok v := by
  rw [fromStr, text, if_pos (List.prefix_append _ _), List.drop_left, ofPath_path constructed]

theorem Sock4Addr.text_start (v : Sock4Addr) {c : CharT} (start : v.text.head? = some c) :
    c ≠ ch '[' ∧ c ≠ ch 'u' := by
  have among : c ∈ v.addr.text ∨ c = ch ':' := by
    cases content : v.addr.text with
    | nil =>
      rw [text, content] at start
      exact .inr (Option.some.inj start).symm
    | cons first rest =>
      rw [text, content] at start
      exact .inl (by rw [← Option.some.inj start]; exact List.mem_cons_self)
  rcases among with member | rfl
  · rcases mem_joined member with rfl | ⟨octet, present, inside⟩
    · decide
    · obtain ⟨digit, value, small⟩ := (v.addr.dotted.valid octet present).1.2 c inside
      constructor
      · rintro rfl
        have none_digit : digitValue (ch '[') = none := by decide
        rw [none_digit] at value
        cases value
      · rintro rfl
        have thirty : digitValue (ch 'u') = some 30 := by decide
        rw [thirty, Option.some.injEq] at value
        omega
  · decide

theorem Sock4Addr.text_not_bracket (v : Sock4Addr) : ¬ v.text.head? = some (ch '[') :=
  fun bracket => (v.text_start bracket).1 rfl

theorem Sock4Addr.text_not_upfx (v : Sock4Addr) : ¬ upfx <+: v.text := by
  rintro ⟨rest, split⟩
  have start : v.text.head? = some (ch 'u') := by
    rw [← split]
    rfl
  exact (v.text_start start).2 rfl

theorem Sock6Addr.text_bracket (native : ByteOrder) (v : Sock6Addr) :
    (v.text native).head? = some (ch '[') := rfl

theorem SockUAddr.text_upfx (v : SockUAddr) : upfx <+: v.text := List.prefix_append _ _

theorem SockUAddr.text_not_bracket (v : SockUAddr) : ¬ v.text.head? = some (ch '[') := by
  have first : v.text.head? = some (ch 'u') := rfl
  rw [first]
  decide

def SockInAddr.unscoped : SockInAddr → SockInAddr
  | .sock4 v => .sock4 v
  | .sock6 v => .sock6 { v with scope := 0 }

theorem SockInAddr.fromStr_text (native : ByteOrder) (x : SockInAddr) :
    fromStr native (x.text native) = .ok x.unscoped := by
  cases x with
  | sock4 v =>
    rw [fromStr, text, if_neg v.text_not_bracket, v.fromStr_text]
    rfl
  | sock6 v =>
    rw [fromStr, text, if_pos (v.text_bracket native), v.fromStr_text]
    rfl

/-- No scope, and a path of the public constructor. -/
def SockAnyAddr.Textual : SockAnyAddr → Prop
  | .sock4 _ => True
  | .sock6 v => v.scope = 0
  | .sockU v => v.Constructed

theorem SockAnyAddr.fromStr_text (native : ByteOrder) {x : SockAnyAddr} (textual : x.Textual) :
    fromStr native (x.text native) = .ok x := by
  cases x with
  | sock4 v =>
    rw [fromStr, text, if_neg v.text_not_bracket, if_neg v.text_not_upfx, v.fromStr_text]
    rfl
  | sock6 v =>
    have scope : v.scope = 0 := textual
    rw [fromStr, text, if_pos (v.text_bracket native), v.fromStr_text, ← scope]
    rfl
  | sockU v =>
    rw [fromStr, text, if_neg v.text_not_bracket, if_pos v.text_upfx, SockUAddr.fromStr_text textual]
    rfl

def SockInAddr.Textual (x : SockInAddr) : Prop := ∀ v, x = .sock6 v → v.scope = 0

theorem SockInAddr.unscoped_eq {x : SockInAddr} (textual : x.Textual) : x.unscoped = x := by
  cases x with
  | sock4 v => rfl
  | sock6 v =>
    have scope := textual v rfl
    rw [unscoped, ← scope]

/-- Parsing what was printed into any buffer gives the address in its alternative,
so that no two addresses print alike; an address with a scope comes back without. -/
theorem sockaddr_text_roundTrip (native : ByteOrder) (mem other : Nat → CharT) :
    (∀ x : SockAnyAddr, x.Textual → SockAnyAddr.fromStr native ((x.toStr native).shown mem) = .ok x) ∧
    (∀ x : SockInAddr, x.Textual → SockInAddr.fromStr native ((x.toStr native).shown mem) = .ok x) ∧
    (∀ x y : SockAnyAddr, x.Textual → y.Textual →
      (x.toStr native).shown mem = (y.toStr native).shown other → x = y) ∧
    ∀ x : SockInAddr, SockInAddr.fromStr native ((x.toStr native).shown mem) = .ok x.unscoped := by
  have anyText {x : SockAnyAddr} (textual : x.Textual) (mem : Nat → CharT) :
      SockAnyAddr.fromStr native ((x.toStr native).shown mem) = .ok x := by
    rw [x.shown_toStr, SockAnyAddr.fromStr_text native textual]
  have inText (x : SockInAddr) :
      SockInAddr.fromStr native ((x.toStr native).shown mem) = .ok x.unscoped := by
    rw [x.shown_toStr, x.fromStr_text]
  refine ⟨fun x textual => anyText textual mem, fun x textual => ?_, fun x y one two same => ?_, inText⟩
  · rw [inText, SockInAddr.unscoped_eq textual]
  · have read := anyText one mem
    rw [same, anyText two other, Except.ok.injEq] at read
    exact read.symm

/-- A path that starts like another form. -/
theorem sockaddr_text_roundTrip_path :
    ∃ v, SockUAddr.ofPath ("unix:[::]:1".toList.map ch) = .ok v ∧
      SockAnyAddr.fromStr .little (((SockAnyAddr.sockU v).toStr .little).shown fun _ => 0) = .ok (.sockU v) := by
  obtain ⟨v, made⟩ : ∃ v, SockUAddr.ofPath ("unix:[::]:1".toList.map ch) = .ok v := ⟨_, rfl⟩
  exact ⟨v, made, (sockaddr_text_roundTrip .little (fun _ => 0) (fun _ => 0)).1 (.sockU v) ⟨_, made⟩⟩

private def linkLocal : Sock6Addr where
  addr := ⟨[0xfe, 0x80, 0, 0, 0, 0, 0, 0, 0, 0, 0, 0, 0, 0, 0, 1], rfl⟩
  port := 22
  scope := 1

/-- The scope of `fe80::1` on the first interface is not printed. -/
theorem sockaddr_text_scope :
    SockInAddr.fromStr .little (((SockInAddr.sock6 linkLocal).toStr .little).shown fun _ => 0) ≠
      .ok (.sock6 linkLocal) := by
  rw [SockInAddr.shown_toStr, SockInAddr.fromStr_text]
  decide

end Stdplus.Net
