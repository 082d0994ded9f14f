import Stdplus.Fd.FormatStore
import Stdplus.Net.Addr.Room
import Stdplus.Net.Addr.SockText
import Stdplus.Str.Printing

/-! Addresses that a handle shows or that are printed behind other text, and what is read back
of them. -/

namespace Stdplus.Net

open Stdplus.Base Stdplus.Numeric Stdplus.Str

/-- The types that both `ToStr` and `FromStr` are there for. -/
inductive AddrType where
  | in4 | in6 | inAny
  | ether
  | subnet4 | subnet6 | subnetAny
  | sock4 | sock6 | sockU | sockIn | sockAny

namespace AddrType

/-- `ToStr<T>::type`. -/
abbrev Value : AddrType → Type
  | in4 => In4Addr
  | in6 => In6Addr
  | inAny => InAnyAddr
  | ether => EtherAddr
  | subnet4 => Subnet4
  | subnet6 => Subnet6
  | subnetAny => SubnetAny
  | sock4 => Sock4Addr
  | sock6 => Sock6Addr
  | sockU => SockUAddr
  | sockIn => SockInAddr
  | sockAny => SockAnyAddr

def bufSize : AddrType → Nat
  | in4 => In4Addr.bufSize
  | in6 => In6Addr.bufSize
  | inAny => InAnyAddr.bufSize
  | ether => EtherAddr.bufSize
  | subnet4 => Subnet.bufSize Subnet4
  | subnet6 => Subnet.bufSize Subnet6
  | subnetAny => Subnet.bufSize SubnetAny
  | sock4 => Sock4Addr.bufSize
  | sock6 => Sock6Addr.bufSize
  | sockU => SockUAddr.bufSize
  | sockIn => SockInAddr.bufSize
  | sockAny => SockAnyAddr.bufSize

variable (native : ByteOrder)

def toStr : (type : AddrType) → type.Value → Writer CharT
  | in4, v => In4Addr.toStr native v
  | in6, v => In6Addr.toStr native v
  | inAny, v => InAnyAddr.toStr native v
  | ether, v => EtherAddr.toStr v
  | subnet4, v => Subnet.toStr native (v : Subnet4)
  | subnet6, v => Subnet.toStr native (v : Subnet6)
  | subnetAny, v => Subnet.toStr native (v : SubnetAny)
  | sock4, v => Sock4Addr.toStr native v
  | sock6, v => Sock6Addr.toStr native v
  | sockU, v => SockUAddr.toStr v
  | sockIn, v => SockInAddr.toStr native v
  | sockAny, v => SockAnyAddr.toStr native v

def fromStr (type : AddrType) (sv : List CharT) : Except Fault type.Value :=
  match type with
  | in4 => In4Addr.fromStr native sv
  | in6 => In6Addr.fromStr native sv
  | inAny => InAnyAddr.fromStr native sv
  | ether => EtherAddr.fromStr sv
  | subnet4 => Subnet.fromStr native sv
  | subnet6 => Subnet.fromStr native sv
  | subnetAny => Subnet.fromStr native sv
  | sock4 => Sock4Addr.fromStr native sv
  | sock6 => Sock6Addr.fromStr native sv
  | sockU => SockUAddr.fromStr sv
  | sockIn => SockInAddr.fromStr native sv
  | sockAny => SockAnyAddr.fromStr native sv

def text : (type : AddrType) → type.Value → List CharT
  | in4, v => In4Addr.text v
  | in6, v => In6Addr.text native v
  | inAny, v => InAnyAddr.text native v
  | ether, v => EtherAddr.text v
  | subnet4, v => Subnet.text native v
  | subnet6, v => Subnet.text native v
  | subnetAny, v => Subnet.text native v
  | sock4, v => Sock4Addr.text v
  | sock6, v => Sock6Addr.text native v
  | sockU, v => SockUAddr.text v
  | sockIn, v => SockInAddr.text native v
  | sockAny, v => SockAnyAddr.text native v

/-- The values that the buffer size of their type is too small for. -/
def Overlong : (type : AddrType) → type.Value → Prop
  | sock6, v => Sock6Addr.Overlong v
  | sockIn, .sock6 v => Sock6Addr.Overlong v
  | _, _ => False

/-- The values that their text says all of: no scope, and a path of the public constructor. -/
def Textual : (type : AddrType) → type.Value → Prop
  | sock6, v => Sock6Addr.scope v = 0
  | sockU, v => SockUAddr.Constructed v
  | sockIn, v => SockInAddr.Textual v
  | sockAny, v => SockAnyAddr.Textual v
  | _, _ => True

end AddrType

theorem SockAnyAddr.text_emits (native : ByteOrder) (x : SockAnyAddr) :
    ∃ reach, Emits (x.toStr native) (x.text native) reach ∧ reach ≤ SockAnyAddr.bufSize := by
  have size : 48 ≤ SockAnyAddr.bufSize := by decide +kernel
  cases x with
  | sock4 v =>
    obtain ⟨reach, emits⟩ := v.text_emits native
    have within := (within_iff emits _ fun _ => 0).mp (v.toStr_within native fun _ => 0)
    exact ⟨reach, emits, within.trans (le_max_left _ _)⟩
  | sock6 v =>
    obtain ⟨reach, emits⟩ := v.text_emits native
    obtain ⟨_, bounded, also, small, _⟩ := v.toStr_emits native
    have same : reach = bounded := (emits.touched fun _ => 0).symm.trans (also.touched fun _ => 0)
    exact ⟨reach, emits, same.le.trans (small.trans size)⟩
  | sockU v =>
    have within := (within_iff v.text_emits _ fun _ => 0).mp (v.toStr_within fun _ => 0)
    exact ⟨_, v.text_emits, within.trans (le_max_of_le_right (le_max_right _ _))⟩

theorem Sock6Addr.text_room_iff (native : ByteOrder) (v : Sock6Addr) :
    ∃ reach, Emits (v.toStr native) (v.text native) reach ∧ (reach ≤ Sock6Addr.bufSize ↔ ¬ v.Overlong) := by
  obtain ⟨reach, emits⟩ := v.text_emits native
  obtain ⟨_, bounded, also, _, exact_size⟩ := v.toStr_emits native
  have same : reach = bounded := (emits.touched fun _ => 0).symm.trans (also.touched fun _ => 0)
  exact ⟨reach, emits, same ▸ exact_size⟩

theorem EtherAddr.toStr_room (v : EtherAddr) : ∃ reach, Emits v.toStr v.text reach ∧ reach ≤ EtherAddr.bufSize :=
  ⟨17, v.toStr_emits, EtherAddr.bufSize_eq.ge⟩

namespace AddrType

variable (native : ByteOrder)

private theorem fitting {writer : Writer CharT} {text : List CharT} {size : Nat}
    (room : ∃ reach, Emits writer text reach ∧ reach ≤ size) :
    ∃ reach, Emits writer text reach ∧ (reach ≤ size ↔ ¬ False) := by
  obtain ⟨reach, emits, bounded⟩ := room
  exact ⟨reach, emits, iff_of_true bounded not_false⟩

/-- Each type's `ToStr` stays in its buffer size but for the overlong values. -/
theorem emits (type : AddrType) (v : type.Value) :
    ∃ reach, Emits (type.toStr native v) (type.text native v) reach ∧ (reach ≤ type.bufSize ↔ ¬ type.Overlong v) := by
  cases type with
  | in4 => exact fitting (TextAddr.emits native v)
  | in6 => exact fitting (TextAddr.emits native v)
  | inAny => exact fitting (TextAddr.emits native v)
  | ether => exact fitting (EtherAddr.toStr_room v)
  | subnet4 => exact fitting (Subnet.toStr_emits native v)
  | subnet6 => exact fitting (Subnet.toStr_emits native v)
  | subnetAny => exact fitting (Subnet.toStr_emits native v)
  | sock4 =>
    obtain ⟨reach, emits⟩ := Sock4Addr.text_emits native v
    exact fitting ⟨reach, emits, (within_iff emits _ fun _ => 0).mp (Sock4Addr.toStr_within native v fun _ => 0)⟩
  | sock6 => exact Sock6Addr.text_room_iff native v
  | sockU =>
    have within := SockUAddr.toStr_within v fun _ => 0
    exact fitting ⟨_, SockUAddr.text_emits v, (within_iff (SockUAddr.text_emits v) _ fun _ => 0).mp within⟩
  | sockIn =>
    have size : SockInAddr.bufSize = Sock6Addr.bufSize := by decide +kernel
    cases v with
    | sock4 v =>
      obtain ⟨reach, emits⟩ := v.text_emits native
      have within := (within_iff emits _ fun _ => 0).mp (v.toStr_within native fun _ => 0)
      exact fitting ⟨reach, emits, within.trans (le_max_left _ _)⟩
    | sock6 v =>
      obtain ⟨reach, emits, fits⟩ := v.text_room_iff native
      exact ⟨reach, emits, by rw [bufSize, size]; exact fits⟩
  | sockAny => exact fitting (SockAnyAddr.text_emits native v)

theorem subnet_text {Sub Addr : Type} [TextAddr Addr] [Subnet Sub Addr] (v : Sub) :
    Subnet.fromStr native (Subnet.text native v) = .ok v :=
  (Subnet.fromStr_ok_iff native _ v).mpr (Subnet.text_isSubnet native v)

theorem reads (type : AddrType) (v : type.Value) (textual : type.Textual v) :
    type.fromStr native (type.text native v) = .ok v := by
  cases type with
  | in4 | in6 | inAny => exact TextAddr.reads native v
  | ether => exact EtherAddr.fromStr_text v
  | subnet4 | subnet6 | subnetAny => exact subnet_text native v
  | sock4 => exact Sock4Addr.fromStr_text native v
  | sock6 =>
    have scope : Sock6Addr.scope v = 0 := textual
    exact (Sock6Addr.fromStr_text native v).trans (by rw [← scope])
  | sockU => exact SockUAddr.fromStr_text textual
  | sockIn => exact (SockInAddr.fromStr_text native v).trans (by rw [SockInAddr.unscoped_eq textual])
  | sockAny => exact SockAnyAddr.fromStr_text native textual

end AddrType

/-- A handle of one type, with the values it was used for and what it showed of each. -/
structure Showing (type : AddrType) where
  handle : ToStrHandle CharT
  shown : List (type.Value × List CharT)

namespace Showing

variable {type : AddrType} {native : ByteOrder}

def use (native : ByteOrder) (v : type.Value) (state : Showing type) : Option (Showing type) :=
  (state.handle.call type.bufSize (type.toStr native v)).map fun (sv, handle) =>
    { handle, shown := state.shown ++ [(v, sv)] }

theorem use_cases (native : ByteOrder) (v : type.Value) (state : Showing type) :
    (∃ handle, state.use native v = some { handle, shown := state.shown ++ [(v, type.text native v)] }) ∧
        ¬ type.Overlong v ∨
      state.use native v = none ∧ type.Overlong v := by
  obtain ⟨reach, emits, fits⟩ := type.emits native v
  rcases state.handle.call_spec emits with ⟨⟨handle, called⟩, room⟩ | ⟨undefined, long⟩
  · exact .inl ⟨⟨handle, by rw [use, called]; rfl⟩, fits.mp room⟩
  · refine .inr ⟨by rw [use, undefined]; rfl, ?_⟩
    exact not_not.mp fun short => absurd (fits.mpr short) (Nat.not_le_of_lt long)

/-- The uses of a handle, whatever its array held at first. -/
abbrev Runs (native : ByteOrder) : Showing type → Prop :=
  Reachable (fun state => state.shown = []) (fun state next => ∃ v, state.use native v = some next)

theorem runs_show_texts {state : Showing type} (runs : Runs native state) :
    ∀ entry ∈ state.shown, entry.2 = type.text native entry.1 := by
  induction runs with
  | start empty =>
    rw [empty]
    exact List.forall_mem_nil _
  | @step state next _ used texts =>
    obtain ⟨v, used⟩ := used
    intro entry member
    rcases state.use_cases native v with ⟨⟨handle, shows⟩, _⟩ | ⟨undefined, _⟩
    · cases shows.symm.trans used
      rcases List.mem_append.mp member with before | last
      · exact texts entry before
      · rw [List.mem_singleton.mp last]
    · cases undefined.symm.trans used

/-- However often and for whatever a handle was used before, it shows a text from which its value is
read back; it is undefined for the overlong values alone. -/
theorem runs_read_back {state : Showing type} (runs : Runs native state) :
    (∀ entry ∈ state.shown, entry.2 = type.text native entry.1 ∧
      (type.Textual entry.1 → type.fromStr native entry.2 = .ok entry.1)) ∧
    ∀ v, state.use native v = none ↔ type.Overlong v := by
  have texts := runs_show_texts runs
  refine ⟨fun entry member => ⟨texts entry member, fun textual => ?_⟩, fun v => ?_⟩
  · rw [texts entry member]
    exact type.reads native entry.1 textual
  · rcases state.use_cases native v with ⟨⟨handle, shows⟩, short⟩ | ⟨undefined, long⟩
    · exact iff_of_false (by rw [shows]; exact Option.some_ne_none _) short
    · exact iff_of_true undefined long

private def localhost : Sock6Addr where
  addr := ⟨List.replicate 15 0 ++ [1], rfl⟩
  port := 443
  scope := 0

/-- A handle over an array of other characters, used twice. -/
theorem runs_read_back_twice :
    ∃ state : Showing .sock6, state.shown.length = 2 ∧
      (∀ entry ∈ state.shown, entry.2 = AddrType.text .little .sock6 entry.1 ∧
        (AddrType.sock6.Textual entry.1 → AddrType.fromStr .little .sock6 entry.2 = .ok entry.1)) ∧
      ∀ v, state.use .little v = none ↔ AddrType.sock6.Overlong v := by
  let start : Showing .sock6 := { handle := { buf := fun _ => 0xff }, shown := [] }
  have short : ¬ AddrType.sock6.Overlong localhost := fun long => absurd long.2 (by decide)
  obtain ⟨⟨one, used⟩, _⟩ := (start.use_cases .little localhost).resolve_right fun none => short none.2
  obtain ⟨⟨two, again⟩, _⟩ := (Showing.use_cases .little localhost
    { handle := one, shown := start.shown ++ [(localhost, AddrType.text .little .sock6 localhost)] }).resolve_right
      fun none => short none.2
  exact ⟨_, rfl, runs_read_back (.step (.step (.start rfl) ⟨localhost, used⟩) ⟨localhost, again⟩)⟩

end Showing

/-- `ToStr` of a value for the characters of a buffer. -/
def printed (order native : ByteOrder) (type : AddrType) (v : type.Value) (short : ¬ type.Overlong v) :
    ToStr (Fd.strBuf order).Char :=
  ToStr.via UInt8.toBitVec UInt8.ofBitVec (fun _ => rfl)
    { buf_size := type.bufSize
      writer := type.toStr native v
      text := type.text native v
      room := by
        obtain ⟨reach, emits, fits⟩ := type.emits native v
        exact ⟨reach, emits, fits.mpr short⟩ }

def bytesOf {order : ByteOrder} (chars : List (Fd.strBuf order).Char) : List CharT := chars.map UInt8.ofBitVec

/-- Printed behind the characters of a buffer, a value is read back from behind them. -/
theorem runs_appended {order native : ByteOrder} {traits : Traits Unit}
    {state : Pool (Fd.strBuf order) Unit × Strings (Fd.strBuf order)}
    (reached : Reachable (· = (Pool.empty, fun _ => none)) (Pool.Goes traits) state) {this : Nat}
    {chars : List (Fd.strBuf order).Char} (held : state.2 this = some chars) {type : AddrType} {v : type.Value}
    (small : chars.length + type.bufSize < 2 ^ 63) (short : ¬ type.Overlong v) (textual : type.Textual v)
    (grant : Option (Grant (Fd.strBuf order))) :
    (∃ next buf more, state.1.write traits (.toStr this (printed order native type v short) grant) = .ok next ∧
      next.objs this = some buf ∧
      Here.view { buf with heap := next.heap } = (.ok (chars ++ more) : Except (Stop Unit) _) ∧
      type.fromStr native (bytesOf more) = .ok v) ∨
      ∃ left, state.1.write traits (.toStr this (printed order native type v short) grant) =
        .error (.thrown left) ∧ Pool.Shows left state.2 := by
  have represents := Pool.runs_represents reached
  have means : state.2.write (A := Unit) (.toStr this (printed order native type v short) grant) =
      some (Function.update state.2 this (some (chars ++ (printed order native type v short).text))) := by
    simp only [Strings.write, held]
    exact if_pos small
  rcases represents.write traits means with ⟨next, worked, written⟩ | ⟨left, threw, spared⟩
  · obtain ⟨buf, object, holds⟩ := written.found (Function.update_self this _ state.2)
    refine .inl ⟨next, buf, _, worked, object, (Holds.view { buf with heap := next.heap } holds).2, ?_⟩
    have same : bytesOf (printed order native type v short).text = type.text native v := by
      show ((type.text native v).map UInt8.toBitVec).map UInt8.ofBitVec = _
      rw [List.map_map]
      exact List.map_id _
    rw [same]
    exact type.reads native v textual
  · exact .inr ⟨left, threw, (spared trivial).shows⟩

end Stdplus.Net
