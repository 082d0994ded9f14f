import Stdplus.Numeric.Integral
import Stdplus.Numeric.Endian
import Stdplus.Raw.View

namespace Stdplus.Raw

open Stdplus.Base Stdplus.Numeric

/-- `EndianPacked<T, E>`. -/
structure EndianPacked where
  T : IntType
  E : ByteOrder

namespace EndianPacked

def sizeof (field : EndianPacked) : Nat := field.T.bits / 8

/-- The bytes after `operator=`. -/
def assign (native : ByteOrder) (field : EndianPacked) (t : Int) : List UInt8 :=
  encode native field.sizeof (htoe native field.E field.sizeof (field.T.toUnsigned t))

/-- `value()` of the object with these bytes. -/
def value (native : ByteOrder) (field : EndianPacked) (data : List UInt8) : Int :=
  field.T.cast (etoh native field.E field.sizeof (decode native data))

/-- The bytes of a value on any host. -/
def wire (field : EndianPacked) (t : Int) : List UInt8 := encode field.E field.sizeof (field.T.toUnsigned t)

@[simp] theorem wire_length (field : EndianPacked) (t : Int) : (field.wire t).length = field.sizeof :=
  encode_length _ _ _

theorem assign_eq (native : ByteOrder) (field : EndianPacked) (t : Int) : field.assign native t = field.wire t :=
  encode_htoe native field.E _ _

theorem value_wire (native : ByteOrder) {field : EndianPacked} {t : Int} (contains : field.T.Contains t) :
    field.value native (field.wire t) = t := by
  have bits : 256 ^ field.sizeof = 2 ^ field.T.bits := by
    have sized := field.T.sized
    rw [show 256 = 2 ^ 8 by rfl, ← Nat.pow_mul, sizeof, Nat.mul_div_cancel' (by omega)]
  have small : field.T.toUnsigned t % 2 ^ field.T.bits = field.T.toUnsigned t := by
    refine Nat.mod_eq_of_lt ?_
    rw [IntType.toUnsigned, Int.toNat_lt (Int.emod_nonneg _ (by positivity))]
    exact_mod_cast Int.emod_lt_of_pos t (by positivity)
  have same : field.T.cast (t % 2 ^ field.T.bits) = field.T.cast t := by
    have wrapped := Int.emod_bmod t (2 ^ field.T.bits)
    push_cast at wrapped
    rw [IntType.cast, IntType.cast, wrapped, Int.emod_emod]
  rw [value, etoh_decode native field.E (field.wire_length t), wire, decode_encode, bits, small, IntType.toUnsigned,
    Int.toNat_of_nonneg (Int.emod_nonneg _ (by positivity)), same, IntType.cast_of_contains contains]

end EndianPacked

/-- A record through references: each field is taken and assigned. -/
def writeRecord (native : ByteOrder) (width : Nat) :
    List (EndianPacked × Int) → List UInt8 → View → Except String (List UInt8 × View)
  | [], buf, data => .ok (buf, data)
  | (field, t) :: fields, buf, data => do
    let (place, data) ← extractRef width field.sizeof data
    writeRecord native width fields (overwrite buf place (field.assign native t)) data

def readRecord (native : ByteOrder) (width : Nat) (buf : List UInt8) :
    List EndianPacked → View → Except String (List Int × View)
  | [], data => .ok ([], data)
  | field :: fields, data => do
    let (bytes, data) ← extract width buf field.sizeof data
    let (values, data) ← readRecord native width buf fields data
    .ok (field.value native bytes :: values, data)

def wireOf (record : List (EndianPacked × Int)) : List UInt8 := record.flatMap fun item => item.1.wire item.2

structure Stands (width : Nat) (front data behind buf : List UInt8) (view : View) : Prop where
  buf : buf = front ++ data ++ behind
  view : view = ⟨front.length, data.length / width⟩
  aligned : width ∣ data.length

namespace Stands

variable {width sizeof : Nat} {front data behind buf : List UInt8} {view : View}

theorem lies (stands : Stands width front data behind buf view) : Lies width front data behind ⟨buf, view, []⟩ [] := by
  rw [stands.buf, stands.view]
  exact .start stands.aligned

theorem extract_eq (stands : Stands width front data behind buf view) (sizeof : Nat) :
    extract width buf sizeof view =
      if data.length < sizeof then .error s!"copyFrom: {data.length} < {sizeof}"
      else .ok (data.take sizeof, view.removePrefix width (sizeof / width)) :=
  stands.lies.extract_eq sizeof

theorem extractRef_eq (stands : Stands width front data behind buf view) (sizeof : Nat) :
    extractRef width sizeof view =
      if data.length < sizeof then .error s!"refFrom: {data.length} < {sizeof}"
      else .ok (front.length, view.removePrefix width (sizeof / width)) :=
  stands.lies.extractRef_eq sizeof

theorem advance (stands : Stands width front data behind buf view) (aligned : width ∣ sizeof)
    (fits : sizeof ≤ data.length) {piece : List UInt8} (length : piece.length = sizeof) :
    Stands width (front ++ piece) (data.drop sizeof) behind (front ++ piece ++ data.drop sizeof ++ behind)
      (view.removePrefix width (sizeof / width)) := by
  have own : ∀ bytes, Taken.copied (data.take sizeof) = .copied bytes → bytes = data.take sizeof := by
    rintro _ ⟨⟩
    rfl
  have cut := stands.lies.cut aligned fits (.copied (data.take sizeof) (.nil _)) own
  have total : [data.take sizeof].flatten.length = sizeof := by
    rw [List.flatten_singleton, List.length_take_of_le fits]
  have place := cut.view
  have whole := cut.whole
  change view.removePrefix width (sizeof / width) = ⟨front.length + [data.take sizeof].flatten.length,
    (data.length - [data.take sizeof].flatten.length) / width⟩ at place
  change width ∣ data.length - [data.take sizeof].flatten.length at whole
  rw [total] at place whole
  refine ⟨rfl, ?_, ?_⟩
  · rw [place, List.length_append, List.length_drop, length]
  · rwa [List.length_drop]

end Stands

section

variable {width : Nat} {front data behind buf : List UInt8} {view : View}

theorem writeRecord_eq (native : ByteOrder) (record : List (EndianPacked × Int))
    (aligned : ∀ item ∈ record, width ∣ item.1.sizeof) (stands : Stands width front data behind buf view)
    (fits : (wireOf record).length ≤ data.length) : ∃ view', writeRecord native width record buf view =
        .ok (front ++ wireOf record ++ data.drop (wireOf record).length ++ behind, view') ∧
      Stands width (front ++ wireOf record) (data.drop (wireOf record).length) behind
        (front ++ wireOf record ++ data.drop (wireOf record).length ++ behind) view' := by
  induction record generalizing front data buf view with
  | nil =>
    have same : front ++ wireOf [] ++ data.drop (wireOf []).length ++ behind = buf := by
      simp [wireOf, stands.buf]
    rw [same]
    exact ⟨view, rfl, by simpa [wireOf] using stands⟩
  | cons item record ih =>
    obtain ⟨field, t⟩ := item
    have wires : wireOf ((field, t) :: record) = field.wire t ++ wireOf record := rfl
    rw [wires, List.length_append, field.wire_length] at fits
    have enough : field.sizeof ≤ data.length := by omega
    have next := stands.advance (aligned _ List.mem_cons_self) enough (field.wire_length t)
    have stored : overwrite buf front.length (field.assign native t) =
        front ++ field.wire t ++ data.drop field.sizeof ++ behind := by
      have split : buf = front ++ data.take field.sizeof ++ (data.drop field.sizeof ++ behind) := by
        rw [stands.buf, List.append_assoc front (data.take _), ← List.append_assoc (data.take _),
          List.take_append_drop, List.append_assoc]
      rw [split, field.assign_eq, overwrite_part, List.append_assoc _ (data.drop _)]
      rw [field.wire_length, List.length_take_of_le enough]
    have rest : (wireOf record).length ≤ (data.drop field.sizeof).length := by
      rw [List.length_drop]
      omega
    obtain ⟨view', writes, later⟩ := ih (fun item among => aligned item (List.mem_cons_of_mem _ among)) next rest
    have joined : front ++ field.wire t ++ wireOf record = front ++ wireOf ((field, t) :: record) := by
      rw [wires, List.append_assoc]
    have dropped : (data.drop field.sizeof).drop (wireOf record).length =
        data.drop (wireOf ((field, t) :: record)).length := by
      rw [List.drop_drop, wires, List.length_append, field.wire_length]
    rw [joined, dropped] at writes later
    refine ⟨view', ?_, later⟩
    rw [writeRecord, stands.extractRef_eq, if_neg (Nat.not_lt.mpr enough)]
    simp only [Except.bind, bind, stored]
    exact writes

theorem readRecord_eq (native : ByteOrder) (record : List (EndianPacked × Int))
    (contains : ∀ item ∈ record, item.1.T.Contains item.2) (aligned : ∀ item ∈ record, width ∣ item.1.sizeof)
    {rest : List UInt8} (stands : Stands width front (wireOf record ++ rest) behind buf view) :
    ∃ view', readRecord native width buf (record.map Prod.fst) view = .ok (record.map Prod.snd, view') ∧
      Stands width (front ++ wireOf record) rest behind buf view' := by
  induction record generalizing front view with
  | nil => exact ⟨view, rfl, by simpa [wireOf] using stands⟩
  | cons item record ih =>
    obtain ⟨field, t⟩ := item
    have wires : wireOf ((field, t) :: record) = field.wire t ++ wireOf record := rfl
    rw [wires, List.append_assoc] at stands
    have enough : field.sizeof ≤ (field.wire t ++ (wireOf record ++ rest)).length := by
      rw [List.length_append, field.wire_length]
      omega
    have front' : (field.wire t ++ (wireOf record ++ rest)).take field.sizeof = field.wire t :=
      List.take_left' (field.wire_length t)
    have next := stands.advance (aligned _ List.mem_cons_self) enough (field.wire_length t)
    have same : front ++ field.wire t ++ (field.wire t ++ (wireOf record ++ rest)).drop field.sizeof ++ behind =
        buf := by
      rw [List.drop_left' (field.wire_length t), stands.buf]
      simp only [List.append_assoc]
    rw [same, List.drop_left' (field.wire_length t)] at next
    obtain ⟨view', reads, later⟩ := ih (fun item among => contains item (List.mem_cons_of_mem _ among))
      (fun item among => aligned item (List.mem_cons_of_mem _ among)) next
    rw [List.append_assoc, ← wires] at later
    refine ⟨view', ?_, later⟩
    rw [List.map_cons, readRecord, stands.extract_eq, if_neg (Nat.not_lt.mpr enough), front']
    simp only [Except.bind, bind, reads]
    rw [field.value_wire native (contains _ List.mem_cons_self), List.map_cons]

/-- A record that is cut short is refused at its first field that is not there whole. -/
theorem readRecord_short (native : ByteOrder) (record : List (EndianPacked × Int))
    (aligned : ∀ item ∈ record, width ∣ item.1.sizeof) {missing : List UInt8} (lacks : missing ≠ [])
    (short : data ++ missing = wireOf record) (stands : Stands width front data behind buf view) :
    ∃ before field t after, record = before ++ (field, t) :: after ∧ (wireOf before).length ≤ data.length ∧
      data.length < (wireOf before).length + field.sizeof ∧
      readRecord native width buf (record.map Prod.fst) view =
        .error s!"copyFrom: {data.length - (wireOf before).length} < {field.sizeof}" := by
  induction record generalizing front data view with
  | nil => exact absurd (List.append_eq_nil_iff.mp short).2 lacks
  | cons item record ih =>
    obtain ⟨field, t⟩ := item
    have wires : wireOf ((field, t) :: record) = field.wire t ++ wireOf record := rfl
    by_cases enough : field.sizeof ≤ data.length
    · have next := stands.advance (aligned _ List.mem_cons_self) enough (List.length_take_of_le enough)
      have same : front ++ data.take field.sizeof ++ data.drop field.sizeof ++ behind = buf := by
        rw [List.append_assoc front, List.take_append_drop, stands.buf]
      rw [same] at next
      have left : data.drop field.sizeof ++ missing = wireOf record := by
        have cut := congrArg (List.drop field.sizeof) short
        rwa [wires, List.drop_left' (field.wire_length t), List.drop_append_of_le_length enough] at cut
      obtain ⟨before, other, u, after, rfl, begins, ends, reads⟩ :=
        ih (fun item among => aligned item (List.mem_cons_of_mem _ among)) left next
      have total : (wireOf ((field, t) :: before)).length = field.sizeof + (wireOf before).length := by
        rw [show wireOf ((field, t) :: before) = field.wire t ++ wireOf before by rfl, List.length_append,
          field.wire_length]
      rw [List.length_drop] at begins ends reads
      refine ⟨(field, t) :: before, other, u, after, rfl, by omega, by omega, ?_⟩
      rw [List.map_cons, readRecord, stands.extract_eq, if_neg (Nat.not_lt.mpr enough)]
      simp only [Except.bind, bind, reads]
      rw [total, Nat.sub_sub]
    · refine ⟨[], field, t, record, rfl, Nat.zero_le _, ?_, ?_⟩
      · simpa [wireOf] using Nat.lt_of_not_le enough
      · rw [List.map_cons, readRecord, stands.extract_eq, if_pos (Nat.lt_of_not_le enough)]
        rfl

end

/-- What a host reads of a record through a view of `count` bytes from `start` on: the values, or the
text for the first field that is not there whole. -/
def ReadBack (native : ByteOrder) (width : Nat) (record : List (EndianPacked × Int)) (buf : List UInt8)
    (start count : Nat) : Prop :=
  let read := readRecord native width buf (record.map Prod.fst) ⟨start, count / width⟩
  let size := (wireOf record).length
  if size ≤ count then
    read = .ok (record.map Prod.snd, ⟨start + size, (count - size) / width⟩)
  else
    ∃ before field t after, record = before ++ (field, t) :: after ∧
      let left := count - (wireOf before).length
      (wireOf before).length ≤ count ∧ left < field.sizeof ∧ read = .error s!"copyFrom: {left} < {field.sizeof}"

/-- What one host stores through references, any other one reads by copies; cut short, it is refused. -/
theorem records_cross (writer reader : ByteOrder) (width other : Nat) (record : List (EndianPacked × Int))
    (contains : ∀ item ∈ record, item.1.T.Contains item.2)
    (aligned : ∀ item ∈ record, width ∣ item.1.sizeof ∧ other ∣ item.1.sizeof) (front space behind : List UInt8)
    (room : width ∣ space.length) (fits : (wireOf record).length ≤ space.length) :
    ∃ buf, writeRecord writer width record (front ++ space ++ behind) ⟨front.length, space.length / width⟩ =
        .ok (buf, ⟨front.length + (wireOf record).length, (space.length - (wireOf record).length) / width⟩) ∧
      buf = front ++ wireOf record ++ space.drop (wireOf record).length ++ behind ∧
      ∀ count, other ∣ count → front.length + count ≤ buf.length →
        ReadBack reader other record buf front.length count := by
  obtain ⟨view, writes, later⟩ := writeRecord_eq writer record (fun item among => (aligned item among).1)
    ⟨rfl, rfl, room⟩ fits
  refine ⟨_, ?_, rfl, fun count whole inside => ?_⟩
  · rw [writes, later.view, List.length_append, List.length_drop]
  · generalize tail : space.drop (wireOf record).length ++ behind = rest at *
    have buffer : front ++ wireOf record ++ space.drop (wireOf record).length ++ behind =
        front ++ (wireOf record ++ rest) := by
      rw [← tail]
      simp only [List.append_assoc]
    rw [buffer] at inside ⊢
    have within : count ≤ (wireOf record ++ rest).length := by
      rw [List.length_append] at inside
      omega
    have stands : Stands other front ((wireOf record ++ rest).take count) ((wireOf record ++ rest).drop count)
        (front ++ (wireOf record ++ rest)) ⟨front.length, count / other⟩ := by
      refine ⟨?_, ?_, ?_⟩
      · rw [List.append_assoc, List.take_append_drop]
      · rw [List.length_take_of_le within]
      · rwa [List.length_take_of_le within]
    have alignedTo (item : EndianPacked × Int) (among : item ∈ record) := (aligned item among).2
    rw [ReadBack]
    by_cases enough : (wireOf record).length ≤ count
    · rw [if_pos enough]
      have seen : (wireOf record ++ rest).take count =
          wireOf record ++ rest.take (count - (wireOf record).length) := by
        rw [List.take_append, List.take_of_length_le enough]
      rw [seen] at stands
      obtain ⟨view', reads, place⟩ := readRecord_eq reader record contains alignedTo stands
      have behind' : (rest.take (count - (wireOf record).length)).length = count - (wireOf record).length := by
        rw [List.length_append] at within
        exact List.length_take_of_le (by omega)
      rw [reads, place.view, List.length_append, behind']
    · rw [if_neg enough]
      have seen : (wireOf record ++ rest).take count = (wireOf record).take count :=
        List.take_append_of_le_length (Nat.le_of_not_le enough)
      rw [seen] at stands
      have lacks : (wireOf record).drop count ≠ [] := by
        intro none
        exact enough (List.drop_eq_nil_iff.mp none)
      obtain ⟨before, field, t, after, same, begins, ends, reads⟩ :=
        readRecord_short reader record alignedTo lacks (List.take_append_drop _ _) stands
      rw [List.length_take_of_le (Nat.le_of_not_le enough)] at begins ends reads
      exact ⟨before, field, t, after, same, begins, by omega, reads⟩

/-- `uint16_ult` and `int32_ubt`. -/
def sample : List (EndianPacked × Int) :=
  [(⟨{ bits := 16, isSigned := false, sized := by decide }, .little⟩, 513),
   (⟨{ bits := 32, isSigned := true, sized := by decide }, .big⟩, -2)]

theorem records_cross_sample : ∃ buf, writeRecord .little 1 sample [0, 0, 0, 0, 0, 0, 0] ⟨0, 7⟩ = .ok (buf, ⟨6, 1⟩) ∧
    buf = [1, 2, 255, 255, 255, 254, 0] ∧ ∀ count, 1 ∣ count → 0 + count ≤ buf.length →
      ReadBack .big 1 sample buf 0 count :=
  records_cross .little .big 1 1 sample (by decide) (by simp) [] [0, 0, 0, 0, 0, 0, 0] [] (by decide) (by decide)

end Stdplus.Raw
