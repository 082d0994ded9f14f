import Stdplus.Net.Addr.In6Print

namespace Stdplus.Net

open Stdplus.Base Stdplus.Numeric

structure Sock4Addr where
  addr : In4Addr
  port : UInt16
deriving DecidableEq

structure Sock6Addr where
  addr : In6Addr
  port : UInt16
  scope : UInt32
deriving DecidableEq

/-- `std::size(sockaddr_un{}.sun_path)`. -/
def SockUAddr.maxLen : Nat := 108

/-- The array of the address and how much of it is the path; `@` stands in front
of an abstract name. -/
structure SockUAddr where
  buf_ : List CharT
  len_ : Nat
  size : buf_.length = SockUAddr.maxLen
deriving DecidableEq

namespace SockUAddr

/-- Whether a path is an abstract name. -/
def IsAbstract (path : List CharT) : Prop := path.head? = some (ch '@') ∨ path.head? = some 0

instance (path : List CharT) : Decidable (IsAbstract path) := inferInstanceAs (Decidable (_ ∨ _))

/-- The public constructor. -/
def ofPath (path : List CharT) : Except Fault SockUAddr :=
  match path with
  | [] => .ok ⟨List.replicate maxLen 0, 0, by simp⟩
  | first :: rest =>
    if maxLen + (if IsAbstract path then 1 else 0) ≤ path.length then
      .error (.invalidArgument "Socket path too long")
    else if ¬ IsAbstract path ∧ 0 ∈ path then
      .error (.invalidArgument "Null bytes in non-abtract path")
    else
      .ok ⟨overwrite (List.replicate maxLen 0) 0 ((if IsAbstract path then ch '@' else first) :: rest),
        path.length, by simp⟩

def path (v : SockUAddr) : List CharT := v.buf_.take v.len_

def Constructed (v : SockUAddr) : Prop := ∃ path, ofPath path = .ok v

end SockUAddr

/-- `std::variant<Sock4Addr, Sock6Addr>`. -/
inductive SockInAddr where
  | sock4 (v : Sock4Addr)
  | sock6 (v : Sock6Addr)
deriving DecidableEq

/-- `std::variant<Sock4Addr, Sock6Addr, SockUAddr>`. -/
inductive SockAnyAddr where
  | sock4 (v : Sock4Addr)
  | sock6 (v : Sock6Addr)
  | sockU (v : SockUAddr)
deriving DecidableEq

/-- `IntToStr<10, std::uint16_t>`. -/
def portToStr (port : UInt16) : Writer CharT := uintToStr decimal port.toNat 0

def portBufSize : Nat := intToStrBufSize decimal (2 ^ 16 - 1) false

def upfx : List CharT := "unix:".toList.map ch

namespace Sock4Addr

def bufSize : Nat := In4Addr.bufSize + 1 + portBufSize

/-- `ToStr<Sock4Addr>`. -/
def toStr (native : ByteOrder) (v : Sock4Addr) : Writer CharT :=
  (v.addr.toStr native).seq ((Writer.put (ch ':')).seq (portToStr v.port))

end Sock4Addr

namespace Sock6Addr

/-- `Addr + sep + port chars`. -/
def bufSize : Nat := In6Addr.bufSize + 1 + portBufSize

/-- `ToStr<Sock6Addr>`. -/
def toStr (native : ByteOrder) (v : Sock6Addr) : Writer CharT :=
  (Writer.put (ch '[')).seq ((v.addr.toStr native).seq
    ((Writer.put (ch ']')).seq ((Writer.put (ch ':')).seq (portToStr v.port))))

end Sock6Addr

namespace SockUAddr

def bufSize : Nat := upfx.length + maxLen

/-- `ToStr<SockUAddr>`. -/
def toStr (v : SockUAddr) : Writer CharT := (Writer.copy upfx).seq (Writer.copy v.path)

end SockUAddr

namespace SockInAddr

def bufSize : Nat := max Sock4Addr.bufSize Sock6Addr.bufSize

/-- `ToStr<SockInAddr>`. -/
def toStr (native : ByteOrder) : SockInAddr → Writer CharT
  | .sock4 v => v.toStr native
  | .sock6 v => v.toStr native

end SockInAddr

namespace SockAnyAddr

def bufSize : Nat := max Sock4Addr.bufSize (max Sock6Addr.bufSize SockUAddr.bufSize)

/-- `ToStr<SockAnyAddr>`. -/
def toStr (native : ByteOrder) : SockAnyAddr → Writer CharT
  | .sock4 v => v.toStr native
  | .sock6 v => v.toStr native
  | .sockU v => v.toStr

end SockAnyAddr

namespace In6Addr

/-- Eight groups of at least three digits, at most one of them of fewer than four. -/
def Wide (v : In6Addr) : Prop :=
  (∀ i : Fin 8, 0x100 ≤ v.value i) ∧
    ∀ i j : Fin 8, i ≠ j → 0x1000 ≤ v.value i ∨ 0x1000 ≤ v.value j

instance (v : In6Addr) : Decidable v.Wide := inferInstanceAs (Decidable (_ ∧ _))

private theorem groupAt_length_le (v : In6Addr) (i : Nat) (places : Nat) (some_place : 0 < places)
    (small : v.value i < 16 ^ places) : (v.groupAt i).text.length ≤ places :=
  numeral_length_le hexadecimal places some_place small

private theorem lt_groupAt_length (v : In6Addr) (i places : Nat) (large : 16 ^ places ≤ v.value i) :
    places < (v.groupAt i).text.length :=
  lt_numeral_length hexadecimal places large

theorem value_lt (v : In6Addr) (i : Nat) : v.value i < 16 ^ 4 := by
  have small := (v.groupAt i).small
  have same := v.groupAt_value i
  rw [Group.value] at same
  omega

private theorem groupsAt_length_le (v : In6Addr) (first count : Nat) :
    (joined (ch ':') ((v.groupsAt first count).map Group.text)).length ≤ 5 * count := by
  induction count generalizing first with
  | zero => simp [groupsAt]
  | succ count ih =>
    have digits := v.groupAt_length_le first 4 (by decide) (v.value_lt first)
    have rest := ih (first + 1)
    rw [groupsAt_succ, List.map_cons]
    by_cases alone : (v.groupsAt (first + 1) count).map Group.text = []
    · rw [alone, joined, List.intercalate_singleton]
      omega
    · rw [joined_cons _ alone, List.length_append, List.length_cons]
      omega

private theorem full_length (v : In6Addr) :
    (joined (ch ':') ((v.groupsAt 0 8).map Group.text)).length =
      Finset.univ.sum (fun i : Fin 8 => (v.groupAt i).text.length) + 7 := by
  have some_group : (v.groupsAt 0 8).map Group.text ≠ [] := List.ne_nil_of_length_pos (by simp)
  have count := joined_length (ch ':') some_group
  have places : (((v.groupsAt 0 8).map Group.text).map (·.length + 1)).sum =
      Finset.univ.sum (fun i : Fin 8 => (v.groupAt i).text.length) + 8 := by
    have sum : Finset.univ.sum (fun i : Fin 8 => (v.groupAt i).text.length) =
        (v.groupAt 0).text.length + (v.groupAt 1).text.length + (v.groupAt 2).text.length +
        (v.groupAt 3).text.length + (v.groupAt 4).text.length + (v.groupAt 5).text.length +
        (v.groupAt 6).text.length + (v.groupAt 7).text.length := Fin.sum_univ_eight _
    simp only [sum, groupsAt, List.range', List.map_cons, List.map_nil, List.sum_cons, List.sum_nil,
      Nat.zero_add, Nat.reduceAdd]
    omega
  omega

private theorem sum_one_short : ∀ i : Fin 8,
    Finset.univ.sum (fun k : Fin 8 => if k = i then 2 else 4) = 30 ∧
      Finset.univ.sum (fun k : Fin 8 => if k = i then 3 else 4) = 31 := by
  decide

private theorem sum_two_short : ∀ i j : Fin 8, i ≠ j →
    Finset.univ.sum (fun k : Fin 8 => if k = i ∨ k = j then 3 else 4) = 30 := by
  decide

private theorem full_length_iff (v : In6Addr) :
    38 ≤ (joined (ch ':') ((v.groupsAt 0 8).map Group.text)).length ↔ v.Wide := by
  have four (k : Fin 8) : (v.groupAt k).text.length ≤ 4 :=
    v.groupAt_length_le k 4 (by decide) (v.value_lt k)
  rw [full_length]
  constructor
  · intro long
    constructor
    · intro i
      by_contra small
      have two := v.groupAt_length_le i 2 (by decide) (by omega)
      have sum := Finset.sum_le_sum (s := Finset.univ) (f := fun k : Fin 8 => (v.groupAt k).text.length)
        (g := fun k => if k = i then 2 else 4) (fun k _ => by
          by_cases same : k = i
          · simpa [same] using two
          · simpa [same] using four k)
      rw [(sum_one_short i).1] at sum
      omega
    · intro i j differ
      by_contra! small
      have short (k : Fin 8) (among : k = i ∨ k = j) : (v.groupAt k).text.length ≤ 3 := by
        rcases among with rfl | rfl
        · exact v.groupAt_length_le k 3 (by decide) small.1
        · exact v.groupAt_length_le k 3 (by decide) small.2
      have sum := Finset.sum_le_sum (s := Finset.univ) (f := fun k : Fin 8 => (v.groupAt k).text.length)
        (g := fun k => if k = i ∨ k = j then 3 else 4) (fun k _ => by
          by_cases among : k = i ∨ k = j
          · simpa [among] using short k among
          · simpa [among] using four k)
      rw [sum_two_short i j differ] at sum
      omega
  · rintro ⟨three, spread⟩
    obtain ⟨i, rest⟩ : ∃ i : Fin 8, ∀ k : Fin 8, k ≠ i → 0x1000 ≤ v.value k := by
      by_cases all : ∀ k : Fin 8, 0x1000 ≤ v.value k
      · exact ⟨0, fun k _ => all k⟩
      · obtain ⟨i, small⟩ := not_forall.mp all
        exact ⟨i, fun k other => (spread k i other).resolve_right small⟩
    have sum := Finset.sum_le_sum (s := Finset.univ) (f := fun k : Fin 8 => if k = i then 3 else 4)
      (g := fun k => (v.groupAt k).text.length) (fun k _ => by
        by_cases same : k = i
        · rw [if_pos same, same]
          exact v.lt_groupAt_length i 2 (three i)
        · rw [if_neg same]
          exact v.lt_groupAt_length k 3 (rest k same))
    rw [(sum_one_short i).2] at sum
    omega

private theorem Wide.pair_ne_zero {v : In6Addr} (wide : v.Wide) (i : Fin 8) : v.pair i ≠ [0, 0] := by
  intro zeros
  have large := wide.1 i
  rw [value, zeros] at large
  exact absurd large (by decide)

private theorem text_short_or_full (native : ByteOrder) (v : In6Addr) :
    (v.text native).length < 38 ∧ ¬ v.Wide ∨
      v.text native = joined (ch ':') ((v.groupsAt 0 8).map Group.text) := by
  have zeros := skipped_zeroRun native v
  obtain ⟨reach, emits, bounded, _⟩ := v.toStr_emits native
  have covers := emits.covers
  by_cases mapped : v.isMapped native = true
  · have start : v.pair 0 = [0, 0] := by
      obtain ⟨content, _⟩ := mapped_bytes mapped
      rw [pair, content]
      rfl
    have few := bounded mapped
    exact .inl ⟨by omega, fun wide => wide.pair_ne_zero 0 start⟩
  · by_cases gap : 1 < (v.skipped native).size
    · have inside := zeros.inside
      have left := v.groupsAt_length_le 0 (v.skipped native).start
      have right := v.groupsAt_length_le ((v.skipped native).start + (v.skipped native).size)
        (8 - ((v.skipped native).start + (v.skipped native).size))
      refine .inl ⟨?_, fun wide => ?_⟩
      · rw [text, shown, if_neg mapped, dif_pos gap, In6Text.render, In6Text.segments]
        simp only [Option.map_none, Option.toList_none, List.append_nil, List.length_append,
          List.length_cons]
        omega
      · exact wide.pair_ne_zero ⟨(v.skipped native).start, by omega⟩
          (zeros.zeros _ (Nat.le_refl _) (by simp only; omega))
    · rw [text, shown, if_neg mapped, dif_neg gap]
      exact .inr rfl

theorem text_length_iff (native : ByteOrder) (v : In6Addr) :
    38 ≤ (v.text native).length ↔ v.Wide := by
  rcases text_short_or_full native v with ⟨short, narrow⟩ | full
  · exact iff_of_false (by omega) narrow
  · rw [full]
    exact full_length_iff v

theorem text_length_le (native : ByteOrder) (v : In6Addr) : (v.text native).length ≤ 39 := by
  rcases text_short_or_full native v with ⟨short, _⟩ | full
  · omega
  · have sum := Finset.sum_le_card_nsmul Finset.univ (fun i : Fin 8 => (v.groupAt i).text.length) 4
      (fun k _ => v.groupAt_length_le k 4 (by decide) (v.value_lt k))
    rw [full, full_length]
    rw [Finset.card_univ, Fintype.card_fin, smul_eq_mul] at sum
    omega

end In6Addr

/-- The printer stores only in the first `size` cells and ends within them. -/
def Within (writer : Writer CharT) (size : Nat) (mem : Nat → CharT) : Prop :=
  writer.touched mem ≤ size ∧ (writer 0 (OutBuffer.fresh mem)).1 ≤ size

theorem within_iff {writer : Writer CharT} {text : List CharT} {reach : Nat}
    (emits : Emits writer text reach) (size : Nat) (mem : Nat → CharT) :
    Within writer size mem ↔ reach ≤ size := by
  have covers := emits.covers
  rw [Within, emits.touched, emits.last]
  omega

theorem portReach_le (port : UInt16) : decimalReach port.toNat ≤ 6 :=
  decimalReach_le 3 (by decide) (by have := port.toNat_lt; omega)

theorem portBufSize_eq : portBufSize = 6 := by decide +kernel

theorem In4Addr.bufSize_eq : In4Addr.bufSize = 16 := by decide +kernel

theorem In6Addr.bufSize_eq : In6Addr.bufSize = 39 := by decide +kernel

theorem Sock4Addr.toStr_within (native : ByteOrder) (v : Sock4Addr) (mem : Nat → CharT) :
    Within (v.toStr native) Sock4Addr.bufSize mem := by
  obtain ⟨reach, emits, bounded, short⟩ := v.addr.toStr_emits native
  have port := portReach_le v.port
  have whole := emits.seq ((Emits.put (ch ':')).seq (decimal_emits v.port.toNat))
  refine (within_iff whole _ mem).mpr ?_
  rw [Sock4Addr.bufSize, In4Addr.bufSize_eq, portBufSize_eq, List.length_singleton]
  omega

/-- The widest addresses with ports of five digits. -/
def Sock6Addr.Overlong (v : Sock6Addr) : Prop := v.addr.Wide ∧ 10000 ≤ v.port.toNat

instance (v : Sock6Addr) : Decidable v.Overlong := inferInstanceAs (Decidable (_ ∧ _))

theorem Sock6Addr.toStr_emits (native : ByteOrder) (v : Sock6Addr) :
    ∃ text reach, Emits (v.toStr native) text reach ∧ reach ≤ 48 ∧
      (reach ≤ Sock6Addr.bufSize ↔ ¬ v.Overlong) := by
  obtain ⟨reach, emits, bounded, exact⟩ := v.addr.toStr_emits native
  have covers := emits.covers
  have port := portReach_le v.port
  have wide := v.addr.text_length_iff native
  have limit := v.addr.text_length_le native
  have size : Sock6Addr.bufSize = 46 := by
    rw [Sock6Addr.bufSize, In6Addr.bufSize_eq, portBufSize_eq]
  have whole := (Emits.put (ch '[')).seq (emits.seq ((Emits.put (ch ']')).seq
    ((Emits.put (ch ':')).seq (decimal_emits v.port.toNat))))
  have inner : reach ≤ 23 ∨ reach = (v.addr.text native).length := by
    by_cases mapped : v.addr.isMapped native = true
    · exact .inl (bounded mapped)
    · exact .inr (exact mapped)
  refine ⟨_, _, whole, ?_, ?_⟩
  · simp only [List.length_singleton]
    omega
  · rw [Sock6Addr.Overlong, ← wide, size]
    simp only [List.length_singleton]
    by_cases large : 10000 ≤ v.port.toNat
    · have five := lt_decimalReach 2 (show 100 ^ 2 ≤ v.port.toNat from large)
      omega
    · have four := decimalReach_le 2 (by decide) (show v.port.toNat < 100 ^ 2 by omega)
      omega

theorem SockUAddr.toStr_within (v : SockUAddr) (mem : Nat → CharT) :
    Within v.toStr SockUAddr.bufSize mem := by
  have whole := (Emits.copy upfx).seq (Emits.copy v.path)
  have fits : v.path.length ≤ SockUAddr.maxLen := by
    rw [SockUAddr.path, List.length_take, v.size]
    omega
  refine (within_iff whole _ mem).mpr ?_
  rw [SockUAddr.bufSize]
  omega

/-- A value of one of the socket address types; a path comes from the public constructor. -/
inductive SockValue where
  | sock4 (v : Sock4Addr)
  | sock6 (v : Sock6Addr)
  | sockU (v : SockUAddr) (made : v.Constructed)
  | sockIn (v : SockInAddr)
  | sockAny (v : SockAnyAddr) (made : ∀ path, v = .sockU path → path.Constructed)

namespace SockValue

def bufSize : SockValue → Nat
  | sock4 _ => Sock4Addr.bufSize
  | sock6 _ => Sock6Addr.bufSize
  | sockU _ _ => SockUAddr.bufSize
  | sockIn _ => SockInAddr.bufSize
  | sockAny _ _ => SockAnyAddr.bufSize

def toStr (native : ByteOrder) : SockValue → Writer CharT
  | sock4 v => v.toStr native
  | sock6 v => v.toStr native
  | sockU v _ => v.toStr
  | sockIn v => v.toStr native
  | sockAny v _ => v.toStr native

/-- The values that do not fit: the size of `SockAnyAddr` is that of the paths,
which is enough for every address. -/
def Overlong : SockValue → Prop
  | sock6 v => v.Overlong
  | sockIn (.sock6 v) => v.Overlong
  | _ => False

end SockValue

private theorem within_mono {writer : Writer CharT} {small size : Nat} {mem : Nat → CharT}
    (within : Within writer small mem) (larger : small ≤ size) : Within writer size mem :=
  ⟨within.1.trans larger, within.2.trans larger⟩

/-- Printing stays in the advertised buffer exactly for the values that are not
overlong. -/
theorem SockValue.toStr_within_iff (native : ByteOrder) (v : SockValue) (mem : Nat → CharT) :
    Within (v.toStr native) v.bufSize mem ↔ ¬ v.Overlong := by
  have inSize : SockInAddr.bufSize = Sock6Addr.bufSize := by decide +kernel
  have anySize : 48 ≤ SockAnyAddr.bufSize := by decide +kernel
  cases v with
  | sock4 v => exact iff_of_true (v.toStr_within native mem) not_false
  | sock6 v =>
    obtain ⟨_, reach, emits, _, fits⟩ := v.toStr_emits native
    exact (within_iff emits _ mem).trans fits
  | sockU v made => exact iff_of_true (v.toStr_within mem) not_false
  | sockIn v =>
    cases v with
    | sock4 v => exact iff_of_true (within_mono (v.toStr_within native mem) (le_max_left _ _)) not_false
    | sock6 v =>
      obtain ⟨_, reach, emits, _, fits⟩ := v.toStr_emits native
      rw [bufSize, inSize]
      exact (within_iff emits _ mem).trans fits
  | sockAny v made =>
    refine iff_of_true ?_ not_false
    cases v with
    | sock4 v => exact within_mono (v.toStr_within native mem) (le_max_left _ _)
    | sock6 v =>
      obtain ⟨_, reach, emits, limit, _⟩ := v.toStr_emits native
      exact (within_iff emits _ mem).mpr (limit.trans anySize)
    | sockU v =>
      exact within_mono (v.toStr_within mem) (le_max_of_le_right (le_max_right _ _))

private def widest : Sock6Addr where
  addr := ⟨List.replicate 16 0xff, rfl⟩
  port := 65535
  scope := 0

/-- Eight groups `ffff` and the port 65535 take 47 characters, and 48 cells are
stored, where 46 are advertised. -/
theorem SockValue.toStr_overlong :
    (SockValue.toStr .little (.sock6 widest)).touched (fun _ => 0) = 48 ∧
      (SockValue.toStr .little (.sock6 widest) 0 (OutBuffer.fresh fun _ => 0)).1 = 47 ∧
      SockValue.bufSize (.sock6 widest) = 46 ∧
      ¬ Within (SockValue.toStr .little (.sock6 widest)) (SockValue.bufSize (.sock6 widest)) (fun _ => 0) := by
  have cells : (SockValue.toStr .little (.sock6 widest)).touched (fun _ => 0) = 48 := by decide +kernel
  have stop : (SockValue.toStr .little (.sock6 widest) 0 (OutBuffer.fresh fun _ => 0)).1 = 47 := by
    decide +kernel
  have size : SockValue.bufSize (.sock6 widest) = 46 := by decide +kernel
  refine ⟨cells, stop, size, fun within => ?_⟩
  have bounded := within.1
  rw [cells, size] at bounded
  omega

end Stdplus.Net
