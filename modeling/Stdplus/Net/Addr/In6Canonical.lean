import Stdplus.Base.Runs
import Stdplus.Net.Addr.In4Text
import Stdplus.Net.Addr.In6Print

namespace Stdplus.Net

open Stdplus.Base Stdplus.Numeric

namespace In6Addr

/-- The first 80 bits are zero and the next 16 are ones. -/
def Mapped (v : In6Addr) : Prop := v.s6_addr.take 10 = List.replicate 10 0 ∧ v.pair 5 = [255, 255]

def ZeroAt (v : In6Addr) (i : Nat) : Prop := i < 8 ∧ v.pair i = [0, 0]

/-- A group in lower-case hex without leading zeros. -/
def hexText (v : In6Addr) (i : Nat) : List CharT := (Nat.toDigits 16 (v.value i)).map ch

def hexTexts (v : In6Addr) (first count : Nat) : List CharT :=
  joined (ch ':') ((List.range' first count).map v.hexText)

inductive Canonical (v : In6Addr) : List CharT → Prop where
  | mapped (prefixed : v.Mapped) :
      Canonical v ("::ffff:".toList.map ch ++ joined (ch '.') ((v.s6_addr.drop 12).map shortest))
  | gapped (plain : ¬ v.Mapped) {first count : Nat} (longest : FirstLongest v.ZeroAt 8 first count)
      (long : 2 ≤ count) :
      Canonical v (v.hexTexts 0 first ++ [ch ':', ch ':'] ++ v.hexTexts (first + count) (8 - (first + count)))
  | full (plain : ¬ v.Mapped)
      (short : ∀ first count, first + count ≤ 8 → Block v.ZeroAt first count → count ≤ 1) :
      Canonical v (v.hexTexts 0 8)

theorem Canonical.unique {v : In6Addr} {one two : List CharT} (canonical : Canonical v one)
    (other : Canonical v two) : one = two := by
  cases canonical with
  | mapped prefixed =>
    cases other with
    | mapped _ => rfl
    | gapped plain _ _ => exact absurd prefixed plain
    | full plain _ => exact absurd prefixed plain
  | gapped plain longest long =>
    cases other with
    | mapped prefixed => exact absurd prefixed plain
    | gapped _ same _ =>
      obtain ⟨rfl, rfl⟩ := longest.unique same (by omega)
      rfl
    | full _ short => exact absurd (short _ _ longest.inside longest.block) (by omega)
  | full plain short =>
    cases other with
    | mapped prefixed => exact absurd prefixed plain
    | gapped _ longest long => exact absurd (short _ _ longest.inside longest.block) (by omega)
    | full _ _ => rfl

theorem zeroAt_iff (native : ByteOrder) (v : In6Addr) (i : Nat) :
    (∃ inside : i < 8, v.hextet native ⟨i, inside⟩ = 0) ↔ v.ZeroAt i := by
  constructor
  · rintro ⟨inside, zero⟩
    exact ⟨inside, hextet_eq_zero zero⟩
  · rintro ⟨inside, zeros⟩
    refine ⟨inside, ?_⟩
    change decode native (v.pair i) = 0
    rw [zeros]
    cases native <;> rfl

theorem scanStep_scanned (native : ByteOrder) (v : In6Addr) {scan : Scan} {i : Nat}
    (scanned : Scanned v.ZeroAt i scan.skip.start scan.skip.size scan.new.start scan.new.size) :
    Scanned v.ZeroAt (i + 1) (scanStep native v scan i).skip.start (scanStep native v scan i).skip.size
      (scanStep native v scan i).new.start (scanStep native v scan i).new.size := by
  unfold scanStep
  split
  · rename_i zero
    have here := (zeroAt_iff native v i).mp zero
    split
    · rename_i adjacent
      exact scanned.extend here adjacent
    · rename_i apart
      exact scanned.restart here apart
  · rename_i other
    have absent := mt (zeroAt_iff native v i).mpr other
    split
    · rename_i ends
      exact scanned.close absent (.inl ⟨rfl, rfl, ends.1, ends.2⟩)
    · rename_i stays
      exact scanned.close absent (.inr ⟨rfl, rfl, fun ends => by_contra fun longer => stays ⟨ends, by omega⟩⟩)

theorem skipped_firstLongest (native : ByteOrder) (v : In6Addr) :
    FirstLongest v.ZeroAt 8 (v.skipped native).start (v.skipped native).size := by
  have turns (count : Nat) :
      let scan := (List.range count).foldl (scanStep native v) ⟨⟨0, 0⟩, ⟨0, 0⟩⟩
      Scanned v.ZeroAt count scan.skip.start scan.skip.size scan.new.start scan.new.size := by
    induction count with
    | zero => exact Scanned.start
    | succ count ih =>
      rw [List.range_succ, List.foldl_append]
      exact scanStep_scanned native v ih
  exact (turns 9).finish fun beyond => absurd beyond.1 (Nat.lt_irrefl 8)

theorem isMapped_iff (native : ByteOrder) (v : In6Addr) : v.isMapped native = true ↔ v.Mapped := by
  constructor
  · intro mapped
    obtain ⟨content, ones⟩ := mapped_bytes mapped
    refine ⟨?_, ones⟩
    rw [content]
    rfl
  · rintro ⟨zeros, ones⟩
    have part (offset count : Nat) (inside : offset + count ≤ 10) :
        (v.s6_addr.drop offset).take count = List.replicate count 0 := by
      have cut : ((v.s6_addr.take 10).drop offset).take count = (v.s6_addr.drop offset).take count := by
        rw [List.drop_take, List.take_take, Nat.min_eq_left (by omega)]
      rw [← cut, zeros, List.drop_replicate, List.take_replicate, Nat.min_eq_left (by omega)]
    refine decide_eq_true ⟨?_, ?_, ?_, ?_⟩
    · exact (congrArg (decode native) (part 0 4 (by decide))).trans (decode_zeros native 4)
    · exact (congrArg (decode native) (part 4 4 (by decide))).trans (decode_zeros native 4)
    · exact (congrArg (decode native) (part 8 2 (by decide))).trans (decode_zeros native 2)
    · refine (congrArg (decode native) ones).trans ?_
      cases native <;> rfl

theorem groupAt_text (v : In6Addr) (i : Nat) : (v.groupAt i).text = v.hexText i :=
  numeral_toDigits hexadecimal (by decide) (v.value i)

theorem joined_groupsAt (v : In6Addr) (first count : Nat) :
    joined (ch ':') ((v.groupsAt first count).map Group.text) = v.hexTexts first count := by
  rw [groupsAt, List.map_map, hexTexts]
  exact congrArg (joined (ch ':')) (List.map_congr_left fun i _ => v.groupAt_text i)

private theorem mapped_text {native : ByteOrder} {v : In6Addr} (mapped : v.isMapped native = true) :
    v.text native = "::ffff:".toList.map ch ++ joined (ch '.') ((v.s6_addr.drop 12).map shortest) := by
  obtain ⟨content, _⟩ := mapped_bytes mapped
  have tail : v.s6_addr.drop 12 = (v.mappedAddr native).s4_addr := by
    rw [content]
    rfl
  rw [text_mapped mapped, tail, In4Addr.text]
  exact congrArg (fun octets => _ ++ joined (ch '.') octets)
    (List.map_congr_left fun byte _ => octetText_shortest byte)

theorem text_canonical (native : ByteOrder) (v : In6Addr) : Canonical v (v.text native) := by
  by_cases mapped : v.isMapped native = true
  · rw [mapped_text mapped]
    exact .mapped ((isMapped_iff native v).mp mapped)
  · have plain := mt (isMapped_iff native v).mpr mapped
    have longest := skipped_firstLongest native v
    rw [text, shown, if_neg mapped]
    split
    · rename_i long
      rw [In6Text.render]
      simp only [In6Text.segments, Option.map_none, Option.toList_none, List.append_nil, joined_groupsAt]
      have whole := Canonical.gapped plain longest long
      simpa using whole
    · rename_i short
      rw [In6Text.render, joined_groupsAt]
      refine .full plain fun first count inside block => ?_
      by_contra long
      have better := longest.best first count (by omega) inside block
      omega

/-- The printer writes the canonical text, so it writes the same for all texts of one
address, on whatever hosts these are read. -/
theorem printed_canonical :
    (∀ (native : ByteOrder) (v : In6Addr) (mem : Nat → CharT), Canonical v ((toStr native v).shown mem)) ∧
      ∀ (native other : ByteOrder) (one two : In6Text), one.addr = two.addr →
        ∃ v w, fromStr native one.render = .ok v ∧ fromStr other two.render = .ok w ∧
          ∀ mem memOther, (toStr native v).shown mem = (toStr other w).shown memOther := by
  have canonical (native : ByteOrder) (v : In6Addr) (mem : Nat → CharT) :
      Canonical v ((toStr native v).shown mem) := by
    obtain ⟨reach, emits, _⟩ := toStr_emits native v
    rw [emits.shown mem]
    exact text_canonical native v
  refine ⟨canonical, fun native other one two same => ?_⟩
  refine ⟨one.addr, two.addr, fromStr_render native one, fromStr_render other two, fun mem memOther => ?_⟩
  rw [← same]
  exact (canonical native one.addr mem).unique (canonical other one.addr memOther)

end In6Addr

end Stdplus.Net
