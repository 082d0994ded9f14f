import Stdplus.Net.Addr.In4

namespace Stdplus.Net

open Stdplus.Base Stdplus.Numeric

/-- `d0.d1.d2.d3`, each a nonempty string of decimal digits of value at most 255. -/
def IsQuad (d0 d1 d2 d3 text : List CharT) : Prop :=
  text = d0 ++ ch '.' :: (d1 ++ ch '.' :: (d2 ++ ch '.' :: d3)) ∧
    IsOctet d0 ∧ IsOctet d1 ∧ IsOctet d2 ∧ IsOctet d3

def shortest (byte : UInt8) : List CharT := (Nat.toDigits 10 byte.toNat).map ch

theorem octetText_shortest (byte : UInt8) : octetText byte = shortest byte :=
  numeral_toDigits decimal (by decide) byte.toNat

private theorem joined_quad (d0 d1 d2 d3 : List CharT) :
    joined (ch '.') [d0, d1, d2, d3] = d0 ++ ch '.' :: (d1 ++ ch '.' :: (d2 ++ ch '.' :: d3)) := by
  rw [joined_cons d0 (by simp), joined_cons d1 (by simp), joined_cons d2 (by simp)]
  simp

private theorem fromStr_quad_iff (native : ByteOrder) (text : List CharT) (addr : In4Addr) :
    In4Addr.fromStr native text = .ok addr ↔ ∃ d0 d1 d2 d3, IsQuad d0 d1 d2 d3 text ∧
      addr.s4_addr = [octetValue d0, octetValue d1, octetValue d2, octetValue d3] := by
  rw [In4Addr.fromStr_ok_iff]
  constructor
  · rintro ⟨⟨octets, count, valid⟩, rfl, rfl⟩
    match octets, count with
    | [d0, d1, d2, d3], _ =>
      exact ⟨d0, d1, d2, d3, ⟨joined_quad d0 d1 d2 d3, by simpa using valid⟩, rfl⟩
  · rintro ⟨d0, d1, d2, d3, ⟨rfl, octets⟩, bytes⟩
    refine ⟨⟨[d0, d1, d2, d3], rfl, by simpa using octets⟩, joined_quad d0 d1 d2 d3, ?_⟩
    cases addr
    exact (In4Addr.mk.injEq ..).mpr bytes.symm

private theorem text_quad {b0 b1 b2 b3 : UInt8} {addr : In4Addr} (bytes : addr.s4_addr = [b0, b1, b2, b3]) :
    addr.text = shortest b0 ++ ch '.' :: (shortest b1 ++ ch '.' :: (shortest b2 ++ ch '.' :: shortest b3)) := by
  simp only [In4Addr.text, bytes, List.map_cons, List.map_nil, octetText_shortest, joined_quad]

/-- The parser accepts exactly the dotted quads, the printer writes the shortest one, and
that reads back as the address, on either kind of host. -/
theorem In4Addr.both_ways (native : ByteOrder) :
    (∀ text addr, In4Addr.fromStr native text = .ok addr ↔ ∃ d0 d1 d2 d3, IsQuad d0 d1 d2 d3 text ∧
        addr.s4_addr = [octetValue d0, octetValue d1, octetValue d2, octetValue d3]) ∧
      (∀ text, Ascii text → (¬ ∃ d0 d1 d2 d3, IsQuad d0 d1 d2 d3 text) →
        ∃ fault, In4Addr.fromStr native text = .error fault ∧ fault.Thrown) ∧
      ∀ addr : In4Addr, ∃ b0 b1 b2 b3, addr.s4_addr = [b0, b1, b2, b3] ∧ ∀ mem,
        (addr.toStr native).shown mem =
            shortest b0 ++ ch '.' :: (shortest b1 ++ ch '.' :: (shortest b2 ++ ch '.' :: shortest b3)) ∧
          In4Addr.fromStr native ((addr.toStr native).shown mem) = .ok addr := by
  refine ⟨fromStr_quad_iff native, ?_, ?_⟩
  · intro text ascii other
    cases outcome : In4Addr.fromStr native text with
    | error fault => exact ⟨fault, rfl, In4Addr.fromStr_thrown native ascii outcome⟩
    | ok addr =>
      obtain ⟨d0, d1, d2, d3, quad, _⟩ := (fromStr_quad_iff native text addr).mp outcome
      exact absurd ⟨d0, d1, d2, d3, quad⟩ other
  · intro addr
    obtain ⟨reach, emits, _, _⟩ := addr.toStr_emits native
    match bytes : addr.s4_addr, addr.size with
    | [b0, b1, b2, b3], _ =>
      refine ⟨b0, b1, b2, b3, rfl, fun mem => ?_⟩
      rw [emits.shown mem, text_quad bytes]
      exact ⟨rfl, text_quad bytes ▸ addr.fromStr_text native⟩

end Stdplus.Net
