import Stdplus.Base.Bytes

namespace Stdplus.Numeric

open Stdplus.Base

/-- `bswap` on a type of `width` bytes. -/
def bswap (width n : Nat) : Nat :=
  if width = 1 then n else decode .little (encode .little width n).reverse

def htoe (native target : ByteOrder) (width t : Nat) : Nat :=
  match native, target with
  | .big, .big => t
  | .big, .little => bswap width t
  | .little, .big => bswap width t
  | .little, .little => t

def etoh (native target : ByteOrder) (width t : Nat) : Nat := htoe native target width t

def hton (native : ByteOrder) (width t : Nat) : Nat := htoe native .big width t

def ntoh (native : ByteOrder) (width t : Nat) : Nat := etoh native .big width t

theorem bswap_decode {width : Nat} (wide : width ≠ 1) {bytes : List UInt8}
    (length : bytes.length = width) : bswap width (decode .little bytes) = decode .big bytes := by
  have back := encode_decode .little bytes
  rw [length] at back
  rw [bswap, if_neg wide, back]
  rfl

theorem encode_hton (native : ByteOrder) {width : Nat} (wide : width ≠ 1) (t : Nat) :
    encode native width (hton native width t) = encode .big width t := by
  cases native with
  | big => rfl
  | little =>
    have length : (encode .little width t).reverse.length = width := by simp
    have back := encode_decode .little (encode .little width t).reverse
    rw [length] at back
    simp only [hton, htoe, bswap, if_neg wide, back]
    rfl

/-- Read from memory and brought into host order, a value is that of its big-endian bytes. -/
theorem ntoh_decode (native : ByteOrder) {width : Nat} (wide : width ≠ 1) {bytes : List UInt8}
    (length : bytes.length = width) : ntoh native width (decode native bytes) = decode .big bytes := by
  cases native with
  | big => rfl
  | little => exact bswap_decode wide length

theorem bswap_decode_big {width : Nat} (wide : width ≠ 1) {bytes : List UInt8}
    (length : bytes.length = width) : bswap width (decode .big bytes) = decode .little bytes := by
  have turned := bswap_decode wide (show bytes.reverse.length = width by simpa using length)
  simpa [decode] using turned

theorem encode_htoe (native target : ByteOrder) (width t : Nat) :
    encode native width (htoe native target width t) = encode target width t := by
  have back (bytes : List UInt8) (length : bytes.length = width) : bytesLE width (valueLE bytes) = bytes :=
    length ▸ bytesLE_valueLE bytes
  have turned := back (encode .little width t).reverse (by simp)
  by_cases one : width = 1
  · subst one
    cases native <;> cases target <;> rfl
  · cases native <;> cases target <;> simp only [htoe, bswap, if_neg one]
    · exact turned
    · exact (congrArg List.reverse turned).trans (List.reverse_reverse _)

theorem etoh_decode (native target : ByteOrder) {width : Nat} {bytes : List UInt8} (length : bytes.length = width) :
    etoh native target width (decode native bytes) = decode target bytes := by
  by_cases one : width = 1
  · subst one
    obtain ⟨byte, rfl⟩ := List.length_eq_one_iff.mp length
    cases native <;> cases target <;> rfl
  · cases native <;> cases target
    · rfl
    · exact bswap_decode one length
    · exact bswap_decode_big one length
    · rfl

end Stdplus.Numeric
