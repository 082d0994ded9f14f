import Stdplus.Net.Addr.Sock

namespace Stdplus.Net

open Stdplus.Base Stdplus.Numeric

/-- The storage with whatever it holds, and how much of it is the address. -/
structure SockAddrBuf where
  ss_ : Nat → UInt8
  len : Nat

/-- The first `len` bytes. -/
def SockAddrBuf.bytes (buf : SockAddrBuf) : List UInt8 := (List.range buf.len).map buf.ss_

/-- `AF_UNIX`. -/
def afUnix : Nat := 1

/-- `offsetof(sockaddr_un, sun_path)`, the size of the family before it. -/
def sunPath : Nat := 2

namespace SockUAddr

/-- The first character with no `@` for an abstract name. -/
def isAbstract (v : SockUAddr) : Bool := v.buf_.head? = some (ch '@')

def sockaddrLen (v : SockUAddr) : Nat :=
  sunPath + v.len_ + (if 0 < v.len_ ∧ ¬ v.isAbstract then 1 else 0)

/-- The offsets into `buf_` that `fill` hands to `std::copy`. -/
def copyRange (v : SockUAddr) : Nat × Nat := (1, v.len_)

/-- `fill`, with the storage as the buffer its stores go to; an inverted range
copies nothing. -/
def fill (native : ByteOrder) (v : SockUAddr) (ret : OutBuffer UInt8) : OutBuffer UInt8 :=
  let ret := ret.copyTo 0 (encode native sunPath afUnix)
  let ret := ret.store sunPath (if v.isAbstract then 0 else v.buf_.headD 0)
  let ret := ret.copyTo (sunPath + 1) ((v.buf_.take v.copyRange.2).drop v.copyRange.1)
  if v.isAbstract then ret.store (sunPath + v.len_) 0 else ret

/-- `buf()` in storage that holds `old`. -/
def buf (native : ByteOrder) (v : SockUAddr) (old : Nat → UInt8) : SockAddrBuf where
  ss_ := (v.fill native (OutBuffer.fresh old)).mem
  len := v.sockaddrLen % 2 ^ 8

end SockUAddr

/-- The bytes of an `AF_UNIX` address: nothing behind the family for no path, a
terminated pathname, or an abstract name behind a NUL. -/
def unixBytes (native : ByteOrder) (path : List CharT) : List UInt8 :=
  encode native sunPath afUnix ++
    (if path = [] then [] else if SockUAddr.IsAbstract path then 0 :: path.tail else path ++ [0])

namespace SockUAddr

def stored (path : List CharT) : List CharT :=
  if IsAbstract path then ch '@' :: path.tail else path

theorem stored_length (path : List CharT) (some_path : path ≠ []) : (stored path).length = path.length := by
  have positive := List.length_pos_of_ne_nil some_path
  unfold stored
  split
  · simp only [List.length_cons, List.length_tail]
    omega
  · rfl

private theorem overwrite_start (values : List CharT) (room : values.length ≤ maxLen) :
    overwrite (List.replicate maxLen 0) 0 values =
      values ++ List.replicate (maxLen - values.length) 0 := by
  have split : List.replicate maxLen (0 : CharT) =
      List.replicate values.length 0 ++ List.replicate (maxLen - values.length) 0 := by
    rw [List.replicate_append_replicate, Nat.add_sub_cancel' room]
  have written := overwrite_part [] (List.replicate values.length 0)
    (List.replicate (maxLen - values.length) 0) values (by simp)
  rw [List.nil_append, List.nil_append, List.length_nil] at written
  rw [split, written]

theorem ofPath_ok {path : List CharT} {v : SockUAddr} (made : ofPath path = .ok v) :
    v.len_ = path.length ∧ v.buf_ = stored path ++ List.replicate (maxLen - path.length) 0 ∧
      path.length + (if IsAbstract path then 0 else 1) ≤ maxLen := by
  cases path with
  | nil =>
    cases made
    exact ⟨rfl, rfl, by decide⟩
  | cons first rest =>
    by_cases long : maxLen + (if IsAbstract (first :: rest) then 1 else 0) ≤ (first :: rest).length
    · rw [ofPath, if_pos long] at made
      cases made
    by_cases nul : ¬ IsAbstract (first :: rest) ∧ 0 ∈ first :: rest
    · rw [ofPath, if_neg long, if_pos nul] at made
      cases made
    rw [ofPath, if_neg long, if_neg nul, Except.ok.injEq] at made
    subst made
    have shape : (if IsAbstract (first :: rest) then ch '@' else first) :: rest =
        stored (first :: rest) := by
      rw [stored]
      split <;> rfl
    have length := stored_length (first :: rest) (by simp)
    have fits : (first :: rest).length + (if IsAbstract (first :: rest) then 0 else 1) ≤ maxLen := by
      by_cases abstract : IsAbstract (first :: rest)
      · rw [if_pos abstract] at long ⊢
        omega
      · rw [if_neg abstract] at long ⊢
        omega
    refine ⟨rfl, ?_, fits⟩
    simp only [shape]
    rw [overwrite_start _ (by omega), length]

/-- The public constructor takes what is not too long and has no NUL in a pathname. -/
theorem ofPath_accepts {path : List CharT}
    (room : path.length < maxLen + (if IsAbstract path then 1 else 0))
    (clean : IsAbstract path ∨ 0 ∉ path) : ∃ v, ofPath path = .ok v := by
  cases path with
  | nil => exact ⟨_, rfl⟩
  | cons first rest =>
    have valid : ¬ (¬ IsAbstract (first :: rest) ∧ 0 ∈ first :: rest) :=
      fun ⟨pathname, nul⟩ => clean.elim pathname (fun absent => absent nul)
    rw [ofPath, if_neg (Nat.not_le.mpr room), if_neg valid]
    exact ⟨_, rfl⟩

theorem stored_sign (name : List CharT) : stored (ch '@' :: name) = ch '@' :: name := by
  rw [stored, if_pos (.inl rfl), List.tail_cons]

theorem stored_clean {path : List CharT} (clean : 0 ∉ path) : stored path = path := by
  cases path with
  | nil => rfl
  | cons first rest =>
    have other : first ≠ 0 := fun nul => clean (by simp [nul])
    by_cases sign : first = ch '@'
    · rw [sign, stored_sign]
    · rw [stored, if_neg (by simp [IsAbstract, other, sign])]

theorem isAbstract_iff {path : List CharT} {v : SockUAddr} (made : ofPath path = .ok v) :
    v.isAbstract = true ↔ IsAbstract path := by
  obtain ⟨_, content, _⟩ := ofPath_ok made
  rw [isAbstract, content, stored]
  by_cases abstract : IsAbstract path
  · simp [abstract]
  · have other : path.head? ≠ some (ch '@') := fun at_sign => abstract (.inl at_sign)
    rw [if_neg abstract]
    cases path with
    | nil => exact iff_of_false (by decide) abstract
    | cons first rest =>
      refine iff_of_false ?_ abstract
      simpa using other

def unterminated (native : ByteOrder) (path : List CharT) : List UInt8 :=
  encode native sunPath afUnix ++ (if IsAbstract path then 0 :: path.tail else path)

theorem unterminated_length (native : ByteOrder) {path : List CharT} (some_path : path ≠ []) :
    (unterminated native path).length = sunPath + path.length := by
  have length := stored_length path some_path
  rw [unterminated, List.length_append, encode_length]
  rw [stored] at length
  split <;> simp_all

/-- The stores of `fill` for a path: one after the other, and a NUL behind an
abstract name. -/
theorem fill_eq (native : ByteOrder) {path : List CharT} {v : SockUAddr} (made : ofPath path = .ok v)
    (some_path : path ≠ []) (ret : OutBuffer UInt8) :
    v.fill native ret =
      if IsAbstract path then
        (ret.copyTo 0 (unterminated native path)).store (sunPath + path.length) 0
      else
        ret.copyTo 0 (unterminated native path) := by
  obtain ⟨length, content, room⟩ := ofPath_ok made
  have abstract := isAbstract_iff made
  obtain ⟨first, rest, rfl⟩ := List.exists_cons_of_ne_nil some_path
  have copied : (v.buf_.take v.copyRange.2).drop v.copyRange.1 = rest := by
    have taken : v.buf_.take v.len_ = stored (first :: rest) := by
      rw [length, content, ← stored_length _ some_path]
      exact List.take_left
    rw [copyRange, taken, stored]
    split <;> rfl
  have stores (head : UInt8) : ((ret.copyTo 0 (encode native sunPath afUnix)).store sunPath head).copyTo
        (sunPath + 1) rest =
      ret.copyTo 0 (encode native sunPath afUnix ++ head :: rest) := by
    rw [OutBuffer.copyTo_append, encode_length, Nat.zero_add]
    rfl
  by_cases name : IsAbstract (first :: rest)
  · have flag := abstract.mpr name
    simp only [fill, copied, flag, if_true, stores, unterminated, name, List.tail_cons, length]
  · have flag : ¬ v.isAbstract = true := fun flag => name (abstract.mp flag)
    have head : v.buf_.headD 0 = first := by
      rw [content, stored, if_neg name]
      rfl
    simp only [fill, copied, flag, if_false, stores, unterminated, name, head, Bool.false_eq_true]

/-- How far `fill` stores: over the path, and behind it for an abstract name. -/
theorem fill_high (native : ByteOrder) {v : SockUAddr} (fits : v.len_ ≤ maxLen) (old : Nat → UInt8) :
    (v.fill native (OutBuffer.fresh old)).high =
      sunPath + max 1 (v.len_ + (if v.isAbstract then 1 else 0)) := by
  have size := v.size
  have clean : (OutBuffer.fresh old).high = 0 := rfl
  have family := OutBuffer.copyTo_high 0 (encode native sunPath afUnix) (OutBuffer.fresh old) (Nat.zero_le _)
  rw [encode_length, clean] at family
  have copied (head : UInt8) :
      ((((OutBuffer.fresh old).copyTo 0 (encode native sunPath afUnix)).store sunPath head).copyTo (sunPath + 1)
        ((v.buf_.take v.copyRange.2).drop v.copyRange.1)).high = sunPath + max 1 v.len_ := by
    rw [OutBuffer.copyTo_high _ _ _ (Nat.le_max_right _ _), OutBuffer.store_high, family,
      List.length_drop, List.length_take, size]
    simp only [copyRange]
    omega
  by_cases flag : v.isAbstract = true
  · simp only [fill, flag, if_true]
    rw [OutBuffer.store_high, copied]
    omega
  · simp only [fill, flag, if_false, Bool.false_eq_true]
    rw [copied]
    omega

private theorem fill_text (native : ByteOrder) {path : List CharT} {v : SockUAddr}
    (made : ofPath path = .ok v) (some_path : path ≠ []) (old : Nat → UInt8) :
    (List.range (sunPath + path.length)).map (v.fill native (OutBuffer.fresh old)).mem =
      unterminated native path := by
  have text := OutBuffer.text_copyTo 0 (unterminated native path) (OutBuffer.fresh old)
  rw [unterminated_length native some_path, Nat.zero_add] at text
  simp only [OutBuffer.text, Nat.sub_zero, Nat.zero_add] at text
  rw [← text, fill_eq native made some_path]
  refine List.map_congr_left fun cell inside => ?_
  have lower := List.mem_range.mp inside
  split
  · exact Function.update_of_ne (by omega) _ _
  · rfl

private theorem fill_behind (native : ByteOrder) {path : List CharT} {v : SockUAddr}
    (made : ofPath path = .ok v) (some_path : path ≠ []) (pathname : ¬ IsAbstract path)
    (old : Nat → UInt8) :
    (v.fill native (OutBuffer.fresh old)).mem (sunPath + path.length) = old (sunPath + path.length) := by
  rw [fill_eq native made some_path, if_neg pathname]
  exact OutBuffer.copyTo_outside 0 _ _ _ (.inr (by rw [unterminated_length native some_path]; omega))

private theorem buf_len (native : ByteOrder) {path : List CharT} {v : SockUAddr}
    (made : ofPath path = .ok v) (some_path : path ≠ []) (old : Nat → UInt8) :
    (v.buf native old).len = sunPath + path.length + (if IsAbstract path then 0 else 1) := by
  obtain ⟨length, _, room⟩ := ofPath_ok made
  have positive := List.length_pos_of_ne_nil some_path
  have abstract := isAbstract_iff made
  have size : maxLen = 108 := rfl
  have offset : sunPath = 2 := rfl
  by_cases name : IsAbstract path
  · rw [if_pos name] at room ⊢
    simp only [buf, sockaddrLen, length, abstract.mpr name, not_true_eq_false, and_false, if_false]
    omega
  · have flag : ¬ v.isAbstract = true := fun flag => name (abstract.mp flag)
    rw [if_neg name] at room ⊢
    simp only [buf, sockaddrLen, length]
    rw [if_pos ⟨positive, flag⟩]
    omega

theorem bytes_buf_nil (native : ByteOrder) {v : SockUAddr} (made : ofPath [] = .ok v)
    (old : Nat → UInt8) : (v.buf native old).bytes = encode native sunPath afUnix := by
  cases made
  have stored := OutBuffer.text_copyTo 0 (encode native sunPath afUnix) (OutBuffer.fresh old)
  rw [← stored, encode_length, OutBuffer.text]
  refine List.map_congr_left fun cell inside => ?_
  have lower : cell < sunPath := List.mem_range.mp inside
  rw [Nat.zero_add]
  exact Function.update_of_ne (by omega) _ _

theorem bytes_buf (native : ByteOrder) {path : List CharT} {v : SockUAddr} (made : ofPath path = .ok v)
    (some_path : path ≠ []) (old : Nat → UInt8) :
    (v.buf native old).bytes =
      unterminated native path ++ (if IsAbstract path then [] else [old (sunPath + path.length)]) := by
  have text := fill_text native made some_path old
  have len := buf_len native made some_path old
  by_cases name : IsAbstract path
  · rw [if_pos name] at len ⊢
    rw [SockAddrBuf.bytes, len, List.append_nil, ← text]
    rfl
  · have behind := fill_behind native made some_path name old
    rw [if_neg name] at len ⊢
    rw [SockAddrBuf.bytes, len, List.range_succ, List.map_append, ← text, ← behind]
    rfl

/-- The address in the storage is what the kernel expects, and only valid ranges
are copied and only cells of `sun_path` stored behind the family. -/
def Layout (native : ByteOrder) (path : List CharT) (v : SockUAddr) (old : Nat → UInt8) : Prop :=
  (v.copyRange.1 ≤ v.copyRange.2 ∧ v.copyRange.2 ≤ maxLen) ∧
    (v.fill native (OutBuffer.fresh old)).high ≤ sunPath + maxLen ∧
    (v.buf native old).bytes = unixBytes native path

/-- The terminator is stored behind abstract names instead of behind pathnames:
those need one in the storage already, and names of full length store theirs
behind `sun_path`. -/
theorem buf_layout_iff (native : ByteOrder) {path : List CharT} {v : SockUAddr}
    (made : ofPath path = .ok v) (old : Nat → UInt8) :
    Layout native path v old ↔
      (IsAbstract path ∧ path.length < maxLen) ∨
        (path ≠ [] ∧ ¬ IsAbstract path ∧ old (sunPath + path.length) = 0) := by
  obtain ⟨length, _, room⟩ := ofPath_ok made
  by_cases empty : path = []
  · subst empty
    have inverted : ¬ v.copyRange.1 ≤ v.copyRange.2 := by
      rw [copyRange, length]
      decide
    refine iff_of_false (fun layout => inverted layout.1.1) ?_
    rintro (⟨abstract, _⟩ | ⟨some_path, _⟩)
    · exact absurd abstract (by decide)
    · exact some_path rfl
  have positive := List.length_pos_of_ne_nil empty
  have abstract := isAbstract_iff made
  have high := fill_high native (by rw [length]; split at room <;> omega) old
  have written := bytes_buf native made empty old
  by_cases name : IsAbstract path
  · rw [if_pos name] at room written
    rw [if_pos (abstract.mpr name)] at high
    have bytes : (v.buf native old).bytes = unixBytes native path := by
      rw [written, unterminated, unixBytes, if_neg empty, if_pos name, if_pos name, List.append_nil]
    rw [Layout, high, copyRange, length]
    constructor
    · rintro ⟨_, inside, _⟩
      exact .inl ⟨name, by omega⟩
    · rintro (⟨_, shorter⟩ | ⟨_, pathname, _⟩)
      · exact ⟨⟨positive, by simp only; omega⟩, by omega, bytes⟩
      · exact absurd name pathname
  · rw [if_neg name] at room written
    rw [if_neg (fun flag => name (abstract.mp flag))] at high
    have bytes : (v.buf native old).bytes = unixBytes native path ↔ old (sunPath + path.length) = 0 := by
      rw [written, unterminated, unixBytes, if_neg empty, if_neg name, if_neg name, List.append_assoc,
        List.append_cancel_left_eq, List.append_cancel_left_eq, List.singleton_inj]
    rw [Layout, high, copyRange, length, bytes]
    constructor
    · rintro ⟨_, _, zero⟩
      exact .inr ⟨empty, name, zero⟩
    · rintro (⟨abstract, _⟩ | ⟨_, _, zero⟩)
      · exact absurd abstract name
      · exact ⟨⟨positive, by simp only; omega⟩, by omega, zero⟩

/-- A pathname in storage that held zeros. -/
theorem buf_layout_iff_cleared :
    ∃ v, ofPath ("/run/a".toList.map ch) = .ok v ∧
      (Layout .little ("/run/a".toList.map ch) v (fun _ => 0) ↔
        (IsAbstract ("/run/a".toList.map ch) ∧ ("/run/a".toList.map ch).length < maxLen) ∨
          ("/run/a".toList.map ch ≠ [] ∧ ¬ IsAbstract ("/run/a".toList.map ch) ∧
            (fun _ => 0 : Nat → UInt8) (sunPath + ("/run/a".toList.map ch).length) = 0)) :=
  ⟨_, rfl, buf_layout_iff .little rfl (fun _ => 0)⟩

/-- In storage that held other bytes the pathname `/run/a` is not terminated. -/
theorem buf_unterminated :
    ∃ v, ofPath ("/run/a".toList.map ch) = .ok v ∧
      ¬ Layout .little ("/run/a".toList.map ch) v (fun _ => 0xff) := by
  refine ⟨_, rfl, ?_⟩
  rintro ⟨_, _, bytes⟩
  exact absurd bytes (by decide)

end SockUAddr

end Stdplus.Net
