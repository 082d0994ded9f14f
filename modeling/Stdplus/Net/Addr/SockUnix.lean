import Stdplus.Net.Addr.SockDecode

/-! `AF_UNIX` addresses out of storage that somebody else has filled: which
lengths keep the decoder inside its arrays, and which names the kernel reports
survive being decoded and encoded again. -/

namespace Stdplus.Net

open Stdplus.Base Stdplus.Numeric

/-- The decoder throws, or the address it returns is good. -/
def Yields {α : Type} (outcome : Except Fault α) (good : α → Prop) : Prop :=
  (∃ what, outcome = .error (.invalidArgument what)) ∨ ∃ v, outcome = .ok v ∧ good v

/-- `SockAddrBuf::maxLen`, the size of `sockaddr_storage`. -/
def SockAddrBuf.maxLen : Nat := 128

namespace SockUAddr

/-- One past the last character that the constructor without checks reads. -/
def unsafeReads : List CharT → Nat
  | [] => 0
  | first :: rest => 1 + copyCount (first :: rest)

/-- The decoder has read the bytes of the address and stored into `buf_`, and the
length is one that its kind of name can have. -/
structure DecodedWithin (buf : SockAddrBuf) (v : SockUAddr) : Prop where
  reads : sunPath + unsafeReads (sunPathOf buf) ≤ buf.len
  stores : (unsafeStores (sunPathOf buf) (OutBuffer.fresh fun _ => 0)).high ≤ maxLen
  length : v.len_ ≤ if v.isAbstract then maxLen else maxLen - 1

/-- `path()` stays in `buf_`, the length in `sockaddr_un`, and `buf()` copies a
valid range into `sun_path` and stores nothing behind it. -/
structure InBounds (v : SockUAddr) : Prop where
  path : v.len_ ≤ maxLen
  sockaddrLen : v.sockaddrLen ≤ sunPath + maxLen
  copied : v.copyRange.1 ≤ v.copyRange.2 ∧ v.copyRange.2 ≤ maxLen
  filled : ∀ native old, (v.fill native (OutBuffer.fresh old)).high ≤ sunPath + maxLen

theorem inBounds_iff {v : SockUAddr} (length : v.len_ ≤ if v.isAbstract then maxLen else maxLen - 1) :
    v.InBounds ↔ 0 < v.len_ ∧ v.len_ < maxLen := by
  have limit : maxLen = 108 := rfl
  have fits : v.len_ ≤ maxLen := by split at length <;> omega
  have high (native : ByteOrder) (old : Nat → UInt8) := fill_high native fits old
  constructor
  · intro bounds
    have filled := bounds.filled .little fun _ => 0
    rw [high] at filled
    refine ⟨bounds.copied.1, ?_⟩
    by_cases abstract : v.isAbstract = true
    · rw [if_pos abstract] at filled
      omega
    · rw [if_neg abstract] at length
      omega
  · rintro ⟨positive, below⟩
    refine ⟨fits, ?_, ⟨positive, fits⟩, fun native old => ?_⟩
    · rw [SockUAddr.sockaddrLen]
      split <;> omega
    · rw [high]
      split <;> omega

theorem unsafeLen_eq (path : List CharT) (short : path.length < 2 ^ 8) :
    unsafeLen path = path.length - if path.head? = some 0 then 0 else 1 := by
  cases path with
  | nil => rfl
  | cons first rest =>
    rw [unsafeLen, Nat.mod_eq_of_lt (by omega)]
    simp only [List.head?_cons, Option.some.injEq]

theorem unsafeReads_le (path : List CharT) (short : path.length < 2 ^ 8) :
    unsafeReads path ≤ path.length := by
  have length := unsafeLen_eq _ short
  cases path with
  | nil => exact Nat.le_refl _
  | cons first rest =>
    rw [unsafeReads, copyCount, length, List.length_cons]
    omega

theorem unsafeStores_high (path : List CharT) (short : path.length < 2 ^ 8) (some_path : path ≠ []) :
    (unsafeStores path (OutBuffer.fresh fun _ => 0)).high = max 1 (unsafeLen path) := by
  have length := unsafeLen_eq _ short
  obtain ⟨first, rest, rfl⟩ := List.exists_cons_of_ne_nil some_path
  have clean : (OutBuffer.fresh fun _ => (0 : CharT)).high = 0 := rfl
  simp only [unsafeStores]
  rw [OutBuffer.copyTo_high _ _ _ (Nat.le_max_right _ _), OutBuffer.store_high, clean, List.length_take,
    copyCount, length, List.length_cons]
  omega

theorem isAbstract_ofPathUnsafe (path : List CharT) :
    (ofPathUnsafe path).isAbstract = true ↔ IsAbstract path := by
  have start : (ofPathUnsafe path).buf_.head? =
      some ((unsafeStores path (OutBuffer.fresh fun _ => 0)).mem 0) :=
    OutBuffer.text_head? _ (by decide)
  rw [isAbstract, start, decide_eq_true_eq, Option.some.injEq]
  cases path with
  | nil => exact iff_of_false (by decide) (by decide)
  | cons first rest =>
    simp only [unsafeStores]
    rw [OutBuffer.copyTo_outside _ _ _ _ (.inl Nat.one_pos), OutBuffer.store_self]
    by_cases nul : first = 0 <;> simp [IsAbstract, nul]

theorem sunPathOf_length (buf : SockAddrBuf) : (sunPathOf buf).length = buf.len - sunPath := by
  simp [sunPathOf]

theorem sunPathOf_head? {buf : SockAddrBuf} (some_path : sunPath < buf.len) :
    (sunPathOf buf).head? = some (buf.ss_ sunPath) := by
  have positive : 0 < buf.len - sunPath := by omega
  obtain ⟨count, size⟩ := Nat.exists_eq_succ_of_ne_zero (Nat.pos_iff_ne_zero.mp positive)
  rw [sunPathOf, SockAddrBuf.field, size, List.range_succ_eq_map]
  rfl

private theorem decoded_facts {buf : SockAddrBuf} (some_path : sunPath < buf.len) (bounded : buf.len < 2 ^ 8) :
    (ofPathUnsafe (sunPathOf buf)).len_ = buf.len - sunPath - (if buf.ss_ sunPath = 0 then 0 else 1) ∧
      ((ofPathUnsafe (sunPathOf buf)).isAbstract = true ↔
        buf.ss_ sunPath = ch '@' ∨ buf.ss_ sunPath = 0) := by
  have size := sunPathOf_length buf
  have first := sunPathOf_head? some_path
  constructor
  · have length := unsafeLen_eq (sunPathOf buf) (by omega)
    simp only [first, Option.some.injEq, size] at length
    exact length
  · rw [isAbstract_ofPathUnsafe, IsAbstract, first, Option.some.injEq, Option.some.injEq]

theorem decodedWithin_iff {buf : SockAddrBuf} (present : sunPath ≤ buf.len) (bounded : buf.len < 2 ^ 8) :
    DecodedWithin buf (ofPathUnsafe (sunPathOf buf)) ↔
      buf.len ≤ sunPath + maxLen ∨ (buf.ss_ sunPath = ch '@' ∧ buf.len ≤ sunPath + maxLen + 1) := by
  have size := sunPathOf_length buf
  have reads := unsafeReads_le (sunPathOf buf) (by omega)
  have inside : sunPath + unsafeReads (sunPathOf buf) ≤ buf.len := by omega
  by_cases alone : buf.len = sunPath
  · have empty : sunPathOf buf = [] := List.length_eq_zero_iff.mp (by omega)
    refine iff_of_true ⟨inside, ?_, ?_⟩ (.inl (by omega))
    · rw [empty]
      exact Nat.zero_le _
    · rw [empty]
      exact Nat.zero_le _
  have some_path : sunPath < buf.len := by omega
  have limit : maxLen = 108 := rfl
  have stores := unsafeStores_high (sunPathOf buf) (by omega)
    (List.ne_nil_of_length_pos (by omega))
  obtain ⟨length, abstract⟩ := decoded_facts some_path bounded
  have value : (ofPathUnsafe (sunPathOf buf)).len_ = unsafeLen (sunPathOf buf) := rfl
  -- the stores are inside whenever the length is right
  have only_length : DecodedWithin buf (ofPathUnsafe (sunPathOf buf)) ↔
      (ofPathUnsafe (sunPathOf buf)).len_ ≤
        if (ofPathUnsafe (sunPathOf buf)).isAbstract then maxLen else maxLen - 1 :=
    ⟨fun decoded => decoded.length, fun short => ⟨inside, by rw [stores]; split at short <;> omega, short⟩⟩
  rw [only_length, length]
  by_cases nul : buf.ss_ sunPath = 0
  · have other : ¬ buf.ss_ sunPath = ch '@' := by rw [nul]; decide
    rw [if_pos nul, if_pos (abstract.mpr (.inr nul))]
    simp only [other, false_and, or_false]
    omega
  · rw [if_neg nul]
    by_cases sign : buf.ss_ sunPath = ch '@'
    · rw [if_pos (abstract.mpr (.inl sign))]
      simp only [sign, true_and]
      omega
    · rw [if_neg (fun flag => (abstract.mp flag).elim sign nul)]
      simp only [sign, false_and, or_false]
      omega

/-- The lengths of abstract names and of pathnames that leave room behind them. -/
def Fits (buf : SockAddrBuf) : Prop :=
  if buf.ss_ sunPath = 0 then sunPath + 1 ≤ buf.len ∧ buf.len < sunPath + maxLen
  else sunPath + 2 ≤ buf.len ∧ buf.len ≤ sunPath + maxLen

theorem decodedWithin_inBounds_iff {buf : SockAddrBuf} (present : sunPath ≤ buf.len)
    (bounded : buf.len < 2 ^ 8) :
    DecodedWithin buf (ofPathUnsafe (sunPathOf buf)) ∧ (ofPathUnsafe (sunPathOf buf)).InBounds ↔ Fits buf := by
  have within := decodedWithin_iff present bounded
  have limit : maxLen = 108 := rfl
  by_cases alone : buf.len = sunPath
  · have empty : sunPathOf buf = [] := List.length_eq_zero_iff.mp (by rw [sunPathOf_length]; omega)
    refine iff_of_false ?_ ?_
    · rintro ⟨_, bounds⟩
      have inverted := bounds.copied.1
      rw [empty] at inverted
      exact absurd inverted (by decide)
    · rw [Fits]
      split <;> omega
  obtain ⟨length, _⟩ := decoded_facts (show sunPath < buf.len by omega) bounded
  have fits : Fits buf ↔ 0 < (ofPathUnsafe (sunPathOf buf)).len_ ∧
      (ofPathUnsafe (sunPathOf buf)).len_ < maxLen := by
    rw [Fits, length]
    split <;> omega
  rw [fits]
  constructor
  · rintro ⟨decoded, bounds⟩
    exact (inBounds_iff decoded.length).mp bounds
  · intro sizes
    have decoded := within.mpr (.inl (by split at length <;> omega))
    exact ⟨decoded, (inBounds_iff decoded.length).mpr sizes⟩

end SockUAddr

private theorem yields_map {α β : Type} {f : α → β} (injective : Function.Injective f)
    (outcome : Except Fault α) (good : α → Prop) :
    Yields (outcome.map f) (fun x => ∃ v, x = f v ∧ good v) ↔ Yields outcome good := by
  cases outcome with
  | error fault => simp [Yields, Except.map]
  | ok value => simp [Yields, Except.map, injective.eq_iff]

namespace SockUAddr

private theorem yields_fromBuf {native : ByteOrder} {buf : SockAddrBuf} (unix : buf.fam native = afUnix)
    (good : SockUAddr → Prop) :
    Yields (fromBuf native buf) good ↔
      buf.len < sunPath ∨ sunPath ≤ buf.len ∧ good (ofPathUnsafe (sunPathOf buf)) := by
  rw [fromBuf, if_neg (fun other => other unix), fromBufUnsafe]
  by_cases short : buf.len < sunPath
  · rw [if_pos short]
    exact iff_of_true (.inl ⟨_, rfl⟩) (.inl short)
  · rw [if_neg short]
    simp [Yields, short, Nat.le_of_not_lt short]

private theorem yields_decodedWithin {native : ByteOrder} {buf : SockAddrBuf} (unix : buf.fam native = afUnix)
    (bounded : buf.len < 2 ^ 8) :
    Yields (fromBuf native buf) (DecodedWithin buf) ↔
      buf.len ≤ sunPath + maxLen ∨ (buf.ss_ sunPath = ch '@' ∧ buf.len ≤ sunPath + maxLen + 1) := by
  rw [yields_fromBuf unix]
  by_cases short : buf.len < sunPath
  · exact iff_of_true (.inl short) (.inl (by omega))
  · have present := Nat.le_of_not_lt short
    rw [decodedWithin_iff present bounded]
    simp only [present, short, true_and, false_or]

theorem fromBuf_congr {native : ByteOrder} {buf other : SockAddrBuf} (present : sunPath ≤ buf.len)
    (same : other.bytes = buf.bytes) : fromBuf native other = fromBuf native buf := by
  have size := congrArg List.length same
  rw [SockAddrBuf.bytes_length, SockAddrBuf.bytes_length] at size
  rw [SockAddrBuf.bytes_eq present, SockAddrBuf.bytes_eq (size ▸ present)] at same
  obtain ⟨family, path⟩ := List.append_inj same (by simp)
  rw [fromBuf, fromBuf, fromBufUnsafe, fromBufUnsafe, SockAddrBuf.fam, SockAddrBuf.fam, family, path, size]

/-- The decoders keep their bounds and those of the address for names that leave
room for one more character. Storage with nothing behind the family and longer
names pass their checks as well, and with more than the size of `sun_path` behind
the family they store behind `buf_` or set a length that no pathname can have.
Bytes behind the address never count. -/
theorem fromBuf_safe_iff (native : ByteOrder) {buf : SockAddrBuf} (unix : buf.fam native = afUnix)
    (bounded : buf.len ≤ SockAddrBuf.maxLen) :
    (Yields (fromBuf native buf) (fun v => v.DecodedWithin buf ∧ v.InBounds) ↔
      buf.len < sunPath ∨ Fits buf) ∧
    (Yields (SockAnyAddr.fromBuf native buf)
        (fun x => ∃ v, x = .sockU v ∧ v.DecodedWithin buf ∧ v.InBounds) ↔
      buf.len < sunPath ∨ Fits buf) ∧
    (Yields (fromBuf native buf) (DecodedWithin buf) ↔
      buf.len ≤ sunPath + maxLen ∨ (buf.ss_ sunPath = ch '@' ∧ buf.len ≤ sunPath + maxLen + 1)) ∧
    (sunPath ≤ buf.len → ∀ other : SockAddrBuf, other.bytes = buf.bytes →
      fromBuf native other = fromBuf native buf) := by
  have small : buf.len < 2 ^ 8 := lt_of_le_of_lt bounded (by decide)
  have whole : Yields (fromBuf native buf) (fun v => v.DecodedWithin buf ∧ v.InBounds) ↔
      buf.len < sunPath ∨ Fits buf := by
    rw [yields_fromBuf unix]
    by_cases short : buf.len < sunPath
    · exact iff_of_true (.inl short) (.inl short)
    · have present := Nat.le_of_not_lt short
      rw [decodedWithin_inBounds_iff present small]
      simp only [present, true_and]
  refine ⟨whole, ?_, yields_decodedWithin unix small, fun present other => fromBuf_congr present⟩
  rw [SockAnyAddr.fromBuf_unix unix, yields_map (fun _ _ same => SockAnyAddr.sockU.inj same)]
  exact whole

/-- Storage with `AF_UNIX` of a little-endian host, then one byte throughout. -/
private def uniform (len : Nat) (byte : UInt8) : SockAddrBuf where
  ss_ := fun cell => if cell = 0 then 1 else if cell = 1 then 0 else byte
  len := len

/-- A pathname of one character. -/
theorem fromBuf_safe_iff_short :
    Yields (fromBuf .little (uniform 4 (ch 'a'))) (fun v => v.DecodedWithin (uniform 4 (ch 'a')) ∧ v.InBounds) ∧
      Yields (SockAnyAddr.fromBuf .little (uniform 4 (ch 'a')))
        (fun x => ∃ v, x = .sockU v ∧ v.DecodedWithin (uniform 4 (ch 'a')) ∧ v.InBounds) := by
  have fits : (uniform 4 (ch 'a')).len < sunPath ∨ Fits (uniform 4 (ch 'a')) := by
    rw [Fits]
    decide
  obtain ⟨one, any, _⟩ := fromBuf_safe_iff .little (show (uniform 4 (ch 'a')).fam .little = afUnix by decide)
    (by decide)
  exact ⟨one.mpr fits, any.mpr fits⟩

/-- A pathname of 108 characters, which the kernel reports with 111 bytes, becomes an
address of that length, and of 128 bytes of NULs 126 are stored into `buf_`. -/
theorem fromBuf_overlong :
    ((uniform 111 (ch 'a')).fam .little = afUnix ∧ (uniform 111 (ch 'a')).len ≤ SockAddrBuf.maxLen ∧
      ¬ Yields (fromBuf .little (uniform 111 (ch 'a'))) (DecodedWithin (uniform 111 (ch 'a')))) ∧
    ((uniform 128 0).fam .little = afUnix ∧ (uniform 128 0).len ≤ SockAddrBuf.maxLen ∧
      ¬ Yields (fromBuf .little (uniform 128 0)) (DecodedWithin (uniform 128 0)) ∧
      (unsafeStores (sunPathOf (uniform 128 0)) (OutBuffer.fresh fun _ => 0)).high = 126) := by
  have pathname : (uniform 111 (ch 'a')).fam .little = afUnix := by decide
  have abstract : (uniform 128 0).fam .little = afUnix := by decide
  refine ⟨⟨pathname, by decide, ?_⟩, ⟨abstract, by decide, ?_, by decide +kernel⟩⟩
  · rw [yields_decodedWithin pathname (by decide)]
    decide
  · rw [yields_decodedWithin abstract (by decide)]
    decide

end SockUAddr

/-- What the kernel reports of an `AF_UNIX` socket. -/
inductive UnixName where
  | unnamed
  | pathname (path : List CharT) (some_path : path ≠ []) (room : path.length < SockUAddr.maxLen)
    (clean : 0 ∉ path)
  | abstract (name : List CharT) (room : name.length < SockUAddr.maxLen)

namespace UnixName

def behind : UnixName → List UInt8
  | unnamed => []
  | pathname path _ _ _ => path ++ [0]
  | abstract name _ => 0 :: name

/-- The path that the decoded address holds. -/
def held : UnixName → List CharT
  | unnamed => []
  | pathname path _ _ _ => path
  | abstract name _ => ch '@' :: name

/-- The names that come back in storage that held `old`. For the empty path `buf()` is
undefined. -/
def Kept (old : Nat → UInt8) : UnixName → Prop
  | unnamed => False
  | pathname path _ _ _ => path.head? ≠ some (ch '@') ∧ old (sunPath + path.length) = 0
  | abstract _ _ => True

end UnixName

/-- A buffer as the kernel fills it. -/
structure KernelBuf (native : ByteOrder) where
  buf : SockAddrBuf
  name : UnixName
  bytes : buf.bytes = encode native sunPath afUnix ++ name.behind

namespace UnixName

theorem accepted (name : UnixName) : ∃ v, SockUAddr.ofPath name.held = .ok v := by
  cases name with
  | unnamed => exact ⟨_, rfl⟩
  | pathname path some_path room clean =>
    exact SockUAddr.ofPath_accepts (Nat.lt_add_right _ room) (.inr clean)
  | abstract name room =>
    have abstract : SockUAddr.IsAbstract (ch '@' :: name) := .inl rfl
    refine SockUAddr.ofPath_accepts ?_ (.inl abstract)
    rw [held, if_pos abstract, List.length_cons]
    omega

theorem stored_held (name : UnixName) : SockUAddr.stored name.held = name.held := by
  cases name with
  | unnamed => rfl
  | pathname path some_path room clean => exact SockUAddr.stored_clean clean
  | abstract name room => exact SockUAddr.stored_sign name

theorem behind_holds (name : UnixName) : (SockUAddr.ofPathUnsafe name.behind).Holds name.held := by
  cases name with
  | unnamed => exact ⟨rfl, rfl⟩
  | pathname path some_path room clean =>
    have start : path.head? ≠ some 0 := fun nul => clean (List.mem_of_head? nul)
    exact SockUAddr.ofPathUnsafe_pathname 0 some_path start (Nat.le_of_lt room)
  | abstract name room => exact SockUAddr.ofPathUnsafe_abstract room

end UnixName

namespace KernelBuf

variable {native : ByteOrder}

/-- The decoder makes of the buffer what the public constructor makes of the path. -/
theorem decoded (b : KernelBuf native) :
    ∃ v, SockUAddr.fromBuf native b.buf = .ok v ∧ SockUAddr.ofPath b.name.held = .ok v ∧
      v.Holds b.name.held := by
  obtain ⟨family, present, tail⟩ := SockAddrBuf.of_bytes (by decide) b.bytes
  obtain ⟨v, made⟩ := b.name.accepted
  have held := SockUAddr.ofPath_holds made
  rw [b.name.stored_held] at held
  refine ⟨v, ?_, made, held⟩
  rw [SockUAddr.fromBuf, if_neg (fun other => other family), SockUAddr.fromBufUnsafe, if_neg (by omega), tail]
  exact congrArg Except.ok (b.name.behind_holds.eq held)

/-- The buffer comes back from the decoded address, out of a range that can be copied. -/
def Survives (b : KernelBuf native) (old : Nat → UInt8) : Prop :=
  ∃ v, SockUAddr.fromBuf native b.buf = .ok v ∧ v.copyRange.1 ≤ v.copyRange.2 ∧
    (v.buf native old).len = b.buf.len ∧ (v.buf native old).bytes = b.buf.bytes

/-- The buffers decode to addresses that compare equal. -/
def Alike (b c : KernelBuf native) : Prop :=
  ∃ v w, SockUAddr.fromBuf native b.buf = .ok v ∧ SockUAddr.fromBuf native c.buf = .ok w ∧ v.path = w.path

theorem alike_iff (b c : KernelBuf native) : b.Alike c ↔ b.name.held = c.name.held := by
  obtain ⟨v, read, _, holds⟩ := b.decoded
  obtain ⟨w, other, _, same⟩ := c.decoded
  constructor
  · rintro ⟨v', w', read', other', equal⟩
    rw [read, Except.ok.injEq] at read'
    rw [other, Except.ok.injEq] at other'
    subst read' other'
    rwa [holds.path, same.path] at equal
  · intro equal
    exact ⟨v, w, read, other, by rw [holds.path, same.path, equal]⟩

private theorem survives_bytes {b : KernelBuf native} {v : SockUAddr}
    (read : SockUAddr.fromBuf native b.buf = .ok v) (old : Nat → UInt8) :
    b.Survives old ↔
      0 < v.len_ ∧ (v.buf native old).bytes = encode native sunPath afUnix ++ b.name.behind := by
  rw [← b.bytes]
  constructor
  · rintro ⟨v', read', range, _, bytes⟩
    rw [read, Except.ok.injEq] at read'
    rw [read']
    exact ⟨range, bytes⟩
  · rintro ⟨some_path, bytes⟩
    have size := congrArg List.length bytes
    rw [SockAddrBuf.bytes_length, SockAddrBuf.bytes_length] at size
    exact ⟨v, read, some_path, size, bytes⟩

theorem survives_iff (b : KernelBuf native) (old : Nat → UInt8) : b.Survives old ↔ b.name.Kept old := by
  obtain ⟨v, read, made, length, _⟩ := b.decoded
  rw [survives_bytes read, length]
  cases named : b.name with
  | unnamed => exact iff_of_false (fun comes => Nat.lt_irrefl 0 comes.1) id
  | pathname path some_path room clean =>
    rw [named] at made
    rw [UnixName.held, and_iff_right (List.length_pos_of_ne_nil some_path)]
    have bytes := SockUAddr.bytes_buf native made some_path old
    rw [UnixName.held] at bytes
    rw [bytes, UnixName.behind, UnixName.Kept, SockUAddr.unterminated, List.append_assoc,
      List.append_cancel_left_eq]
    by_cases abstract : SockUAddr.IsAbstract path
    · have sign : path.head? = some (ch '@') :=
        abstract.resolve_right (fun nul => clean (List.mem_of_head? nul))
      refine iff_of_false (fun same => ?_) (fun kept => kept.1 sign)
      -- the encoder leaves the terminator out
      have size := congrArg List.length same
      have positive := List.length_pos_of_ne_nil some_path
      rw [if_pos abstract, if_pos abstract, List.length_append, List.length_append, List.length_cons,
        List.length_tail, List.length_nil, List.length_singleton] at size
      omega
    · rw [if_neg abstract, if_neg abstract, List.append_cancel_left_eq, List.singleton_inj]
      exact (and_iff_right (fun sign => abstract (.inl sign))).symm
  | abstract name room =>
    rw [named] at made
    have bytes := SockUAddr.bytes_buf native made (List.cons_ne_nil _ _) old
    have abstract : SockUAddr.IsAbstract (ch '@' :: name) := .inl rfl
    refine iff_of_true ⟨Nat.succ_pos _, ?_⟩ trivial
    simpa [UnixName.held, UnixName.behind, SockUAddr.unterminated, abstract] using bytes

/-- Abstract names come back, and pathnames where they do not start with `@` and the
storage has a NUL already behind them, but never the address of an unnamed socket; a
pathname and an abstract name decode alike where the pathname is the name behind an `@`. -/
theorem survives_alike_iff (native : ByteOrder) :
    (∀ (b : KernelBuf native) (old : Nat → UInt8), b.Survives old ↔ b.name.Kept old) ∧
    ∀ (b c : KernelBuf native) (path name : List CharT) (some_path : path ≠ [])
      (room : path.length < SockUAddr.maxLen) (clean : 0 ∉ path) (short : name.length < SockUAddr.maxLen),
      b.name = .pathname path some_path room clean → c.name = .abstract name short →
      (b.Alike c ↔ path = ch '@' :: name) := by
  refine ⟨survives_iff, fun b c path name some_path room clean short pathname abstract => ?_⟩
  rw [alike_iff, pathname, abstract]
  rfl

/-- Storage of a little-endian host with these bytes behind the family. -/
private def holding (behind : List UInt8) : SockAddrBuf where
  ss_ := fun cell => (encode .little sunPath afUnix ++ behind).getD cell 0
  len := sunPath + behind.length

private def slashA : KernelBuf .little where
  buf := holding [ch '/', ch 'a', 0]
  name := .pathname [ch '/', ch 'a'] (by decide) (by decide) (by decide)
  bytes := by decide

private def atA : KernelBuf .little where
  buf := holding [ch '@', ch 'a', 0]
  name := .pathname [ch '@', ch 'a'] (by decide) (by decide) (by decide)
  bytes := by decide

private def abstractA : KernelBuf .little where
  buf := holding [0, ch 'a']
  name := .abstract [ch 'a'] (by decide)
  bytes := by decide

private def nameless : KernelBuf .little where
  buf := holding []
  name := .unnamed
  bytes := by decide

/-- A pathname comes back in cleared storage, and `@a` decodes like an abstract name. -/
theorem survives_alike_iff_at : slashA.Survives (fun _ => 0) ∧ atA.Alike abstractA := by
  obtain ⟨survives, alike⟩ := survives_alike_iff .little
  exact ⟨(survives slashA _).mpr ⟨by decide, rfl⟩, (alike atA abstractA _ _ _ _ _ _ rfl rfl).mpr rfl⟩

/-- The pathname `/a` comes back with another byte for its NUL. The pathname `@a` does
not come back in cleared storage either: it decodes as the abstract name `a`. The address
of an unnamed socket never does. -/
theorem survives_lost :
    ¬ slashA.Survives (fun _ => 0xff) ∧ (¬ atA.Survives (fun _ => 0) ∧ atA.Alike abstractA) ∧
      ∀ old, ¬ nameless.Survives old := by
  refine ⟨?_, ⟨?_, ?_⟩, fun old => ?_⟩
  · rw [survives_iff]
    exact fun kept => absurd kept.2 (by decide)
  · rw [survives_iff]
    exact fun kept => kept.1 rfl
  · rw [alike_iff]
    rfl
  · rw [survives_iff]
    exact id

end KernelBuf

end Stdplus.Net
