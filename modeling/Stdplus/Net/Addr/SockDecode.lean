import Stdplus.Net.Addr.SockBuf

namespace Stdplus.Net

open Stdplus.Base Stdplus.Numeric

namespace SockAddrBuf

/-- `width` bytes of the storage from `offset` on. -/
def field (buf : SockAddrBuf) (offset width : Nat) : List UInt8 :=
  (List.range width).map fun i => buf.ss_ (offset + i)

@[simp] theorem field_length (buf : SockAddrBuf) (offset width : Nat) :
    (buf.field offset width).length = width := by
  simp [field]

def fam (native : ByteOrder) (buf : SockAddrBuf) : Nat := decode native (buf.field 0 2)

/-- Storage that holds `old`, assigned a structure of these bytes. -/
def assign (old : Nat → UInt8) (bytes : List UInt8) : SockAddrBuf where
  ss_ := ((OutBuffer.fresh old).copyTo 0 bytes).mem
  len := bytes.length % 2 ^ 8

theorem field_assign (old : Nat → UInt8) (front part rest : List UInt8) {bytes : List UInt8}
    {offset width : Nat} (split : bytes = front ++ (part ++ rest)) (start : front.length = offset)
    (size : part.length = width) : (assign old bytes).field offset width = part := by
  have stored := OutBuffer.text_copyTo_part 0 front part rest (OutBuffer.fresh old)
  rw [OutBuffer.text, ← split, start, size] at stored
  simpa [field, assign] using stored

theorem fam_assign (native : ByteOrder) (old : Nat → UInt8) {family : Nat} (small : family < 256 ^ 2)
    (rest : List UInt8) : (assign old (encode native 2 family ++ rest)).fam native = family := by
  have read : (assign old (encode native 2 family ++ rest)).field 0 2 = encode native 2 family :=
    field_assign old [] (encode native 2 family) rest rfl rfl (encode_length native 2 family)
  rw [fam, read, decode_encode, Nat.mod_eq_of_lt small]

end SockAddrBuf

/-- `AF_INET`. -/
def afInet : Nat := 2

/-- `AF_INET6`. -/
def afInet6 : Nat := 10

def portBytes (native : ByteOrder) (port : UInt16) : List UInt8 := encode native 2 (hton native 2 port.toNat)

def portOf (native : ByteOrder) (bytes : List UInt8) : UInt16 :=
  UInt16.ofNat (ntoh native 2 (decode native bytes))

namespace Sock4Addr

/-- `sizeof(sockaddr_in)`. -/
def sockaddrLen : Nat := 16

/-- The bytes of `sockaddr_in`: `sin_family`, `sin_port`, `sin_addr` and `sin_zero`. -/
def sockaddr (native : ByteOrder) (v : Sock4Addr) : List UInt8 :=
  encode native 2 afInet ++ portBytes native v.port ++ v.addr.s4_addr ++ List.replicate 8 0

/-- `buf()` in storage that holds `old`. -/
def buf (native : ByteOrder) (v : Sock4Addr) (old : Nat → UInt8) : SockAddrBuf :=
  .assign old (v.sockaddr native)

/-- `fromBuf` where the family is known. -/
def fromBufUnsafe (native : ByteOrder) (buf : SockAddrBuf) : Except Fault Sock4Addr :=
  if buf.len ≠ sockaddrLen then .error (.invalidArgument "Sock4Addr fromBuf")
  else .ok { addr := ⟨buf.field 4 4, by simp⟩, port := portOf native (buf.field 2 2) }

def fromBuf (native : ByteOrder) (buf : SockAddrBuf) : Except Fault Sock4Addr :=
  if buf.fam native ≠ afInet then .error (.invalidArgument "Sock4Addr fromBuf")
  else fromBufUnsafe native buf

end Sock4Addr

namespace Sock6Addr

/-- `sizeof(sockaddr_in6)`. -/
def sockaddrLen : Nat := 28

/-- The bytes of `sockaddr_in6`: `sin6_family`, `sin6_port`, `sin6_flowinfo`,
`sin6_addr` and `sin6_scope_id`. -/
def sockaddr (native : ByteOrder) (v : Sock6Addr) : List UInt8 :=
  encode native 2 afInet6 ++ portBytes native v.port ++ encode native 4 0 ++ v.addr.s6_addr ++
    encode native 4 v.scope.toNat

/-- `buf()` in storage that holds `old`. -/
def buf (native : ByteOrder) (v : Sock6Addr) (old : Nat → UInt8) : SockAddrBuf :=
  .assign old (v.sockaddr native)

/-- `fromBuf` where the family is known. -/
def fromBufUnsafe (native : ByteOrder) (buf : SockAddrBuf) : Except Fault Sock6Addr :=
  if buf.len ≠ sockaddrLen then .error (.invalidArgument "Sock6Addr fromBuf")
  else .ok {
    addr := ⟨buf.field 8 16, by simp⟩
    port := portOf native (buf.field 2 2)
    scope := UInt32.ofNat (decode native (buf.field 24 4)) }

def fromBuf (native : ByteOrder) (buf : SockAddrBuf) : Except Fault Sock6Addr :=
  if buf.fam native ≠ afInet6 then .error (.invalidArgument "Sock6Addr fromBuf")
  else fromBufUnsafe native buf

end Sock6Addr

namespace SockUAddr

/-- `len_` in the constructor without checks, a `uint8_t`. -/
def unsafeLen : List CharT → Nat
  | [] => 0
  | first :: rest => ((first :: rest).length - if first = 0 then 0 else 1) % 2 ^ 8

/-- How many characters `std::copy_n` takes from behind the first; a negative
count takes none. -/
def copyCount (path : List CharT) : Nat := unsafeLen path - 1

/-- The stores of the constructor without checks into `buf_`. -/
def unsafeStores : List CharT → OutBuffer CharT → OutBuffer CharT
  | [], buf_ => buf_
  | first :: rest, buf_ =>
    let buf_ := buf_.store 0 (if first = 0 then ch '@' else first)
    buf_.copyTo 1 (rest.take (copyCount (first :: rest)))

/-- The constructor without checks. -/
def ofPathUnsafe (path : List CharT) : SockUAddr where
  buf_ := (unsafeStores path (OutBuffer.fresh fun _ => 0)).text 0 maxLen
  len_ := unsafeLen path
  size := by simp

def sunPathOf (buf : SockAddrBuf) : List CharT := buf.field sunPath (buf.len - sunPath)

/-- `fromBuf` where the family is known. -/
def fromBufUnsafe (buf : SockAddrBuf) : Except Fault SockUAddr :=
  if buf.len < sunPath then .error (.invalidArgument "SockUAddr fromBuf")
  else .ok (ofPathUnsafe (sunPathOf buf))

def fromBuf (native : ByteOrder) (buf : SockAddrBuf) : Except Fault SockUAddr :=
  if buf.fam native ≠ afUnix then .error (.invalidArgument "SockUAddr fromBuf")
  else fromBufUnsafe buf

end SockUAddr

namespace SockInAddr

def buf (native : ByteOrder) (v : SockInAddr) (old : Nat → UInt8) : SockAddrBuf :=
  match v with
  | .sock4 v => v.buf native old
  | .sock6 v => v.buf native old

def fromBuf (native : ByteOrder) (buf : SockAddrBuf) : Except Fault SockInAddr :=
  if buf.fam native = afInet then (Sock4Addr.fromBufUnsafe native buf).map .sock4
  else if buf.fam native = afInet6 then (Sock6Addr.fromBufUnsafe native buf).map .sock6
  else .error (.invalidArgument "Unknown SockInAddr")

end SockInAddr

namespace SockAnyAddr

def buf (native : ByteOrder) (v : SockAnyAddr) (old : Nat → UInt8) : SockAddrBuf :=
  match v with
  | .sock4 v => v.buf native old
  | .sock6 v => v.buf native old
  | .sockU v => v.buf native old

def fromBuf (native : ByteOrder) (buf : SockAddrBuf) : Except Fault SockAnyAddr :=
  if buf.fam native = afInet then (Sock4Addr.fromBufUnsafe native buf).map .sock4
  else if buf.fam native = afInet6 then (Sock6Addr.fromBufUnsafe native buf).map .sock6
  else if buf.fam native = afUnix then (SockUAddr.fromBufUnsafe buf).map .sockU
  else .error (.invalidArgument "Unknown SockInAddr")

def family : SockAnyAddr → Nat
  | .sock4 _ => afInet
  | .sock6 _ => afInet6
  | .sockU _ => afUnix

end SockAnyAddr

@[simp] theorem portBytes_length (native : ByteOrder) (port : UInt16) :
    (portBytes native port).length = 2 := by
  simp [portBytes]

@[simp] theorem portOf_portBytes (native : ByteOrder) (port : UInt16) :
    portOf native (portBytes native port) = port := by
  have small := port.toNat_lt
  rw [portOf, ntoh_decode native (by decide) (by simp), portBytes,
    encode_hton native (by decide), decode_encode, Nat.mod_eq_of_lt (by omega)]
  exact UInt16.ofNat_toNat

namespace Sock4Addr

variable (native : ByteOrder) (v : Sock4Addr) (old : Nat → UInt8)

theorem fam_buf : (v.buf native old).fam native = afInet := by
  rw [buf, sockaddr, List.append_assoc, List.append_assoc]
  exact SockAddrBuf.fam_assign native old (by decide) _

theorem fromBufUnsafe_buf : fromBufUnsafe native (v.buf native old) = .ok v := by
  have four := v.addr.size
  have family := encode_length native 2 afInet
  have port := portBytes_length native v.port
  have size : (v.buf native old).len = sockaddrLen := by
    simp [buf, SockAddrBuf.assign, sockaddr, sockaddrLen, port, four]
  have readPort : (v.buf native old).field 2 2 = portBytes native v.port :=
    SockAddrBuf.field_assign old (encode native 2 afInet) (portBytes native v.port)
      (v.addr.s4_addr ++ List.replicate 8 0) (by simp [sockaddr]) family port
  have readAddr : (v.buf native old).field 4 4 = v.addr.s4_addr :=
    SockAddrBuf.field_assign old (encode native 2 afInet ++ portBytes native v.port) v.addr.s4_addr
      (List.replicate 8 0) (by simp [sockaddr]) (by simp [port]) four
  simp only [fromBufUnsafe, size, ne_eq, not_true_eq_false, if_false, readPort, readAddr,
    portOf_portBytes]

end Sock4Addr

namespace Sock6Addr

variable (native : ByteOrder) (v : Sock6Addr) (old : Nat → UInt8)

theorem fam_buf : (v.buf native old).fam native = afInet6 := by
  rw [buf, sockaddr, List.append_assoc, List.append_assoc, List.append_assoc]
  exact SockAddrBuf.fam_assign native old (by decide) _

theorem fromBufUnsafe_buf : fromBufUnsafe native (v.buf native old) = .ok v := by
  have sixteen := v.addr.size
  have family := encode_length native 2 afInet6
  have flow := encode_length native 4 0
  have index := encode_length native 4 v.scope.toNat
  have port := portBytes_length native v.port
  have size : (v.buf native old).len = sockaddrLen := by
    simp [buf, SockAddrBuf.assign, sockaddr, sockaddrLen, port, sixteen]
  have readPort : (v.buf native old).field 2 2 = portBytes native v.port :=
    SockAddrBuf.field_assign old (encode native 2 afInet6) (portBytes native v.port)
      (encode native 4 0 ++ v.addr.s6_addr ++ encode native 4 v.scope.toNat) (by simp [sockaddr])
      family port
  have readAddr : (v.buf native old).field 8 16 = v.addr.s6_addr :=
    SockAddrBuf.field_assign old (encode native 2 afInet6 ++ portBytes native v.port ++ encode native 4 0)
      v.addr.s6_addr (encode native 4 v.scope.toNat) (by simp [sockaddr]) (by simp [port]) sixteen
  have readScope : (v.buf native old).field 24 4 = encode native 4 v.scope.toNat :=
    SockAddrBuf.field_assign old
      (encode native 2 afInet6 ++ portBytes native v.port ++ encode native 4 0 ++ v.addr.s6_addr)
      (encode native 4 v.scope.toNat) [] (by simp [sockaddr]) (by simp [port, sixteen]) index
  have scope : UInt32.ofNat (decode native (encode native 4 v.scope.toNat)) = v.scope := by
    have small := v.scope.toNat_lt
    rw [decode_encode, Nat.mod_eq_of_lt (by omega)]
    exact UInt32.ofNat_toNat
  simp only [fromBufUnsafe, size, ne_eq, not_true_eq_false, if_false, readPort, readAddr, readScope,
    portOf_portBytes, scope]

end Sock6Addr

namespace SockAddrBuf

@[simp] theorem bytes_length (buf : SockAddrBuf) : buf.bytes.length = buf.len := by
  simp [bytes]

theorem bytes_eq {buf : SockAddrBuf} (present : sunPath ≤ buf.len) :
    buf.bytes = buf.field 0 2 ++ SockUAddr.sunPathOf buf := by
  have size : buf.len = 2 + (buf.len - sunPath) := (Nat.add_sub_cancel' present).symm
  rw [bytes, size, List.range_add, List.map_append, List.map_map]
  simp [field, SockUAddr.sunPathOf, sunPath, Function.comp_def]

/-- A family in front of the bytes is the family of the buffer, and what is behind
it is the path. -/
theorem of_bytes {native : ByteOrder} {buf : SockAddrBuf} {family : Nat} {tail : List UInt8}
    (small : family < 256 ^ 2) (bytes : buf.bytes = encode native 2 family ++ tail) :
    buf.fam native = family ∧ sunPath ≤ buf.len ∧ SockUAddr.sunPathOf buf = tail := by
  have offset : sunPath = 2 := rfl
  have size := congrArg List.length bytes
  rw [bytes_length, List.length_append, encode_length] at size
  have present : sunPath ≤ buf.len := by omega
  rw [bytes_eq present] at bytes
  obtain ⟨front, back⟩ := List.append_inj bytes (by simp)
  refine ⟨?_, present, back⟩
  rw [fam, front, decode_encode, Nat.mod_eq_of_lt small]

end SockAddrBuf

namespace SockUAddr

/-- The address is that of a stored name, with zeros behind it. -/
def Holds (v : SockUAddr) (name : List CharT) : Prop :=
  v.len_ = name.length ∧ v.buf_ = name ++ List.replicate (maxLen - name.length) 0

theorem Holds.eq {v other : SockUAddr} {name : List CharT} (held : v.Holds name) (same : other.Holds name) :
    v = other := by
  obtain ⟨buf_, len_, size⟩ := v
  obtain ⟨otherBuf, otherLen, otherSize⟩ := other
  obtain ⟨rfl, rfl⟩ := held
  obtain ⟨rfl, rfl⟩ := same
  rfl

theorem Holds.path {v : SockUAddr} {name : List CharT} (held : v.Holds name) : v.path = name := by
  rw [SockUAddr.path, held.1, held.2]
  exact List.take_left

theorem ofPath_holds {path : List CharT} {v : SockUAddr} (made : ofPath path = .ok v) :
    v.Holds (stored path) := by
  obtain ⟨length, content, _⟩ := ofPath_ok made
  by_cases empty : path = []
  · subst empty
    exact ⟨length, content⟩
  · rw [Holds, stored_length path empty]
    exact ⟨length, content⟩

theorem ofPathUnsafe_holds (first : CharT) (rest : List CharT)
    (fits : (rest.take (copyCount (first :: rest))).length + 1 ≤ maxLen)
    (length : unsafeLen (first :: rest) = (rest.take (copyCount (first :: rest))).length + 1) :
    (ofPathUnsafe (first :: rest)).Holds
      ((if first = 0 then ch '@' else first) :: rest.take (copyCount (first :: rest))) :=
  ⟨length, OutBuffer.text_copyTo_fresh
    ((if first = 0 then ch '@' else first) :: rest.take (copyCount (first :: rest))) 0 fits⟩

theorem ofPathUnsafe_abstract {name : List CharT} (fits : name.length < maxLen) :
    (ofPathUnsafe (0 :: name)).Holds (ch '@' :: name) := by
  have limit : maxLen = 108 := rfl
  have length : unsafeLen (0 :: name) = name.length + 1 := by
    simp only [unsafeLen, if_true, List.length_cons]
    omega
  have whole : name.take (copyCount (0 :: name)) = name := by
    rw [copyCount, length]
    exact List.take_of_length_le (by omega)
  have held := ofPathUnsafe_holds 0 name (by rw [whole]; omega) (by rw [whole, length])
  rwa [whole, if_pos rfl] at held

theorem ofPathUnsafe_pathname {path : List CharT} (last : CharT) (some_path : path ≠ [])
    (pathname : path.head? ≠ some 0) (fits : path.length ≤ maxLen) :
    (ofPathUnsafe (path ++ [last])).Holds path := by
  have limit : maxLen = 108 := rfl
  obtain ⟨first, rest, rfl⟩ := List.exists_cons_of_ne_nil some_path
  have other : first ≠ 0 := by simpa using pathname
  rw [List.length_cons] at fits
  have length : unsafeLen (first :: (rest ++ [last])) = rest.length + 1 := by
    simp only [unsafeLen, if_neg other, List.length_cons, List.length_append, List.length_nil]
    omega
  have kept : (rest ++ [last]).take (copyCount (first :: (rest ++ [last]))) = rest := by
    rw [copyCount, length]
    exact List.take_left
  have held := ofPathUnsafe_holds first (rest ++ [last]) (by rw [kept]; omega)
    (by rw [kept, length])
  rwa [kept, if_neg other] at held

private theorem ofPathUnsafe_encoded {path : List CharT} {v : SockUAddr} (made : ofPath path = .ok v)
    (some_path : path ≠ []) (last : CharT) :
    ofPathUnsafe ((if IsAbstract path then 0 :: path.tail else path) ++
      (if IsAbstract path then [] else [last])) = v := by
  have positive := List.length_pos_of_ne_nil some_path
  obtain ⟨_, _, room⟩ := ofPath_ok made
  refine Holds.eq ?_ (ofPath_holds made)
  rw [stored]
  by_cases abstract : IsAbstract path
  · rw [if_pos abstract] at room
    simp only [if_pos abstract, List.append_nil]
    exact ofPathUnsafe_abstract (by rw [List.length_tail]; omega)
  · rw [if_neg abstract] at room
    simp only [if_neg abstract]
    exact ofPathUnsafe_pathname last some_path (fun nul => abstract (.inr nul)) (by omega)

theorem fromBufUnsafe_buf (native : ByteOrder) {path : List CharT} {v : SockUAddr}
    (made : ofPath path = .ok v) (old : Nat → UInt8) :
    (v.buf native old).fam native = afUnix ∧ fromBufUnsafe (v.buf native old) = .ok v := by
  by_cases empty : path = []
  · subst empty
    have bytes := bytes_buf_nil native made old
    rw [← List.append_nil (encode native sunPath afUnix)] at bytes
    obtain ⟨family, size, tail⟩ := SockAddrBuf.of_bytes (by decide) bytes
    refine ⟨family, ?_⟩
    rw [fromBufUnsafe, if_neg (by omega), tail]
    exact congrArg Except.ok (Holds.eq ⟨rfl, rfl⟩ (ofPath_holds made))
  · have bytes := bytes_buf native made empty old
    rw [unterminated, List.append_assoc] at bytes
    obtain ⟨family, size, tail⟩ := SockAddrBuf.of_bytes (by decide) bytes
    refine ⟨family, ?_⟩
    rw [fromBufUnsafe, if_neg (by omega), tail, ofPathUnsafe_encoded made empty]

end SockUAddr

theorem Sock4Addr.fromBuf_buf (native : ByteOrder) (v : Sock4Addr) (old : Nat → UInt8) :
    fromBuf native (v.buf native old) = .ok v := by
  rw [fromBuf, if_neg (fun other => other (v.fam_buf native old)), fromBufUnsafe_buf]

theorem Sock6Addr.fromBuf_buf (native : ByteOrder) (v : Sock6Addr) (old : Nat → UInt8) :
    fromBuf native (v.buf native old) = .ok v := by
  rw [fromBuf, if_neg (fun other => other (v.fam_buf native old)), fromBufUnsafe_buf]

theorem SockUAddr.fromBuf_buf (native : ByteOrder) {v : SockUAddr} (constructed : v.Constructed)
    (old : Nat → UInt8) : fromBuf native (v.buf native old) = .ok v := by
  obtain ⟨path, made⟩ := constructed
  obtain ⟨family, decoded⟩ := fromBufUnsafe_buf native made old
  rw [fromBuf, if_neg (fun other => other family), decoded]

namespace SockInAddr

theorem fromBuf_inet {native : ByteOrder} {buf : SockAddrBuf} (family : buf.fam native = afInet) :
    fromBuf native buf = (Sock4Addr.fromBuf native buf).map .sock4 := by
  rw [fromBuf, if_pos family, Sock4Addr.fromBuf, if_neg (fun other => other family)]

theorem fromBuf_inet6 {native : ByteOrder} {buf : SockAddrBuf} (family : buf.fam native = afInet6) :
    fromBuf native buf = (Sock6Addr.fromBuf native buf).map .sock6 := by
  rw [fromBuf, if_neg (by rw [family]; decide), if_pos family, Sock6Addr.fromBuf,
    if_neg (fun other => other family)]

theorem fromBuf_buf (native : ByteOrder) (v : SockInAddr) (old : Nat → UInt8) :
    fromBuf native (v.buf native old) = .ok v := by
  cases v with
  | sock4 v =>
    have decoded := v.fromBuf_buf native old
    exact (fromBuf_inet (v.fam_buf native old)).trans (congrArg _ decoded)
  | sock6 v =>
    have decoded := v.fromBuf_buf native old
    exact (fromBuf_inet6 (v.fam_buf native old)).trans (congrArg _ decoded)

end SockInAddr

namespace SockAnyAddr

theorem fromBuf_inet {native : ByteOrder} {buf : SockAddrBuf} (family : buf.fam native = afInet) :
    fromBuf native buf = (Sock4Addr.fromBuf native buf).map .sock4 := by
  rw [fromBuf, if_pos family, Sock4Addr.fromBuf, if_neg (fun other => other family)]

theorem fromBuf_inet6 {native : ByteOrder} {buf : SockAddrBuf} (family : buf.fam native = afInet6) :
    fromBuf native buf = (Sock6Addr.fromBuf native buf).map .sock6 := by
  rw [fromBuf, if_neg (by rw [family]; decide), if_pos family, Sock6Addr.fromBuf,
    if_neg (fun other => other family)]

theorem fromBuf_unix {native : ByteOrder} {buf : SockAddrBuf} (family : buf.fam native = afUnix) :
    fromBuf native buf = (SockUAddr.fromBuf native buf).map .sockU := by
  rw [fromBuf, if_neg (by rw [family]; decide), if_neg (by rw [family]; decide), if_pos family,
    SockUAddr.fromBuf, if_neg (fun other => other family)]

/-- The alternatives are the constructed ones. -/
def Constructed (v : SockAnyAddr) : Prop := ∀ path, v = .sockU path → path.Constructed

theorem fam_buf (native : ByteOrder) {v : SockAnyAddr} (constructed : v.Constructed) (old : Nat → UInt8) :
    (v.buf native old).fam native = v.family := by
  cases v with
  | sock4 v => exact v.fam_buf native old
  | sock6 v => exact v.fam_buf native old
  | sockU v =>
    obtain ⟨path, made⟩ := constructed v rfl
    exact (SockUAddr.fromBufUnsafe_buf native made old).1

theorem fromBuf_buf (native : ByteOrder) {v : SockAnyAddr} (constructed : v.Constructed)
    (old : Nat → UInt8) : fromBuf native (v.buf native old) = .ok v := by
  have family := fam_buf native constructed old
  cases v with
  | sock4 v =>
    have decoded := v.fromBuf_buf native old
    exact (fromBuf_inet family).trans (congrArg _ decoded)
  | sock6 v =>
    have decoded := v.fromBuf_buf native old
    exact (fromBuf_inet6 family).trans (congrArg _ decoded)
  | sockU v =>
    have decoded := SockUAddr.fromBuf_buf native (constructed v rfl) old
    exact (fromBuf_unix family).trans (congrArg _ decoded)

end SockAnyAddr

/-- Each decoder refuses a buffer of another family. -/
structure Refused (native : ByteOrder) (buf : SockAddrBuf) : Prop where
  sock4 : buf.fam native ≠ afInet →
    Sock4Addr.fromBuf native buf = .error (.invalidArgument "Sock4Addr fromBuf")
  sock6 : buf.fam native ≠ afInet6 →
    Sock6Addr.fromBuf native buf = .error (.invalidArgument "Sock6Addr fromBuf")
  sockU : buf.fam native ≠ afUnix →
    SockUAddr.fromBuf native buf = .error (.invalidArgument "SockUAddr fromBuf")
  sockIn : buf.fam native ≠ afInet → buf.fam native ≠ afInet6 →
    SockInAddr.fromBuf native buf = .error (.invalidArgument "Unknown SockInAddr")
  sockAny : buf.fam native ≠ afInet → buf.fam native ≠ afInet6 → buf.fam native ≠ afUnix →
    SockAnyAddr.fromBuf native buf = .error (.invalidArgument "Unknown SockInAddr")

theorem refused (native : ByteOrder) (buf : SockAddrBuf) : Refused native buf where
  sock4 other := by rw [Sock4Addr.fromBuf, if_pos other]
  sock6 other := by rw [Sock6Addr.fromBuf, if_pos other]
  sockU other := by rw [SockUAddr.fromBuf, if_pos other]
  sockIn not4 not6 := by rw [SockInAddr.fromBuf, if_neg not4, if_neg not6]
  sockAny not4 not6 notU := by rw [SockAnyAddr.fromBuf, if_neg not4, if_neg not6, if_neg notU]

/-- Every socket address goes through the kernel's layout and back in its own
alternative, whatever the storage held, and no decoder takes another family. -/
theorem sockaddr_roundTrip (native : ByteOrder) (old : Nat → UInt8) :
    (∀ v : Sock4Addr, Sock4Addr.fromBuf native (v.buf native old) = .ok v) ∧
    (∀ v : Sock6Addr, Sock6Addr.fromBuf native (v.buf native old) = .ok v) ∧
    (∀ v : SockUAddr, v.Constructed → SockUAddr.fromBuf native (v.buf native old) = .ok v) ∧
    (∀ v : SockInAddr, SockInAddr.fromBuf native (v.buf native old) = .ok v) ∧
    (∀ v : SockAnyAddr, v.Constructed → SockAnyAddr.fromBuf native (v.buf native old) = .ok v) ∧
    (∀ v : SockAnyAddr, v.Constructed → (v.buf native old).fam native = v.family) ∧
    ∀ buf : SockAddrBuf, Refused native buf :=
  ⟨fun v => v.fromBuf_buf native old, fun v => v.fromBuf_buf native old,
    fun _ constructed => SockUAddr.fromBuf_buf native constructed old,
    fun v => v.fromBuf_buf native old,
    fun _ constructed => SockAnyAddr.fromBuf_buf native constructed old,
    fun _ constructed => SockAnyAddr.fam_buf native constructed old,
    refused native⟩

/-- A pathname out of storage that held other bytes. -/
theorem sockaddr_roundTrip_path :
    ∃ v, SockUAddr.ofPath ("/run/a".toList.map ch) = .ok v ∧
      SockUAddr.fromBuf .big (v.buf .big fun _ => 0xff) = .ok v ∧
      SockAnyAddr.fromBuf .big ((SockAnyAddr.sockU v).buf .big fun _ => 0xff) = .ok (.sockU v) := by
  obtain ⟨v, made⟩ : ∃ v, SockUAddr.ofPath ("/run/a".toList.map ch) = .ok v := ⟨_, rfl⟩
  obtain ⟨_, _, unix, _, any, _⟩ := sockaddr_roundTrip .big fun _ => 0xff
  refine ⟨v, made, unix v ⟨_, made⟩, any (.sockU v) ?_⟩
  rintro path ⟨⟩
  exact ⟨_, made⟩

end Stdplus.Net
