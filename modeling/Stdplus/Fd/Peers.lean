import Stdplus.Base.Transition
import Stdplus.Fd.Device
import Stdplus.Net.Addr.SockUnix

/-! Addresses that calls on sockets take and give: whose address a storage holds after any
calls that share it, and when it holds none. -/

set_option linter.dupNamespace false

namespace Stdplus.Fd

open Stdplus.Base Stdplus.Net Stdplus.Numeric

variable {σ : Type}

/-- An address as the kernel gives it; a `sockaddr_storage` has room for each. -/
abbrev Name := { name : List UInt8 // name.length ≤ SockAddrBuf.maxLen }

/-- The system calls with addresses. An error is its `errno`, and stores no address. That
`recvfrom` reports more than it stores where `RecvFlag::Trunc` is set is left out. -/
structure Sockets (σ : Type) where
  recvfrom : (fd : Nat) → RecvFlags → (size : Nat) → σ →
    Except Int ({ data : List UInt8 // data.length ≤ size } × Name) × σ
  accept : (fd : Nat) → σ → Except Int (Nat × Name) × σ
  sendto : (fd : Nat) → SendFlags → (data addr : List UInt8) → σ → Except Int (Fin (data.length + 1)) × σ
  bind : (fd : Nat) → (addr : List UInt8) → σ → Except Int Unit × σ
  connect : (fd : Nat) → (addr : List UInt8) → σ → Except Int Unit × σ

def Name.stored (name : Name) (ss_ : Nat → UInt8) : Nat → UInt8 :=
  ((OutBuffer.fresh ss_).copyTo 0 name.val).mem

namespace FdImpl

variable (sockets : Sockets σ)

/-- Data and the size of the address; the call gets all of the storage. -/
def recvfrom (fd : Nat) (flags : RecvFlags) (size : Nat) (ss_ : Nat → UInt8) (s : σ) :
    Except (Error (Int × String)) ({ data : List UInt8 // data.length ≤ size } × Nat) × (Nat → UInt8) × σ :=
  let ret := fret (fun data : { data : List UInt8 // data.length ≤ size } => data.val.length)
    ⟨[], Nat.zero_le size⟩ size "recvfrom"
  match sockets.recvfrom fd flags size s with
  | (.error errno, s) => ((ret (.error errno)).map (·, SockAddrBuf.maxLen), ss_, s)
  | (.ok (data, name), s) => ((ret (.ok data)).map (·, name.val.length), name.stored ss_, s)

def accept (fd : Nat) (ss_ : Nat → UInt8) (s : σ) :
    Except (Error (Int × String)) (Option (Nat × Nat)) × (Nat → UInt8) × σ :=
  match sockets.accept fd s with
  | (.error errno, s) =>
    (if errno = EAGAIN ∨ errno = EWOULDBLOCK then .ok none else .error (.system (errno, "accept")), ss_, s)
  | (.ok (fd, name), s) => (.ok (some (fd, name.val.length)), name.stored ss_, s)

def sendto (fd : Nat) (data : List UInt8) (flags : SendFlags) (sockaddr : List UInt8) (s : σ) :
    Except (Error (Int × String)) (Fin (data.length + 1)) × σ :=
  let result := sockets.sendto fd flags data sockaddr s
  (fret Fin.val ⟨0, Nat.succ_pos data.length⟩ data.length "sendto" result.1, result.2)

/-- `CHECK_ERRNO` around a call that gives nothing. -/
def checkErrno (what : String) (result : Except Int Unit × σ) : Except (Error (Int × String)) Unit × σ :=
  (result.1.mapError fun errno => .system (errno, what), result.2)

def bind (fd : Nat) (sockaddr : List UInt8) (s : σ) : Except (Error (Int × String)) Unit × σ :=
  checkErrno "bind" (sockets.bind fd sockaddr s)

def connect (fd : Nat) (sockaddr : List UInt8) (s : σ) : Except (Error (Int × String)) Unit × σ :=
  checkErrno "connect" (sockets.connect fd sockaddr s)

end FdImpl

section

variable (sockets : Sockets σ)

/-- How many elements of `width` bytes a message has; the container and the address after it. -/
def recvfrom (fd width : Nat) (c : List UInt8) (addr : SockAddrBuf) (flags : RecvFlags) (s : σ) :
    Except (Error (Int × String)) Nat × List UInt8 × SockAddrBuf × σ :=
  match FdImpl.recvfrom sockets fd flags c.length addr.ss_ s with
  | (.error thrown, ss_, s) => (.error thrown, c, { addr with ss_ := ss_ }, s)
  | (.ok (data, size), ss_, s) =>
    (.ok (data.val.length / width), overwrite c 0 data.val, { ss_ := ss_, len := size % 2 ^ 8 }, s)

def accept (fd : Nat) (addr : SockAddrBuf) (s : σ) :
    Except (Error (Int × String)) (Option Nat) × SockAddrBuf × σ :=
  match FdImpl.accept sockets fd addr.ss_ s with
  | (.error thrown, ss_, s) => (.error thrown, { addr with ss_ := ss_ }, s)
  | (.ok none, ss_, s) => (.ok none, { addr with ss_ := ss_ }, s)
  | (.ok (some (fd, size)), ss_, s) => (.ok (some fd), { ss_ := ss_, len := size % 2 ^ 8 }, s)

def sendto (fd width : Nat) (c : List UInt8) (addr : SockAddrBuf) (flags : SendFlags) (s : σ) :
    Except (Error (Int × String)) Nat × σ :=
  let result := FdImpl.sendto sockets fd c flags addr.bytes s
  (result.1.map (·.val / width), result.2)

def sendtoExact (fd : Nat) (data : List UInt8) (addr : SockAddrBuf) (flags : SendFlags) (s : σ) :
    Except (Error (Int × String)) Unit × σ :=
  match FdImpl.sendto sockets fd data flags addr.bytes s with
  | (.error thrown, s) => (.error thrown, s)
  | (.ok r, s) =>
    if r.val = 0 then (.error (.wouldBlock "sendto"), s)
    else if r.val < data.length then (.error (.incomplete "sendto"), s)
    else (.ok (), s)

def bind (fd : Nat) (addr : SockAddrBuf) (s : σ) : Except (Error (Int × String)) Unit × σ :=
  FdImpl.bind sockets fd addr.bytes s

def connect (fd : Nat) (addr : SockAddrBuf) (s : σ) : Except (Error (Int × String)) Unit × σ :=
  FdImpl.connect sockets fd addr.bytes s

end

theorem Name.bytes_stored (name : Name) (ss_ : Nat → UInt8) :
    SockAddrBuf.bytes { ss_ := name.stored ss_, len := name.val.length % 2 ^ 8 } = name.val := by
  have fits := name.property
  have limit : SockAddrBuf.maxLen = 128 := rfl
  have text := OutBuffer.text_copyTo 0 name.val (OutBuffer.fresh ss_)
  rw [SockAddrBuf.bytes, Nat.mod_eq_of_lt (by omega)]
  simpa [OutBuffer.text, Name.stored] using text

theorem field_bytes {buf : SockAddrBuf} {offset width : Nat} (inside : offset + width ≤ buf.len) :
    buf.field offset width = (buf.bytes.drop offset).take width := by
  refine List.ext_getElem ?_ fun k left right => ?_
  · rw [SockAddrBuf.field_length, List.length_take, List.length_drop, SockAddrBuf.bytes_length]
    omega
  · simp [SockAddrBuf.field, SockAddrBuf.bytes]

theorem fromBuf_of_bytes (native : ByteOrder) {buf other : SockAddrBuf} (present : 2 ≤ buf.len)
    (same : buf.bytes = other.bytes) : SockAnyAddr.fromBuf native buf = SockAnyAddr.fromBuf native other := by
  have length : buf.len = other.len := by
    rw [← buf.bytes_length, same, other.bytes_length]
  have part {offset width : Nat} (inside : offset + width ≤ buf.len) :
      buf.field offset width = other.field offset width := by
    rw [field_bytes inside, field_bytes (length ▸ inside), same]
  have family : buf.fam native = other.fam native := by
    rw [SockAddrBuf.fam, SockAddrBuf.fam, part present]
  have path : SockUAddr.sunPathOf buf = SockUAddr.sunPathOf other := by
    have offset : sunPath = 2 := rfl
    rw [SockUAddr.sunPathOf, SockUAddr.sunPathOf, ← length, part (by omega)]
  have internet : Sock4Addr.fromBufUnsafe native buf = Sock4Addr.fromBufUnsafe native other := by
    by_cases whole : buf.len = Sock4Addr.sockaddrLen
    · have size : buf.len = 16 := whole
      simp only [Sock4Addr.fromBufUnsafe, ← length, part (show 4 + 4 ≤ buf.len by omega),
        part (show 2 + 2 ≤ buf.len by omega)]
    · rw [Sock4Addr.fromBufUnsafe, if_pos whole, Sock4Addr.fromBufUnsafe, if_pos (length ▸ whole)]
  have internet6 : Sock6Addr.fromBufUnsafe native buf = Sock6Addr.fromBufUnsafe native other := by
    by_cases whole : buf.len = Sock6Addr.sockaddrLen
    · have size : buf.len = 28 := whole
      simp only [Sock6Addr.fromBufUnsafe, ← length, part (show 8 + 16 ≤ buf.len by omega),
        part (show 2 + 2 ≤ buf.len by omega), part (show 24 + 4 ≤ buf.len by omega)]
    · rw [Sock6Addr.fromBufUnsafe, if_pos whole, Sock6Addr.fromBufUnsafe, if_pos (length ▸ whole)]
  rw [SockAnyAddr.fromBuf, SockAnyAddr.fromBuf, family, internet, internet6, SockUAddr.fromBufUnsafe,
    SockUAddr.fromBufUnsafe, path, length]

theorem bytes_assign (old : Nat → UInt8) {bytes : List UInt8} (short : bytes.length < 2 ^ 8) :
    (SockAddrBuf.assign old bytes).bytes = bytes := by
  have text := OutBuffer.text_copyTo 0 bytes (OutBuffer.fresh old)
  rw [SockAddrBuf.bytes, SockAddrBuf.assign, Nat.mod_eq_of_lt short]
  simpa [OutBuffer.text] using text

theorem bytes_buf4 (native : ByteOrder) (v : Sock4Addr) (old : Nat → UInt8) :
    (v.buf native old).bytes =
      encode native 2 afInet ++ encode .big 2 v.port.toNat ++ v.addr.s4_addr ++ List.replicate 8 0 := by
  have port : portBytes native v.port = encode .big 2 v.port.toNat := encode_hton native (by decide) _
  rw [Sock4Addr.buf, bytes_assign, Sock4Addr.sockaddr, port]
  simp [Sock4Addr.sockaddr, v.addr.size]

theorem bytes_buf6 (native : ByteOrder) (v : Sock6Addr) (old : Nat → UInt8) :
    (v.buf native old).bytes = encode native 2 afInet6 ++ encode .big 2 v.port.toNat ++ List.replicate 4 0 ++
      v.addr.s6_addr ++ encode native 4 v.scope.toNat := by
  have port : portBytes native v.port = encode .big 2 v.port.toNat := encode_hton native (by decide) _
  have flow : encode native 4 0 = List.replicate 4 0 := by cases native <;> rfl
  rw [Sock6Addr.buf, bytes_assign, Sock6Addr.sockaddr, port, flow]
  simp [Sock6Addr.sockaddr, v.addr.size]

theorem len_buf (native : ByteOrder) {v : SockAnyAddr} (constructed : v.Constructed) (old : Nat → UInt8) :
    2 ≤ (v.buf native old).len := by
  cases v with
  | sock4 v =>
    have size : (v.buf native old).len = 16 := by
      simp [Sock4Addr.buf, SockAddrBuf.assign, Sock4Addr.sockaddr, v.addr.size]
    rw [SockAnyAddr.buf, size]
    decide
  | sock6 v =>
    have size : (v.buf native old).len = 28 := by
      simp [Sock6Addr.buf, SockAddrBuf.assign, Sock6Addr.sockaddr, v.addr.size]
    rw [SockAnyAddr.buf, size]
    decide
  | sockU v =>
    obtain ⟨path, made⟩ := constructed v rfl
    have decoded := (SockUAddr.fromBufUnsafe_buf native made old).2
    by_contra none
    have short : (v.buf native old).len < sunPath := Nat.lt_of_not_le none
    rw [SockUAddr.fromBufUnsafe, if_pos short] at decoded
    cases decoded

/-- Nothing is sent of an empty message as far as `sendtoExact` can tell. -/
theorem sendtoExact_ok_iff (sockets : Sockets σ) (fd : Nat) (data : List UInt8) (addr : SockAddrBuf)
    (flags : SendFlags) (s : σ) : (sendtoExact sockets fd data addr flags s).1 = .ok () ↔
      data ≠ [] ∧ ∃ r, (sockets.sendto fd flags data addr.bytes s).1 = .ok r ∧ r.val = data.length := by
  rw [sendtoExact, FdImpl.sendto]
  cases asked : sockets.sendto fd flags data addr.bytes s with
  | mk reply after =>
    cases reply with
    | error errno =>
      refine iff_of_false ?_ ?_
      · by_cases blocks : errno = EAGAIN ∨ errno = EWOULDBLOCK
        · simp [fret, blocks]
        · simp [fret, blocks]
      · rintro ⟨_, r, impossible, _⟩
        cases impossible
    | ok r =>
      have bound := r.isLt
      by_cases none : r.val = 0
      · refine iff_of_false ?_ ?_
        · by_cases room : 0 < data.length
          · simp [fret, none, room]
          · simp [fret, none, room]
        · rintro ⟨some_data, _, same, whole⟩
          cases same
          exact some_data (List.eq_nil_of_length_eq_zero (whole.symm.trans none))
      · have some_data : data ≠ [] := List.ne_nil_of_length_pos (by omega)
        by_cases part : r.val < data.length
        · refine iff_of_false ?_ ?_
          · simp [fret, none, part]
          · rintro ⟨_, _, same, whole⟩
            cases same
            omega
        · refine iff_of_true ?_ ⟨some_data, r, rfl, by omega⟩
          simp [fret, none, part]

/-- Whose address a storage was given last: one that the kernel wrote, or a value. -/
inductive Peer where
  | kernel (name : Name)
  | value (v : SockAnyAddr)

/-- The bytes of an address as the manuals lay it out: the port in network order, an
abstract name behind a NUL, and a pathname with one byte for its terminator, of which
`fill` says nothing. -/
inductive Peer.Bytes (native : ByteOrder) : Peer → List UInt8 → Prop
  | kernel (name : Name) : Bytes native (.kernel name) name.val
  | sock4 (v : Sock4Addr) : Bytes native (.value (.sock4 v))
      (encode native 2 afInet ++ encode .big 2 v.port.toNat ++ v.addr.s4_addr ++ List.replicate 8 0)
  | sock6 (v : Sock6Addr) : Bytes native (.value (.sock6 v))
      (encode native 2 afInet6 ++ encode .big 2 v.port.toNat ++ List.replicate 4 0 ++ v.addr.s6_addr ++
        encode native 4 v.scope.toNat)
  | abstract {v : SockUAddr} (first : CharT) (name : List CharT) (made : SockUAddr.ofPath (first :: name) = .ok v)
      (sign : SockUAddr.IsAbstract (first :: name)) :
      Bytes native (.value (.sockU v)) (encode native 2 afUnix ++ 0 :: name)
  | pathname {v : SockUAddr} (path : List CharT) (made : SockUAddr.ofPath path = .ok v) (some_path : path ≠ [])
      (sign : ¬ SockUAddr.IsAbstract path) (terminator : UInt8) :
      Bytes native (.value (.sockU v)) (encode native 2 afUnix ++ path ++ [terminator])

/-- The values of the public constructors whose `buf()` stays in its arrays. -/
def Peer.Valid (v : SockAnyAddr) : Prop := ∀ path, v = .sockU path → path.Constructed ∧ path.InBounds

namespace Peer.Bytes

variable {native : ByteOrder} {v : SockAnyAddr} {bytes : List UInt8}

/-- `buf()` lays a value out so, whatever its storage held. -/
theorem of_buf (native : ByteOrder) (valid : Peer.Valid v) (old : Nat → UInt8) :
    Peer.Bytes native (.value v) (v.buf native old).bytes := by
  cases v with
  | sock4 v => exact bytes_buf4 native v old ▸ .sock4 v
  | sock6 v => exact bytes_buf6 native v old ▸ .sock6 v
  | sockU v =>
    obtain ⟨⟨path, made⟩, bounds⟩ := valid v rfl
    have some_path : path ≠ [] := by
      rintro rfl
      have inverted := bounds.copied.1
      rw [SockUAddr.copyRange, (SockUAddr.ofPath_ok made).1] at inverted
      exact absurd inverted (by decide)
    rw [SockAnyAddr.buf, SockUAddr.bytes_buf native made some_path, SockUAddr.unterminated]
    by_cases sign : SockUAddr.IsAbstract path
    · obtain ⟨first, name, rfl⟩ := List.exists_cons_of_ne_nil some_path
      rw [if_pos sign, if_pos sign, List.append_nil]
      exact .abstract first name made sign
    · rw [if_neg sign, if_neg sign]
      exact .pathname path made some_path sign _

/-- There is a storage of which `buf()` makes these bytes. -/
theorem exists_buf (laid : Peer.Bytes native (.value v) bytes) :
    v.Constructed ∧ ∃ old, (v.buf native old).bytes = bytes := by
  cases laid with
  | sock4 v => exact ⟨fun path other => SockAnyAddr.noConfusion other, fun _ => 0, bytes_buf4 native v _⟩
  | sock6 v => exact ⟨fun path other => SockAnyAddr.noConfusion other, fun _ => 0, bytes_buf6 native v _⟩
  | @abstract v first name made sign =>
    refine ⟨fun path same => ?_, fun _ => 0, ?_⟩
    · cases same
      exact ⟨_, made⟩
    · rw [SockAnyAddr.buf, SockUAddr.bytes_buf native made (List.cons_ne_nil _ _), SockUAddr.unterminated,
        if_pos sign, if_pos sign, List.append_nil]
      rfl
  | @pathname v path made some_path sign terminator =>
    refine ⟨fun path same => ?_, fun _ => terminator, ?_⟩
    · cases same
      exact ⟨_, made⟩
    · rw [SockAnyAddr.buf, SockUAddr.bytes_buf native made some_path, SockUAddr.unterminated, if_neg sign,
        if_neg sign]
      rfl

theorem decoded {buf : SockAddrBuf} (laid : Peer.Bytes native (.value v) buf.bytes) :
    SockAnyAddr.fromBuf native buf = .ok v := by
  obtain ⟨constructed, old, same⟩ := laid.exists_buf
  have present : 2 ≤ buf.len := by
    rw [← buf.bytes_length, ← same, SockAddrBuf.bytes_length]
    exact len_buf native constructed old
  rw [fromBuf_of_bytes native present same.symm]
  exact SockAnyAddr.fromBuf_buf native constructed old

end Peer.Bytes

/-- The kernel, the storages, and whose address each of them was given last. -/
structure Talk (σ : Type) where
  kernel : σ
  addrs : Nat → SockAddrBuf
  peers : Nat → Option Peer

inductive Call where
  /-- `addrs[k] = v.buf()`, out of storage that held `old`. -/
  | buf (k : Nat) (v : SockAnyAddr) (old : Nat → UInt8)
  | recvfrom (k fd width : Nat) (c : List UInt8) (flags : RecvFlags)
  | accept (k fd : Nat)
  | sendto (k fd width : Nat) (c : List UInt8) (flags : SendFlags)
  | sendtoExact (k fd : Nat) (data : List UInt8) (flags : SendFlags)
  | bind (k fd : Nat)
  | connect (k fd : Nat)

def Call.Valid : Call → Prop
  | .buf _ v _ => Peer.Valid v
  | _ => True

/-- An address comes with a message, where that is not empty. One that fails leaves the
address as it is, one that would block does not. -/
def sender (size : Nat) (peer : Option Peer) :
    Except Int ({ data : List UInt8 // data.length ≤ size } × Name) → Option Peer
  | .ok (data, name) => if data.val.length = 0 ∧ 0 < size then none else some (.kernel name)
  | .error errno => if errno = EAGAIN ∨ errno = EWOULDBLOCK then none else peer

def connected (peer : Option Peer) : Except Int (Nat × Name) → Option Peer
  | .ok (_, name) => some (.kernel name)
  | .error _ => peer

namespace Talk

variable (native : ByteOrder) (sockets : Sockets σ)

def step (call : Call) (talk : Talk σ) : Talk σ :=
  match call with
  | .buf k v old => { talk with
      addrs := Function.update talk.addrs k (v.buf native old)
      peers := Function.update talk.peers k (some (.value v)) }
  | .recvfrom k fd width c flags =>
    let result := Fd.recvfrom sockets fd width c (talk.addrs k) flags talk.kernel
    { kernel := result.2.2.2
      addrs := Function.update talk.addrs k result.2.2.1
      peers := Function.update talk.peers k
        (sender c.length (talk.peers k) (sockets.recvfrom fd flags c.length talk.kernel).1) }
  | .accept k fd =>
    let result := Fd.accept sockets fd (talk.addrs k) talk.kernel
    { kernel := result.2.2
      addrs := Function.update talk.addrs k result.2.1
      peers := Function.update talk.peers k (connected (talk.peers k) (sockets.accept fd talk.kernel).1) }
  | .sendto k fd width c flags =>
    { talk with kernel := (Fd.sendto sockets fd width c (talk.addrs k) flags talk.kernel).2 }
  | .sendtoExact k fd data flags =>
    { talk with kernel := (Fd.sendtoExact sockets fd data (talk.addrs k) flags talk.kernel).2 }
  | .bind k fd => { talk with kernel := (Fd.bind sockets fd (talk.addrs k) talk.kernel).2 }
  | .connect k fd => { talk with kernel := (Fd.connect sockets fd (talk.addrs k) talk.kernel).2 }

/-- Storages that hold anything, and no address that is known. -/
def start (s : σ) (addrs : Nat → SockAddrBuf) : Talk σ where
  kernel := s
  addrs := addrs
  peers := fun _ => none

abbrev Runs (s : σ) (addrs : Nat → SockAddrBuf) : Talk σ → Prop :=
  Reachable (· = start s addrs) (fun talk next => ∃ call : Call, call.Valid ∧ next = step native sockets call talk)

/-- A storage that was given an address has its bytes. -/
def Known (talk : Talk σ) : Prop := ∀ k peer, talk.peers k = some peer → peer.Bytes native (talk.addrs k).bytes

variable {native sockets}

theorem Known.update {talk : Talk σ} (known : Known native talk) (s : σ) (k : Nat) {addr : SockAddrBuf}
    {peer : Option Peer} (here : ∀ given, peer = some given → given.Bytes native addr.bytes) :
    Known native
      { kernel := s, addrs := Function.update talk.addrs k addr, peers := Function.update talk.peers k peer } := by
  intro i given found
  by_cases same : i = k
  · subst same
    simp only [Function.update_self] at found ⊢
    exact here given found
  · simp only [Function.update_of_ne same] at found ⊢
    exact known i given found

/-- A message: its address is the storage's, or the storage holds the address it held. -/
theorem recvfrom_known {talk : Talk σ} (known : Known native talk) (k fd width : Nat) (c : List UInt8)
    (flags : RecvFlags) (peer : Peer)
    (given : sender c.length (talk.peers k) (sockets.recvfrom fd flags c.length talk.kernel).1 = some peer) :
    peer.Bytes native (Fd.recvfrom sockets fd width c (talk.addrs k) flags talk.kernel).2.2.1.bytes := by
  rw [Fd.recvfrom, FdImpl.recvfrom]
  cases asked : sockets.recvfrom fd flags c.length talk.kernel with
  | mk reply s =>
    rw [asked] at given
    cases reply with
    | error errno =>
      simp only [sender] at given
      split at given
      · cases given
      · rename_i failed
        simp only [fret, if_neg failed, Except.map]
        exact known k peer given
    | ok message =>
      obtain ⟨data, address⟩ := message
      simp only [sender] at given
      split at given
      · cases given
      · rename_i some_data
        cases given
        simp only [fret, if_neg some_data, Except.map]
        rw [address.bytes_stored]
        exact .kernel address

theorem accept_known {talk : Talk σ} (known : Known native talk) (k fd : Nat) (peer : Peer)
    (given : connected (talk.peers k) (sockets.accept fd talk.kernel).1 = some peer) :
    peer.Bytes native (Fd.accept sockets fd (talk.addrs k) talk.kernel).2.1.bytes := by
  rw [Fd.accept, FdImpl.accept]
  cases asked : sockets.accept fd talk.kernel with
  | mk reply s =>
    rw [asked] at given
    cases reply with
    | error errno =>
      simp only [connected] at given ⊢
      by_cases blocks : errno = EAGAIN ∨ errno = EWOULDBLOCK
      · rw [if_pos blocks]
        exact known k peer given
      · rw [if_neg blocks]
        exact known k peer given
    | ok connection =>
      obtain ⟨accepted, address⟩ := connection
      cases given
      simp only
      rw [address.bytes_stored]
      exact .kernel address

theorem Known.step {talk : Talk σ} (known : Known native talk) {call : Call} (valid : call.Valid) :
    Known native (step native sockets call talk) := by
  cases call with
  | buf k v old =>
    refine known.update talk.kernel k fun peer given => ?_
    cases given
    exact .of_buf native valid old
  | recvfrom k fd width c flags => exact known.update _ k (recvfrom_known known k fd width c flags)
  | accept k fd => exact known.update _ k (accept_known known k fd)
  | sendto k fd width c flags => exact known
  | sendtoExact k fd data flags => exact known
  | bind k fd => exact known
  | connect k fd => exact known

theorem runs_known {s : σ} {addrs : Nat → SockAddrBuf} {talk : Talk σ} (runs : Runs native sockets s addrs talk) :
    Known native talk := by
  refine runs.invariant ?_ ?_
  · rintro talk rfl k peer given
    cases given
  · rintro talk next known ⟨call, valid, rfl⟩
    exact known.step valid

/-- The address of nobody: the internet decoders refuse it, and that of a local address
leaves its arrays. -/
structure Nobody (native : ByteOrder) (addr : SockAddrBuf) : Prop where
  len : addr.len = SockAddrBuf.maxLen
  refused : addr.fam native ≠ afUnix → ∃ what, SockAnyAddr.fromBuf native addr = .error (.invalidArgument what)
  outside : addr.fam native = afUnix → ∃ v, SockAnyAddr.fromBuf native addr = .ok (.sockU v) ∧ ¬ v.DecodedWithin addr

theorem nobody (native : ByteOrder) {addr : SockAddrBuf} (len : addr.len = SockAddrBuf.maxLen) :
    Nobody native addr := by
  refine ⟨len, fun other => ?_, fun unix => ?_⟩
  · have not4 : addr.len ≠ Sock4Addr.sockaddrLen := by rw [len]; decide
    have not6 : addr.len ≠ Sock6Addr.sockaddrLen := by rw [len]; decide
    rw [SockAnyAddr.fromBuf]
    by_cases inet : addr.fam native = afInet
    · exact ⟨_, by rw [if_pos inet, Sock4Addr.fromBufUnsafe, if_pos not4]; rfl⟩
    · by_cases inet6 : addr.fam native = afInet6
      · exact ⟨_, by rw [if_neg inet, if_pos inet6, Sock6Addr.fromBufUnsafe, if_pos not6]; rfl⟩
      · exact ⟨_, by rw [if_neg inet, if_neg inet6, if_neg other]⟩
  · have present : sunPath ≤ addr.len := by rw [len]; decide
    refine ⟨SockUAddr.ofPathUnsafe (SockUAddr.sunPathOf addr), ?_, fun within => ?_⟩
    · rw [SockAnyAddr.fromBuf_unix unix, SockUAddr.fromBuf, if_neg (fun other => other unix),
        SockUAddr.fromBufUnsafe, if_neg (Nat.not_lt.mpr present)]
      rfl
    · have short := (SockUAddr.decodedWithin_iff present (by rw [len]; decide)).mp within
      rw [len] at short
      rcases short with short | ⟨_, short⟩
      · exact absurd short (by decide)
      · exact absurd short (by decide)

/-- What the storages are good for, and what their calls say of a message. -/
structure Addressed (native : ByteOrder) (sockets : Sockets σ) (talk : Talk σ) : Prop where
  /-- The bytes that `sendto`, `bind` and `connect` hand over are those of the address given last. -/
  handed (k : Nat) (peer : Peer) : talk.peers k = some peer → peer.Bytes native (talk.addrs k).bytes
  /-- Storage that held another address before decodes as the value given last, -/
  decoded (k : Nat) (v : SockAnyAddr) : talk.peers k = some (.value v) →
    SockAnyAddr.fromBuf native (talk.addrs k) = .ok v
  /-- and as that of the kernel: as the value that has its bytes. -/
  reported (k : Nat) (name : Name) (v : SockAnyAddr) : talk.peers k = some (.kernel name) →
    Peer.Bytes native (.value v) name.val → SockAnyAddr.fromBuf native (talk.addrs k) = .ok v
  /-- A `recvfrom` that would block gives nothing, and the address is lost. -/
  blocked (k fd width : Nat) (c : List UInt8) (flags : RecvFlags) (errno : Int) :
    (sockets.recvfrom fd flags c.length talk.kernel).1 = .error errno → errno = EAGAIN ∨ errno = EWOULDBLOCK →
      let result := Fd.recvfrom sockets fd width c (talk.addrs k) flags talk.kernel
      result.1 = .ok 0 ∧ result.2.1 = c ∧ Nobody native result.2.2.1
  /-- An empty message is told as the end of the file. -/
  empty (k fd width : Nat) (c : List UInt8) (flags : RecvFlags)
    (message : { data : List UInt8 // data.length ≤ c.length }) (name : Name) :
    (sockets.recvfrom fd flags c.length talk.kernel).1 = .ok (message, name) → message.val = [] → 0 < c.length →
      (Fd.recvfrom sockets fd width c (talk.addrs k) flags talk.kernel).1 = .error (.eof "recvfrom")
  /-- `sendtoExact` returns for a message that is taken as a whole, and not empty. -/
  exact (k fd : Nat) (data : List UInt8) (flags : SendFlags) :
    (Fd.sendtoExact sockets fd data (talk.addrs k) flags talk.kernel).1 = .ok () ↔ data ≠ [] ∧
      ∃ r, (sockets.sendto fd flags data (talk.addrs k).bytes talk.kernel).1 = .ok r ∧ r.val = data.length

def sender4 : Sock4Addr where
  addr := ⟨[192, 0, 2, 7], rfl⟩
  port := 8080

def oneMessage : Sockets Nat where
  recvfrom _ _ size received :=
    if received = 0 then
      (.ok (⟨[104, 105].take size, List.length_take_le size [104, 105]⟩, ⟨sender4.sockaddr .little, by decide⟩), 1)
    else
      (.error EAGAIN, received)
  accept _ received := (.error EAGAIN, received)
  sendto _ _ data _ received := (.ok (Fin.last data.length), received)
  bind _ _ received := (.ok (), received)
  connect _ _ received := (.ok (), received)

end Talk

end Stdplus.Fd
