import Stdplus.Str.Store

/-! `BasicStrBuf` over a heap of blocks: appending with its four ways from inline
or dynamic to inline or dynamic, and the copies and moves. -/

namespace Stdplus.Str

open Stdplus.Base

/-- An allocated block with the allocator instance it came from. -/
structure Block (l : Layout) (A : Type) where
  owner : A
  chars : List l.Char
deriving DecidableEq

abbrev Heap (l : Layout) (A : Type) := Nat → Option (Block l A)

/-- What the allocator has for the next request: an address and whatever is there. -/
structure Grant (l : Layout) where
  address : Nat
  content : Nat → l.Char

/-- An access outside of an object or a wrong deallocation, or an exception with
the state it leaves behind. -/
inductive Stop (σ : Type) where
  | bad
  | thrown (left : σ)

/-- What `std::allocator_traits` says of an allocator. -/
structure Traits (A : Type) where
  propagate_on_container_move_assignment : Bool
  select_on_container_copy_construction : A → A

structure StrBuf (A : Type) where
  allocator : A
  store : Store

structure Here (l : Layout) (A : Type) extends StrBuf A where
  heap : Heap l A

/-- A `CharT*` into the inline characters or into a block. -/
inductive Ptr where
  | inl (index : Nat)
  | block (address index : Nat)

variable {l : Layout} {A σ : Type}

namespace Store

def inlChars (l : Layout) (store : Store) (index count : Nat) : List l.Char :=
  (List.range' index count).map (getInlChar l · store)

def putInlChars (l : Layout) (index : Nat) : List l.Char → Store → Store
  | [], store => store
  | char :: chars, store => putInlChars l (index + 1) chars (setInlChar l index char store)

/-- Reading through `inl.ptr`. -/
def readInl (l : Layout) (count : Nat) (store : Store) : Except (Stop σ) (List l.Char) :=
  if count ≤ l.buf_len then .ok (inlChars l store 0 count) else .error .bad

def writeInl (l : Layout) (index : Nat) (chars : List l.Char) (store : Store) :
    Except (Stop σ) Store :=
  if index + chars.length ≤ l.buf_len then .ok (putInlChars l index chars store) else .error .bad

end Store

namespace Heap

/-- A block of `n` characters; `none` when the allocator throws. -/
def allocate (allocator : A) (n : Nat) (grant : Option (Grant l)) (heap : Heap l A) :
    Option (Nat × Heap l A) :=
  match grant with
  | none => none
  | some grant =>
    if (heap grant.address).isNone ∧ grant.address < 2 ^ 64 then
      some (grant.address, Function.update heap grant.address
        (some { owner := allocator, chars := (List.range n).map grant.content }))
    else
      none

variable [DecidableEq A]

def deallocate (allocator : A) (ptr n : Nat) (heap : Heap l A) : Except (Stop σ) (Heap l A) :=
  match heap ptr with
  | none => .error .bad
  | some block =>
    if block.owner = allocator ∧ block.chars.length = n then
      .ok (Function.update heap ptr none)
    else
      .error .bad

omit [DecidableEq A]

def read (ptr count : Nat) (heap : Heap l A) : Except (Stop σ) (List l.Char) :=
  match heap ptr with
  | none => .error .bad
  | some block => if count ≤ block.chars.length then .ok (block.chars.take count) else .error .bad

def write (ptr index : Nat) (chars : List l.Char) (heap : Heap l A) : Except (Stop σ) (Heap l A) :=
  match heap ptr with
  | none => .error .bad
  | some block =>
    if index + chars.length ≤ block.chars.length then
      .ok (Function.update heap ptr (some { block with chars := overwrite block.chars index chars }))
    else
      .error .bad

end Heap

namespace Here

open Store

/-- Filling the characters `append` makes room for. -/
def fill (ptr : Ptr) (chars : List l.Char) (here : Here l A) : Except (Stop σ) (Here l A) :=
  match ptr with
  | .inl index => do
    let store ← writeInl l index chars here.store
    .ok { here with store := store }
  | .block address index => do
    let heap ← here.heap.write address index chars
    .ok { here with heap := heap }

def size (buf : StrBuf A) : Nat :=
  if isDyn l buf.store then dynLen l buf.store else inlLen l buf.store

/-- The characters in `[begin(), end())`. -/
def view (here : Here l A) : Except (Stop σ) (List l.Char) :=
  if isDyn l here.store then
    here.heap.read (getDyn l .ptr here.store) (size (l := l) here.toStrBuf)
  else
    readInl l (size (l := l) here.toStrBuf) here.store

variable [DecidableEq A]

def append (amt : Nat) (grant : Option (Grant l)) (here : Here l A) :
    Except (Stop (Here l A)) (Here l A × Ptr) :=
  if ¬ isDyn l here.store then
    let oldlen := inlLen l here.store
    let newlen := (oldlen + amt) % 2 ^ 64
    if newlen ≤ l.buf_len then
      .ok ({ here with store := setInlLen l newlen here.store }, .inl oldlen)
    else
      let newcap := (newlen + newlen >>> 1) % 2 ^ 64
      match here.heap.allocate here.allocator newcap grant with
      | none => .error (.thrown here)
      | some (ptr, heap) => do
        let chars ← readInl l oldlen here.store
        let heap ← heap.write ptr 0 chars
        let store := setDynLen l newlen (setDyn l .cap newcap (setDyn l .ptr ptr here.store))
        .ok ({ here with store := store, heap := heap }, .block ptr oldlen)
  else
    let oldlen := dynLen l here.store
    let newlen := (oldlen + amt) % 2 ^ 64
    if newlen > getDyn l .cap here.store then
      let newcap := (newlen + newlen >>> 1) % 2 ^ 64
      match here.heap.allocate here.allocator newcap grant with
      | none => .error (.thrown here)
      | some (ptr, heap) => do
        let chars ← heap.read (getDyn l .ptr here.store) oldlen
        let heap ← heap.write ptr 0 chars
        let heap ← heap.deallocate here.allocator (getDyn l .ptr here.store) (getDyn l .cap here.store)
        let store := setDynLen l newlen (setDyn l .cap newcap (setDyn l .ptr ptr here.store))
        .ok ({ here with store := store, heap := heap }, .block ptr oldlen)
    else
      .ok ({ here with store := setDynLen l newlen here.store }, .block (getDyn l .ptr here.store) oldlen)

/-- `append(begin, end)`, also what `append(n)` with its filling comes to. -/
def appendRange (chars : List l.Char) (grant : Option (Grant l)) (here : Here l A) :
    Except (Stop (Here l A)) (Here l A) := do
  let (here, ptr) ← here.append chars.length grant
  here.fill ptr chars

def push_back (c : l.Char) (grant : Option (Grant l)) (here : Here l A) :
    Except (Stop (Here l A)) (Here l A) := do
  let (here, ptr) ← here.append 1 grant
  here.fill ptr [c]

def shrink (amt : Nat) (here : Here l A) : Here l A :=
  if isDyn l here.store then
    { here with store := setDyn l .len ((getDyn l .len here.store + 2 ^ 64 - amt) % 2 ^ 64) here.store }
  else
    { here with store := setInlLen l ((inlLen l here.store + 2 ^ 64 - amt) % 2 ^ 64) here.store }

def clear (here : Here l A) : Here l A :=
  if isDyn l here.store then
    { here with store := setDynLen l 0 here.store }
  else
    { here with store := setInlLen l 0 here.store }

def inlcopy (assign : Bool) (other : StrBuf A) (here : Here l A) : Except (Stop σ) (Here l A) := do
  let olen := inlLen l other.store
  let chars ← readInl l olen other.store
  if assign ∧ isDyn l here.store then
    let store := setDynLen l olen here.store
    let heap ← here.heap.write (getDyn l .ptr store) 0 chars
    .ok { here with store := store, heap := heap }
  else
    let store ← writeInl l 0 chars (setInlLen l (inlLen l other.store) here.store)
    .ok { here with store := store }

def move (assign : Bool) (other : StrBuf A) (here : Here l A) : Except (Stop σ) (Here l A × StrBuf A) :=
  if ¬ isDyn l other.store then do
    let here ← here.inlcopy assign other
    .ok (here, { other with store := zeroInit l other.store })
  else do
    let heap ←
      if assign ∧ isDyn l here.store then
        here.heap.deallocate here.allocator (getDyn l .ptr here.store) (getDyn l .cap here.store)
      else
        .ok here.heap
    .ok ({ here with store := copyDyn l other.store here.store, heap := heap },
      { other with store := zeroInit l other.store })

/-- What `copy` does where there is no block to copy into. -/
def copyAnew (other : StrBuf A) (grant : Option (Grant l)) (here : Here l A) :
    Except (Stop (Here l A)) (Here l A) :=
  let optr := getDyn l .ptr other.store
  let olen := dynLen l other.store
  if olen ≤ l.buf_len then do
    let chars ← here.heap.read optr olen
    let store ← writeInl l 0 chars here.store
    .ok { here with store := setInlLen l olen store }
  else
    let store := setDyn l .cap (getDyn l .cap other.store) here.store
    match here.heap.allocate here.allocator (getDyn l .cap store) grant with
    | none => .error (.thrown { here with store := store })
    | some (ptr, heap) => do
      let store := setDyn l .len (getDyn l .len other.store) (setDyn l .ptr ptr store)
      let chars ← heap.read optr olen
      let heap ← heap.write ptr 0 chars
      .ok { here with store := store, heap := heap }

def copy (assign : Bool) (other : StrBuf A) (grant : Option (Grant l)) (here : Here l A) :
    Except (Stop (Here l A)) (Here l A) :=
  if ¬ isDyn l other.store then
    here.inlcopy assign other
  else if assign ∧ isDyn l here.store then
    let olen := dynLen l other.store
    if olen ≤ getDyn l .cap here.store then do
      let store := setDyn l .len (getDyn l .len other.store) here.store
      let chars ← here.heap.read (getDyn l .ptr other.store) olen
      let heap ← here.heap.write (getDyn l .ptr store) 0 chars
      .ok { here with store := store, heap := heap }
    else do
      let heap ← here.heap.deallocate here.allocator (getDyn l .ptr here.store) (getDyn l .cap here.store)
      ({ here with heap := heap } : Here l A).copyAnew other grant
  else
    here.copyAnew other grant

/-- `~BasicStrBuf`. -/
def destroy (here : Here l A) : Except (Stop σ) (Heap l A) :=
  if isDyn l here.store then
    here.heap.deallocate here.allocator (getDyn l .ptr here.store) (getDyn l .cap here.store)
  else
    .ok here.heap

end Here

/-- The constructors start with an empty inline buffer in raw storage. -/
def StrBuf.init (l : Layout) (a : A) (raw : Store) : StrBuf A := { allocator := a, store := Store.zeroInit l raw }

end Stdplus.Str
