import Stdplus.Str.Buf

namespace Stdplus.Str

open Stdplus.Base

variable {l : Layout} {A σ : Type}

namespace Store

@[simp] theorem inlChars_length (store : Store) (index count : Nat) :
    (inlChars l store index count).length = count := by simp [inlChars]

theorem inlChars_append (store : Store) (index first second : Nat) :
    inlChars l store index (first + second) =
      inlChars l store index first ++ inlChars l store (index + first) second := by
  rw [inlChars, ← List.range'_append, Nat.one_mul, List.map_append, inlChars, inlChars]

theorem inlChars_succ (store : Store) (index count : Nat) :
    inlChars l store index (count + 1) = getInlChar l index store :: inlChars l store (index + 1) count := by
  rw [inlChars, List.range'_succ, List.map_cons, inlChars]

theorem inlChars_take (store : Store) {index count fewer : Nat} (less : fewer ≤ count) :
    (inlChars l store index count).take fewer = inlChars l store index fewer := by
  rw [← Nat.add_sub_of_le less, inlChars_append]
  exact List.take_left' (inlChars_length store index fewer)

theorem inlChars_setInlLen {index count : Nat} (inside : index + count ≤ l.buf_len) (len : Nat)
    (store : Store) : inlChars l (setInlLen l len store) index count = inlChars l store index count := by
  refine List.map_congr_left fun k member => ?_
  rw [List.mem_range'_1] at member
  exact getInlChar_setInlLen (by omega) len store

theorem putInlChars_spec (chars : List l.Char) (index : Nat) (store : Store)
    (inside : index + chars.length ≤ l.buf_len) :
    inlLen l (putInlChars l index chars store) = inlLen l store ∧
      (∀ other, other < index → getInlChar l other (putInlChars l index chars store) =
        getInlChar l other store) ∧
      inlChars l (putInlChars l index chars store) index chars.length = chars := by
  induction chars generalizing index store with
  | nil => exact ⟨rfl, fun _ _ => rfl, rfl⟩
  | cons char chars ih =>
    rw [List.length_cons] at inside
    obtain ⟨len, before, written⟩ := ih (index + 1) (setInlChar l index char store) (by omega)
    rw [putInlChars]
    refine ⟨?_, ?_, ?_⟩
    · rw [len, inlLen_setInlChar (by omega)]
    · intro other less
      rw [before other (by omega), getInlChar_setInlChar_other (by omega)]
    · rw [List.length_cons, inlChars_succ, written, before index (Nat.lt_succ_self _), getInlChar_setInlChar]

theorem isDyn_eq_of_inlLen {store other : Store} (same : inlLen l store = inlLen l other) :
    isDyn l store = isDyn l other := by rw [isDyn, isDyn, same]

theorem inlChars_putInlChars_before {chars : List l.Char} {index : Nat} {store : Store}
    (inside : index + chars.length ≤ l.buf_len) :
    inlChars l (putInlChars l index chars store) 0 index = inlChars l store 0 index := by
  refine List.map_congr_left fun k member => ?_
  rw [List.mem_range'_1] at member
  exact (putInlChars_spec chars index store inside).2.1 k (by omega)

end Store

open Store

/-- The block a buffer has to free. -/
def owns (l : Layout) (store : Store) : Option Nat :=
  if isDyn l store then some (getDyn l .ptr store) else none

/-- A dynamic buffer with its block and the characters in it. -/
structure Dynamic (heap : Heap l A) (buf : StrBuf A) (chars : List l.Char) (block : Block l A) : Prop where
  tagged : isDyn l buf.store = true
  len : dynLen l buf.store = chars.length
  found : heap (getDyn l .ptr buf.store) = some block
  owner : block.owner = buf.allocator
  cap : block.chars.length = getDyn l .cap buf.store
  large : l.buf_len < block.chars.length
  front : block.chars.take chars.length = chars

structure Inline (buf : StrBuf A) (chars : List l.Char) : Prop where
  untagged : isDyn l buf.store = false
  len : inlLen l buf.store = chars.length
  fits : chars.length ≤ l.buf_len
  front : inlChars l buf.store 0 chars.length = chars

/-- The buffer holds exactly these characters. -/
inductive Holds (heap : Heap l A) (buf : StrBuf A) (chars : List l.Char) : Prop where
  | inline : Inline buf chars → Holds heap buf chars
  | dynamic {block : Block l A} : Dynamic heap buf chars block → Holds heap buf chars

theorem Dynamic.fits {heap : Heap l A} {buf : StrBuf A} {chars : List l.Char} {block : Block l A}
    (dynamic : Dynamic heap buf chars block) : chars.length ≤ block.chars.length := by
  have length := congrArg List.length dynamic.front
  rw [List.length_take] at length
  omega

theorem Dynamic.owns {heap : Heap l A} {buf : StrBuf A} {chars : List l.Char} {block : Block l A}
    (dynamic : Dynamic heap buf chars block) : owns l buf.store = some (getDyn l .ptr buf.store) := by
  rw [Str.owns, if_pos dynamic.tagged]

theorem Inline.owns {buf : StrBuf A} {chars : List l.Char} (inline : Inline buf chars) :
    owns l buf.store = none := by
  rw [Str.owns, inline.untagged]
  rfl

theorem Holds.view (here : Here l A) {chars : List l.Char} (holds : Holds here.heap here.toStrBuf chars) :
    Here.size (l := l) here.toStrBuf = chars.length ∧ here.view = (.ok chars : Except (Stop σ) _) := by
  cases holds with
  | inline inline =>
    have size : Here.size (l := l) here.toStrBuf = chars.length := by
      rw [Here.size, inline.untagged]
      exact inline.len
    refine ⟨size, ?_⟩
    rw [Here.view, inline.untagged, size]
    simp [readInl, inline.fits, inline.front]
  | dynamic dynamic =>
    have size : Here.size (l := l) here.toStrBuf = chars.length := by
      rw [Here.size, if_pos dynamic.tagged]
      exact dynamic.len
    refine ⟨size, ?_⟩
    rw [Here.view, if_pos dynamic.tagged, size, Heap.read, dynamic.found]
    simp [dynamic.fits, dynamic.front]

theorem Holds.frame {heap later : Heap l A} {buf : StrBuf A} {chars : List l.Char}
    (holds : Holds heap buf chars) (same : ∀ p, owns l buf.store = some p → later p = heap p) :
    Holds later buf chars := by
  cases holds with
  | inline inline => exact .inline inline
  | dynamic dynamic =>
    exact .dynamic { dynamic with found := (same _ dynamic.owns).trans dynamic.found }

/-- An operation that takes the heap from `heap` to `later` and its buffer from
owning `before` to owning `after` touches no other block. -/
structure Changed (heap later : Heap l A) (before after : Option Nat) : Prop where
  other : ∀ p, before ≠ some p → after ≠ some p → later p = heap p
  fresh : ∀ p, after = some p → before ≠ some p → heap p = none
  freed : ∀ p, before = some p → after ≠ some p → later p = none

theorem Changed.refl (heap : Heap l A) (block : Option Nat) : Changed heap heap block block :=
  ⟨fun _ _ _ => rfl, fun _ same other => absurd same other, fun _ same other => absurd same other⟩

theorem Changed.trans {heap middle later : Heap l A} {before between after : Option Nat}
    (first : Changed heap middle before between) (second : Changed middle later between after) :
    Changed heap later before after where
  other p not_before not_after := by
    by_cases inside : between = some p
    · rw [first.fresh p inside not_before, second.freed p inside not_after]
    · rw [second.other p inside not_after, first.other p not_before inside]
  fresh p same not_before := by
    by_cases inside : between = some p
    · exact first.fresh p inside not_before
    · rw [← first.other p not_before inside]
      exact second.fresh p same inside
  freed p same not_after := by
    by_cases inside : between = some p
    · exact second.freed p inside not_after
    · rw [second.other p inside not_after]
      exact first.freed p same inside

theorem Changed.alloc {heap : Heap l A} {ptr : Nat} (free : heap ptr = none) (block : Block l A) :
    Changed heap (Function.update heap ptr (some block)) none (some ptr) where
  other p _ not_after := Function.update_of_ne (fun same => not_after (congrArg some same.symm)) _ _
  fresh p same _ := by
    cases same
    exact free
  freed p same _ := by cases same

theorem Changed.dealloc (heap : Heap l A) (ptr : Nat) :
    Changed heap (Function.update heap ptr none) (some ptr) none where
  other p not_before _ := Function.update_of_ne (fun same => not_before (congrArg some same.symm)) _ _
  fresh p same _ := by cases same
  freed p same _ := by
    cases same
    exact Function.update_self _ _ _

theorem Changed.replace {heap : Heap l A} {old ptr : Nat} (free : heap ptr = none)
    (block : Block l A) :
    Changed heap (Function.update (Function.update heap ptr (some block)) old none) (some old) (some ptr) where
  other p not_before not_after := by
    rw [Function.update_of_ne (fun same => not_before (congrArg some same.symm)),
      Function.update_of_ne (fun same => not_after (congrArg some same.symm))]
  fresh p same _ := by
    cases same
    exact free
  freed p same _ := by
    cases same
    exact Function.update_self _ _ _

theorem Changed.update (heap : Heap l A) (ptr : Nat) (block : Block l A) :
    Changed heap (Function.update heap ptr (some block)) (some ptr) (some ptr) := by
  refine ⟨fun p before _ => ?_, fun _ same other => absurd same other, fun _ same other => absurd same other⟩
  exact Function.update_of_ne (fun same => before (congrArg some same.symm)) _ _

/-- The buffer now holds these characters, at no other buffer's expense. -/
structure Becomes (here next : Here l A) (chars : List l.Char) : Prop where
  allocator : next.allocator = here.allocator
  holds : Holds next.heap next.toStrBuf chars
  changed : Changed here.heap next.heap (owns l here.store) (owns l next.store)

theorem Becomes.after {here between next : Here l A} {chars : List l.Char}
    (becomes : Becomes between next chars) (allocator : between.allocator = here.allocator)
    (changed : Changed here.heap between.heap (owns l here.store) (owns l between.store)) :
    Becomes here next chars :=
  ⟨becomes.allocator.trans allocator, becomes.holds, changed.trans becomes.changed⟩

namespace Here

theorem fill_inline (here : Here l A) (chars more : List l.Char) (untagged : isDyn l here.store = false)
    (len : inlLen l here.store = chars.length + more.length)
    (fits : chars.length + more.length ≤ l.buf_len) (front : inlChars l here.store 0 chars.length = chars) :
    ∃ next, here.fill (.inl chars.length) more = (.ok next : Except (Stop σ) _) ∧
      Becomes here next (chars ++ more) := by
  have spec := putInlChars_spec more chars.length here.store fits
  have inline : Inline ({ here with store := putInlChars l chars.length more here.store } : Here l A).toStrBuf
      (chars ++ more) := {
    untagged := (isDyn_eq_of_inlLen spec.1).trans untagged
    len := by rw [List.length_append, ← len]; exact spec.1
    fits := by rw [List.length_append]; exact fits
    front := by
      rw [List.length_append, inlChars_append, Nat.zero_add]
      exact congrArg₂ _ ((inlChars_putInlChars_before fits).trans front) spec.2.2 }
  refine ⟨{ here with store := putInlChars l chars.length more here.store },
    by simp only [fill, writeInl, if_pos fits, bind, Except.bind], rfl, .inline inline, ?_⟩
  have none_owned : owns l here.store = none := by
    rw [owns, untagged]
    rfl
  rw [inline.owns, none_owned]
  exact Changed.refl _ _

theorem fill_block (here : Here l A) (chars more : List l.Char) {block : Block l A}
    (tagged : isDyn l here.store = true) (len : dynLen l here.store = chars.length + more.length)
    (found : here.heap (getDyn l .ptr here.store) = some block) (owner : block.owner = here.allocator)
    (cap : block.chars.length = getDyn l .cap here.store) (large : l.buf_len < block.chars.length)
    (fits : chars.length + more.length ≤ block.chars.length)
    (front : block.chars.take chars.length = chars) :
    ∃ next, here.fill (.block (getDyn l .ptr here.store) chars.length) more = (.ok next : Except (Stop σ) _) ∧
      Becomes here next (chars ++ more) := by
  let filled : Block l A := { block with chars := overwrite block.chars chars.length more }
  refine ⟨{ here with heap := Function.update here.heap (getDyn l .ptr here.store) (some filled) }, ?_,
    rfl, .dynamic (show Dynamic _ _ _ filled from ?_), ?_⟩
  · simp only [fill, Heap.write, found, if_pos fits, bind, Except.bind]
    rfl
  · exact {
      tagged := tagged
      len := by rw [List.length_append]; exact len
      found := Function.update_self _ _ _
      owner := owner
      cap := by rw [overwrite_length]; exact cap
      large := by rw [overwrite_length]; exact large
      front := by rw [List.length_append, take_overwrite _ _ _ fits, front] }
  · rw [owns, if_pos tagged]
    exact Changed.update _ _ _

end Here

end Stdplus.Str
