import Stdplus.Str.Contents

namespace Stdplus.Str

open Stdplus.Base Store

variable {l : Layout} {A σ : Type}

private theorem setDyn_all (store : Store) {ptr cap len : Nat} (address : ptr < 2 ^ 64)
    (room : cap < 2 ^ 64) (small : len < 2 ^ 63) :
    let made := setDynLen l len (setDyn l .cap cap (setDyn l .ptr ptr store))
    isDyn l made = true ∧ dynLen l made = len ∧ getDyn l .ptr made = ptr ∧ getDyn l .cap made = cap := by
  refine ⟨isDyn_setDynLen small _, dynLen_setDynLen small _, ?_, ?_⟩
  · rw [setDynLen, getDyn_setDyn_other (by decide), getDyn_setDyn_other (by decide), getDyn_setDyn,
      Nat.mod_eq_of_lt address]
  · rw [setDynLen, getDyn_setDyn_other (by decide), getDyn_setDyn, Nat.mod_eq_of_lt room]

private theorem allocate_write {heap later : Heap l A} {allocator : A} {n ptr : Nat}
    {grant : Option (Grant l)} (chars : List l.Char) (fits : chars.length ≤ n)
    (given : heap.allocate allocator n grant = some (ptr, later)) :
    heap ptr = none ∧ ptr < 2 ^ 64 ∧ (∀ p, p ≠ ptr → later p = heap p) ∧
      ∃ block : Block l A, later.write ptr 0 chars = (.ok (Function.update heap ptr (some block)) :
          Except (Stop σ) _) ∧
        block.owner = allocator ∧ block.chars.length = n ∧ block.chars.take chars.length = chars := by
  cases grant with
  | none => cases given
  | some grant =>
    rw [Heap.allocate] at given
    split at given
    · rename_i usable
      simp only [Option.some.injEq, Prod.mk.injEq] at given
      obtain ⟨rfl, rfl⟩ := given
      have length : ((List.range n).map grant.content).length = n := by simp
      refine ⟨by simpa using usable.1, usable.2, fun p away => Function.update_of_ne away _ _,
        { owner := allocator, chars := overwrite ((List.range n).map grant.content) 0 chars }, ?_, rfl, ?_, ?_⟩
      · simp only [Heap.write, Function.update_self, Function.update_idem, length, Nat.zero_add, if_pos fits]
      · rw [overwrite_length, length]
      · have written := take_overwrite ((List.range n).map grant.content) 0 chars (by rw [length]; omega)
        rwa [Nat.zero_add, List.take_zero, List.nil_append] at written
    · cases given

variable {here : Here l A} {chars more : List l.Char}

private theorem Inline.shorten (inline : Inline here.toStrBuf chars) {count : Nat} (less : count ≤ chars.length) :
    Becomes here { here with store := setInlLen l count here.store } (chars.take count) := by
  have length : (chars.take count).length = count := by rw [List.length_take, Nat.min_eq_left less]
  have fits := inline.fits
  have set := inlLen_setInlLen (by omega : count ≤ l.buf_len) here.store
  refine ⟨rfl, .inline ⟨set.2, set.1.trans length.symm, by omega, ?_⟩, ?_⟩
  · rw [length, inlChars_setInlLen (by omega), ← inlChars_take _ less, inline.front]
  · rw [inline.owns, Str.owns, set.2]
    exact Changed.refl _ _

private theorem Dynamic.shorten {block : Block l A} (dynamic : Dynamic here.heap here.toStrBuf chars block)
    {count : Nat} (less : count ≤ chars.length) :
    Becomes here { here with store := setDynLen l count here.store } (chars.take count) := by
  have length : (chars.take count).length = count := by rw [List.length_take, Nat.min_eq_left less]
  have bound := dynLen_lt (l := l) here.store
  rw [dynamic.len] at bound
  have small : count < 2 ^ 63 := by omega
  refine ⟨rfl, (.dynamic (show Dynamic _ _ _ block from ?_)), ?_⟩
  · exact {
      tagged := isDyn_setDynLen small _
      len := (dynLen_setDynLen small _).trans length.symm
      found := by rw [getDyn_ptr_setDynLen]; exact dynamic.found
      owner := dynamic.owner
      cap := by rw [getDyn_cap_setDynLen]; exact dynamic.cap
      large := dynamic.large
      front := by rw [length, ← dynamic.front, List.take_take, Nat.min_eq_left less] }
  · rw [dynamic.owns, Str.owns, if_pos (isDyn_setDynLen small _), getDyn_ptr_setDynLen]
    exact Changed.refl _ _

private theorem Dynamic.assigns {block : Block l A} (dynamic : Dynamic here.heap here.toStrBuf chars block)
    {assign : Bool} (raw : assign = false → isDyn l here.store = false) : assign = true := by
  by_contra constructs
  have untagged := raw (by simpa using constructs)
  rw [dynamic.tagged] at untagged
  cases untagged

namespace Here

variable [DecidableEq A]

/-- The operation succeeds, unless the allocator throws. -/
def Gives (here : Here l A) (outcome : Except (Stop (Here l A)) (Here l A)) (chars : List l.Char) : Prop :=
  (∃ next, outcome = .ok next ∧ Becomes here next chars) ∨ ∃ left, outcome = .error (.thrown left)

private theorem grown_eq {len : Nat} (small : len < 2 ^ 63) :
    (len + len >>> 1) % 2 ^ 64 = len + len / 2 ∧ len + len / 2 < 2 ^ 64 := by
  rw [Nat.shiftRight_one]
  omega

private theorem append_inline (inline : Inline here.toStrBuf chars)
    (small : chars.length + more.length < 2 ^ 63) (grant : Option (Grant l)) :
    Gives here (appendRange more grant here) (chars ++ more) := by
  have newlen : (inlLen l here.store + more.length) % 2 ^ 64 = chars.length + more.length := by
    rw [inline.len]
    omega
  have grown := grown_eq small
  simp only [appendRange, append, inline.untagged, Bool.false_eq_true, not_false_eq_true, if_true, newlen, grown.1]
  split
  · rename_i fits
    have set := inlLen_setInlLen fits here.store
    have front : inlChars l (setInlLen l (chars.length + more.length) here.store) 0 chars.length = chars := by
      rw [inlChars_setInlLen (by omega), inline.front]
    obtain ⟨next, filled, becomes⟩ := fill_inline (σ := Here l A)
      { here with store := setInlLen l (chars.length + more.length) here.store } chars more set.2 set.1 fits front
    refine .inl ⟨next, by rw [inline.len]; exact filled, becomes.after rfl ?_⟩
    rw [inline.owns, owns, set.2]
    exact Changed.refl _ _
  · rename_i long
    split
    · exact .inr ⟨here, rfl⟩
    · rename_i ptr later given
      obtain ⟨free, address, _, block, written, owner, length, front⟩ :=
        allocate_write (σ := Here l A) chars (by omega) given
      obtain ⟨tagged, len, place, cap⟩ := setDyn_all (l := l) here.store address grown.2 small
      let made : Here l A := { here with
        store := setDynLen l (chars.length + more.length)
          (setDyn l .cap (chars.length + more.length + (chars.length + more.length) / 2)
            (setDyn l .ptr ptr here.store))
        heap := Function.update here.heap ptr (some block) }
      obtain ⟨next, filled, becomes⟩ := fill_block (σ := Here l A) made chars more tagged len
        (by rw [place]; exact Function.update_self _ _ _) owner
        (by rw [cap, length]) (by omega) (by omega) front
      refine .inl ⟨next, ?_, becomes.after rfl ?_⟩
      · have fits : chars.length ≤ l.buf_len := inline.fits
        rw [show getDyn l .ptr made.store = ptr from place] at filled
        simp only [inline.len, readInl, if_pos fits, inline.front, bind, Except.bind, written]
        exact filled
      · rw [inline.owns, owns, if_pos tagged, place]
        exact Changed.alloc free block

private theorem append_dynamic {block : Block l A} (dynamic : Dynamic here.heap here.toStrBuf chars block)
    (small : chars.length + more.length < 2 ^ 63) (grant : Option (Grant l)) :
    Gives here (appendRange more grant here) (chars ++ more) := by
  have newlen : (dynLen l here.store + more.length) % 2 ^ 64 = chars.length + more.length := by
    rw [dynamic.len]
    omega
  have grown := grown_eq small
  have fits := dynamic.fits
  have large := dynamic.large
  have cap := dynamic.cap
  simp only [appendRange, append, dynamic.tagged, not_true_eq_false, if_false, newlen, grown.1]
  split
  · rename_i more_than
    split
    · exact .inr ⟨here, rfl⟩
    · rename_i ptr later given
      obtain ⟨free, address, kept, copy, written, owner, length, front⟩ :=
        allocate_write (σ := Here l A) chars (by omega) given
      obtain ⟨tagged, len, place, room⟩ := setDyn_all (l := l) here.store address grown.2 small
      have away : getDyn l .ptr here.store ≠ ptr := by
        intro same
        rw [← same, dynamic.found] at free
        cases free
      let made : Here l A := { here with
        store := setDynLen l (chars.length + more.length)
          (setDyn l .cap (chars.length + more.length + (chars.length + more.length) / 2)
            (setDyn l .ptr ptr here.store))
        heap := Function.update (Function.update here.heap ptr (some copy)) (getDyn l .ptr here.store) none }
      obtain ⟨next, filled, becomes⟩ := fill_block (σ := Here l A) made chars more tagged len
        (by rw [place]; exact (Function.update_of_ne away.symm _ _).trans (Function.update_self _ _ _))
        owner (by rw [room, length]) (by omega) (by omega) front
      refine .inl ⟨next, ?_, becomes.after rfl ?_⟩
      · rw [show getDyn l .ptr made.store = ptr from place] at filled
        have read : later.read (getDyn l .ptr here.store) chars.length =
            (.ok chars : Except (Stop (Here l A)) _) := by
          rw [Heap.read, kept _ away, dynamic.found]
          simp only [if_pos fits, dynamic.front]
        have freed : Heap.deallocate here.allocator (getDyn l .ptr here.store) (getDyn l .cap here.store)
            (Function.update here.heap ptr (some copy)) = (.ok made.heap : Except (Stop (Here l A)) _) := by
          rw [Heap.deallocate, Function.update_of_ne away, dynamic.found]
          simp only [dynamic.owner, cap, and_self, if_true]
          rfl
        simp only [dynamic.len, read, written, freed, bind, Except.bind]
        exact filled
      · rw [dynamic.owns, owns, if_pos tagged, place]
        exact Changed.replace free copy
  · rename_i enough
    let made : Here l A := { here with store := setDynLen l (chars.length + more.length) here.store }
    obtain ⟨next, filled, becomes⟩ := fill_block (σ := Here l A) made chars more
      (isDyn_setDynLen small _) (dynLen_setDynLen small _)
      (by rw [getDyn_ptr_setDynLen]; exact dynamic.found) dynamic.owner
      (by rw [getDyn_cap_setDynLen]; exact cap) large (by omega) dynamic.front
    refine .inl ⟨next, ?_, becomes.after rfl ?_⟩
    · rw [show getDyn l .ptr made.store = getDyn l .ptr here.store from getDyn_ptr_setDynLen _ _] at filled
      simp only [dynamic.len, bind, Except.bind]
      exact filled
    · rw [dynamic.owns, owns, if_pos (isDyn_setDynLen small _), getDyn_ptr_setDynLen]
      exact Changed.refl _ _

theorem appendRange_spec (holds : Holds here.heap here.toStrBuf chars)
    (small : chars.length + more.length < 2 ^ 63) (grant : Option (Grant l)) :
    Gives here (appendRange more grant here) (chars ++ more) := by
  cases holds with
  | inline inline => exact append_inline inline small grant
  | dynamic dynamic => exact append_dynamic dynamic small grant

theorem push_back_spec (holds : Holds here.heap here.toStrBuf chars) (small : chars.length + 1 < 2 ^ 63)
    (c : l.Char) (grant : Option (Grant l)) : Gives here (push_back c grant here) (chars ++ [c]) :=
  appendRange_spec holds (show chars.length + [c].length < 2 ^ 63 from small) grant

omit [DecidableEq A]

theorem shrink_spec (holds : Holds here.heap here.toStrBuf chars) {amt : Nat} (inside : amt ≤ chars.length) :
    Becomes here (here.shrink amt) (chars.take (chars.length - amt)) := by
  cases holds with
  | inline inline =>
    have fits : chars.length ≤ l.buf_len := inline.fits
    have bound := buf_len_lt l
    have less : (inlLen l here.store + 2 ^ 64 - amt) % 2 ^ 64 = chars.length - amt := by
      rw [inline.len]
      omega
    rw [shrink, inline.untagged, less]
    exact inline.shorten (Nat.sub_le _ _)
  | dynamic dynamic =>
    have bound := dynLen_lt (l := l) here.store
    have tagged := getDyn_len dynamic.tagged
    rw [dynamic.len] at bound tagged
    have less : (getDyn l .len here.store + 2 ^ 64 - amt) % 2 ^ 64 = 2 ^ 63 + (chars.length - amt) := by omega
    rw [shrink, if_pos dynamic.tagged, less, ← setDynLen_eq (by omega)]
    exact dynamic.shorten (Nat.sub_le _ _)

theorem clear_spec (holds : Holds here.heap here.toStrBuf chars) : Becomes here here.clear [] := by
  cases holds with
  | inline inline =>
    rw [clear, inline.untagged]
    exact inline.shorten (Nat.zero_le _)
  | dynamic dynamic =>
    rw [clear, if_pos dynamic.tagged]
    exact dynamic.shorten (Nat.zero_le _)

variable {other : StrBuf A} {block : Block l A}

theorem inlcopy_spec (holds : Holds here.heap here.toStrBuf chars) (inline : Inline other more)
    {assign : Bool} (raw : assign = false → isDyn l here.store = false) :
    ∃ next, inlcopy assign other here = (.ok next : Except (Stop σ) _) ∧ Becomes here next more := by
  have fits : more.length ≤ l.buf_len := inline.fits
  have read : readInl l more.length other.store = (.ok more : Except (Stop σ) _) := by
    rw [readInl, if_pos fits, inline.front]
  simp only [inlcopy, inline.len, read, bind, Except.bind]
  cases holds with
  | inline here_inline =>
    have set := inlLen_setInlLen fits here.store
    obtain ⟨next, filled, becomes⟩ := fill_inline (σ := σ)
      { here with store := setInlLen l more.length here.store } [] more set.2 (by simpa using set.1)
      (by simpa using fits) rfl
    refine ⟨next, ?_, becomes.after rfl ?_⟩
    · rw [here_inline.untagged]
      simpa [fill, bind, Except.bind] using filled
    · rw [here_inline.owns, owns, set.2]
      exact Changed.refl _ _
  | dynamic dynamic =>
    have assigns := dynamic.assigns raw
    have short := dynamic.large
    have bound := buf_len_lt l
    have small : more.length < 2 ^ 63 := by omega
    obtain ⟨next, filled, becomes⟩ := fill_block (σ := σ)
      { here with store := setDynLen l more.length here.store } [] more (isDyn_setDynLen small _)
      (by simpa using dynLen_setDynLen small here.store) (by rw [getDyn_ptr_setDynLen]; exact dynamic.found)
      dynamic.owner (by rw [getDyn_cap_setDynLen]; exact dynamic.cap) dynamic.large (by simp; omega) rfl
    refine ⟨next, ?_, becomes.after rfl ?_⟩
    · simpa [fill, bind, Except.bind, assigns, dynamic.tagged] using filled
    · rw [dynamic.owns, owns, if_pos (isDyn_setDynLen small _), getDyn_ptr_setDynLen]
      exact Changed.refl _ _

variable [DecidableEq A]

theorem deallocate_ok (here : Here l A) (dynamic : Dynamic here.heap here.toStrBuf chars block) :
    here.heap.deallocate here.allocator (getDyn l .ptr here.store) (getDyn l .cap here.store) =
      (.ok (Function.update here.heap (getDyn l .ptr here.store) none) : Except (Stop σ) _) := by
  rw [Heap.deallocate, dynamic.found]
  simp only [dynamic.owner, dynamic.cap, and_self, if_true]

theorem move_spec (here : Here l A) (holds : Holds here.heap here.toStrBuf chars)
    (holds' : Holds here.heap other more)
    (apart : ∀ p, owns l here.store = some p → owns l other.store ≠ some p)
    (same : here.allocator = other.allocator) {assign : Bool}
    (raw : assign = false → isDyn l here.store = false) :
    ∃ next, move assign other here =
        (.ok (next, { other with store := zeroInit l other.store }) : Except (Stop σ) _) ∧
      next.allocator = here.allocator ∧ Holds next.heap next.toStrBuf more ∧
      ((owns l other.store = none ∧ Changed here.heap next.heap (owns l here.store) (owns l next.store)) ∨
        (owns l next.store = owns l other.store ∧ Changed here.heap next.heap (owns l here.store) none)) := by
  cases holds' with
  | inline inline =>
    obtain ⟨next, copied, becomes⟩ := inlcopy_spec (σ := σ) holds inline raw
    refine ⟨next, ?_, becomes.allocator, becomes.holds, .inl ⟨inline.owns, becomes.changed⟩⟩
    simp only [move, inline.untagged, Bool.false_eq_true, not_false_eq_true, if_true, copied, bind, Except.bind]
  | dynamic dynamic' =>
    have taken (store : Store) : owns l (copyDyn l other.store store) = owns l other.store := by
      have tag : isDyn l (copyDyn l other.store store) = isDyn l other.store := by
        rw [Bool.eq_iff_iff, isDyn_iff, isDyn_iff, getDyn_copyDyn]
      rw [owns, owns, tag, getDyn_copyDyn]
    have moved (heap : Heap l A)
        (kept : heap (getDyn l .ptr other.store) = here.heap (getDyn l .ptr other.store)) :
        Dynamic heap { here.toStrBuf with store := copyDyn l other.store here.store } more _ := {
      tagged := by rw [isDyn_iff, getDyn_copyDyn, ← isDyn_iff]; exact dynamic'.tagged
      len := by rw [dynLen_eq, getDyn_copyDyn, ← dynLen_eq]; exact dynamic'.len
      found := by rw [getDyn_copyDyn, kept]; exact dynamic'.found
      owner := dynamic'.owner.trans same.symm
      cap := by rw [getDyn_copyDyn]; exact dynamic'.cap
      large := dynamic'.large
      front := dynamic'.front }
    cases holds with
    | inline inline =>
      refine ⟨{ here with store := copyDyn l other.store here.store }, ?_, rfl,
        .dynamic (moved here.heap rfl), .inr ⟨taken _, ?_⟩⟩
      · simp [move, dynamic'.tagged, inline.untagged, bind, Except.bind]
      · rw [inline.owns]
        exact Changed.refl _ _
    | dynamic dynamic =>
      have assigns := dynamic.assigns raw
      have away : getDyn l .ptr other.store ≠ getDyn l .ptr here.store := by
        intro equal
        exact apart _ dynamic.owns (by rw [dynamic'.owns, equal])
      have kept : (Function.update here.heap (getDyn l .ptr here.store) none) (getDyn l .ptr other.store) =
          here.heap (getDyn l .ptr other.store) := Function.update_of_ne away _ _
      have holds := Holds.dynamic (moved _ kept)
      refine ⟨{ here with
        store := copyDyn l other.store here.store
        heap := Function.update here.heap (getDyn l .ptr here.store) none }, ?_, rfl, holds,
        .inr ⟨taken _, ?_⟩⟩
      · simp only [move, dynamic'.tagged, dynamic.tagged, assigns, not_true_eq_false, if_false, and_self,
          if_true, deallocate_ok here dynamic, bind, Except.bind]
      · rw [dynamic.owns]
        exact Changed.dealloc _ _

omit [DecidableEq A] in
private theorem copyAnew_spec (dynamic : Dynamic here.heap other more block) (grant : Option (Grant l)) :
    (∃ next, copyAnew other grant here = .ok next ∧ next.allocator = here.allocator ∧
        Holds next.heap next.toStrBuf more ∧ Changed here.heap next.heap none (owns l next.store)) ∨
      ∃ left, copyAnew other grant here = .error (.thrown left) := by
  have bound := dynLen_lt (l := l) other.store
  rw [dynamic.len] at bound
  have fits := dynamic.fits
  simp only [copyAnew, dynamic.len]
  split
  · rename_i short
    left
    have read : here.heap.read (getDyn l .ptr other.store) more.length =
        (.ok more : Except (Stop (Here l A)) _) := by
      rw [Heap.read, dynamic.found]
      simp only [if_pos fits, dynamic.front]
    have inside : 0 + more.length ≤ l.buf_len := by omega
    have spec := putInlChars_spec more 0 here.store inside
    have set := inlLen_setInlLen short (putInlChars l 0 more here.store)
    let next : Here l A :=
      { here with store := setInlLen l more.length (putInlChars l 0 more here.store) }
    have inline : Inline next.toStrBuf more :=
      ⟨set.2, set.1, short, (inlChars_setInlLen inside _ _).trans spec.2.2⟩
    refine ⟨next, ?_, rfl, .inline inline, ?_⟩
    · simp only [read, writeInl, if_pos inside, bind, Except.bind]
      rfl
    · rw [inline.owns]
      exact Changed.refl _ _
  · rename_i long
    have room := getDyn_lt (l := l) .cap other.store
    have cap : getDyn l .cap (setDyn l .cap (getDyn l .cap other.store) here.store) = block.chars.length := by
      rw [getDyn_setDyn, Nat.mod_eq_of_lt room, dynamic.cap]
    split
    · exact .inr ⟨_, rfl⟩
    · rename_i ptr later given
      left
      rw [cap] at given
      obtain ⟨free, address, kept, copy, written, owner, length, front⟩ :=
        allocate_write (σ := Here l A) more fits given
      have away : getDyn l .ptr other.store ≠ ptr := by
        intro same
        rw [← same, dynamic.found] at free
        cases free
      have read : later.read (getDyn l .ptr other.store) more.length =
          (.ok more : Except (Stop (Here l A)) _) := by
        rw [Heap.read, kept _ away, dynamic.found]
        simp only [if_pos fits, dynamic.front]
      have tag : getDyn l .len other.store = 2 ^ 63 + more.length := by
        rw [getDyn_len dynamic.tagged, dynamic.len]
      let store := setDynLen l more.length
        (setDyn l .ptr ptr (setDyn l .cap (getDyn l .cap other.store) here.store))
      have place : getDyn l .ptr store = ptr := by
        simp only [store, setDynLen]
        rw [getDyn_setDyn_other (by decide), getDyn_setDyn, Nat.mod_eq_of_lt address]
      have same_cap : getDyn l .cap store = block.chars.length := by
        simp only [store, setDynLen]
        rw [getDyn_setDyn_other (by decide), getDyn_setDyn_other (by decide), cap]
      let next : Here l A := { here with store := store, heap := Function.update here.heap ptr (some copy) }
      have made : Dynamic next.heap next.toStrBuf more copy := {
        tagged := isDyn_setDynLen bound _
        len := dynLen_setDynLen bound _
        found := by rw [place]; exact Function.update_self _ _ _
        owner := owner
        cap := length.trans same_cap.symm
        large := by rw [length]; exact dynamic.large
        front := front }
      refine ⟨next, ?_, rfl, .dynamic made, ?_⟩
      · simp only [read, written, bind, Except.bind]
        rw [tag, ← setDynLen_eq bound]
      · rw [made.owns, place]
        exact Changed.alloc free copy

theorem copy_spec (here : Here l A) (holds : Holds here.heap here.toStrBuf chars)
    (holds' : Holds here.heap other more)
    (apart : ∀ p, owns l here.store = some p → owns l other.store ≠ some p) (assign : Bool)
    (raw : assign = false → isDyn l here.store = false) (grant : Option (Grant l)) :
    Gives here (copy assign other grant here) more := by
  cases holds' with
  | inline inline =>
    obtain ⟨next, copied, becomes⟩ := inlcopy_spec (σ := Here l A) holds inline raw
    refine .inl ⟨next, ?_, becomes⟩
    simp only [copy, inline.untagged, Bool.false_eq_true, not_false_eq_true, if_true, copied]
  | dynamic dynamic' =>
    cases holds with
    | inline inline =>
      rcases copyAnew_spec dynamic' grant with
        ⟨next, copied, allocator, held, changed⟩ | ⟨left, thrown⟩
      · refine .inl ⟨next, ?_, allocator, held, by rw [inline.owns]; exact changed⟩
        simpa [copy, dynamic'.tagged, inline.untagged] using copied
      · exact .inr ⟨left, by simpa [copy, dynamic'.tagged, inline.untagged] using thrown⟩
    | dynamic dynamic =>
      have assigns := dynamic.assigns raw
      have away : getDyn l .ptr other.store ≠ getDyn l .ptr here.store := by
        intro equal
        exact apart _ dynamic.owns (by rw [dynamic'.owns, equal])
      simp only [copy, dynamic'.tagged, dynamic.tagged, assigns, not_true_eq_false, if_false, and_self,
        if_true]
      have bound := dynLen_lt (l := l) other.store
      rw [dynamic'.len] at bound ⊢
      have fits := dynamic'.fits
      have cap := dynamic.cap
      have large := dynamic'.large
      split
      · rename_i enough
        have tag : getDyn l .len other.store = 2 ^ 63 + more.length := by
          rw [getDyn_len dynamic'.tagged, dynamic'.len]
        have read : here.heap.read (getDyn l .ptr other.store) more.length =
            (.ok more : Except (Stop (Here l A)) _) := by
          rw [Heap.read, dynamic'.found]
          simp only [if_pos fits, dynamic'.front]
        obtain ⟨next, filled, becomes⟩ := fill_block (σ := Here l A)
          { here with store := setDynLen l more.length here.store } [] more (isDyn_setDynLen bound _)
          (by simpa using dynLen_setDynLen bound here.store)
          (by rw [getDyn_ptr_setDynLen]; exact dynamic.found)
          dynamic.owner (by rw [getDyn_cap_setDynLen]; exact dynamic.cap) dynamic.large (by simp; omega) rfl
        refine .inl ⟨next, ?_, becomes.after rfl ?_⟩
        · rw [tag, ← setDynLen_eq bound]
          simpa [fill, bind, Except.bind, read] using filled
        · rw [dynamic.owns, owns, if_pos (isDyn_setDynLen bound _), getDyn_ptr_setDynLen]
          exact Changed.refl _ _
      · rename_i long
        have kept : (Function.update here.heap (getDyn l .ptr here.store) none) (getDyn l .ptr other.store) =
            here.heap (getDyn l .ptr other.store) := Function.update_of_ne away _ _
        let freed : Here l A :=
          { here with heap := Function.update here.heap (getDyn l .ptr here.store) none }
        have moved : Dynamic freed.heap other more _ := { dynamic' with found := kept.trans dynamic'.found }
        simp only [deallocate_ok here dynamic, bind, Except.bind]
        rcases copyAnew_spec moved grant with
          ⟨next, copied, allocator, held, changed⟩ | ⟨left, thrown⟩
        · refine .inl ⟨next, copied, allocator, held, ?_⟩
          rw [dynamic.owns]
          exact (Changed.dealloc _ _).trans changed
        · exact .inr ⟨left, thrown⟩

end Here

end Stdplus.Str
