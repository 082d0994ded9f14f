import Stdplus.Net.Addr.In6Forward

/-! What the IPv6 parser accepts: behind a gap the backward loop reads groups into
the end of the address. Together the loops accept the grammar, and besides it
texts with a lone colon at an end. -/

namespace Stdplus.Net

open Stdplus.Base Stdplus.Numeric

namespace In6Addr

theorem backward_nil (native : ByteOrder) (i : Nat) (j : Fin 8) (ret : In6Addr) :
    fromStrBackward native i j [] ret = .ok ([], ret) := by
  rw [fromStrBackward, dif_neg (by simp)]

theorem backward_stop (native : ByteOrder) {i : Nat} {j : Fin 8} (stop : j.val ≤ i) (sv : List CharT)
    (ret : In6Addr) : fromStrBackward native i j sv ret = .ok (sv, ret) := by
  rw [fromStrBackward, dif_neg]
  rintro ⟨_, more⟩
  omega

theorem backward_last (native : ByteOrder) {i : Nat} {j : Fin 8} (more : i < j.val) (group : Group)
    (ret : In6Addr) :
    fromStrBackward native i j group.text ret =
      .ok ([], ret.setHextet native j (hton native 2 group.value)) := by
  have filled : ¬ group.text.isEmpty = true := by simpa using group.text_ne_nil
  rw [fromStrBackward, dif_pos ⟨filled, more⟩]
  simp only [rfind_eq_none.mpr group.colon_not_mem, lastPart, initPart, group.parsed, bind, Except.bind,
    backward_nil]

theorem backward_more (native : ByteOrder) {i : Nat} {j : Fin 8} (more : i < j.val) (group : Group)
    (front : List CharT) (ret : In6Addr) :
    fromStrBackward native i j (front ++ ch ':' :: group.text) ret =
      fromStrBackward native i ⟨j.val - 1, by omega⟩ front
        (ret.setHextet native j (hton native 2 group.value)) := by
  rw [fromStrBackward, dif_pos ⟨by simp, more⟩]
  simp only [rfind_append front group.colon_not_mem, lastPart, initPart, take_at_sep, drop_after_sep,
    group.parsed, bind, Except.bind]

private theorem backward_turn {native : ByteOrder} {i : Nat} {j : Fin 8} {sv : List CharT}
    {ret : In6Addr} {outcome : List CharT × In6Addr} (some_text : sv ≠ []) (more : i < j.val)
    (accepted : fromStrBackward native i j sv ret = .ok outcome) :
    (∃ group : Group, group.text = sv) ∨
      ∃ group : Group, ∃ front, front ++ ch ':' :: group.text = sv := by
  rw [fromStrBackward, dif_pos ⟨by simpa using some_text, more⟩] at accepted
  cases parsed : strToIntUnsigned (some hexadecimal) 16 (lastPart (rfind (ch ':') sv) sv) with
  | error fault => simp [parsed, bind, Except.bind] at accepted
  | ok n =>
    obtain ⟨group, same, _⟩ := (Group.parsed_iff _ n).mp parsed
    rcases rfind_cases (ch ':') sv with ⟨missing, _⟩ | ⟨front, rest, split, _, found⟩
    · exact .inl ⟨group, by rw [same, missing, lastPart]⟩
    · refine .inr ⟨group, front, ?_⟩
      rw [same, found, lastPart, split, drop_after_sep]

/-- The backward loop consumes exactly the texts of groups that leave a hextet
of zeros behind `front`. -/
theorem backward_ok_iff (native : ByteOrder) {i : Nat} {j : Fin 8} {sv : List CharT} {ret addr : In6Addr}
    {front back : List UInt8} (start : sv.head? ≠ some (ch ':')) (within : i ≤ j.val)
    (held : ret.Holds front back) (place : front.length = 2 * i)
    (tail_place : back.length = 2 * (7 - j.val)) :
    fromStrBackward native i j sv ret = .ok ([], addr) ↔
      ∃ groups : List Group, joined (ch ':') (groups.map Group.text) = sv ∧
        i + groups.length ≤ j.val ∧ addr.Holds front (groups.flatMap Group.bytes ++ back) := by
  induction turns : j.val - i generalizing j sv ret back with
  | zero =>
    rw [backward_stop native (by omega)]
    constructor
    · intro accepted
      cases accepted
      exact ⟨[], by simp, by simpa using within, by simpa using held⟩
    · rintro ⟨groups, rfl, room, holds⟩
      obtain rfl : groups = [] := List.eq_nil_of_length_eq_zero (by omega)
      rw [held.unique holds]
      simp
  | succ turns ih =>
    have more : i < j.val := by omega
    have step (group : Group) := held.setHextet_back native j tail_place (by omega) group.value
    have moved (group : Group) : (encode .big 2 group.value ++ back).length = 2 * (7 - (j.val - 1)) := by
      rw [List.length_append, encode_length]
      omega
    constructor
    · intro accepted
      by_cases empty : sv = []
      · subst empty
        rw [backward_nil] at accepted
        cases accepted
        exact ⟨[], by simp, by simpa using within, by simpa using held⟩
      rcases backward_turn empty more accepted with ⟨group, rfl⟩ | ⟨group, rest, rfl⟩
      · rw [backward_last native more] at accepted
        cases accepted
        exact ⟨[group], by simp, by simp; omega, by simpa [Group.bytes] using step group⟩
      · have some_rest : rest ≠ [] := by
          rintro rfl
          exact start rfl
        rw [List.head?_append_of_ne_nil _ some_rest] at start
        rw [backward_more native more] at accepted
        obtain ⟨groups, rfl, room, holds⟩ :=
          (ih start (by simp; omega) (step group) (moved group) (by simp; omega)).mp accepted
        have some_group : groups ≠ [] := by
          rintro rfl
          exact some_rest rfl
        refine ⟨groups ++ [group], ?_, by simp at room ⊢; omega, by simpa [Group.bytes] using holds⟩
        rw [List.map_append, joined_append (by simpa using some_group) (by simp)]
        simp
    · rintro ⟨groups, rfl, room, holds⟩
      rcases List.eq_nil_or_concat groups with rfl | ⟨front_groups, group, rfl⟩
      · simp only [List.map_nil, joined, List.intercalate_nil]
        rw [backward_nil, held.unique (by simpa using holds)]
      · rw [List.concat_eq_append] at start room holds ⊢
        by_cases alone : front_groups = []
        · subst alone
          simp only [List.nil_append, List.map_cons, List.map_nil, joined, List.intercalate_singleton]
          rw [backward_last native more, (step group).unique (by simpa [Group.bytes] using holds)]
        · have some_front : joined (ch ':') (front_groups.map Group.text) ≠ [] :=
            fun empty => alone ((joined_groups_eq_nil front_groups).mp empty)
          have split : joined (ch ':') ((front_groups ++ [group]).map Group.text) =
              joined (ch ':') (front_groups.map Group.text) ++ ch ':' :: group.text := by
            rw [List.map_append, joined_append (by simpa using alone) (by simp)]
            simp
          rw [split, List.head?_append_of_ne_nil _ some_front] at start
          rw [split, backward_more native more]
          refine (ih start (by simp; omega) (step group) (moved group) (by simp; omega)).mpr
            ⟨front_groups, rfl, by simp at room ⊢; omega, by simpa [Group.bytes] using holds⟩

private theorem finish_iff (native : ByteOrder) (i : Nat) (j : Fin 8) (sv : List CharT)
    (ret addr : In6Addr) :
    fromStrFinish native i j sv ret = .ok addr ↔
      fromStrBackward native i j sv ret = .ok ([], addr) := by
  rw [fromStrFinish]
  cases outcome : fromStrBackward native i j sv ret with
  | error fault => simp [bind, Except.bind]
  | ok left =>
    obtain ⟨rest, filled⟩ := left
    cases rest <;> simp [bind, Except.bind]

private theorem rest_plain (native : ByteOrder) {i : Nat} {sv : List CharT} (ret addr : In6Addr)
    (start : sv.head? ≠ some (ch ':')) (plain : ¬ (¬ sv.isEmpty ∧ i < 6 ∧ find (ch '.') sv ≠ none)) :
    fromStrRest native i sv ret = .ok addr ↔ fromStrBackward native i 7 sv ret = .ok ([], addr) := by
  rw [fromStrRest, if_neg start, if_neg plain]
  exact finish_iff native i 7 sv ret addr

private theorem rest_dotted (native : ByteOrder) {i : Nat} {sv : List CharT} (ret addr : In6Addr)
    (start : sv.head? ≠ some (ch ':')) (room : i < 6) (dot : ch '.' ∈ sv) :
    fromStrRest native i sv ret = .ok addr ↔
      ∃ tail : Dotted, tail.render = lastPart (rfind (ch ':') sv) sv ∧
        fromStrBackward native i 5 (initPart (rfind (ch ':') sv) sv)
          (ret.setWord native 3 (tail.addr.word native)) = .ok ([], addr) := by
  have some_text : ¬ sv.isEmpty = true := by
    simpa using List.ne_nil_of_mem dot
  have dotted : ¬ sv.isEmpty ∧ i < 6 ∧ find (ch '.') sv ≠ none :=
    ⟨some_text, room, fun missing => find_eq_none.mp missing dot⟩
  rw [fromStrRest, if_neg start, if_pos dotted]
  cases parsed : In4Addr.fromStr native (lastPart (rfind (ch ':') sv) sv) with
  | error fault =>
    simp only [parsed, bind, Except.bind, reduceCtorEq, false_iff]
    rintro ⟨tail, same, _⟩
    rw [(In4Addr.fromStr_ok_iff native _ tail.addr).mpr ⟨tail, same, rfl⟩] at parsed
    cases parsed
  | ok v4 =>
    obtain ⟨tail, same, rfl⟩ := (In4Addr.fromStr_ok_iff native _ v4).mp parsed
    simp only [parsed, bind, Except.bind, finish_iff]
    refine ⟨fun accepted => ⟨tail, same, accepted⟩, ?_⟩
    rintro ⟨other, render, accepted⟩
    have again := (In4Addr.fromStr_ok_iff native _ other.addr).mpr ⟨other, render, rfl⟩
    rw [parsed, Except.ok.injEq] at again
    rwa [again]

private theorem segments_cut (right : List Group) (tail : Dotted) :
    let sv := joined (ch ':') (In6Text.segments right (some tail))
    lastPart (rfind (ch ':') sv) sv = tail.render ∧
      initPart (rfind (ch ':') sv) sv = joined (ch ':') (right.map Group.text) := by
  by_cases alone : right = []
  · subst alone
    simp [In6Text.segments, rfind_eq_none.mpr tail.colon_not_mem, lastPart, initPart]
  · have split : joined (ch ':') (In6Text.segments right (some tail)) =
        joined (ch ':') (right.map Group.text) ++ ch ':' :: tail.render := by
      rw [In6Text.segments, joined_append (by simpa using alone) (by simp)]
      simp
    simp only [split, rfind_append _ tail.colon_not_mem, lastPart, initPart, take_at_sep, drop_after_sep,
      and_self]

private theorem Dotted.addr_length (tail : Dotted) : tail.addr.s4_addr.length = 2 * (7 - (5 : Fin 8).val) :=
  tail.addr.size

private theorem dotted_cut {sv : List CharT} (start : sv.head? ≠ some (ch ':')) {tail : Dotted}
    (same : tail.render = lastPart (rfind (ch ':') sv) sv) :
    initPart (rfind (ch ':') sv) sv = [] ∧ sv = tail.render ∨
      initPart (rfind (ch ':') sv) sv ≠ [] ∧ sv = initPart (rfind (ch ':') sv) sv ++ ch ':' :: tail.render := by
  rcases rfind_cases (ch ':') sv with ⟨missing, _⟩ | ⟨before, rest, split, _, found⟩
  · rw [missing] at same ⊢
    exact .inl ⟨rfl, same.symm⟩
  · rw [found, split, lastPart, drop_after_sep] at same
    rw [found, split, initPart, take_at_sep, same]
    refine .inr ⟨?_, rfl⟩
    rintro rfl
    exact start (by simp [split])

private theorem rest_sound (native : ByteOrder) {i : Nat} {sv : List CharT} {ret addr : In6Addr}
    {front : List UInt8} (within : i ≤ 7) (held : ret.Holds front []) (place : front.length = 2 * i)
    (accepted : fromStrRest native i sv ret = .ok addr) :
    ∃ right tail, joined (ch ':') (In6Text.segments right tail) = sv ∧
      i + right.length + (if tail.isSome then 2 else 0) ≤ 7 ∧
      addr.Holds front (right.flatMap Group.bytes ++ In6Text.tailBytes tail) := by
  have start : sv.head? ≠ some (ch ':') := by
    intro colon
    rw [fromStrRest, if_pos colon] at accepted
    cases accepted
  by_cases dotted : i < 6 ∧ ch '.' ∈ sv
  · obtain ⟨tail, same, loop⟩ := (rest_dotted native ret addr start dotted.1 dotted.2).mp accepted
    have cut := dotted_cut start same
    have clean : (initPart (rfind (ch ':') sv) sv).head? ≠ some (ch ':') := by
      rcases cut with ⟨empty, _⟩ | ⟨filled, split⟩
      · simp [empty]
      · rw [split, List.head?_append_of_ne_nil _ filled] at start
        exact start
    obtain ⟨right, render, room, holds⟩ := (backward_ok_iff native clean (by omega)
      (held.setWord_back native (by omega) tail.addr) place (Dotted.addr_length tail)).mp loop
    refine ⟨right, some tail, ?_, by simp at room ⊢; omega, holds⟩
    rw [In6Text.segments]
    rcases cut with ⟨empty, split⟩ | ⟨filled, split⟩
    · obtain rfl : right = [] := (joined_groups_eq_nil right).mp (render.trans empty)
      simp [split]
    · have some_group : right ≠ [] := by
        rintro rfl
        exact filled render.symm
      rw [joined_append (by simpa using some_group) (by simp), render]
      simp only [Option.map_some, Option.toList_some, joined, List.intercalate_singleton]
      exact split.symm
  · have plain : ¬ (¬ sv.isEmpty ∧ i < 6 ∧ find (ch '.') sv ≠ none) := by
      rintro ⟨_, room, dot⟩
      exact dotted ⟨room, by rwa [ne_eq, find_eq_none, not_not] at dot⟩
    obtain ⟨right, render, room, holds⟩ := (backward_ok_iff native start (by simpa using within) held place
      rfl).mp ((rest_plain native ret addr start plain).mp accepted)
    exact ⟨right, none, by simpa [In6Text.segments] using render, by simpa using room,
      by simpa [In6Text.tailBytes] using holds⟩

private theorem rest_complete (native : ByteOrder) {i : Nat} {ret addr : In6Addr} {front : List UInt8}
    (within : i ≤ 7) (held : ret.Holds front []) (place : front.length = 2 * i) (right : List Group)
    (tail : Option Dotted) (room : i + right.length + (if tail.isSome then 2 else 0) ≤ 7)
    (holds : addr.Holds front (right.flatMap Group.bytes ++ In6Text.tailBytes tail)) :
    fromStrRest native i (joined (ch ':') (In6Text.segments right tail)) ret = .ok addr := by
  have start := segments_start right tail
  cases tail with
  | none =>
    have plain : ¬ (¬ (joined (ch ':') (In6Text.segments right none)).isEmpty ∧ i < 6 ∧
        find (ch '.') (joined (ch ':') (In6Text.segments right none)) ≠ none) := by
      rintro ⟨_, _, dot⟩
      rw [ne_eq, find_eq_none, not_not, dot_mem_segments] at dot
      cases dot
    refine (rest_plain native ret addr start plain).mpr
      ((backward_ok_iff native start (by simpa using within) held place rfl).mpr ?_)
    exact ⟨right, by simp [In6Text.segments], by simpa using room,
      by simpa [In6Text.tailBytes] using holds⟩
  | some tail =>
    simp only [Option.isSome_some, if_true] at room
    obtain ⟨last, init⟩ := segments_cut right tail
    refine (rest_dotted native ret addr start (by omega)
      ((dot_mem_segments right (some tail)).mpr rfl)).mpr ⟨tail, last.symm, ?_⟩
    rw [init]
    have clean := segments_start right none
    simp only [In6Text.segments, Option.map_none, Option.toList_none, List.append_nil] at clean
    exact (backward_ok_iff native clean (by simp; omega) (held.setWord_back native (by omega) tail.addr) place
      (Dotted.addr_length tail)).mpr ⟨right, rfl, by simp; omega, holds⟩

theorem rest_ok_iff (native : ByteOrder) {i : Nat} {sv : List CharT} {ret addr : In6Addr}
    {front : List UInt8} (within : i ≤ 7) (held : ret.Holds front []) (place : front.length = 2 * i) :
    fromStrRest native i sv ret = .ok addr ↔
      ∃ right tail, joined (ch ':') (In6Text.segments right tail) = sv ∧
        i + right.length + (if tail.isSome then 2 else 0) ≤ 7 ∧
        addr.Holds front (right.flatMap Group.bytes ++ In6Text.tailBytes tail) := by
  constructor
  · exact rest_sound native within held place
  · rintro ⟨right, tail, rfl, room, holds⟩
    exact rest_complete native within held place right tail room holds

theorem rest_full_iff (native : ByteOrder) (sv : List CharT) (ret addr : In6Addr) :
    fromStrRest native 8 sv ret = .ok addr ↔ sv = [] ∧ addr = ret := by
  by_cases start : sv.head? = some (ch ':')
  · rw [fromStrRest, if_pos start]
    constructor
    · intro accepted
      cases accepted
    · rintro ⟨rfl, _⟩
      cases start
  · rw [rest_plain native ret addr start (by rintro ⟨_, low, _⟩; omega), backward_stop native (by decide)]
    simp [eq_comm]

end In6Addr

end Stdplus.Net
