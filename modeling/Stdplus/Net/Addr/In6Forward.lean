import Stdplus.Net.Addr.In6

namespace Stdplus.Net

open Stdplus.Base Stdplus.Numeric

theorem Group.parsed_iff (text : List CharT) (n : Nat) :
    strToIntUnsigned (some hexadecimal) 16 text = .ok n ↔
      ∃ group : Group, group.text = text ∧ group.value = n := by
  rw [strToIntUnsigned_ok_iff hexadecimal (by decide)]
  constructor
  · rintro ⟨numeral, value, below⟩
    exact ⟨⟨text, numeral, value ▸ below⟩, rfl, value⟩
  · rintro ⟨group, rfl, rfl⟩
    exact ⟨group.numeral, rfl, group.small⟩

theorem Group.parsed (group : Group) :
    strToIntUnsigned (some hexadecimal) 16 group.text = .ok group.value :=
  (Group.parsed_iff group.text group.value).mpr ⟨group, rfl, rfl⟩

theorem Group.text_ne_nil (group : Group) : group.text ≠ [] := group.numeral.1

theorem Group.colon_not_mem (group : Group) : ch ':' ∉ group.text :=
  group.numeral.not_mem (by decide)

theorem Group.dot_not_mem (group : Group) : ch '.' ∉ group.text :=
  group.numeral.not_mem (by decide)

theorem Dotted.dot_mem (dotted : Dotted) : ch '.' ∈ dotted.render := by
  obtain ⟨octets, count, _⟩ := dotted
  match octets with
  | first :: second :: rest =>
    rw [Dotted.render, joined_cons first (List.cons_ne_nil second rest)]
    simp

theorem Dotted.colon_not_mem (dotted : Dotted) : ch ':' ∉ dotted.render := by
  intro member
  rcases mem_joined member with same | ⟨octet, among, inside⟩
  · exact absurd same (by decide)
  · exact (dotted.valid octet among).not_mem (by decide) inside

theorem groups_filled (groups : List Group) : ∀ text ∈ groups.map Group.text, text ≠ [] := by
  intro text member
  obtain ⟨group, _, rfl⟩ := List.mem_map.mp member
  exact group.text_ne_nil

theorem groups_clean (groups : List Group) : ∀ text ∈ groups.map Group.text, ch ':' ∉ text := by
  intro text member
  obtain ⟨group, _, rfl⟩ := List.mem_map.mp member
  exact group.colon_not_mem

theorem joined_groups_eq_nil (groups : List Group) :
    joined (ch ':') (groups.map Group.text) = [] ↔ groups = [] := by
  rw [joined_eq_nil (groups_filled groups), List.map_eq_nil_iff]

theorem segments_filled (right : List Group) (tail : Option Dotted) :
    ∀ text ∈ In6Text.segments right tail, text ≠ [] := by
  intro text member
  rcases List.mem_append.mp member with group | dotted
  · exact groups_filled right text group
  · cases tail with
    | none => simp at dotted
    | some tail =>
      obtain rfl : text = tail.render := by simpa using dotted
      exact List.ne_nil_of_mem tail.dot_mem

theorem segments_clean (right : List Group) (tail : Option Dotted) :
    ∀ text ∈ In6Text.segments right tail, ch ':' ∉ text := by
  intro text member
  rcases List.mem_append.mp member with group | dotted
  · exact groups_clean right text group
  · cases tail with
    | none => simp at dotted
    | some tail =>
      obtain rfl : text = tail.render := by simpa using dotted
      exact tail.colon_not_mem

theorem segments_start (right : List Group) (tail : Option Dotted) :
    (joined (ch ':') (In6Text.segments right tail)).head? ≠ some (ch ':') := by
  intro colon
  obtain ⟨rest, same⟩ := List.head?_eq_some_iff.mp colon
  exact joined_head_ne (segments_filled right tail) (segments_clean right tail) rest same

theorem dot_mem_segments (right : List Group) (tail : Option Dotted) :
    ch '.' ∈ joined (ch ':') (In6Text.segments right tail) ↔ tail.isSome := by
  constructor
  · intro dot
    rcases mem_joined dot with same | ⟨text, member, inside⟩
    · exact absurd same (by decide)
    · cases tail with
      | some tail => rfl
      | none =>
        obtain ⟨group, _, rfl⟩ : ∃ group ∈ right, group.text = text := by
          simpa [In6Text.segments] using member
        exact absurd inside group.dot_not_mem
  · intro dotted
    cases tail with
    | none => cases dotted
    | some tail => simp [In6Text.segments, joined_concat, tail.dot_mem]

namespace In6Addr

/-- `front` and `back` are in place, and what is between them is still zero. -/
structure Holds (ret : In6Addr) (front back : List UInt8) : Prop where
  room : front.length + back.length ≤ 16
  content : ret.s6_addr = front ++ List.replicate (16 - front.length - back.length) 0 ++ back

theorem zero_holds : zero.Holds [] [] := ⟨by simp, rfl⟩

theorem Holds.unique {ret other : In6Addr} {front back : List UInt8} (held : ret.Holds front back)
    (same : other.Holds front back) : ret = other := by
  have bytes := held.content.trans same.content.symm
  cases ret
  cases other
  exact (mk.injEq ..).mpr bytes

private theorem replicate_split {gap part : Nat} (fits : part ≤ gap) :
    List.replicate gap (0 : UInt8) = List.replicate part 0 ++ List.replicate (gap - part) 0 := by
  rw [List.replicate_append_replicate, Nat.add_sub_cancel' fits]

private theorem overwrite_front {front back values : List UInt8} {gap : Nat}
    (fits : values.length ≤ gap) :
    overwrite (front ++ List.replicate gap 0 ++ back) front.length values =
      front ++ values ++ List.replicate (gap - values.length) 0 ++ back := by
  rw [replicate_split fits, ← List.append_assoc, List.append_assoc,
    overwrite_part front _ _ values (by simp)]
  simp

private theorem overwrite_back {front back values : List UInt8} {gap : Nat}
    (fits : values.length ≤ gap) :
    overwrite (front ++ List.replicate gap 0 ++ back) (front.length + (gap - values.length)) values =
      front ++ List.replicate (gap - values.length) 0 ++ (values ++ back) := by
  have order : List.replicate gap (0 : UInt8) =
      List.replicate (gap - values.length) 0 ++ List.replicate values.length 0 := by
    rw [List.replicate_append_replicate, Nat.sub_add_cancel fits]
  have written := overwrite_part (front ++ List.replicate (gap - values.length) 0)
    (List.replicate values.length 0) back values (by simp)
  rw [List.length_append, List.length_replicate] at written
  rw [order, ← List.append_assoc, written, List.append_assoc]

theorem Holds.setHextet_front {ret : In6Addr} {front back : List UInt8} (held : ret.Holds front back)
    (native : ByteOrder) (i : Fin 8) (place : front.length = 2 * i.val)
    (fits : front.length + back.length ≤ 14) (v : Nat) :
    (ret.setHextet native i (hton native 2 v)).Holds (front ++ encode .big 2 v) back where
  room := by
    rw [List.length_append, encode_length]
    omega
  content := by
    simp only [setHextet]
    rw [held.content, encode_hton native (by decide), ← place,
      overwrite_front (by rw [encode_length]; omega)]
    simp only [List.length_append, encode_length]
    congr 3
    omega

theorem Holds.setHextet_back {ret : In6Addr} {front back : List UInt8} (held : ret.Holds front back)
    (native : ByteOrder) (j : Fin 8) (place : back.length = 2 * (7 - j.val))
    (fits : front.length + back.length ≤ 14) (v : Nat) :
    (ret.setHextet native j (hton native 2 v)).Holds front (encode .big 2 v ++ back) where
  room := by
    rw [List.length_append, encode_length]
    omega
  content := by
    have offset : 2 * j.val =
        front.length + (16 - front.length - back.length - (encode .big 2 v).length) := by
      rw [encode_length]
      omega
    simp only [setHextet]
    rw [held.content, encode_hton native (by decide), offset,
      overwrite_back (by rw [encode_length]; omega)]
    simp only [List.length_append, encode_length]
    congr 3
    omega

theorem Holds.setWord_back {ret : In6Addr} {front : List UInt8} (held : ret.Holds front [])
    (native : ByteOrder) (fits : front.length ≤ 12) (v4 : In4Addr) :
    (ret.setWord native 3 (v4.word native)).Holds front v4.s4_addr where
  room := by
    rw [v4.size]
    omega
  content := by
    have written : encode native 4 (v4.word native) = v4.s4_addr := by
      rw [In4Addr.word, ← v4.size, encode_decode]
    have offset : 4 * (3 : Fin 4).val =
        front.length + (16 - front.length - ([] : List UInt8).length - v4.s4_addr.length) := by
      rw [v4.size]
      simp only [List.length_nil]
      omega
    simp only [setWord]
    rw [held.content, written, offset, overwrite_back (by rw [v4.size]; simp; omega)]
    simp

private theorem forward_group (native : ByteOrder) {i : Nat} (more : i < 8) (group : Group)
    (rest : List CharT) (ret : In6Addr) :
    fromStrForward native i (group.text ++ ch ':' :: rest) ret =
      if i + 1 < 8 ∧ rest.head? = some (ch ':') then
        .ok (.done (i + 1) (rest.drop 1)
          (ret.setHextet native ⟨i, more⟩ (hton native 2 group.value)))
      else
        fromStrForward native (i + 1) rest
          (ret.setHextet native ⟨i, more⟩ (hton native 2 group.value)) := by
  have filled := group.text_ne_nil
  have away : some group.text.length ≠ some 0 := by simpa using filled
  have more_text : ¬ (group.text ++ ch ':' :: rest).isEmpty = true := by simp
  have next : (group.text ++ ch ':' :: rest).drop (group.text.length + 1 + 1) = rest.drop 1 := by
    rw [← List.drop_drop, drop_after_sep]
  have longer : group.text.length + 1 < (group.text ++ ch ':' :: rest).length ∧
      rest.head? = some (ch ':') ↔ rest.head? = some (ch ':') := by
    refine and_iff_right_of_imp fun colon => ?_
    cases rest with
    | nil => simp at colon
    | cons c rest => simp
  rw [fromStrForward, dif_pos more]
  simp only [find_append rest group.colon_not_mem, before, behind, take_at_sep, drop_after_sep, succLoc,
    getElem?_after_sep, group.parsed, reduceCtorEq, and_false, if_false, away, more_text, ne_eq,
    not_false_eq_true, and_self, if_true, Bool.false_eq_true, bind, Except.bind, longer, next]

theorem forward_more (native : ByteOrder) {i : Nat} (more : i < 8) (group : Group)
    {rest : List CharT} (single : rest.head? = some (ch ':') → i = 7) (ret : In6Addr) :
    fromStrForward native i (group.text ++ ch ':' :: rest) ret =
      fromStrForward native (i + 1) rest (ret.setHextet native ⟨i, more⟩ (hton native 2 group.value)) := by
  rw [forward_group native more]
  refine if_neg ?_
  rintro ⟨inside, colon⟩
  have last := single colon
  omega

theorem forward_gap (native : ByteOrder) {i : Nat} (more : i < 7) (group : Group)
    (rest : List CharT) (ret : In6Addr) :
    fromStrForward native i (group.text ++ ch ':' :: ch ':' :: rest) ret =
      .ok (.done (i + 1) rest
        (ret.setHextet native ⟨i, by omega⟩ (hton native 2 group.value))) := by
  rw [forward_group native (by omega)]
  exact if_pos ⟨by omega, rfl⟩

theorem forward_last (native : ByteOrder) {i : Nat} (more : i < 8) (hex : i ≠ 6) (group : Group)
    (ret : In6Addr) :
    fromStrForward native i group.text ret =
      fromStrForward native (i + 1) [] (ret.setHextet native ⟨i, more⟩ (hton native 2 group.value)) := by
  have filled : ¬ group.text.isEmpty = true := by simpa using group.text_ne_nil
  have first : group.text[0]? ≠ some (ch ':') := fun colon =>
    group.colon_not_mem (List.mem_of_getElem? colon)
  rw [fromStrForward, dif_pos more]
  simp only [find_eq_none.mpr group.colon_not_mem, before, behind, succLoc, group.parsed, hex, filled,
    first, bind, Except.bind, false_and, and_false, if_false, reduceCtorEq, ne_eq, not_false_eq_true,
    and_self, if_true, Bool.false_eq_true]

theorem forward_dotted (native : ByteOrder) (tail : Dotted) (ret : In6Addr) :
    fromStrForward native 6 tail.render ret =
      .ok (.returned (ret.setWord native 3 (tail.addr.word native))) := by
  have parsed := (In4Addr.fromStr_ok_iff native tail.render tail.addr).mpr ⟨tail, rfl, rfl⟩
  rw [fromStrForward, dif_pos (by decide : 6 < 8)]
  simp [find_eq_none.mpr tail.colon_not_mem, parsed, bind, Except.bind]

theorem forward_done (native : ByteOrder) (sv : List CharT) (ret : In6Addr) :
    fromStrForward native 8 sv ret = .ok (.done 8 sv ret) := by
  rw [fromStrForward, dif_neg (by decide)]

theorem forward_empty (native : ByteOrder) {i : Nat} (more : i < 8) (ret : In6Addr) (outcome : Forward) :
    fromStrForward native i [] ret ≠ .ok outcome := by
  intro accepted
  have nothing : find (ch ':') ([] : List CharT) = none := rfl
  rw [fromStrForward, dif_pos more] at accepted
  simp only [nothing] at accepted
  split at accepted
  · cases parsed : In4Addr.fromStr native [] with
    | error fault => simp [parsed, bind, Except.bind] at accepted
    | ok v4 =>
      obtain ⟨tail, empty, _⟩ := (In4Addr.fromStr_ok_iff native [] v4).mp parsed
      exact absurd tail.dot_mem (by simp [empty])
  · simp [bind, Except.bind] at accepted

theorem forward_colon (native : ByteOrder) {i : Nat} (more : i < 8) (rest : List CharT) (ret : In6Addr) :
    fromStrForward native i (ch ':' :: rest) ret =
      if rest.head? = some (ch ':') then .ok (.done i (rest.drop 1) ret)
      else fromStrForward native i rest ret := by
  have found : find (ch ':') (ch ':' :: rest) = some 0 :=
    find_append rest (List.not_mem_nil (a := ch ':'))
  have longer : 0 + 1 < (ch ':' :: rest).length ∧ rest.head? = some (ch ':') ↔
      rest.head? = some (ch ':') := by
    refine and_iff_right_of_imp fun colon => ?_
    cases rest with
    | nil => simp at colon
    | cons c rest => simp
  have second : (ch ':' :: rest)[0 + 1]? = rest.head? := getElem?_after_sep (ch ':') [] rest
  have more_text : ¬ (ch ':' :: rest).isEmpty = true := by simp
  rw [fromStrForward, dif_pos more]
  simp only [found, behind, succLoc, second, reduceCtorEq, and_false, if_false, ne_eq, not_true_eq_false,
    false_and, bind, Except.bind, more, true_and, longer, more_text, List.drop_succ_cons, List.drop_zero,
    Bool.false_eq_true]

def lead (groups : List Group) : List CharT := groups.flatMap (fun group => group.text ++ [ch ':'])

/-- The texts the forward loop accepts when `front` holds the first `i` groups,
and how it leaves on them. -/
inductive Accepts (i : Nat) (front : List UInt8) : List CharT → Forward → Prop where
  | tailed (groups : List Group) (tail : Dotted) (ret : In6Addr) (count : i + groups.length = 6)
      (held : ret.Holds (front ++ groups.flatMap Group.bytes) tail.bytes) :
      Accepts i front (lead groups ++ tail.render) (.returned ret)
  | ended (groups : List Group) (last : Group) (ret : In6Addr) (count : i + groups.length = 7)
      (held : ret.Holds (front ++ (groups ++ [last]).flatMap Group.bytes) []) :
      Accepts i front (lead groups ++ last.text) (.done 8 [] ret)
  | full (groups : List Group) (rest : List CharT) (ret : In6Addr) (count : i + groups.length = 8)
      (held : ret.Holds (front ++ groups.flatMap Group.bytes) []) :
      Accepts i front (lead groups ++ rest) (.done 8 rest ret)
  | gap (groups : List Group) (rest : List CharT) (ret : In6Addr) (some_group : groups ≠ [])
      (room : i + groups.length ≤ 7) (held : ret.Holds (front ++ groups.flatMap Group.bytes) []) :
      Accepts i front (lead groups ++ ch ':' :: rest) (.done (i + groups.length) rest ret)

theorem Accepts.cons {i : Nat} {front : List UInt8} {sv : List CharT} {outcome : Forward}
    (group : Group) (accepts : Accepts (i + 1) (front ++ group.bytes) sv outcome) :
    Accepts i front (group.text ++ ch ':' :: sv) outcome := by
  have moved (groups : List Group) (rest : List CharT) :
      group.text ++ ch ':' :: (lead groups ++ rest) = lead (group :: groups) ++ rest := by
    simp [lead]
  cases accepts with
  | tailed groups tail ret count held =>
    rw [moved]
    exact .tailed _ tail ret (by simp; omega) (by simpa using held)
  | ended groups last ret count held =>
    rw [moved]
    exact .ended _ last ret (by simp; omega) (by simpa using held)
  | full groups rest ret count held =>
    rw [moved]
    exact .full _ _ ret (by simp; omega) (by simpa using held)
  | gap groups rest ret some_group room held =>
    have order : i + 1 + groups.length = i + (group :: groups).length := by simp; omega
    rw [moved, order]
    exact .gap _ _ ret (by simp) (by simp; omega) (by simpa using held)

private theorem forward_turn {native : ByteOrder} {i : Nat} {sv : List CharT} {ret : In6Addr}
    {outcome : Forward} (more : i < 8) (start : sv.head? ≠ some (ch ':'))
    (accepted : fromStrForward native i sv ret = .ok outcome) :
    (i = 6 ∧ ∃ tail : Dotted, tail.render = sv) ∨ (i ≠ 6 ∧ ∃ group : Group, group.text = sv) ∨
      ∃ group : Group, ∃ rest, group.text ++ ch ':' :: rest = sv := by
  by_cases empty : sv = []
  · exact absurd accepted (empty ▸ forward_empty native more ret outcome)
  rw [fromStrForward, dif_pos more] at accepted
  rcases find_cases (ch ':') sv with ⟨missing, absent⟩ | ⟨front, rest, split, absent, found⟩
  · by_cases turn : i = 6
    · cases parsed : In4Addr.fromStr native sv with
      | error fault => simp [turn, missing, parsed, bind, Except.bind] at accepted
      | ok v4 =>
        obtain ⟨tail, same, _⟩ := (In4Addr.fromStr_ok_iff native sv v4).mp parsed
        exact .inl ⟨turn, tail, same⟩
    · cases parsed : strToIntUnsigned (some hexadecimal) 16 sv with
      | error fault => simp [turn, missing, before, parsed, empty, bind, Except.bind] at accepted
      | ok n =>
        obtain ⟨group, same, _⟩ := (Group.parsed_iff sv n).mp parsed
        exact .inr (.inl ⟨turn, group, same⟩)
  · have some_front : front ≠ [] := by
      rintro rfl
      exact start (by simp [split])
    have length : front.length ≠ 0 := by simpa using some_front
    cases parsed : strToIntUnsigned (some hexadecimal) 16 front with
    | error fault =>
      have cut : before (some front.length) sv = front := by rw [split, before, take_at_sep]
      simp [found, cut, parsed, length, empty, bind, Except.bind] at accepted
    | ok n =>
      obtain ⟨group, same, _⟩ := (Group.parsed_iff front n).mp parsed
      exact .inr (.inr ⟨group, rest, by rw [same, split]⟩)

theorem forward_sound {native : ByteOrder} {i : Nat} {sv : List CharT} {ret : In6Addr}
    {front : List UInt8} {outcome : Forward} (within : i ≤ 8)
    (start : i < 8 → sv.head? ≠ some (ch ':')) (held : ret.Holds front [])
    (place : front.length = 2 * i) (accepted : fromStrForward native i sv ret = .ok outcome) :
    Accepts i front sv outcome := by
  induction turns : 8 - i generalizing i sv ret front with
  | zero =>
    obtain rfl : i = 8 := by omega
    rw [forward_done] at accepted
    cases accepted
    exact .full [] sv ret rfl (by simpa using held)
  | succ turns ih =>
    have more : i < 8 := by omega
    have step (group : Group) := held.setHextet_front native ⟨i, more⟩ place (by simp; omega) group.value
    have grown (group : Group) : (front ++ encode .big 2 group.value).length = 2 * (i + 1) := by
      simp [place]
      omega
    rcases forward_turn more (start more) accepted with
      ⟨rfl, tail, rfl⟩ | ⟨hex, group, rfl⟩ | ⟨group, rest, rfl⟩
    · rw [forward_dotted] at accepted
      cases accepted
      exact .tailed [] tail _ rfl
        (by simpa [Dotted.addr] using held.setWord_back native (by omega) tail.addr)
    · rw [forward_last native more hex] at accepted
      by_cases last : i = 7
      · subst last
        rw [forward_done] at accepted
        cases accepted
        exact .ended [] group _ rfl (by simpa [Group.bytes] using step group)
      · exact absurd accepted (forward_empty native (by omega) _ outcome)
    · by_cases double : rest.head? = some (ch ':') ∧ i < 7
      · obtain ⟨tail, rfl⟩ := List.head?_eq_some_iff.mp double.1
        rw [forward_gap native double.2] at accepted
        cases accepted
        have split : group.text ++ ch ':' :: ch ':' :: tail = lead [group] ++ ch ':' :: tail := by
          simp [lead]
        rw [split]
        exact .gap [group] tail _ (by simp) (by simp; omega) (by simpa [Group.bytes] using step group)
      · have single : rest.head? = some (ch ':') → i = 7 := by
          intro colon
          by_contra other
          exact double ⟨colon, by omega⟩
        rw [forward_more native more group single] at accepted
        exact .cons group (ih (by omega) (fun inside colon => double ⟨colon, by omega⟩) (step group)
          (grown group) accepted (by omega))

theorem forward_groups (native : ByteOrder) {i : Nat} {ret : In6Addr} {front : List UInt8}
    (groups : List Group) {rest : List CharT} (room : i + groups.length ≤ 8)
    (single : rest.head? = some (ch ':') → i + groups.length = 8) (held : ret.Holds front [])
    (place : front.length = 2 * i) :
    ∃ filled : In6Addr, filled.Holds (front ++ groups.flatMap Group.bytes) [] ∧
      fromStrForward native i (lead groups ++ rest) ret =
        fromStrForward native (i + groups.length) rest filled := by
  induction groups generalizing i ret front with
  | nil => exact ⟨ret, by simpa using held, rfl⟩
  | cons group groups ih =>
    rw [List.length_cons] at room single
    have more : i < 8 := by omega
    have step := held.setHextet_front native ⟨i, more⟩ place (by simp; omega) group.value
    have turn : (lead groups ++ rest).head? = some (ch ':') → i = 7 := by
      intro colon
      cases groups with
      | nil =>
        have last := single (by simpa [lead] using colon)
        simp only [List.length_nil] at last
        omega
      | cons next groups =>
        obtain ⟨c, text, cut⟩ := List.exists_cons_of_ne_nil next.text_ne_nil
        refine absurd next.colon_not_mem ?_
        simp [lead, cut] at colon
        simp [cut, colon]
    obtain ⟨filled, holds, rest_equal⟩ := ih (i := i + 1) (by omega) (fun colon => by have := single colon; omega)
      step (by simp [place]; omega)
    refine ⟨filled, by simpa [Group.bytes] using holds, ?_⟩
    have split : lead (group :: groups) ++ rest = group.text ++ ch ':' :: (lead groups ++ rest) := by
      simp [lead]
    rw [split, forward_more native more group turn, rest_equal, List.length_cons]
    congr 1
    omega

end In6Addr

end Stdplus.Net
