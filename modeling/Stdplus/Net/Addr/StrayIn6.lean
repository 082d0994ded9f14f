import Stdplus.Net.Addr.In6Grammar

namespace Stdplus.Net

open Stdplus.Base Stdplus.Numeric

namespace In6Addr

theorem groupParser : PieceParser (fun text => ∃ group : Group, group.text = text) 16
    (strToIntUnsigned (some hexadecimal) 16) where
  accepts text := by
    simp only [Group.parsed_iff]
    constructor
    · rintro ⟨_, group, same, _⟩
      exact ⟨group, same⟩
    · rintro ⟨group, same⟩
      exact ⟨_, group, same, rfl⟩
  strays := strToIntUnsigned_strays_iff hexadecimal 16

/-- Less than `room` groups with colons in front of them at the end of the text, and a piece
before them that strays. -/
def BackStrays (room : Nat) (sv : List CharT) : Prop :=
  ∃ (groups : List Group) (init : List CharT), groups.length < room ∧
    sv = init ++ groups.flatMap (fun group => ch ':' :: group.text) ∧
    Numeric.Strays 16 (lastPart (rfind (ch ':') init) init)

private theorem not_backStrays_uncut {room : Nat} {sv : List CharT} (absent : ch ':' ∉ sv)
    (stays : ¬ Numeric.Strays 16 sv) : ¬ BackStrays room sv := by
  rintro ⟨groups, init, _, rfl, strays⟩
  cases groups with
  | nil =>
    rw [List.flatMap_nil, List.append_nil] at absent stays
    rw [rfind_eq_none.mpr absent, lastPart] at strays
    exact stays strays
  | cons group groups => simp at absent

theorem not_backStrays_nil {room : Nat} : ¬ BackStrays room [] :=
  not_backStrays_uncut List.not_mem_nil not_strays_nil

private theorem lastPart_append (front : List CharT) (group : Group) :
    lastPart (rfind (ch ':') (front ++ ch ':' :: group.text)) (front ++ ch ':' :: group.text) = group.text := by
  rw [rfind_append front group.colon_not_mem, lastPart, drop_after_sep]

private theorem backStrays_concat {room : Nat} {sv : List CharT} : BackStrays (room + 1) sv ↔
    Numeric.Strays 16 (lastPart (rfind (ch ':') sv) sv) ∨
      ∃ front, ∃ group : Group, sv = front ++ ch ':' :: group.text ∧ BackStrays room front := by
  constructor
  · rintro ⟨groups, init, bounded, rfl, strays⟩
    rcases List.eq_nil_or_concat groups with rfl | ⟨groups, group, rfl⟩
    · rw [List.flatMap_nil, List.append_nil]
      exact .inl strays
    · rw [List.concat_eq_append] at bounded ⊢
      exact .inr ⟨_, group, by simp, groups, init, by simpa using bounded, rfl, strays⟩
  · rintro (strays | ⟨front, group, rfl, groups, init, bounded, rfl, strays⟩)
    · exact ⟨[], sv, by simp, by simp, strays⟩
    · exact ⟨groups ++ [group], init, by simpa using bounded, by simp, strays⟩

theorem backward_strays_iff (native : ByteOrder) (i : Nat) (j : Fin 8) (sv : List CharT) (ret : In6Addr) :
    fromStrBackward native i j sv ret = .error .outOfBounds ↔ BackStrays (j.val - i) sv := by
  induction turns : j.val - i generalizing j sv ret with
  | zero =>
    rw [backward_stop native (by omega)]
    refine iff_of_false (by simp) ?_
    rintro ⟨groups, init, none_left, _⟩
    omega
  | succ turns ih =>
    have more : i < j.val := by omega
    by_cases empty : sv = []
    · subst empty
      rw [backward_nil]
      exact iff_of_false (by simp) not_backStrays_nil
    rw [fromStrBackward, dif_pos ⟨by simpa using empty, more⟩, bind_outOfBounds, groupParser.strays, backStrays_concat]
    refine or_congr_right ?_
    constructor
    · rintro ⟨n, parsed, later⟩
      obtain ⟨group, same⟩ := (groupParser.accepts _).mp ⟨n, parsed⟩
      rw [ih ⟨j.val - 1, by omega⟩ _ _ (by simp; omega)] at later
      rcases rfind_cases (ch ':') sv with ⟨missing, _⟩ | ⟨front, rest, rfl, _, found⟩
      · rw [missing, initPart] at later
        exact absurd later not_backStrays_nil
      · rw [found, initPart, take_at_sep] at later
        rw [found, lastPart, drop_after_sep] at same
        exact ⟨front, group, by rw [same], later⟩
    · rintro ⟨front, group, rfl, later⟩
      refine ⟨group.value, by rw [lastPart_append, group.parsed], ?_⟩
      rw [ih ⟨j.val - 1, by omega⟩ _ _ (by simp; omega), rfind_append front group.colon_not_mem, initPart, take_at_sep]
      exact later

private theorem finish_strays_iff (native : ByteOrder) (i : Nat) (j : Fin 8) (sv : List CharT) (ret : In6Addr) :
    fromStrFinish native i j sv ret = .error .outOfBounds ↔ BackStrays (j.val - i) sv := by
  rw [fromStrFinish, bind_outOfBounds, backward_strays_iff]
  refine or_iff_left ?_
  rintro ⟨⟨rest, filled⟩, _, failed⟩
  cases rest <;> simp at failed

/-- What follows a gap strays: its dotted tail, or a group before that or at the end. -/
def RestStrays (i : Nat) (sv : List CharT) : Prop :=
  sv.head? ≠ some (ch ':') ∧
    if i < 6 ∧ ch '.' ∈ sv then
      In4Addr.Strays (lastPart (rfind (ch ':') sv) sv) ∨
        (∃ tail : Dotted, tail.render = lastPart (rfind (ch ':') sv) sv) ∧
          BackStrays (5 - i) (initPart (rfind (ch ':') sv) sv)
    else BackStrays (7 - i) sv

theorem RestStrays.low {i : Nat} {sv : List CharT} (strays : RestStrays i sv) : i < 7 := by
  by_contra high
  obtain ⟨_, strays⟩ := strays
  rw [if_neg (by omega)] at strays
  obtain ⟨groups, init, bounded, _⟩ := strays
  omega

theorem rest_strays_iff (native : ByteOrder) (i : Nat) (sv : List CharT) (ret : In6Addr) :
    fromStrRest native i sv ret = .error .outOfBounds ↔ RestStrays i sv := by
  rw [fromStrRest, RestStrays]
  by_cases start : sv.head? = some (ch ':')
  · rw [if_pos start]
    exact iff_of_false (by simp) (fun parts => parts.1 start)
  rw [if_neg start, and_iff_right start]
  have same : (¬ sv.isEmpty ∧ i < 6 ∧ find (ch '.') sv ≠ none) ↔ i < 6 ∧ ch '.' ∈ sv := by
    rw [ne_eq, find_eq_none, not_not]
    refine and_iff_right_of_imp ?_
    rintro ⟨_, dot⟩
    simpa using List.ne_nil_of_mem dot
  by_cases dotted : i < 6 ∧ ch '.' ∈ sv
  · rw [if_pos (same.mpr dotted), if_pos dotted, bind_outOfBounds, In4Addr.fromStr_strays_iff]
    refine or_congr_right ?_
    simp only [finish_strays_iff, In4Addr.fromStr_ok_iff]
    constructor
    · rintro ⟨_, ⟨tail, render, _⟩, strays⟩
      exact ⟨⟨tail, render⟩, strays⟩
    · rintro ⟨⟨tail, render⟩, strays⟩
      exact ⟨_, ⟨tail, render, rfl⟩, strays⟩
  · rw [if_neg (fun parts => dotted (same.mp parts)), if_neg dotted]
    exact finish_strays_iff native i 7 sv ret

/-- What the loop reads as group `i` strays; without a colon the seventh is a dotted tail. -/
def GroupStrays (i : Nat) (tail : List CharT) : Prop :=
  if i = 6 ∧ ch ':' ∉ tail then In4Addr.Strays tail else i < 8 ∧ Numeric.Strays 16 tail

/-- Groups with their colons, and behind them one that strays. -/
def ForwardStrays (i : Nat) (sv : List CharT) : Prop :=
  ∃ groups tail, sv = lead groups ++ tail ∧ GroupStrays (i + groups.length) tail

private theorem lead_cons (group : Group) (groups : List Group) (tail : List CharT) :
    lead (group :: groups) ++ tail = group.text ++ ch ':' :: (lead groups ++ tail) := by
  simp [lead]

private theorem groupStrays_cut (i : Nat) (front rest : List CharT) :
    GroupStrays i (front ++ ch ':' :: rest) ↔ i < 8 ∧ Numeric.Strays 16 front := by
  rw [GroupStrays, if_neg (by simp), strays_append_sep (by decide) (by decide)]

private theorem forwardStrays_uncut {i : Nat} {sv : List CharT} (absent : ch ':' ∉ sv) :
    ForwardStrays i sv ↔ GroupStrays i sv := by
  constructor
  · rintro ⟨groups, tail, rfl, strays⟩
    cases groups with
    | nil => exact strays
    | cons group groups => simp [lead] at absent
  · exact fun strays => ⟨[], sv, rfl, strays⟩

private theorem not_groupStrays_nil {i : Nat} : ¬ GroupStrays i [] := by
  rw [GroupStrays]
  split
  · exact not_straysBehind_nil
  · exact fun parts => not_strays_nil parts.2

private theorem forwardStrays_cut {i : Nat} {front : List CharT} (absent : ch ':' ∉ front) (rest : List CharT) :
    ForwardStrays i (front ++ ch ':' :: rest) ↔
      i < 8 ∧ Numeric.Strays 16 front ∨ (∃ group : Group, group.text = front) ∧ ForwardStrays (i + 1) rest := by
  constructor
  · rintro ⟨groups, tail, split, strays⟩
    cases groups with
    | nil =>
      have whole : tail = front ++ ch ':' :: rest := split.symm
      rw [whole] at strays
      exact .inl ((groupStrays_cut i front rest).mp strays)
    | cons group groups =>
      rw [lead_cons] at split
      obtain ⟨rfl, rfl⟩ := append_sep_inj absent group.colon_not_mem split
      rw [List.length_cons, Nat.add_comm groups.length, ← Nat.add_assoc] at strays
      exact .inr ⟨⟨group, rfl⟩, groups, tail, rfl, strays⟩
  · rintro (strays | ⟨⟨group, rfl⟩, groups, tail, rfl, strays⟩)
    · exact ⟨[], _, rfl, (groupStrays_cut i front rest).mpr strays⟩
    · refine ⟨group :: groups, tail, (lead_cons group groups tail).symm, ?_⟩
      rwa [List.length_cons, Nat.add_comm groups.length, ← Nat.add_assoc]

theorem not_forwardStrays_colon {i : Nat} (rest : List CharT) : ¬ ForwardStrays i (ch ':' :: rest) := by
  intro strays
  rcases (forwardStrays_cut List.not_mem_nil rest).mp strays with ⟨_, empty⟩ | ⟨⟨group, empty⟩, _⟩
  · exact not_strays_nil empty
  · exact group.text_ne_nil empty

private theorem forward_refused (native : ByteOrder) {i : Nat} (more : i < 8) {front rest : List CharT}
    (some_front : front ≠ []) (absent : ch ':' ∉ front) (ret : In6Addr) {fault : Fault}
    (refused : strToIntUnsigned (some hexadecimal) 16 front = .error fault) :
    fromStrForward native i (front ++ ch ':' :: rest) ret = .error fault := by
  have away : some front.length ≠ some 0 := by simpa using some_front
  have more_text : ¬ (front ++ ch ':' :: rest).isEmpty = true := by simp
  rw [fromStrForward, dif_pos more]
  simp only [find_append rest absent, before, take_at_sep, refused, reduceCtorEq, and_false, if_false, away, more_text,
    ne_eq, not_false_eq_true, and_self, if_true, Bool.false_eq_true, bind, Except.bind]

private theorem forward_refused_last (native : ByteOrder) {i : Nat} (more : i < 8) (hex : i ≠ 6) {sv : List CharT}
    (some_text : sv ≠ []) (absent : ch ':' ∉ sv) (ret : In6Addr) {fault : Fault}
    (refused : strToIntUnsigned (some hexadecimal) 16 sv = .error fault) :
    fromStrForward native i sv ret = .error fault := by
  have filled : ¬ sv.isEmpty = true := by simpa using some_text
  rw [fromStrForward, dif_pos more]
  simp only [find_eq_none.mpr absent, before, refused, hex, filled, false_and, if_false, reduceCtorEq, ne_eq,
    not_false_eq_true, and_self, if_true, Bool.false_eq_true, bind, Except.bind]

theorem forward_strays_iff (native : ByteOrder) {i : Nat} (within : i ≤ 8) {sv : List CharT}
    (start : i < 8 → sv.head? ≠ some (ch ':')) (ret : In6Addr) :
    fromStrForward native i sv ret = .error .outOfBounds ↔ ForwardStrays i sv := by
  induction turns : 8 - i generalizing i sv ret with
  | zero =>
    obtain rfl : i = 8 := by omega
    rw [forward_done]
    refine iff_of_false (by simp) ?_
    rintro ⟨groups, tail, _, strays⟩
    rw [GroupStrays, if_neg (by omega)] at strays
    omega
  | succ turns ih =>
    have more : i < 8 := by omega
    rcases find_cases (ch ':') sv with ⟨missing, absent⟩ | ⟨front, rest, rfl, absent, found⟩
    · rw [forwardStrays_uncut absent]
      by_cases turn : i = 6
      · subst turn
        rw [GroupStrays, if_pos ⟨rfl, absent⟩, fromStrForward, dif_pos more]
        simp only [missing, and_self, if_true]
        rw [bind_outOfBounds, In4Addr.fromStr_strays_iff native]
        simp
      by_cases empty : sv = []
      · subst empty
        refine iff_of_false ?_ not_groupStrays_nil
        rw [fromStrForward, dif_pos more]
        simp [turn, find, succLoc, bind, Except.bind]
      rw [GroupStrays, if_neg (fun parts => turn parts.1), and_iff_right more, ← groupParser.strays]
      cases parsed : strToIntUnsigned (some hexadecimal) 16 sv with
      | error fault =>
        rw [forward_refused_last native more turn empty absent ret parsed]
        simp
      | ok n =>
        obtain ⟨group, rfl⟩ := (groupParser.accepts sv).mp ⟨n, parsed⟩
        rw [forward_last native more turn, ih more (by simp) _ (by omega), forwardStrays_uncut List.not_mem_nil]
        exact iff_of_false not_groupStrays_nil (by simp)
    · have some_front : front ≠ [] := by
        rintro rfl
        exact start more rfl
      rw [forwardStrays_cut absent, and_iff_right more, ← groupParser.strays]
      cases parsed : strToIntUnsigned (some hexadecimal) 16 front with
      | error fault =>
        have other : ¬ ∃ group : Group, group.text = front := by
          intro accepted
          obtain ⟨n, again⟩ := (groupParser.accepts front).mpr accepted
          rw [parsed] at again
          cases again
        rw [forward_refused native more some_front absent ret parsed]
        simp [other]
      | ok n =>
        obtain ⟨group, rfl⟩ := (groupParser.accepts front).mp ⟨n, parsed⟩
        rw [or_iff_right (by simp), and_iff_right ⟨group, rfl⟩]
        by_cases double : rest.head? = some (ch ':') ∧ i < 7
        · obtain ⟨tail, rfl⟩ := List.head?_eq_some_iff.mp double.1
          rw [forward_gap native double.2]
          exact iff_of_false (by simp) (not_forwardStrays_colon tail)
        · have single : rest.head? = some (ch ':') → i = 7 := by
            intro colon
            by_contra other
            exact double ⟨colon, by omega⟩
          rw [forward_more native more group single]
          exact ih more (fun inside colon => double ⟨colon, by omega⟩) _ (by omega)

/-- From a group on: the forward loop strays, or there is a gap behind groups and what follows
it strays. -/
def FrontStrays (sv : List CharT) : Prop :=
  ForwardStrays 0 sv ∨ ∃ groups rest, groups ≠ [] ∧ sv = lead groups ++ ch ':' :: rest ∧ RestStrays groups.length rest

/-- The same, also behind a lone colon, or what follows a gap at the start strays. -/
def Strays (sv : List CharT) : Prop :=
  FrontStrays sv ∨ ∃ rest, sv = ch ':' :: rest ∧ (FrontStrays rest ∨ ∃ tail, rest = ch ':' :: tail ∧ RestStrays 0 tail)

private theorem front_strays_iff (native : ByteOrder) {sv : List CharT} (start : sv.head? ≠ some (ch ':')) :
    fromStr native sv = .error .outOfBounds ↔ FrontStrays sv := by
  rw [fromStr, bind_outOfBounds, forward_strays_iff native (by decide) (fun _ => start), FrontStrays]
  refine or_congr_right ?_
  constructor
  · rintro ⟨outcome, loop, strays⟩
    cases forward_sound (by decide) (fun _ => start) zero_holds rfl loop with
    | tailed groups tail ret count held => cases strays
    | ended groups last ret count held =>
      rw [rest_strays_iff] at strays
      exact absurd strays.low (by decide)
    | full groups rest ret count held =>
      rw [rest_strays_iff] at strays
      exact absurd strays.low (by decide)
    | gap groups rest ret some_group room held =>
      rw [rest_strays_iff, Nat.zero_add] at strays
      exact ⟨groups, rest, some_group, rfl, strays⟩
  · rintro ⟨groups, rest, some_group, rfl, strays⟩
    have low := strays.low
    rcases List.eq_nil_or_concat groups with rfl | ⟨front, last, rfl⟩
    · exact absurd rfl some_group
    · rw [List.concat_eq_append] at strays low ⊢
      obtain ⟨ret, _, loop⟩ := forward_gapped native front last (by simp at low; omega) rest
      exact ⟨_, loop, (rest_strays_iff native _ rest ret).mpr strays⟩

private theorem not_frontStrays_colon (rest : List CharT) : ¬ FrontStrays (ch ':' :: rest) := by
  rintro (strays | ⟨groups, tail, some_group, split, _⟩)
  · exact not_forwardStrays_colon rest strays
  · cases groups with
    | nil => exact some_group rfl
    | cons group groups =>
      rw [lead_cons] at split
      have start := congrArg List.head? split
      rw [List.head?_append_of_ne_nil _ group.text_ne_nil] at start
      exact group.colon_not_mem (List.mem_of_head? start.symm)

theorem fromStr_strays_iff (native : ByteOrder) (sv : List CharT) :
    fromStr native sv = .error .outOfBounds ↔ Strays sv := by
  by_cases start : sv.head? = some (ch ':')
  · obtain ⟨rest, rfl⟩ := List.head?_eq_some_iff.mp start
    rw [Strays, or_iff_right (not_frontStrays_colon rest)]
    have later : (∃ other, ch ':' :: rest = ch ':' :: other ∧
        (FrontStrays other ∨ ∃ tail, other = ch ':' :: tail ∧ RestStrays 0 tail)) ↔
        FrontStrays rest ∨ ∃ tail, rest = ch ':' :: tail ∧ RestStrays 0 tail := by
      simp
    rw [later]
    by_cases double : rest.head? = some (ch ':')
    · obtain ⟨tail, rfl⟩ := List.head?_eq_some_iff.mp double
      rw [or_iff_right (not_frontStrays_colon tail), fromStr, forward_colon native (by decide), if_pos double]
      refine (rest_strays_iff native 0 tail zero).trans ?_
      simp
    · have single : ¬ ∃ tail, rest = ch ':' :: tail ∧ RestStrays 0 tail := by
        rintro ⟨tail, rfl, _⟩
        exact double rfl
      rw [or_iff_left single, fromStr_colon native double]
      exact front_strays_iff native double
  · have plain : ¬ ∃ rest, sv = ch ':' :: rest ∧
        (FrontStrays rest ∨ ∃ tail, rest = ch ':' :: tail ∧ RestStrays 0 tail) := by
      rintro ⟨rest, rfl, _⟩
      exact start rfl
    rw [Strays, or_iff_left plain]
    exact front_strays_iff native start

end In6Addr

end Stdplus.Net
