import Stdplus.Net.Addr.In6Parse

namespace Stdplus.Net

open Stdplus.Base Stdplus.Numeric

namespace In6Addr

/-- A failure is an exception, and what is left of the text is part of it. -/
private def Tame : Except Fault Forward → Prop
  | .error fault => fault.Thrown
  | .ok (.returned _) => True
  | .ok (.done _ rest _) => Ascii rest

private theorem forward_tame (native : ByteOrder) (i : Nat) {sv : List CharT} (ascii : Ascii sv)
    (ret : In6Addr) : Tame (fromStrForward native i sv ret) := by
  induction size : sv.length using Nat.strong_induction_on generalizing i sv ret with
  | _ size ih =>
    rw [fromStrForward]
    split
    · next more =>
      have tail (i : Nat) (ret : In6Addr) : Tame
          (if i < 8 ∧ succLoc (find (ch ':') sv) < sv.length ∧
              sv[succLoc (find (ch ':') sv)]? = some (ch ':') then
            .ok (.done i (sv.drop (succLoc (find (ch ':') sv) + 1)) ret)
          else if sv.isEmpty then .error (.invalidArgument "IPv6 Data")
          else fromStrForward native i (behind (find (ch ':') sv) sv) ret) := by
        split
        · exact fun c member => ascii c (List.mem_of_mem_drop member)
        · split
          · trivial
          · next filled =>
            exact ih _ (size ▸ behind_shorter (ch ':') filled) i
              (fun c member => ascii c (mem_of_mem_behind member)) ret rfl
      simp only
      split
      · cases parsed : In4Addr.fromStr native sv with
        | error fault => exact In4Addr.fromStr_thrown native ascii parsed
        | ok v4 => trivial
      · split
        · cases parsed : strToIntUnsigned (some hexadecimal) 16 (before (find (ch ':') sv) sv) with
          | error fault =>
            exact strToIntUnsigned_thrown hexadecimal
              (fun c member => ascii c (mem_of_mem_before member)) parsed
          | ok n => exact tail (i + 1) _
        · exact tail i ret
    · exact ascii

private theorem backward_thrown (native : ByteOrder) (i : Nat) (j : Fin 8) {sv : List CharT}
    (ascii : Ascii sv) (ret : In6Addr) {fault : Fault}
    (failed : fromStrBackward native i j sv ret = .error fault) : fault.Thrown := by
  induction turns : j.val generalizing j sv ret with
  | zero =>
    rw [backward_stop native (by omega)] at failed
    cases failed
  | succ turns ih =>
    rw [fromStrBackward] at failed
    split at failed
    · cases parsed : strToIntUnsigned (some hexadecimal) 16 (lastPart (rfind (ch ':') sv) sv) with
      | error other =>
        simp only [parsed, bind, Except.bind, Except.error.injEq] at failed
        exact failed ▸ strToIntUnsigned_thrown hexadecimal
          (fun c member => ascii c (mem_of_mem_lastPart member)) parsed
      | ok n =>
        simp only [parsed, bind, Except.bind] at failed
        exact ih ⟨j.val - 1, by omega⟩ (fun c member => ascii c (mem_of_mem_initPart member)) _ failed
          (by simp; omega)
    · cases failed

private theorem rest_thrown (native : ByteOrder) (i : Nat) {sv : List CharT} (ascii : Ascii sv)
    (ret : In6Addr) {fault : Fault} (failed : fromStrRest native i sv ret = .error fault) :
    fault.Thrown := by
  have finish (j : Fin 8) {rest : List CharT} (low : Ascii rest) (ret : In6Addr)
      (failed : fromStrFinish native i j rest ret = .error fault) : fault.Thrown := by
    rw [fromStrFinish] at failed
    cases outcome : fromStrBackward native i j rest ret with
    | error other =>
      simp only [outcome, bind, Except.bind, Except.error.injEq] at failed
      exact failed ▸ backward_thrown native i j low ret outcome
    | ok left =>
      simp only [outcome, bind, Except.bind] at failed
      split at failed
      · cases failed
      · cases failed
        trivial
  rw [fromStrRest] at failed
  split at failed
  · cases failed
    trivial
  · split at failed
    · cases parsed : In4Addr.fromStr native (lastPart (rfind (ch ':') sv) sv) with
      | error other =>
        simp only [parsed, bind, Except.bind, Except.error.injEq] at failed
        exact failed ▸ In4Addr.fromStr_thrown native
          (fun c member => ascii c (mem_of_mem_lastPart member)) parsed
      | ok v4 =>
        have low : Ascii (initPart (rfind (ch ':') sv) sv) :=
          fun c member => ascii c (mem_of_mem_initPart member)
        refine finish 5 low (ret.setWord native 3 (v4.word native)) ?_
        simpa only [parsed, bind, Except.bind] using failed
    · exact finish 7 ascii ret failed

theorem fromStr_thrown (native : ByteOrder) {sv : List CharT} (ascii : Ascii sv) {fault : Fault}
    (failed : fromStr native sv = .error fault) : fault.Thrown := by
  have tame := forward_tame native 0 ascii zero
  simp only [fromStr] at failed
  cases outcome : fromStrForward native 0 sv zero with
  | error other =>
    rw [outcome] at tame
    simp only [outcome, bind, Except.bind, Except.error.injEq] at failed
    exact failed ▸ tame
  | ok forward =>
    rw [outcome] at tame
    simp only [outcome, bind, Except.bind] at failed
    cases forward with
    | returned ret => cases failed
    | done i rest ret => exact rest_thrown native i tame ret failed

theorem lead_append (groups : List Group) (last : List CharT) :
    lead groups ++ last = joined (ch ':') (groups.map Group.text ++ [last]) := by
  rw [joined_concat, List.flatMap_map]
  rfl

theorem lead_eq {groups : List Group} (some_group : groups ≠ []) :
    lead groups = joined (ch ':') (groups.map Group.text) ++ [ch ':'] := by
  have ended := lead_append groups []
  rw [List.append_nil] at ended
  rw [ended, joined_append (by simpa using some_group) (by simp)]
  simp

private theorem fromStr_of_returned {native : ByteOrder} {sv : List CharT} {ret : In6Addr}
    (forward : fromStrForward native 0 sv zero = .ok (.returned ret)) : fromStr native sv = .ok ret := by
  simp [fromStr, forward, bind, Except.bind]

private theorem fromStr_of_done {native : ByteOrder} {sv rest : List CharT} {i : Nat} {ret : In6Addr}
    (forward : fromStrForward native 0 sv zero = .ok (.done i rest ret)) :
    fromStr native sv = fromStrRest native i rest ret := by
  simp [fromStr, forward, bind, Except.bind]

private theorem full_holds (groups : List Group) (count : groups.length = 8) :
    (In6Text.full groups count).addr.Holds (groups.flatMap Group.bytes) [] where
  room := by simp only [groupBytes_length, List.length_nil]; omega
  content := by
    rw [groupBytes_length, count]
    simp [In6Text.addr, In6Text.bytes]

private theorem tailed_holds (groups : List Group) (tail : Dotted) (count : groups.length = 6) :
    (In6Text.tailed groups tail count).addr.Holds (groups.flatMap Group.bytes) tail.bytes where
  room := by rw [groupBytes_length, tail.bytes_length]; omega
  content := by
    rw [groupBytes_length, count, tail.bytes_length]
    simp [In6Text.addr, In6Text.bytes]

private theorem gapped_holds (left right : List Group) (tail : Option Dotted)
    (room : left.length + right.length + (if tail.isSome then 2 else 0) ≤ 7) :
    (In6Text.gapped left right tail room).addr.Holds (left.flatMap Group.bytes)
      (right.flatMap Group.bytes ++ In6Text.tailBytes tail) where
  room := by
    rw [List.length_append, groupBytes_length, groupBytes_length, tailBytes_length]
    split at room <;> simp_all <;> omega
  content := by
    rw [List.length_append, groupBytes_length, groupBytes_length, ← Nat.sub_sub]
    rfl

private theorem forward_start (native : ByteOrder) (groups : List Group) (rest : List CharT)
    (room : groups.length ≤ 8) (single : rest.head? = some (ch ':') → groups.length = 8) :
    ∃ filled : In6Addr, filled.Holds (groups.flatMap Group.bytes) [] ∧
      fromStrForward native 0 (lead groups ++ rest) zero =
        fromStrForward native groups.length rest filled := by
  have read := forward_groups native groups (by omega : 0 + groups.length ≤ 8)
    (fun colon : rest.head? = some (ch ':') => by simpa using single colon) zero_holds rfl
  simpa using read

private theorem fromStr_full (native : ByteOrder) (groups : List Group) (count : groups.length = 8) :
    fromStr native (lead groups) = .ok (In6Text.full groups count).addr ∧
      fromStr native (In6Text.full groups count).render = .ok (In6Text.full groups count).addr := by
  have holds := full_holds groups count
  constructor
  · obtain ⟨filled, read, loop⟩ := forward_start native groups [] (by omega) (by simp)
    rw [List.append_nil, count, forward_done] at loop
    rw [fromStr_of_done loop]
    exact (rest_full_iff native [] filled _).mpr ⟨rfl, holds.unique read⟩
  · rcases List.eq_nil_or_concat groups with rfl | ⟨front, last, rfl⟩
    · cases count
    · simp only [List.concat_eq_append] at count holds ⊢
      have seven : front.length = 7 := by simpa using count
      have split : (In6Text.full (front ++ [last]) count).render = lead front ++ last.text := by
        rw [lead_append]
        simp [In6Text.render]
      have place := groupBytes_length front
      have single : last.text.head? = some (ch ':') → front.length = 8 := fun colon =>
        absurd (List.mem_of_head? colon) last.colon_not_mem
      obtain ⟨filled, read, loop⟩ := forward_start native front _ (by omega) single
      rw [seven, forward_last native (by decide) (by decide), forward_done] at loop
      rw [split, fromStr_of_done loop]
      refine (rest_full_iff native [] _ _).mpr ⟨rfl, ?_⟩
      have step := read.setHextet_front native 7 (by rw [place, seven]; rfl) (by simp only [List.length_nil]; omega)
        last.value
      exact holds.unique (by simpa [Group.bytes] using step)

private theorem fromStr_tailed (native : ByteOrder) (groups : List Group) (tail : Dotted)
    (count : groups.length = 6) :
    fromStr native (In6Text.tailed groups tail count).render =
      .ok (In6Text.tailed groups tail count).addr := by
  have split : (In6Text.tailed groups tail count).render = lead groups ++ tail.render := by
    rw [lead_append]
    rfl
  have single : tail.render.head? = some (ch ':') → groups.length = 8 := fun colon =>
    absurd (List.mem_of_head? colon) tail.colon_not_mem
  obtain ⟨filled, read, loop⟩ := forward_start native groups _ (by omega) single
  rw [count, forward_dotted] at loop
  rw [split, fromStr_of_returned loop]
  have placed := read.setWord_back native (by rw [groupBytes_length]; omega) tail.addr
  exact congrArg Except.ok (placed.unique (tailed_holds groups tail count))

theorem forward_gapped (native : ByteOrder) (front : List Group) (last : Group) (room : front.length < 7)
    (rest : List CharT) :
    ∃ ret : In6Addr, ret.Holds ((front ++ [last]).flatMap Group.bytes) [] ∧
      fromStrForward native 0 (lead (front ++ [last]) ++ ch ':' :: rest) zero =
        .ok (.done (front ++ [last]).length rest ret) := by
  have split : lead (front ++ [last]) ++ ch ':' :: rest = lead front ++ (last.text ++ ch ':' :: ch ':' :: rest) := by
    simp [lead]
  have single : (last.text ++ ch ':' :: ch ':' :: rest).head? = some (ch ':') → front.length = 8 := by
    rw [List.head?_append_of_ne_nil _ last.text_ne_nil]
    exact fun colon => absurd (List.mem_of_head? colon) last.colon_not_mem
  obtain ⟨filled, read, loop⟩ := forward_start native front _ (by omega) single
  rw [forward_gap native room] at loop
  have step := read.setHextet_front native ⟨front.length, by omega⟩ (groupBytes_length front)
    (by rw [groupBytes_length]; simp only [List.length_nil]; omega) last.value
  refine ⟨_, by simpa [Group.bytes] using step, ?_⟩
  rw [split, loop, List.length_append, List.length_singleton]

private theorem fromStr_gapped (native : ByteOrder) (left right : List Group) (tail : Option Dotted)
    (room : left.length + right.length + (if tail.isSome then 2 else 0) ≤ 7) :
    fromStr native (In6Text.gapped left right tail room).render =
      .ok (In6Text.gapped left right tail room).addr := by
  have holds := gapped_holds left right tail room
  rcases List.eq_nil_or_concat left with rfl | ⟨front, last, rfl⟩
  · have loop := forward_colon native (by decide : 0 < 8)
      (ch ':' :: joined (ch ':') (In6Text.segments right tail)) zero
    rw [if_pos (by rfl)] at loop
    refine (fromStr_of_done loop).trans ((rest_ok_iff native (by decide) zero_holds rfl).mpr ?_)
    exact ⟨right, tail, rfl, by simpa using room, holds⟩
  · simp only [List.concat_eq_append] at room holds ⊢
    have split : (In6Text.gapped (front ++ [last]) right tail room).render =
        lead (front ++ [last]) ++ ch ':' :: joined (ch ':') (In6Text.segments right tail) := by
      rw [In6Text.render, lead_eq (by simp), List.append_assoc]
      rfl
    have few : front.length < 7 := by
      rw [List.length_append, List.length_singleton] at room
      omega
    obtain ⟨ret, read, loop⟩ := forward_gapped native front last few (joined (ch ':') (In6Text.segments right tail))
    rw [split, fromStr_of_done loop]
    refine (rest_ok_iff native (by rw [List.length_append, List.length_singleton]; omega) read
      (groupBytes_length _)).mpr ?_
    exact ⟨right, tail, rfl, room, holds⟩

/-- Every text of the grammar is read as the address it denotes, whatever the
byte order of the host. -/
theorem fromStr_render (native : ByteOrder) (text : In6Text) :
    fromStr native text.render = .ok text.addr := by
  cases text with
  | full groups count => exact (fromStr_full native groups count).2
  | tailed groups tail count => exact fromStr_tailed native groups tail count
  | gapped left right tail room => exact fromStr_gapped native left right tail room

private theorem fromStr_forward {native : ByteOrder} {sv : List CharT} {addr : In6Addr}
    (accepted : fromStr native sv = .ok addr) :
    fromStrForward native 0 sv zero = .ok (.returned addr) ∨
      ∃ i rest ret, fromStrForward native 0 sv zero = .ok (.done i rest ret) ∧
        fromStrRest native i rest ret = .ok addr := by
  cases outcome : fromStrForward native 0 sv zero with
  | error fault => simp [fromStr, outcome, bind, Except.bind] at accepted
  | ok forward =>
    cases forward with
    | returned ret =>
      rw [fromStr_of_returned outcome] at accepted
      cases accepted
      exact .inl rfl
    | done i rest ret =>
      rw [fromStr_of_done outcome] at accepted
      exact .inr ⟨i, rest, ret, rfl, accepted⟩

/-- An accepted text that does not start with a colon is in the grammar, or it is
eight groups with a colon behind them. -/
private theorem fromStr_start {native : ByteOrder} {sv : List CharT} {addr : In6Addr}
    (start : sv.head? ≠ some (ch ':')) (accepted : fromStr native sv = .ok addr) :
    InGrammar sv ∨ ∃ groups : List Group, groups.length = 8 ∧
      sv = joined (ch ':') (groups.map Group.text) ++ [ch ':'] := by
  rcases fromStr_forward accepted with loop | ⟨i, rest, ret, loop, behind⟩
  · cases forward_sound (by decide) (fun _ => start) zero_holds rfl loop with
    | tailed groups tail ret count held =>
      rw [lead_append]
      exact .inl ⟨.tailed groups tail (by omega), rfl⟩
  · cases forward_sound (by decide) (fun _ => start) zero_holds rfl loop with
    | ended groups last ret count held =>
      rw [lead_append]
      exact .inl ⟨.full (groups ++ [last]) (by simp; omega), by simp [In6Text.render]⟩
    | full groups rest ret count held =>
      obtain ⟨rfl, _⟩ := (rest_full_iff native rest ret addr).mp behind
      have some_group : groups ≠ [] := List.ne_nil_of_length_pos (by omega)
      exact .inr ⟨groups, by omega, by rw [List.append_nil, lead_eq some_group]⟩
    | gap groups rest ret some_group room held =>
      have place := groupBytes_length groups
      obtain ⟨right, tail, rfl, fits, _⟩ := (rest_ok_iff native (by omega) held
        (by simp only [List.nil_append]; omega)).mp behind
      refine .inl ⟨.gapped groups right tail (by omega), ?_⟩
      rw [In6Text.render, lead_eq some_group]
      simp

end In6Addr

/-- A text of the grammar with a lone colon in front of it, or eight groups with
one behind them. -/
def LoneColon (sv : List CharT) : Prop :=
  (∃ text : In6Text, text.render.head? ≠ some (ch ':') ∧ sv = ch ':' :: text.render) ∨
    ∃ groups : List Group, groups.length = 8 ∧
      (sv = joined (ch ':') (groups.map Group.text) ++ [ch ':'] ∨
        sv = ch ':' :: (joined (ch ':') (groups.map Group.text) ++ [ch ':']))

private theorem groups_start (groups : List Group) (rest : List CharT) (some_group : groups ≠ []) :
    (joined (ch ':') (groups.map Group.text) ++ rest).head? ≠ some (ch ':') := by
  have start := segments_start groups none
  have filled : joined (ch ':') (groups.map Group.text) ≠ [] :=
    fun empty => some_group ((joined_groups_eq_nil groups).mp empty)
  rw [List.head?_append_of_ne_nil _ filled]
  simpa [In6Text.segments] using start

theorem In6Text.render_colon (text : In6Text) {rest : List CharT} (colon : text.render = ch ':' :: rest) :
    rest.head? = some (ch ':') := by
  have head := congrArg List.head? colon
  cases text with
  | full groups count =>
    refine absurd head ?_
    simpa [In6Text.render, In6Text.segments] using segments_start groups none
  | tailed groups tail count => exact absurd head (segments_start groups (some tail))
  | gapped left right tail room =>
    by_cases alone : left = []
    · subst alone
      simp only [In6Text.render, List.map_nil, joined, List.intercalate_nil, List.nil_append,
        List.cons.injEq, true_and] at colon
      rw [← colon]
      rfl
    · exact absurd head (groups_start left _ alone)

/-- A text of the grammar that ends in a colon ends in a gap, so it is not eight
groups and a colon. -/
private theorem In6Text.render_ne_trailed (text : In6Text) (groups : List Group) :
    text.render ≠ joined (ch ':') (groups.map Group.text) ++ [ch ':'] := by
  intro same
  have last := congrArg List.getLast? same
  rw [List.getLast?_concat] at last
  have clean (right : List Group) (tail : Option Dotted) :
      (joined (ch ':') (In6Text.segments right tail)).getLast? ≠ some (ch ':') :=
    joined_getLast?_ne (segments_filled right tail) (segments_clean right tail)
  cases text with
  | full others count =>
    refine clean others none ?_
    simpa [In6Text.render, In6Text.segments] using last
  | tailed others tail count => exact clean others (some tail) last
  | gapped left right tail room =>
    by_cases empty : joined (ch ':') (In6Text.segments right tail) = []
    · have before : joined (ch ':') (groups.map Group.text) =
          joined (ch ':') (left.map Group.text) ++ [ch ':'] := by
        rw [In6Text.render, empty, List.append_cons] at same
        exact (List.append_cancel_right same).symm
      refine clean groups none ?_
      rw [show In6Text.segments groups none = groups.map Group.text by simp [In6Text.segments], before,
        List.getLast?_concat]
    · refine clean right tail ?_
      rwa [In6Text.render, List.getLast?_append_of_ne_nil _ (by simp),
        List.getLast?_cons_of_ne_nil (by simp), List.getLast?_cons_of_ne_nil empty] at last

theorem LoneColon.not_grammar {sv : List CharT} (lone : LoneColon sv) : ¬ InGrammar sv := by
  rintro ⟨other, same⟩
  rcases lone with ⟨text, start, rfl⟩ | ⟨groups, count, rfl | rfl⟩
  · exact start (other.render_colon same)
  · exact other.render_ne_trailed groups same
  · exact groups_start groups _ (List.ne_nil_of_length_pos (by omega)) (other.render_colon same)

namespace In6Addr

theorem fromStr_colon (native : ByteOrder) {rest : List CharT} (single : rest.head? ≠ some (ch ':')) :
    fromStr native (ch ':' :: rest) = fromStr native rest := by
  rw [fromStr, forward_colon native (by decide), if_neg single, fromStr]

theorem fromStr_accepts_iff (native : ByteOrder) (sv : List CharT) :
    (∃ addr, fromStr native sv = .ok addr) ↔ InGrammar sv ∨ LoneColon sv := by
  constructor
  · rintro ⟨addr, accepted⟩
    by_cases start : sv.head? = some (ch ':')
    · obtain ⟨rest, rfl⟩ := List.head?_eq_some_iff.mp start
      by_cases double : rest.head? = some (ch ':')
      · have loop := forward_colon native (by decide : 0 < 8) rest zero
        rw [if_pos double] at loop
        rw [fromStr_of_done loop] at accepted
        obtain ⟨right, tail, render, room, _⟩ := (rest_ok_iff native (by decide) zero_holds rfl).mp accepted
        obtain ⟨tail_text, rfl⟩ := List.head?_eq_some_iff.mp double
        refine .inl ⟨.gapped [] right tail (by simpa using room), ?_⟩
        simpa [In6Text.render] using render
      · rw [fromStr_colon native double] at accepted
        rcases fromStr_start double accepted with ⟨text, rfl⟩ | ⟨groups, count, rfl⟩
        · exact .inr (.inl ⟨text, double, rfl⟩)
        · exact .inr (.inr ⟨groups, count, .inr rfl⟩)
    · rcases fromStr_start start accepted with grammar | ⟨groups, count, rfl⟩
      · exact .inl grammar
      · exact .inr (.inr ⟨groups, count, .inl rfl⟩)
  · have trailed (groups : List Group) (count : groups.length = 8) :
        fromStr native (joined (ch ':') (groups.map Group.text) ++ [ch ':']) =
          .ok (In6Text.full groups count).addr := by
      rw [← lead_eq (List.ne_nil_of_length_pos (by omega))]
      exact (fromStr_full native groups count).1
    rintro (⟨text, rfl⟩ | ⟨text, start, rfl⟩ | ⟨groups, count, rfl | rfl⟩)
    · exact ⟨_, fromStr_render native text⟩
    · exact ⟨_, (fromStr_colon native start).trans (fromStr_render native text)⟩
    · exact ⟨_, trailed groups count⟩
    · have some_group : groups ≠ [] := List.ne_nil_of_length_pos (by omega)
      exact ⟨_, (fromStr_colon native (groups_start groups _ some_group)).trans (trailed groups count)⟩

/-- Accepting only the grammar, and throwing on everything else. -/
def SoundOn (native : ByteOrder) (sv : List CharT) : Prop :=
  (∀ addr, fromStr native sv = .ok addr → InGrammar sv) ∧
    (¬ InGrammar sv → ∃ fault, fromStr native sv = .error fault ∧ fault.Thrown)

/-- The parser is sound on every 7-bit text but those with a lone colon. -/
theorem fromStr_soundOn_iff (native : ByteOrder) (sv : List CharT) (ascii : Ascii sv) :
    SoundOn native sv ↔ ¬ LoneColon sv := by
  constructor
  · rintro ⟨sound, _⟩ lone
    obtain ⟨addr, accepted⟩ := (fromStr_accepts_iff native sv).mpr (.inr lone)
    exact lone.not_grammar (sound addr accepted)
  · intro clean
    have grammar (addr : In6Addr) (accepted : fromStr native sv = .ok addr) : InGrammar sv :=
      ((fromStr_accepts_iff native sv).mp ⟨addr, accepted⟩).resolve_right clean
    refine ⟨grammar, fun outside => ?_⟩
    cases outcome : fromStr native sv with
    | error fault => exact ⟨fault, rfl, fromStr_thrown native ascii outcome⟩
    | ok addr => exact absurd (grammar addr outcome) outside

private theorem sample_ascii : Ascii ("1:2:3:4:5:6:7:8".toList.map ch) := by
  decide +kernel

theorem fromStr_soundOn_iff_sample :
    Ascii ("1:2:3:4:5:6:7:8".toList.map ch) ∧
      (SoundOn .little ("1:2:3:4:5:6:7:8".toList.map ch) ↔ ¬ LoneColon ("1:2:3:4:5:6:7:8".toList.map ch)) :=
  ⟨sample_ascii, fromStr_soundOn_iff .little _ sample_ascii⟩

/-- Eight groups with a colon in front of them are read as an address. -/
theorem fromStr_leading_colon :
    Ascii (":1:2:3:4:5:6:7:8".toList.map ch) ∧
      fromStr .little (":1:2:3:4:5:6:7:8".toList.map ch) =
        .ok ⟨[0, 1, 0, 2, 0, 3, 0, 4, 0, 5, 0, 6, 0, 7, 0, 8], rfl⟩ ∧
      ¬ SoundOn .little (":1:2:3:4:5:6:7:8".toList.map ch) := by
  have accepted : fromStr .little (":1:2:3:4:5:6:7:8".toList.map ch) =
      .ok ⟨[0, 1, 0, 2, 0, 3, 0, 4, 0, 5, 0, 6, 0, 7, 0, 8], rfl⟩ := by
    decide +kernel
  refine ⟨by decide +kernel, accepted, ?_⟩
  rintro ⟨sound, _⟩
  obtain ⟨text, render⟩ := sound _ accepted
  have double : ("1:2:3:4:5:6:7:8".toList.map ch).head? = some (ch ':') := text.render_colon render
  exact absurd double (by decide)

/-- Every text of the grammar is accepted, and the bytes are those of its groups
and tail in network order around the zeros of the gap, on hosts of either order. -/
theorem fromStr_complete (native : ByteOrder) (text : In6Text) :
    ∃ addr, fromStr native text.render = .ok addr ∧ addr.s6_addr = text.bytes :=
  ⟨text.addr, fromStr_render native text, rfl⟩

end In6Addr

end Stdplus.Net
