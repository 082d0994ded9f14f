import Stdplus.Net.Addr.In6Grammar

/-! The IPv6 printer: the longest run of zero hextets becomes the gap, mapped IPv4
addresses keep their dotted form, and what is printed is a text of the grammar
that denotes the address. -/

namespace Stdplus.Net

open Stdplus.Base Stdplus.Numeric

namespace In6Addr

/-- A run of hextets, `new_start` with `new_size` or `skip_start` with `skip_size`. -/
structure Run where
  start : Nat
  size : Nat

structure Scan where
  skip : Run
  new : Run

/-- One turn of the search for the longest run of zeros. -/
def scanStep (native : ByteOrder) (v : In6Addr) (scan : Scan) (i : Nat) : Scan :=
  if ∃ inside : i < 8, v.hextet native ⟨i, inside⟩ = 0 then
    if scan.new.start + scan.new.size = i then
      { scan with new := { scan.new with size := scan.new.size + 1 } }
    else
      { scan with new := { start := i, size := 1 } }
  else if scan.new.start + scan.new.size = i ∧ scan.skip.size < scan.new.size then
    { scan with skip := scan.new }
  else
    scan

/-- The run the printer skips. -/
def skipped (native : ByteOrder) (v : In6Addr) : Run :=
  ((List.range 9).foldl (scanStep native v) ⟨⟨0, 0⟩, ⟨0, 0⟩⟩).skip

/-- The printing loop; the loop's own increment comes on top of the skip. -/
def toStrLoop (native : ByteOrder) (v : In6Addr) (skip : Run) (i : Nat) : Writer CharT :=
  if inside : i < 8 then
    if i = skip.start ∧ 1 < skip.size then
      (if i = 0 then Writer.put (ch ':') else Writer.skip).seq
        ((Writer.put (ch ':')).seq (toStrLoop native v skip (i + (skip.size - 1) + 1)))
    else
      (uintToStr hexadecimal (ntoh native 2 (v.hextet native ⟨i, inside⟩)) 0).seq
        ((if i < 7 then Writer.put (ch ':') else Writer.skip).seq (toStrLoop native v skip (i + 1)))
  else
    Writer.skip
termination_by 8 - i

/-- `ToStr<In6Addr>::buf_size`. -/
def bufSize : Nat := 35 + intToStrBufSize hexadecimal (2 ^ 16 - 1) false

/-- `ToStr<In6Addr>`. -/
def toStr (native : ByteOrder) (v : In6Addr) : Writer CharT :=
  if v.isMapped native then
    (Writer.copy ("::ffff:".toList.map ch)).seq
      ((v.mappedAddr native).toStr native)
  else
    toStrLoop native v (v.skipped native) 0

def pair (v : In6Addr) (i : Nat) : List UInt8 := (v.s6_addr.drop (2 * i)).take 2

theorem pair_length (v : In6Addr) {i : Nat} (inside : i < 8) : (v.pair i).length = 2 := by
  rw [pair, List.length_take, List.length_drop, v.size]
  omega

def value (v : In6Addr) (i : Nat) : Nat := decode .big (v.pair i)

def groupAt (v : In6Addr) (i : Nat) : Group where
  text := numeral hexadecimal (decode .big (v.pair i)) 0
  numeral := numeral_isNumeral hexadecimal _ 0
  small := by
    have bound := decode_lt .big (v.pair i)
    have length : (v.pair i).length ≤ 2 := List.length_take_le _ _
    have power : 256 ^ (v.pair i).length ≤ 256 ^ 2 := Nat.pow_le_pow_right (by decide) length
    have value := numeralValue_numeral hexadecimal (decode .big (v.pair i)) 0
    change numeralValue 16 _ = _ at value
    rw [value]
    omega

theorem groupAt_value (v : In6Addr) (i : Nat) : (v.groupAt i).value = v.value i :=
  numeralValue_numeral hexadecimal _ 0

theorem groupAt_bytes (v : In6Addr) {i : Nat} (inside : i < 8) : (v.groupAt i).bytes = v.pair i := by
  have back := encode_decode .big (v.pair i)
  rw [v.pair_length inside] at back
  rw [Group.bytes, groupAt_value, value, back]

/-- The groups of `count` hextets from `first` on. -/
def groupsAt (v : In6Addr) (first count : Nat) : List Group :=
  (List.range' first count).map v.groupAt

@[simp] theorem groupsAt_length (v : In6Addr) (first count : Nat) :
    (v.groupsAt first count).length = count := by
  simp [groupsAt]

theorem groupsAt_succ (v : In6Addr) (first count : Nat) :
    v.groupsAt first (count + 1) = v.groupAt first :: v.groupsAt (first + 1) count := by
  simp [groupsAt, List.range'_succ]

theorem groupsAt_bytes (v : In6Addr) {first count : Nat} (inside : first + count ≤ 8) :
    (v.groupsAt first count).flatMap Group.bytes = (v.s6_addr.drop (2 * first)).take (2 * count) := by
  induction count generalizing first with
  | zero => simp [groupsAt]
  | succ count ih =>
    rw [groupsAt_succ, List.flatMap_cons, ih (by omega), v.groupAt_bytes (by omega), pair, Nat.mul_succ,
      Nat.mul_succ, Nat.add_comm (2 * count) 2, List.take_add, List.drop_drop]

/-- A run of zero hextets inside the address. -/
structure ZeroRun (v : In6Addr) (run : Run) : Prop where
  inside : run.start + run.size ≤ 8
  zeros : ∀ i, run.start ≤ i → i < run.start + run.size → v.pair i = [0, 0]

theorem hextet_eq_zero {native : ByteOrder} {v : In6Addr} {i : Fin 8} (zero : v.hextet native i = 0) :
    v.pair i = [0, 0] := by
  have bytes := decode_eq_zero zero
  have length : ((v.s6_addr.drop (2 * i.val)).take 2).length = 2 := v.pair_length i.isLt
  rw [length] at bytes
  exact bytes

theorem scanStep_zeroRun (native : ByteOrder) {v : In6Addr} {scan : Scan} (i : Nat)
    (skip : v.ZeroRun scan.skip) (new : v.ZeroRun scan.new) :
    v.ZeroRun (scanStep native v scan i).skip ∧ v.ZeroRun (scanStep native v scan i).new := by
  unfold scanStep
  split
  · rename_i found
    obtain ⟨inside, zero⟩ := found
    have here := hextet_eq_zero zero
    split
    · rename_i adjacent
      refine ⟨skip, ⟨by simp only; omega, fun k low high => ?_⟩⟩
      by_cases last : k = i
      · exact last ▸ here
      · exact new.zeros k low (by simp only at high; omega)
    · refine ⟨skip, ⟨by simp only; omega, fun k low high => ?_⟩⟩
      obtain rfl : k = i := by simp only at low high; omega
      exact here
  · split
    · exact ⟨new, new⟩
    · exact ⟨skip, new⟩

theorem skipped_zeroRun (native : ByteOrder) (v : In6Addr) : v.ZeroRun (v.skipped native) := by
  have empty : v.ZeroRun ⟨0, 0⟩ := ⟨by decide, fun i low high => by simp at high⟩
  suffices runs : ∀ (turns : List Nat) (scan : Scan), v.ZeroRun scan.skip → v.ZeroRun scan.new →
      v.ZeroRun (turns.foldl (scanStep native v) scan).skip from runs _ _ empty empty
  intro turns
  induction turns with
  | nil => exact fun _ skip _ => skip
  | cons i turns ih =>
    intro scan skip new
    obtain ⟨skip, new⟩ := scanStep_zeroRun native i skip new
    exact ih _ skip new

/-- The text of an address in the grammar: with the mapped prefix, with a gap over
the run, or in full where no run is longer than one. -/
def shown (native : ByteOrder) (v : In6Addr) : In6Text :=
  if v.isMapped native then
    .gapped [] [v.groupAt 5] (some (v.mappedAddr native).dotted) (by simp)
  else if gap : 1 < (v.skipped native).size then
    .gapped (v.groupsAt 0 (v.skipped native).start)
      (v.groupsAt ((v.skipped native).start + (v.skipped native).size)
        (8 - ((v.skipped native).start + (v.skipped native).size))) none
      (by
        have inside := (skipped_zeroRun native v).inside
        simp
        omega)
  else
    .full (v.groupsAt 0 8) (by simp)

def text (native : ByteOrder) (v : In6Addr) : List CharT := (v.shown native).render

private theorem ZeroRun.bytes {v : In6Addr} {run : Run} (zeros : v.ZeroRun run) :
    (v.s6_addr.drop (2 * run.start)).take (2 * run.size) = List.replicate (2 * run.size) 0 := by
  obtain ⟨start, size⟩ := run
  induction size generalizing start with
  | zero => simp
  | succ size ih =>
    have inside := zeros.inside
    simp only at inside ih ⊢
    have first := zeros.zeros start (by simp) (by simp)
    have rest := ih (start + 1) ⟨by simp only; omega, fun i low high =>
      zeros.zeros i (by simp only at low ⊢; omega) (by simp only at high ⊢; omega)⟩
    rw [pair] at first
    rw [Nat.mul_succ, Nat.add_comm (2 * size) 2, List.take_add, List.drop_drop, first,
      ← Nat.mul_succ, rest, List.replicate_add]
    rfl

theorem word_eq_zero {native : ByteOrder} {v : In6Addr} {i : Fin 4} (zero : v.word native i = 0) :
    (v.s6_addr.drop (4 * i.val)).take 4 = List.replicate 4 0 := by
  have bytes := decode_eq_zero zero
  have length : ((v.s6_addr.drop (4 * i.val)).take 4).length = 4 := by
    rw [List.length_take, List.length_drop, v.size]
    omega
  rw [length] at bytes
  exact bytes

/-- A mapped address: ten zeros, `ffff` and the bytes of the IPv4 address. -/
theorem mapped_bytes {native : ByteOrder} {v : In6Addr} (mapped : v.isMapped native = true) :
    v.s6_addr = List.replicate 10 0 ++ [255, 255] ++ (v.mappedAddr native).s4_addr ∧
      v.pair 5 = [255, 255] := by
  obtain ⟨first, second, third, marker⟩ := of_decide_eq_true mapped
  have zeros : v.s6_addr.take 10 = List.replicate 10 0 := by
    have low : (v.s6_addr.drop 0).take 4 = List.replicate 4 0 := word_eq_zero first
    have next : (v.s6_addr.drop 4).take 4 = List.replicate 4 0 := word_eq_zero second
    have last : (v.s6_addr.drop 8).take 2 = [0, 0] := hextet_eq_zero third
    rw [List.drop_zero] at low
    rw [show 10 = 4 + 4 + 2 by rfl, List.take_add, List.take_add, low, next, last]
    rfl
  have ones : v.pair 5 = [255, 255] := by
    have length := v.pair_length (show 5 < 8 by decide)
    refine decode_inj native length ?_
    cases native <;> exact marker
  have low : (v.mappedAddr native).s4_addr = v.s6_addr.drop 12 := by
    have whole : (v.s6_addr.drop (4 * (3 : Fin 4).val)).take 4 = v.s6_addr.drop 12 :=
      List.take_of_length_le (by simp [v.size])
    have length : ((v.s6_addr.drop (4 * (3 : Fin 4).val)).take 4).length = 4 := by
      rw [whole, List.length_drop, v.size]
    have back := encode_decode native ((v.s6_addr.drop (4 * (3 : Fin 4).val)).take 4)
    rw [length, whole] at back
    change encode native 4 (v.word native 3) = _
    rw [word, whole, back]
  refine ⟨?_, ones⟩
  rw [low, ← ones, ← zeros, pair, ← List.take_add, List.take_append_drop]

private theorem gapped_bytes {v : In6Addr} {run : Run} (zeros : v.ZeroRun run)
    (room : (v.groupsAt 0 run.start).length +
      (v.groupsAt (run.start + run.size) (8 - (run.start + run.size))).length + 0 ≤ 7) :
    (In6Text.gapped (v.groupsAt 0 run.start)
      (v.groupsAt (run.start + run.size) (8 - (run.start + run.size))) none room).bytes = v.s6_addr := by
  have inside := zeros.inside
  have gap : 16 - 2 * run.start - 2 * (8 - (run.start + run.size)) - 0 = 2 * run.size := by omega
  have whole : (v.s6_addr.drop (2 * (run.start + run.size))).take (2 * (8 - (run.start + run.size))) =
      v.s6_addr.drop (2 * (run.start + run.size)) :=
    List.take_of_length_le (by rw [List.length_drop, v.size]; omega)
  rw [In6Text.bytes, groupsAt_bytes v (by omega), groupsAt_bytes v (by omega), groupsAt_length,
    groupsAt_length, whole]
  simp only [In6Text.tailBytes, Option.map_none, Option.getD_none, List.length_nil, gap, List.append_nil,
    Nat.mul_zero, List.drop_zero]
  rw [← zeros.bytes, ← List.take_add, ← Nat.mul_add, List.take_append_drop]

theorem shown_addr (native : ByteOrder) (v : In6Addr) : (v.shown native).addr = v := by
  have bytes : (v.shown native).bytes = v.s6_addr → (v.shown native).addr = v := by
    intro same
    cases v
    exact (mk.injEq ..).mpr same
  apply bytes
  rw [shown]
  split
  · rename_i mapped
    obtain ⟨content, ones⟩ := mapped_bytes mapped
    have group := v.groupAt_bytes (show 5 < 8 by decide)
    have tail := congrArg In4Addr.s4_addr (v.mappedAddr native).dotted_addr
    have length := (v.mappedAddr native).dotted.bytes_length
    rw [content]
    simp only [In6Text.bytes, In6Text.tailBytes, Option.map_some, Option.getD_some, length,
      List.flatMap_nil, List.flatMap_cons, List.nil_append, List.append_nil, group, ones]
    rw [← tail, List.append_assoc]
    rfl
  · split
    · exact gapped_bytes (skipped_zeroRun native v) _
    · rw [In6Text.bytes, groupsAt_bytes v (by decide)]
      exact List.take_of_length_le (by simp [v.size])

private theorem loop_group (native : ByteOrder) (v : In6Addr) {skip : Run} {i : Nat} (inside : i < 8)
    (kept : ¬ (i = skip.start ∧ 1 < skip.size)) :
    toStrLoop native v skip i =
      (uintToStr hexadecimal (decode .big (v.pair i)) 0).seq
        ((if i < 7 then Writer.put (ch ':') else Writer.skip).seq (toStrLoop native v skip (i + 1))) := by
  rw [toStrLoop, dif_pos inside, if_neg kept]
  have host := ntoh_decode native (by decide) (v.pair_length inside)
  rw [← host]
  rfl

private theorem loop_tail (native : ByteOrder) (v : In6Addr) (skip : Run) {i : Nat} (within : i ≤ 8)
    (away : 1 < skip.size → skip.start < i) :
    Emits (toStrLoop native v skip i) (joined (ch ':') ((v.groupsAt i (8 - i)).map Group.text))
      (joined (ch ':') ((v.groupsAt i (8 - i)).map Group.text)).length := by
  induction left : 8 - i generalizing i with
  | zero =>
    rw [toStrLoop, dif_neg (by omega)]
    exact Emits.skip
  | succ turns ih =>
    have inside : i < 8 := by omega
    have rest := ih (i := i + 1) (by omega) (fun long => by have := away long; omega) (by omega)
    have group := hexadecimal_emits (decode .big (v.pair i))
    rw [loop_group native v inside (by rintro ⟨same, long⟩; have := away long; omega), groupsAt_succ,
      List.map_cons]
    by_cases last : i = 7
    · obtain rfl : turns = 0 := by omega
      have whole := group.seq_exact (Emits.skip.seq_exact rest)
      rw [if_neg (by omega)]
      simpa [groupsAt, groupAt] using whole
    · have whole := group.seq_exact ((Emits.put (ch ':')).seq_exact rest)
      have more : (v.groupsAt (i + 1) turns).map Group.text ≠ [] := by
        refine List.ne_nil_of_length_pos ?_
        rw [List.length_map, groupsAt_length]
        omega
      rw [if_pos (by omega), joined_cons _ more]
      exact whole

/-- Up to the run every group is printed with its colon, and the run is one
colon more, or two at the start of the text. -/
private theorem loop_front (native : ByteOrder) (v : In6Addr) {skip : Run} {i : Nat} {whole : List CharT}
    (long : 1 < skip.size) (within : skip.start + skip.size ≤ 8) (early : i ≤ skip.start)
    (content : whole = lead (v.groupsAt i (skip.start - i)) ++
      ((if skip.start = 0 then [ch ':'] else []) ++
        ([ch ':'] ++ joined (ch ':') ((v.groupsAt (skip.start + skip.size)
          (8 - (skip.start + skip.size))).map Group.text)))) :
    Emits (toStrLoop native v skip i) whole whole.length := by
  induction left : skip.start - i generalizing i whole with
  | zero =>
    obtain rfl : i = skip.start := by omega
    have tail := loop_tail native v skip within (by omega)
    have first : Emits (if skip.start = 0 then Writer.put (ch ':') else Writer.skip)
        (if skip.start = 0 then [ch ':'] else []) (if skip.start = 0 then [ch ':'] else []).length := by
      split
      · exact Emits.put (ch ':')
      · exact Emits.skip
    have emitted := first.seq_exact ((Emits.put (ch ':')).seq_exact tail)
    have next : skip.start + (skip.size - 1) + 1 = skip.start + skip.size := by omega
    rw [toStrLoop, dif_pos (by omega), if_pos ⟨rfl, long⟩, next, content, left]
    exact emitted
  | succ turns ih =>
    have group := hexadecimal_emits (decode .big (v.pair i))
    have rest := ih (i := i + 1) (by omega) rfl (by omega)
    have emitted := group.seq_exact ((Emits.put (ch ':')).seq_exact rest)
    have count : skip.start - (i + 1) = turns := by omega
    rw [loop_group native v (by omega) (by rintro ⟨same, _⟩; omega), if_pos (by omega), content, left,
      groupsAt_succ]
    simpa [lead, groupAt, count] using emitted

private theorem groupAt_mapped {v : In6Addr} (ones : v.pair 5 = [255, 255]) :
    (v.groupAt 5).text = "ffff".toList.map ch := by
  have text : numeral hexadecimal 65535 0 = "ffff".toList.map ch := by decide +kernel
  change numeral hexadecimal (decode .big (v.pair 5)) 0 = _
  rw [ones]
  exact text

theorem text_mapped {native : ByteOrder} {v : In6Addr} (mapped : v.isMapped native = true) :
    v.text native = "::ffff:".toList.map ch ++ (v.mappedAddr native).text := by
  obtain ⟨_, ones⟩ := mapped_bytes mapped
  have marker : "::ffff:".toList.map ch = ch ':' :: ch ':' :: ("ffff".toList.map ch ++ [ch ':']) := by
    decide
  rw [text, shown, if_pos mapped, In6Text.render, In6Text.segments, List.map_singleton, groupAt_mapped ones,
    marker, joined_append (by simp) (by simp)]
  simp [In4Addr.text, Dotted.render, In4Addr.dotted]

/-- The printer writes the text of the address; only the dotted form stores
cells that the text does not keep. -/
theorem toStr_emits (native : ByteOrder) (v : In6Addr) :
    ∃ reach, Emits (toStr native v) (v.text native) reach ∧
      (v.isMapped native = true → reach ≤ 23) ∧
      (¬ v.isMapped native = true → reach = (v.text native).length) := by
  rw [toStr]
  split
  · rename_i mapped
    obtain ⟨reach, emits, bounded, short⟩ :=
      (v.mappedAddr native).toStr_emits native
    have whole := (Emits.copy ("::ffff:".toList.map ch)).seq emits
    have length : ("::ffff:".toList.map ch).length = 7 := by decide
    rw [text_mapped mapped]
    exact ⟨_, whole, fun _ => by omega, fun unmapped => absurd mapped unmapped⟩
  · rename_i unmapped
    have zeros := skipped_zeroRun native v
    refine ⟨_, ?_, fun mapped => absurd mapped unmapped, fun _ => rfl⟩
    rw [text, shown, if_neg unmapped]
    split
    · rename_i long
      refine loop_front native v long zeros.inside (Nat.zero_le _) ?_
      rw [In6Text.render]
      simp only [In6Text.segments, Option.map_none, Option.toList_none, List.append_nil, Nat.sub_zero]
      by_cases first : (v.skipped native).start = 0
      · simp [first, groupsAt, lead]
      · have some_group : v.groupsAt 0 (v.skipped native).start ≠ [] :=
          List.ne_nil_of_length_pos (by rw [groupsAt_length]; omega)
        rw [if_neg first, lead_eq some_group]
        simp
    · rename_i short
      exact loop_tail native v _ (by decide) (fun long => absurd long short)

theorem fromStr_text (native : ByteOrder) (v : In6Addr) : fromStr native (v.text native) = .ok v :=
  (fromStr_render native (v.shown native)).trans (congrArg Except.ok (v.shown_addr native))

end In6Addr

inductive InAnyAddr where
  | in4 (addr : In4Addr)
  | in6 (addr : In6Addr)
deriving DecidableEq

namespace InAnyAddr

/-- `FromStr<InAnyAddr>`. -/
def fromStr (native : ByteOrder) (sv : List CharT) : Except Fault InAnyAddr :=
  if find (ch ':') sv = none then
    (In4Addr.fromStr native sv).map .in4
  else
    (In6Addr.fromStr native sv).map .in6

/-- `ToStr<InAnyAddr>::buf_size`. -/
def bufSize : Nat := max In4Addr.bufSize In6Addr.bufSize

/-- `ToStr<InAnyAddr>`. -/
def toStr (native : ByteOrder) : InAnyAddr → Writer CharT
  | .in4 addr => addr.toStr native
  | .in6 addr => addr.toStr native

def text (native : ByteOrder) : InAnyAddr → List CharT
  | .in4 addr => addr.text
  | .in6 addr => addr.text native

theorem toStr_emits (native : ByteOrder) (v : InAnyAddr) :
    ∃ reach, Emits (v.toStr native) (v.text native) reach ∧ reach ≤ max 23 (v.text native).length := by
  cases v with
  | in4 addr =>
    obtain ⟨reach, emits, bounded, _⟩ := addr.toStr_emits native
    exact ⟨reach, emits, by omega⟩
  | in6 addr =>
    obtain ⟨reach, emits, bounded, exact⟩ := addr.toStr_emits native
    refine ⟨reach, emits, ?_⟩
    by_cases mapped : addr.isMapped native = true
    · exact le_max_of_le_left (bounded mapped)
    · exact le_max_of_le_right (exact mapped).le

end InAnyAddr

theorem In6Text.colon_mem (text : In6Text) : ch ':' ∈ text.render := by
  have two (first second : List CharT) (rest : List (List CharT)) :
      ch ':' ∈ joined (ch ':') (first :: second :: rest) := by
    rw [joined_cons first (List.cons_ne_nil second rest)]
    simp
  cases text with
  | full groups count =>
    match groups with
    | first :: second :: rest => exact two first.text second.text (rest.map Group.text)
  | tailed groups tail count =>
    match groups with
    | first :: second :: rest => exact two first.text second.text (segments rest (some tail))
  | gapped left right tail room => simp [In6Text.render]

theorem InAnyAddr.fromStr_text (native : ByteOrder) (v : InAnyAddr) :
    InAnyAddr.fromStr native (v.text native) = .ok v := by
  cases v with
  | in4 addr =>
    have absent : find (ch ':') addr.text = none := find_eq_none.mpr addr.dotted.colon_not_mem
    rw [InAnyAddr.fromStr, InAnyAddr.text, if_pos absent, addr.fromStr_text]
    rfl
  | in6 addr =>
    have present : find (ch ':') (addr.text native) ≠ none :=
      fun missing => find_eq_none.mp missing (addr.shown native).colon_mem
    rw [InAnyAddr.fromStr, InAnyAddr.text, if_neg present, addr.fromStr_text]
    rfl

/-- Printing into any buffer and parsing what it shows is the identity, for IPv6
addresses and for addresses of either kind; so different addresses print differently. -/
theorem InAnyAddr.fromStr_toStr (native : ByteOrder) (mem other : Nat → CharT) :
    (∀ a : In6Addr, In6Addr.fromStr native ((a.toStr native).shown mem) = .ok a) ∧
      (∀ x : InAnyAddr, InAnyAddr.fromStr native ((x.toStr native).shown mem) = .ok x) ∧
      (∀ a b : In6Addr, (a.toStr native).shown mem = (b.toStr native).shown other → a = b) ∧
      ∀ x y : InAnyAddr, (x.toStr native).shown mem = (y.toStr native).shown other → x = y := by
  have single (mem : Nat → CharT) (a : In6Addr) :
      In6Addr.fromStr native ((a.toStr native).shown mem) = .ok a := by
    obtain ⟨reach, emits, _⟩ := a.toStr_emits native
    rw [emits.shown, a.fromStr_text]
  have either (mem : Nat → CharT) (x : InAnyAddr) :
      InAnyAddr.fromStr native ((x.toStr native).shown mem) = .ok x := by
    obtain ⟨reach, emits, _⟩ := x.toStr_emits native
    rw [emits.shown, x.fromStr_text]
  refine ⟨single mem, either mem, fun a b same => ?_, fun x y same => ?_⟩
  · have read := single mem a
    rw [same, single other b, Except.ok.injEq] at read
    exact read.symm
  · have read := either mem x
    rw [same, either other y, Except.ok.injEq] at read
    exact read.symm

end Stdplus.Net
