import Stdplus.Base.Bytes
import Stdplus.Base.Transition

namespace Stdplus.Raw

open Stdplus.Base

/-- A `std::basic_string_view` or `std::span`: where it begins in the buffer, and its elements. -/
structure View where
  data : Nat
  size : Nat
deriving DecidableEq

/-- The comparisons of the macros, `<` and `!=`. -/
inductive Comp where
  | lt
  | ne
deriving DecidableEq

def Comp.holds (comp : Comp) (bytes size : Nat) : Bool :=
  match comp with
  | .lt => bytes < size
  | .ne => bytes ≠ size

section

-- Elements are of `width` bytes; what fails is the text of an `exception::Incomplete`.
variable (width : Nat) (buf : List UInt8)

/-- `STDPLUS_COPY_FROM(func, comp)` for a type of some size. -/
def copyFromWith (func : String) (comp : Comp) (sizeof : Nat) (c : View) : Except String (List UInt8) :=
  let bytes := c.size * width
  if comp.holds bytes sizeof then .error s!"{func}: {bytes} < {sizeof}" else .ok ((buf.drop c.data).take sizeof)

def copyFrom (sizeof : Nat) (c : View) : Except String (List UInt8) := copyFromWith width buf "copyFrom" .lt sizeof c

def copyFromStrict (sizeof : Nat) (c : View) : Except String (List UInt8) :=
  copyFromWith width buf "copyFromStrict" .ne sizeof c

/-- `STDPLUS_REF_FROM(func, comp)`, where it refers to. -/
def refFromWith (func : String) (comp : Comp) (sizeof : Nat) (c : View) : Except String Nat :=
  let bytes := c.size * width
  if comp.holds bytes sizeof then .error s!"{func}: {bytes} < {sizeof}" else .ok c.data

def refFrom (sizeof : Nat) (c : View) : Except String Nat := refFromWith width "refFrom" .lt sizeof c

def refFromStrict (sizeof : Nat) (c : View) : Except String Nat := refFromWith width "refFromStrict" .ne sizeof c

/-- `remove_prefix`, or `subspan`. -/
def View.removePrefix (n : Nat) (c : View) : View := ⟨c.data + n * width, c.size - n⟩

def extract (sizeof : Nat) (data : View) : Except String (List UInt8 × View) := do
  let ret ← copyFrom width buf sizeof data
  .ok (ret, data.removePrefix width (sizeof / width))

def extractRef (sizeof : Nat) (data : View) : Except String (Nat × View) := do
  let ret ← refFrom width sizeof data
  .ok (ret, data.removePrefix width (sizeof / width))

end

/-- What has been taken from a view: the bytes of a copy, or a reference. -/
inductive Taken where
  | copied (bytes : List UInt8)
  | referred (place sizeof : Nat)
deriving DecidableEq

structure Cursor where
  buf : List UInt8
  view : View
  taken : List Taken
deriving DecidableEq

/-- `assign` stores through the reference that was taken at `k`. -/
inductive Action where
  | extract (sizeof : Nat)
  | extractRef (sizeof : Nat)
  | assign (k : Nat) (value : List UInt8)
deriving DecidableEq

namespace Taken

def sizeof : Taken → Nat
  | copied bytes => bytes.length
  | referred _ sizeof => sizeof

def value (buf : List UInt8) : Taken → List UInt8
  | copied bytes => bytes
  | referred place sizeof => (buf.drop place).take sizeof

end Taken

namespace Cursor

def values (cursor : Cursor) : List (List UInt8) := cursor.taken.map (Taken.value cursor.buf)

def offset (cursor : Cursor) (k : Nat) : Nat := ((cursor.taken.take k).map Taken.sizeof).sum

/-- A step; the sizes are multiples of that of an element, and only a reference can be stored through. -/
def step (width : Nat) (cursor : Cursor) (action : Action) : Option Cursor :=
  match action with
  | .extract sizeof =>
    if width ∣ sizeof then
      match Raw.extract width cursor.buf sizeof cursor.view with
      | .error _ => some cursor
      | .ok (ret, view) => some { cursor with view := view, taken := cursor.taken ++ [.copied ret] }
    else
      none
  | .extractRef sizeof =>
    if width ∣ sizeof then
      match Raw.extractRef width sizeof cursor.view with
      | .error _ => some cursor
      | .ok (ret, view) => some { cursor with view := view, taken := cursor.taken ++ [.referred ret sizeof] }
    else
      none
  | .assign k value =>
    match cursor.taken[k]? with
    | some (.referred place sizeof) =>
      if value.length = sizeof then some { cursor with buf := overwrite cursor.buf place value } else none
    | _ => none

end Cursor

/-- The pieces lie one behind the other from `start` on, and a reference is to its own. -/
inductive Laid : Nat → List Taken → List (List UInt8) → Prop where
  | nil (start : Nat) : Laid start [] []
  | copied {start : Nat} {taken : List Taken} {pieces : List (List UInt8)} (bytes : List UInt8) :
      Laid (start + bytes.length) taken pieces → Laid start (.copied bytes :: taken) (bytes :: pieces)
  | referred {start : Nat} {taken : List Taken} {pieces : List (List UInt8)} (piece : List UInt8) :
      Laid (start + piece.length) taken pieces →
      Laid start (.referred start piece.length :: taken) (piece :: pieces)

namespace Laid

variable {start : Nat} {taken : List Taken} {pieces : List (List UInt8)} {front rest : List UInt8}

theorem concat_copied (laid : Laid start taken pieces) (bytes : List UInt8) :
    Laid start (taken ++ [.copied bytes]) (pieces ++ [bytes]) := by
  induction laid with
  | nil start => exact .copied bytes (.nil _)
  | copied other _ ih => exact .copied other ih
  | referred piece _ ih => exact .referred piece ih

theorem concat_referred (laid : Laid start taken pieces) (piece : List UInt8) :
    Laid start (taken ++ [.referred (start + pieces.flatten.length) piece.length]) (pieces ++ [piece]) := by
  induction laid with
  | nil start => exact .referred piece (.nil _)
  | copied other _ ih =>
    rw [List.flatten_cons, List.length_append, ← Nat.add_assoc]
    exact .copied other ih
  | referred other _ ih =>
    rw [List.flatten_cons, List.length_append, ← Nat.add_assoc]
    exact .referred other ih

theorem sizes (laid : Laid start taken pieces) : taken.map Taken.sizeof = pieces.map List.length := by
  induction laid with
  | nil start => rfl
  | copied bytes _ ih => exact congrArg (bytes.length :: ·) ih
  | referred piece _ ih => exact congrArg (piece.length :: ·) ih

theorem values (laid : Laid start taken pieces) (place : front.length = start) :
    taken.map (Taken.value (front ++ pieces.flatten ++ rest)) = pieces := by
  induction laid generalizing front with
  | nil start => rfl
  | @copied start taken pieces bytes _ ih =>
    have next : (front ++ bytes).length = start + bytes.length := by rw [List.length_append, place]
    rw [List.flatten_cons, ← List.append_assoc front, List.map_cons, ih next]
    rfl
  | @referred start taken pieces piece _ ih =>
    have next : (front ++ piece).length = start + piece.length := by rw [List.length_append, place]
    rw [List.flatten_cons, ← List.append_assoc front, List.map_cons, ih next, Taken.value, ← place,
      List.append_assoc, List.append_assoc, List.drop_left, List.take_left]

theorem assign (laid : Laid start taken pieces) (begins : front.length = start) {k place sizeof : Nat}
    (found : taken[k]? = some (.referred place sizeof)) {value : List UInt8} (length : value.length = sizeof)
    (rest : List UInt8) : Laid start taken (pieces.set k value) ∧
      overwrite (front ++ pieces.flatten ++ rest) place value = front ++ (pieces.set k value).flatten ++ rest := by
  induction laid generalizing front k with
  | nil start => cases found
  | @copied start taken pieces bytes laid ih =>
    have next : (front ++ bytes).length = start + bytes.length := by rw [List.length_append, begins]
    cases k with
    | zero => cases found
    | succ k =>
      obtain ⟨later, same⟩ := ih next found
      refine ⟨.copied bytes later, ?_⟩
      rw [List.set_cons_succ, List.flatten_cons, List.flatten_cons, ← List.append_assoc front, same,
        List.append_assoc front]
  | @referred start taken pieces piece laid ih =>
    have next : (front ++ piece).length = start + piece.length := by rw [List.length_append, begins]
    cases k with
    | zero =>
      cases found
      rw [List.set_cons_zero, List.flatten_cons, List.flatten_cons]
      refine ⟨length ▸ .referred value (length.symm ▸ laid), ?_⟩
      have part := overwrite_part front piece (pieces.flatten ++ rest) value length
      rw [begins] at part
      simpa only [List.append_assoc] using part
    | succ k =>
      obtain ⟨later, same⟩ := ih next found
      refine ⟨.referred piece later, ?_⟩
      rw [List.set_cons_succ, List.flatten_cons, List.flatten_cons, ← List.append_assoc front, same,
        List.append_assoc front]

theorem place (laid : Laid start taken pieces) {k place sizeof : Nat}
    (found : taken[k]? = some (.referred place sizeof)) : place = start + ((taken.take k).map Taken.sizeof).sum := by
  induction laid generalizing k with
  | nil start => cases found
  | copied bytes _ ih =>
    cases k with
    | zero => cases found
    | succ k =>
      rw [ih found, List.take_succ_cons, List.map_cons, List.sum_cons, Nat.add_assoc]
      rfl
  | referred piece _ ih =>
    cases k with
    | zero =>
      cases found
      rfl
    | succ k =>
      rw [ih found, List.take_succ_cons, List.map_cons, List.sum_cons, Nat.add_assoc]
      rfl

end Laid

/-- What a run that began with a view of `data` has made of the buffer around it. -/
structure Cut (width : Nat) (front data behind : List UInt8) (cursor : Cursor) : Prop where
  within : cursor.values.flatten.length ≤ data.length
  buf : cursor.buf = front ++ cursor.values.flatten ++ data.drop cursor.values.flatten.length ++ behind
  view : cursor.view = ⟨front.length + cursor.values.flatten.length,
    (data.length - cursor.values.flatten.length) / width⟩
  whole : width ∣ data.length - cursor.values.flatten.length
  /-- A copy is of what was there at first. -/
  copied : ∀ k bytes, cursor.taken[k]? = some (.copied bytes) →
    bytes = (data.drop (cursor.offset k)).take bytes.length
  referred : ∀ k place sizeof, cursor.taken[k]? = some (.referred place sizeof) →
    place = front.length + cursor.offset k
  /-- Storing through a reference changes its value only. -/
  assigned : ∀ k value next, cursor.step width (.assign k value) = some next →
    next.values = cursor.values.set k value
  /-- What does not fit the rest is refused. -/
  copies : ∀ func comp sizeof, copyFromWith width cursor.buf func comp sizeof cursor.view =
    let left := data.drop cursor.values.flatten.length
    if comp.holds left.length sizeof then .error s!"{func}: {left.length} < {sizeof}" else .ok (left.take sizeof)
  refers : ∀ func comp sizeof, refFromWith width func comp sizeof cursor.view =
    let left := data.drop cursor.values.flatten.length
    if comp.holds left.length sizeof then .error s!"{func}: {left.length} < {sizeof}"
    else .ok (front.length + cursor.values.flatten.length)

/-- The pieces that a run has cut from the front of `data`, as they are now. -/
structure Lies (width : Nat) (front data behind : List UInt8) (cursor : Cursor) (pieces : List (List UInt8)) :
    Prop where
  laid : Laid front.length cursor.taken pieces
  within : pieces.flatten.length ≤ data.length
  buf : cursor.buf = front ++ pieces.flatten ++ (data.drop pieces.flatten.length ++ behind)
  view : cursor.view = ⟨front.length + pieces.flatten.length, (data.length - pieces.flatten.length) / width⟩
  whole : width ∣ data.length - pieces.flatten.length
  copied : ∀ k bytes, cursor.taken[k]? = some (.copied bytes) →
    bytes = (data.drop (cursor.offset k)).take bytes.length

namespace Lies

variable {width : Nat} {front data behind : List UInt8} {cursor next : Cursor} {pieces : List (List UInt8)}

theorem start (aligned : width ∣ data.length) :
    Lies width front data behind ⟨front ++ data ++ behind, ⟨front.length, data.length / width⟩, []⟩ [] where
  laid := .nil _
  within := Nat.zero_le _
  buf := by simp
  view := rfl
  whole := aligned
  copied k bytes found := by cases found

theorem bytes (lies : Lies width front data behind cursor pieces) :
    cursor.view.size * width = (data.drop pieces.flatten.length).length := by
  rw [lies.view, List.length_drop]
  exact Nat.div_mul_cancel lies.whole

theorem seen (lies : Lies width front data behind cursor pieces) :
    cursor.buf.drop cursor.view.data = data.drop pieces.flatten.length ++ behind := by
  rw [lies.buf, lies.view, ← List.length_append]
  exact List.drop_left

theorem copies (lies : Lies width front data behind cursor pieces) (func : String) (comp : Comp) (sizeof : Nat) :
    copyFromWith width cursor.buf func comp sizeof cursor.view =
      let left := data.drop pieces.flatten.length
      if comp.holds left.length sizeof then .error s!"{func}: {left.length} < {sizeof}"
      else .ok (left.take sizeof) := by
  simp only [copyFromWith, lies.bytes, lies.seen]
  split
  · rfl
  · rename_i fits
    have enough : sizeof ≤ (data.drop pieces.flatten.length).length := by
      cases comp <;> simp [Comp.holds] at fits ⊢ <;> omega
    rw [List.take_append_of_le_length enough]

theorem refers (lies : Lies width front data behind cursor pieces) (func : String) (comp : Comp) (sizeof : Nat) :
    refFromWith width func comp sizeof cursor.view =
      let left := data.drop pieces.flatten.length
      if comp.holds left.length sizeof then .error s!"{func}: {left.length} < {sizeof}"
      else .ok (front.length + pieces.flatten.length) := by
  simp only [refFromWith, lies.bytes]
  rw [lies.view]

theorem cut (lies : Lies width front data behind cursor pieces) {sizeof : Nat} (aligned : width ∣ sizeof)
    (fits : sizeof ≤ (data.drop pieces.flatten.length).length) {item : Taken}
    (laid : Laid front.length (cursor.taken ++ [item])
      (pieces ++ [(data.drop pieces.flatten.length).take sizeof]))
    (own : ∀ bytes, item = .copied bytes → bytes = (data.drop pieces.flatten.length).take sizeof) :
    Lies width front data behind
      { cursor with view := cursor.view.removePrefix width (sizeof / width), taken := cursor.taken ++ [item] }
      (pieces ++ [(data.drop pieces.flatten.length).take sizeof]) := by
  have more : (pieces ++ [(data.drop pieces.flatten.length).take sizeof]).flatten.length =
      pieces.flatten.length + sizeof := by
    rw [List.flatten_append, List.length_append, List.flatten_singleton, List.length_take_of_le fits]
  have size := List.length_drop ▸ fits
  refine ⟨laid, ?_, ?_, ?_, ?_, ?_⟩
  · have within := lies.within
    omega
  · rw [more, lies.buf, List.flatten_append, List.flatten_singleton, ← List.drop_drop]
    simp only [List.append_assoc]
    rw [← List.append_assoc (List.take _ _), List.take_append_drop]
  · obtain ⟨count, rfl⟩ := aligned
    have fewer : (data.length - pieces.flatten.length) / width - width * count / width =
        (data.length - (pieces.flatten.length + width * count)) / width := by
      rw [← Nat.sub_sub, Nat.sub_mul_div]
      rcases Nat.eq_zero_or_pos width with rfl | positive
      · simp
      · rw [Nat.mul_div_cancel_left _ positive]
    rw [more, View.removePrefix, lies.view, Nat.div_mul_cancel (Nat.dvd_mul_right width count), Nat.add_assoc, fewer]
  · rw [more, ← Nat.sub_sub]
    exact Nat.dvd_sub lies.whole aligned
  · intro k bytes found
    rcases Nat.lt_trichotomy k cursor.taken.length with early | rfl | late
    · rw [List.getElem?_append_left early] at found
      rw [Cursor.offset, List.take_append_of_le_length (Nat.le_of_lt early)]
      exact lies.copied k bytes found
    · rw [List.getElem?_concat_length, Option.some.injEq] at found
      have copy := own bytes found
      have total : ((cursor.taken ++ [item]).take cursor.taken.length).map Taken.sizeof = pieces.map List.length := by
        rw [List.take_left]
        exact lies.laid.sizes
      rw [Cursor.offset, total, ← List.length_flatten]
      rw [copy, List.length_take_of_le fits]
    · rw [List.getElem?_eq_none (by simp; omega)] at found
      cases found

theorem extract_eq (lies : Lies width front data behind cursor pieces) (sizeof : Nat) :
    extract width cursor.buf sizeof cursor.view =
      let left := data.drop pieces.flatten.length
      if left.length < sizeof then .error s!"copyFrom: {left.length} < {sizeof}"
      else .ok (left.take sizeof, cursor.view.removePrefix width (sizeof / width)) := by
  rw [extract, copyFrom, lies.copies]
  simp only [Comp.holds, decide_eq_true_eq]
  split <;> rfl

theorem extractRef_eq (lies : Lies width front data behind cursor pieces) (sizeof : Nat) :
    extractRef width sizeof cursor.view =
      let left := data.drop pieces.flatten.length
      if left.length < sizeof then .error s!"refFrom: {left.length} < {sizeof}"
      else .ok (front.length + pieces.flatten.length, cursor.view.removePrefix width (sizeof / width)) := by
  rw [extractRef, refFrom, lies.refers]
  simp only [Comp.holds, decide_eq_true_eq]
  split <;> rfl

theorem step_assign (lies : Lies width front data behind cursor pieces) {k : Nat} {value : List UInt8}
    (stepped : cursor.step width (.assign k value) = some next) :
    Lies width front data behind next (pieces.set k value) := by
  rw [Cursor.step] at stepped
  split at stepped
  · rename_i place sizeof found
    split at stepped
    · rename_i length
      cases stepped
      obtain ⟨laid, same⟩ := lies.laid.assign rfl found length (data.drop pieces.flatten.length ++ behind)
      have total : (pieces.set k value).flatten.length = pieces.flatten.length := by
        rw [List.length_flatten, List.length_flatten, ← laid.sizes, lies.laid.sizes]
      refine ⟨laid, ?_, ?_, ?_, ?_, lies.copied⟩
      · rw [total]
        exact lies.within
      · rw [total, ← same, lies.buf]
      · rw [total]
        exact lies.view
      · rw [total]
        exact lies.whole
    · cases stepped
  · cases stepped

theorem step (lies : Lies width front data behind cursor pieces) {action : Action}
    (stepped : cursor.step width action = some next) : ∃ later, Lies width front data behind next later := by
  cases action with
  | extract sizeof =>
    rw [Cursor.step, lies.extract_eq] at stepped
    split at stepped
    · rename_i aligned
      by_cases short : (data.drop pieces.flatten.length).length < sizeof
      · simp only [if_pos short] at stepped
        cases stepped
        exact ⟨pieces, lies⟩
      · simp only [if_neg short] at stepped
        cases stepped
        refine ⟨_, lies.cut aligned (Nat.le_of_not_lt short) (lies.laid.concat_copied _) fun bytes same => ?_⟩
        exact (Taken.copied.inj same).symm
    · cases stepped
  | extractRef sizeof =>
    rw [Cursor.step, lies.extractRef_eq] at stepped
    split at stepped
    · rename_i aligned
      by_cases short : (data.drop pieces.flatten.length).length < sizeof
      · simp only [if_pos short] at stepped
        cases stepped
        exact ⟨pieces, lies⟩
      · simp only [if_neg short] at stepped
        cases stepped
        have laid := lies.laid.concat_referred ((data.drop pieces.flatten.length).take sizeof)
        rw [List.length_take_of_le (Nat.le_of_not_lt short)] at laid
        refine ⟨_, lies.cut aligned (Nat.le_of_not_lt short) laid ?_⟩
        rintro _ ⟨⟩
    · cases stepped
  | assign k value => exact ⟨_, lies.step_assign stepped⟩

theorem values_eq (lies : Lies width front data behind cursor pieces) : cursor.values = pieces := by
  rw [Cursor.values, lies.buf]
  exact lies.laid.values rfl

theorem cuts (lies : Lies width front data behind cursor pieces) : Cut width front data behind cursor := by
  have values := lies.values_eq
  refine { within := ?_, buf := ?_, view := ?_, whole := ?_, copied := lies.copied, referred := ?_, assigned := ?_,
           copies := ?_, refers := ?_ }
  · rw [values]
    exact lies.within
  · rw [values, List.append_assoc]
    exact lies.buf
  · rw [values]
    exact lies.view
  · rw [values]
    exact lies.whole
  · intro k place sizeof found
    exact lies.laid.place found
  · intro k value next stepped
    rw [(lies.step_assign stepped).values_eq, values]
  · rw [values]
    exact lies.copies
  · rw [values]
    exact lies.refers

end Lies

/-- A view of the data in the buffer, with nothing taken yet. -/
def Whole (width : Nat) (front data behind : List UInt8) (cursor : Cursor) : Prop :=
  width ∣ data.length ∧ cursor = ⟨front ++ data ++ behind, ⟨front.length, data.length / width⟩, []⟩

theorem runs_lie {width : Nat} {front data behind : List UInt8} {cursor : Cursor}
    (reached : Reachable (Whole width front data behind)
      (fun cursor next => ∃ action, cursor.step width action = some next) cursor) :
    ∃ pieces, Lies width front data behind cursor pieces := by
  induction reached with
  | start whole =>
    obtain ⟨aligned, rfl⟩ := whole
    exact ⟨[], .start aligned⟩
  | step _ stepped ih =>
    obtain ⟨pieces, lies⟩ := ih
    obtain ⟨action, stepped⟩ := stepped
    exact lies.step stepped

/-- Over whole runs. -/
theorem runs_cut (width : Nat) (front data behind : List UInt8) (cursor : Cursor)
    (reached : Reachable (Whole width front data behind)
      (fun cursor next => ∃ action, cursor.step width action = some next) cursor) :
    Cut width front data behind cursor := by
  obtain ⟨pieces, lies⟩ := runs_lie reached
  exact lies.cuts

/-- A reference is stored through after a copy was taken behind it. -/
theorem runs_cut_assigned : ∃ cursor, [.extractRef 2, .extract 2, .assign 0 [8, 9], .extract 4].foldlM (Cursor.step 2)
    ⟨[0, 1, 2, 3, 4, 5, 6, 7], ⟨1, 3⟩, []⟩ = some cursor ∧ Cut 2 [0] [1, 2, 3, 4, 5, 6] [7] cursor ∧
      cursor.buf = [0, 8, 9, 3, 4, 5, 6, 7] ∧ cursor.values = [[8, 9], [3, 4]] := by
  obtain ⟨cursor, ran, buf, values⟩ : ∃ cursor, [.extractRef 2, .extract 2, .assign 0 [8, 9], .extract 4].foldlM
      (Cursor.step 2) ⟨[0, 1, 2, 3, 4, 5, 6, 7], ⟨1, 3⟩, []⟩ = some cursor ∧
      cursor.buf = [0, 8, 9, 3, 4, 5, 6, 7] ∧ cursor.values = [[8, 9], [3, 4]] := ⟨_, rfl, by decide, by decide⟩
  refine ⟨cursor, ran, ?_, buf, values⟩
  exact runs_cut 2 [0] [1, 2, 3, 4, 5, 6] [7] cursor (.foldlM_some (.start ⟨by decide, rfl⟩) ran)

theorem runs_strict (width : Nat) (front data behind : List UInt8) (cursor : Cursor)
    (reached : Reachable (Whole width front data behind)
      (fun cursor next => ∃ action, cursor.step width action = some next) cursor) (sizeof : Nat) :
    let left := data.drop cursor.values.flatten.length
    (∀ bytes, copyFromStrict width cursor.buf sizeof cursor.view = .ok bytes ↔ left.length = sizeof ∧ bytes = left) ∧
      ∀ place, refFromStrict width sizeof cursor.view = .ok place ↔
        left.length = sizeof ∧ place = front.length + cursor.values.flatten.length := by
  obtain ⟨pieces, lies⟩ := runs_lie reached
  rw [lies.values_eq]
  refine ⟨fun bytes => ?_, fun place => ?_⟩
  · rw [copyFromStrict, lies.copies]
    by_cases fits : (data.drop pieces.flatten.length).length = sizeof
    · simp only [Comp.holds, fits, ne_eq, not_true_eq_false, decide_false, Bool.false_eq_true, if_false, true_and]
      rw [← fits, List.take_length, Except.ok.injEq, eq_comm]
    · simp only [Comp.holds, fits, ne_eq, not_false_eq_true, decide_true, if_true, false_and, reduceCtorEq]
  · rw [refFromStrict, lies.refers]
    by_cases fits : (data.drop pieces.flatten.length).length = sizeof
    · simp only [Comp.holds, fits, ne_eq, not_true_eq_false, decide_false, Bool.false_eq_true, if_false, true_and,
        Except.ok.injEq]
      exact eq_comm
    · simp only [Comp.holds, fits, ne_eq, not_false_eq_true, decide_true, if_true, false_and, reduceCtorEq]

end Stdplus.Raw
