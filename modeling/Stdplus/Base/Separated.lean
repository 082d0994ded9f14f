import Mathlib

namespace Stdplus.Base

variable {α : Type} [DecidableEq α]

/-- Position of the first occurrence, `none` standing for `npos`. -/
def find (sep : α) (items : List α) : Option Nat := items.findIdx? (· == sep)

/-- Position of the last occurrence, `none` standing for `npos`. -/
def rfind (sep : α) (items : List α) : Option Nat :=
  (find sep items.reverse).map (fun distance => items.length - 1 - distance)

/-- `substr(0, loc)` for a position that may be `npos`. -/
def before (loc : Option Nat) (items : List α) : List α :=
  match loc with
  | none => items
  | some loc => items.take loc

/-- What `remove_prefix(loc == npos ? size() : loc + 1)` leaves. -/
def behind (loc : Option Nat) (items : List α) : List α :=
  match loc with
  | none => []
  | some loc => items.drop (loc + 1)

/-- `substr(loc == npos ? 0 : loc + 1)`. -/
def lastPart (loc : Option Nat) (items : List α) : List α :=
  match loc with
  | none => items
  | some loc => items.drop (loc + 1)

/-- What `remove_suffix(loc == npos ? size() : size() - loc)` leaves. -/
def initPart (loc : Option Nat) (items : List α) : List α :=
  match loc with
  | none => []
  | some loc => items.take loc

omit [DecidableEq α] in
theorem mem_of_mem_before {loc : Option Nat} {items : List α} {item : α}
    (member : item ∈ before loc items) : item ∈ items := by
  cases loc with
  | none => exact member
  | some loc => exact List.mem_of_mem_take member

omit [DecidableEq α] in
theorem mem_of_mem_behind {loc : Option Nat} {items : List α} {item : α}
    (member : item ∈ behind loc items) : item ∈ items := by
  cases loc with
  | none => simp [behind] at member
  | some loc => exact List.mem_of_mem_drop member

omit [DecidableEq α] in
theorem mem_of_mem_lastPart {loc : Option Nat} {items : List α} {item : α}
    (member : item ∈ lastPart loc items) : item ∈ items := by
  cases loc with
  | none => exact member
  | some loc => exact List.mem_of_mem_drop member

omit [DecidableEq α] in
theorem mem_of_mem_initPart {loc : Option Nat} {items : List α} {item : α}
    (member : item ∈ initPart loc items) : item ∈ items := by
  cases loc with
  | none => simp [initPart] at member
  | some loc => exact List.mem_of_mem_take member

theorem find_eq_none {sep : α} {items : List α} : find sep items = none ↔ sep ∉ items := by
  simp only [find, List.findIdx?_eq_none_iff, beq_eq_false_iff_ne]
  constructor
  · intro differs member
    exact differs sep member rfl
  · intro absent item member same
    exact absent (same ▸ member)

theorem find_append {sep : α} {front : List α} (rest : List α) (absent : sep ∉ front) :
    find sep (front ++ sep :: rest) = some front.length := by
  induction front with
  | nil => simp [find, List.findIdx?_cons]
  | cons item front ih =>
    simp only [List.mem_cons, not_or] at absent
    have differs : ¬ item = sep := fun same => absent.1 same.symm
    have later := ih absent.2
    simp only [find] at later
    simp [find, List.findIdx?_cons, differs, later]

theorem rfind_eq_none {sep : α} {items : List α} : rfind sep items = none ↔ sep ∉ items := by
  simp [rfind, find_eq_none]

theorem rfind_append {sep : α} {rest : List α} (front : List α) (absent : sep ∉ rest) :
    rfind sep (front ++ sep :: rest) = some front.length := by
  have reversed := find_append front.reverse (show sep ∉ rest.reverse by simpa using absent)
  simp only [rfind, List.reverse_append, List.reverse_cons, List.append_assoc, List.singleton_append,
    reversed, Option.map_some, List.length_append, List.length_cons, List.length_reverse]
  congr 1
  omega

theorem find_cases (sep : α) (items : List α) :
    (find sep items = none ∧ sep ∉ items) ∨
      ∃ front rest, items = front ++ sep :: rest ∧ sep ∉ front ∧
        find sep items = some front.length := by
  by_cases member : sep ∈ items
  · obtain ⟨front, rest, split, absent⟩ := List.eq_append_cons_of_mem member
    exact .inr ⟨front, rest, split, absent, by rw [split, find_append rest absent]⟩
  · exact .inl ⟨find_eq_none.mpr member, member⟩

theorem rfind_cases (sep : α) (items : List α) :
    (rfind sep items = none ∧ sep ∉ items) ∨
      ∃ front rest, items = front ++ sep :: rest ∧ sep ∉ rest ∧
        rfind sep items = some front.length := by
  by_cases member : sep ∈ items
  · obtain ⟨front, rest, split, absent⟩ :=
      List.eq_append_cons_of_mem (List.mem_reverse.mpr member)
    have turned : items = rest.reverse ++ sep :: front.reverse := by
      have back := congrArg List.reverse split
      simpa using back
    have missing : sep ∉ front.reverse := by simpa using absent
    exact .inr ⟨rest.reverse, front.reverse, turned, missing, by rw [turned, rfind_append _ missing]⟩
  · exact .inl ⟨rfind_eq_none.mpr member, member⟩

omit [DecidableEq α] in
@[simp] theorem take_at_sep (sep : α) (front rest : List α) :
    (front ++ sep :: rest).take front.length = front := List.take_left

omit [DecidableEq α] in
@[simp] theorem drop_after_sep (sep : α) (front rest : List α) :
    (front ++ sep :: rest).drop (front.length + 1) = rest := by
  rw [List.append_cons]
  exact List.drop_left' (by simp)

omit [DecidableEq α] in
@[simp] theorem getElem?_after_sep (sep : α) (front rest : List α) :
    (front ++ sep :: rest)[front.length + 1]? = rest.head? := by
  rw [List.append_cons, List.getElem?_append_right (by simp)]
  cases rest <;> simp

omit [DecidableEq α] in
theorem append_sep_inj {sep : α} {front other rest tail : List α} (absent : sep ∉ front)
    (missing : sep ∉ other) (same : front ++ sep :: rest = other ++ sep :: tail) :
    front = other ∧ rest = tail := by
  induction front generalizing other with
  | nil =>
    cases other with
    | nil => simpa using same
    | cons item other =>
      simp only [List.nil_append, List.cons_append, List.cons.injEq] at same
      exact absurd (by simp [same.1]) missing
  | cons item front ih =>
    cases other with
    | nil =>
      simp only [List.nil_append, List.cons_append, List.cons.injEq] at same
      exact absurd (by simp [same.1]) absent
    | cons head other =>
      simp only [List.cons_append, List.cons.injEq] at same
      simp only [List.mem_cons, not_or] at absent missing
      obtain ⟨fronts, rests⟩ := ih absent.2 missing.2 same.2
      exact ⟨by rw [same.1, fronts], rests⟩

omit [DecidableEq α] in
theorem append_sep_inj_right {sep : α} {front other rest tail : List α} (absent : sep ∉ rest)
    (missing : sep ∉ tail) (same : front ++ sep :: rest = other ++ sep :: tail) :
    front = other ∧ rest = tail := by
  have turned := congrArg List.reverse same
  simp only [List.reverse_append, List.reverse_cons, List.append_assoc, List.singleton_append] at turned
  obtain ⟨rests, fronts⟩ := append_sep_inj (by simpa using absent) (by simpa using missing) turned
  exact ⟨List.reverse_inj.mp fronts, List.reverse_inj.mp rests⟩

abbrev joined (sep : α) (segments : List (List α)) : List α := [sep].intercalate segments

omit [DecidableEq α] in
theorem joined_cons {sep : α} {segments : List (List α)} (segment : List α) (more : segments ≠ []) :
    joined sep (segment :: segments) = segment ++ sep :: joined sep segments := by
  simp [joined, List.intercalate_cons_of_ne_nil more]

omit [DecidableEq α] in
theorem joined_append {sep : α} {front rest : List (List α)} (some_front : front ≠ [])
    (some_rest : rest ≠ []) :
    joined sep (front ++ rest) = joined sep front ++ sep :: joined sep rest := by
  induction front with
  | nil => exact absurd rfl some_front
  | cons segment front ih =>
    cases front with
    | nil => simpa using joined_cons segment some_rest
    | cons next front =>
      rw [List.cons_append, joined_cons segment (by simp), ih (by simp), joined_cons segment (by simp)]
      simp

omit [DecidableEq α] in
theorem joined_concat (sep : α) (front : List (List α)) (last : List α) :
    joined sep (front ++ [last]) = front.flatMap (· ++ [sep]) ++ last := by
  induction front with
  | nil => simp
  | cons segment front ih =>
    rw [List.cons_append, joined_cons segment (by simp), ih]
    simp

omit [DecidableEq α] in
theorem joined_length (sep : α) {segments : List (List α)} (more : segments ≠ []) :
    (joined sep segments).length + 1 = (segments.map (·.length + 1)).sum := by
  induction segments with
  | nil => exact absurd rfl more
  | cons segment segments ih =>
    by_cases alone : segments = []
    · simp [alone]
    · rw [joined_cons segment alone, List.map_cons, List.sum_cons, ← ih alone, List.length_append,
        List.length_cons]
      omega

omit [DecidableEq α] in
theorem joined_eq_nil {sep : α} {segments : List (List α)}
    (filled : ∀ segment ∈ segments, segment ≠ []) : joined sep segments = [] ↔ segments = [] := by
  cases segments with
  | nil => simp
  | cons segment segments =>
    have head : segment ≠ [] := filled segment (by simp)
    cases segments with
    | nil => simpa using head
    | cons next rest => simp [joined_cons segment (List.cons_ne_nil next rest), head]

omit [DecidableEq α] in
theorem joined_head_ne {sep : α} {segments : List (List α)}
    (filled : ∀ segment ∈ segments, segment ≠ []) (clean : ∀ segment ∈ segments, sep ∉ segment)
    (rest : List α) : joined sep segments ≠ sep :: rest := by
  intro same
  cases segments with
  | nil => simp at same
  | cons segment segments =>
    have head : segment ≠ [] := filled segment (by simp)
    have absent := clean segment (by simp)
    cases segment with
    | nil => exact head rfl
    | cons item segment =>
      simp only [List.mem_cons, not_or] at absent
      cases segments with
      | nil =>
        simp only [joined, List.intercalate_singleton, List.cons.injEq] at same
        exact absent.1 same.1.symm
      | cons next tail =>
        rw [joined_cons _ (List.cons_ne_nil next tail)] at same
        simp only [List.cons_append, List.cons.injEq] at same
        exact absent.1 same.1.symm

omit [DecidableEq α] in
theorem joined_getLast?_ne {sep : α} {segments : List (List α)}
    (filled : ∀ segment ∈ segments, segment ≠ []) (clean : ∀ segment ∈ segments, sep ∉ segment) :
    (joined sep segments).getLast? ≠ some sep := by
  intro same
  rcases List.eq_nil_or_concat segments with rfl | ⟨front, segment, rfl⟩
  · simp at same
  · have ends : (joined sep (front ++ [segment])).getLast? = segment.getLast? := by
      by_cases alone : front = []
      · simp [alone]
      · rw [joined_append alone (by simp), List.getLast?_append_of_ne_nil _ (by simp),
          List.getLast?_cons_of_ne_nil (by simpa using filled segment (by simp)), joined,
          List.intercalate_singleton]
    rw [List.concat_eq_append, ends] at same
    exact clean segment (by simp) (List.mem_of_getLast? same)

omit [DecidableEq α] in
theorem mem_joined {sep item : α} {segments : List (List α)} (member : item ∈ joined sep segments) :
    item = sep ∨ ∃ segment ∈ segments, item ∈ segment := by
  induction segments with
  | nil => simp at member
  | cons segment segments ih =>
    by_cases alone : segments = []
    · subst alone
      exact .inr ⟨segment, by simp, by simpa using member⟩
    · rw [joined_cons segment alone, List.mem_append, List.mem_cons] at member
      rcases member with here | rfl | later
      · exact .inr ⟨segment, by simp, here⟩
      · exact .inl rfl
      · rcases ih later with same | ⟨other, among, inside⟩
        · exact .inl same
        · exact .inr ⟨other, by simp [among], inside⟩

/-- The pieces between the separators, where the first piece has begun already. -/
def pieces (sep : α) (begun : List α) : List α → List (List α)
  | [] => [begun]
  | item :: items => if item = sep then begun :: pieces sep [] items else pieces sep (begun ++ [item]) items

theorem pieces_eq (sep : α) (begun items : List α) :
    pieces sep begun items = List.splitOnPPrepend (· == sep) items begun.reverse := by
  induction items generalizing begun with
  | nil => simp [pieces]
  | cons item items ih =>
    rw [pieces, ih, ih, List.splitOnPPrepend_cons_eq_if]
    simp only [beq_iff_eq, List.reverse_nil, List.splitOnPPrepend_nil_right, List.reverse_reverse,
      List.reverse_append, List.reverse_cons, List.nil_append, List.singleton_append]

theorem pieces_start (sep : α) (items : List α) : pieces sep [] items = items.splitOn sep := by
  rw [pieces_eq, List.reverse_nil, List.splitOnPPrepend_nil_right, List.splitOn_eq_splitOnP]

theorem pieces_ne_nil (sep : α) (begun items : List α) : pieces sep begun items ≠ [] := by
  rw [pieces_eq]
  exact List.splitOnPPrepend_ne_nil _ _ _

theorem pieces_append (sep : α) (begun front rest : List α) :
    pieces sep begun (front ++ rest) = (pieces sep begun front).dropLast ++
      pieces sep ((pieces sep begun front).getLast (pieces_ne_nil sep begun front)) rest := by
  induction front generalizing begun with
  | nil => rfl
  | cons item front ih =>
    by_cases here : item = sep
    · simp only [List.cons_append, pieces, if_pos here, ih,
        List.dropLast_cons_of_ne_nil (pieces_ne_nil sep [] front), List.getLast_cons (pieces_ne_nil sep [] front)]
    · simp only [List.cons_append, pieces, if_neg here, ih]

theorem pieces_extend {sep : α} {begun front later rest : List α} {done : List (List α)}
    (same : pieces sep begun front = done ++ pieces sep later rest) (more : List α) :
    pieces sep begun (front ++ more) = done ++ pieces sep later (rest ++ more) := by
  have some_rest := pieces_ne_nil sep later rest
  rw [pieces_append, pieces_append sep later]
  simp only [same, List.dropLast_append_of_ne_nil some_rest, List.getLast_append_of_ne_nil _ some_rest,
    List.append_assoc]

end Stdplus.Base
