import Stdplus.Zstring.StringView

/-! `basic_zstring_view`: the queries are generated by two macros and forwarded to the view
inside. -/

namespace Stdplus

variable {CharT : Type} [Zero CharT]

/-- A view of characters behind which the terminator stands; builds without checks make such views
also of strings with a terminator inside. -/
structure ZstringView (CharT : Type) where
  sv : List CharT

namespace ZstringView

variable (traits : CharTraits CharT)

def ofPointer (s : Zstring CharT) : ZstringView CharT where
  sv := StringView.ofPointer traits s

/-- The constructors that check in debug builds, from an array and from a `std::basic_string`. -/
def validated [DecidableEq CharT] (data : List CharT) (min max : Nat) : Except StringFault (ZstringView CharT) :=
  match zstringValidate data min max with
  | .error fault => .error fault
  | .ok size => .ok ⟨data.take size⟩

def ofArray [DecidableEq CharT] (str : List CharT) : Except StringFault (ZstringView CharT) :=
  validated str 0 str.length

def ofString [DecidableEq CharT] (str : List CharT) : Except StringFault (ZstringView CharT) :=
  validated (str ++ [0]) str.length (str.length + 1)

theorem validated_free [DecidableEq CharT] {data : List CharT} {min max : Nat} {z : ZstringView CharT}
    (made : validated data min max = .ok z) : 0 ∉ z.sv := by
  rw [validated] at made
  split at made
  · cases made
  · rename_i valid
    cases made
    exact (zstringValidate_ok valid).2

theorem ofString_ok_iff [DecidableEq CharT] {str : List CharT} {z : ZstringView CharT} :
    ofString str = .ok z ↔ 0 ∉ str ∧ z.sv = str := by
  rw [ofString, validated, zstringValidate, zstringFindTerm_concat]
  by_cases inside : 0 ∈ str
  · simp [inside]
  · simp only [inside, if_false, not_false_eq_true, true_and, List.take_left, Except.ok.injEq]
    constructor
    · rintro rfl
      rfl
    · rintro rfl
      rfl

/-- `zstring_view_has`: the parameter of the first overload has the name of the member, which
it hides. -/
def has (func : List CharT → HasArg CharT → Bool) (z : ZstringView CharT) : HasArg CharT → Bool
  | .view sv => func sv (.view sv)
  | .char c => func z.sv (.char c)
  | .pointer s => func z.sv (.pointer s)

def startsWith : ZstringView CharT → HasArg CharT → Bool := has (StringView.startsWith traits)

def endsWith : ZstringView CharT → HasArg CharT → Bool := has (StringView.endsWith traits)

/-- `zstring_view_find`, with the default for the position. -/
def findWith (func : List CharT → FindArg CharT → Nat) (start : Nat) (z : ZstringView CharT) :
    FindArg CharT → Nat
  | .view v pos => func z.sv (.view v (some (pos.getD start)))
  | .char ch pos => func z.sv (.char ch (some (pos.getD start)))
  | .counted s pos => func z.sv (.counted s pos)
  | .pointer s pos => func z.sv (.pointer s (some (pos.getD start)))

def find : ZstringView CharT → FindArg CharT → Nat := findWith (StringView.find traits) 0

def rfind : ZstringView CharT → FindArg CharT → Nat := findWith (StringView.rfind traits) StringView.npos

def findFirstOf : ZstringView CharT → FindArg CharT → Nat := findWith (StringView.findFirstOf traits) 0

def findLastOf : ZstringView CharT → FindArg CharT → Nat :=
  findWith (StringView.findLastOf traits) StringView.npos

def findFirstNotOf : ZstringView CharT → FindArg CharT → Nat := findWith (StringView.findFirstNotOf traits) 0

def findLastNotOf : ZstringView CharT → FindArg CharT → Nat :=
  findWith (StringView.findLastNotOf traits) StringView.npos

def substr (z : ZstringView CharT) (pos count : Option Nat) : Except StringFault (List CharT) :=
  StringView.substr z.sv (pos.getD 0) (count.getD StringView.npos)

def compare (z : ZstringView CharT) : CompareArg CharT → Except StringFault Ordering
  | .view v => StringView.compare traits z.sv (.view v)
  | .partView pos1 count1 v => StringView.compare traits z.sv (.partView pos1 count1 v)
  | .partPart pos1 count1 v pos2 count2 => StringView.compare traits z.sv (.partPart pos1 count1 v pos2 count2)
  | .pointer s => StringView.compare traits z.sv (.pointer s)
  | .partPointer pos1 count1 s => StringView.compare traits z.sv (.partPointer pos1 count1 s)
  | .partCounted pos1 count1 s => StringView.compare traits z.sv (.partCounted pos1 count1 s)

def ask (z : ZstringView CharT) : Query CharT → Answer CharT
  | .substr pos count => .part (z.substr pos count)
  | .compare a => .ordering (z.compare traits a)
  | .startsWith a => .truth (z.startsWith traits a)
  | .endsWith a => .truth (z.endsWith traits a)
  | .find a => .position (z.find traits a)
  | .rfind a => .position (z.rfind traits a)
  | .findFirstOf a => .position (z.findFirstOf traits a)
  | .findLastOf a => .position (z.findLastOf traits a)
  | .findFirstNotOf a => .position (z.findFirstNotOf traits a)
  | .findLastNotOf a => .position (z.findLastNotOf traits a)

theorem findWith_overloads (search : List CharT → List CharT → Nat → Nat) (start : Nat) (z : ZstringView CharT)
    (a : FindArg CharT) :
    findWith (fun text => StringView.overloads traits (search text) start) start z a =
      StringView.overloads traits (search z.sv) start a := by
  cases a with
  | view v pos => rfl
  | char ch pos => rfl
  | counted s pos => rfl
  | pointer s pos => rfl

theorem compare_eq (z : ZstringView CharT) (a : CompareArg CharT) :
    z.compare traits a = StringView.compare traits z.sv a := by
  cases a with
  | view v => rfl
  | partView pos1 count1 v => rfl
  | partPart pos1 count1 v pos2 count2 => rfl
  | pointer s => rfl
  | partPointer pos1 count1 s => rfl
  | partCounted pos1 count1 s => rfl

theorem startsWith_view (z : ZstringView CharT) (v : List CharT) : z.startsWith traits (.view v) = true := by
  refine (StringView.startsWith_view_iff traits).mpr ⟨v, [], (List.append_nil v).symm, ?_⟩
  exact List.forall₂_same.mpr (fun c _ => traits.eq_refl c)

theorem endsWith_view (z : ZstringView CharT) (v : List CharT) : z.endsWith traits (.view v) = true := by
  refine (StringView.endsWithView_iff traits).mpr ⟨[], v, rfl, ?_⟩
  exact List.forall₂_same.mpr (fun c _ => traits.eq_refl c)

/-- The overload for a pointer asks the member, so it agrees only where the answer is yes. -/
theorem startsWith_pointer_iff (z : ZstringView CharT) {v : List CharT} (free : ∀ c ∈ v, traits.eq c 0 = false) :
    z.startsWith traits (.view v) = z.startsWith traits (.pointer (.ofText v)) ↔
      StringView.BeginsWith traits z.sv v := by
  rw [startsWith_view, ← StringView.startsWith_view_iff]
  simp only [startsWith, has, StringView.startsWith, StringView.ofPointer_ofText traits free]
  exact eq_comm

theorem endsWith_pointer_iff (z : ZstringView CharT) {v : List CharT} (free : ∀ c ∈ v, traits.eq c 0 = false) :
    z.endsWith traits (.view v) = z.endsWith traits (.pointer (.ofText v)) ↔
      StringView.FinishesWith traits z.sv v := by
  rw [endsWith_view, ← StringView.endsWithView_iff]
  simp only [endsWith, has, StringView.endsWith, StringView.ofPointer_ofText traits free]
  exact eq_comm

end ZstringView

/-- The query is not one of the two whose receiver is hidden, or it does not matter there. -/
def Query.Harmless (traits : CharTraits CharT) (text : List CharT) : Query CharT → Prop
  | .startsWith (.view v) => StringView.BeginsWith traits text v
  | .endsWith (.view v) => StringView.FinishesWith traits text v
  | _ => True

namespace ZstringView

variable (traits : CharTraits CharT)

/-- A query is answered like the string's own view answers it, unless it asks whether the string
begins or ends with a view that it does not begin or end with; there the overloads for a view
and for a pointer to the same characters differ too. -/
theorem ask_eq_iff :
    (∀ (z : ZstringView CharT) (q : Query CharT),
        z.ask traits q = StringView.ask traits z.sv q ↔ q.Harmless traits z.sv) ∧
      ∀ (z : ZstringView CharT) (v : List CharT), (∀ c ∈ v, traits.eq c 0 = false) →
        (z.startsWith traits (.view v) = z.startsWith traits (.pointer (.ofText v)) ↔
            StringView.BeginsWith traits z.sv v) ∧
          (z.endsWith traits (.view v) = z.endsWith traits (.pointer (.ofText v)) ↔
            StringView.FinishesWith traits z.sv v) := by
  constructor
  · intro z q
    cases q with
    | substr pos count => exact iff_of_true rfl trivial
    | compare a => exact iff_of_true (congrArg Answer.ordering (z.compare_eq traits a)) trivial
    | startsWith a =>
      cases a with
      | view v =>
        simp only [ask, StringView.ask, Answer.truth.injEq, startsWith_view, Query.Harmless]
        exact eq_comm.trans (StringView.startsWith_view_iff traits)
      | char c => exact iff_of_true rfl trivial
      | pointer s => exact iff_of_true rfl trivial
    | endsWith a =>
      cases a with
      | view v =>
        simp only [ask, StringView.ask, Answer.truth.injEq, endsWith_view, Query.Harmless]
        exact eq_comm.trans (StringView.endsWithView_iff traits)
      | char c => exact iff_of_true rfl trivial
      | pointer s => exact iff_of_true rfl trivial
    | find a => exact iff_of_true (congrArg Answer.position (findWith_overloads traits _ _ z a)) trivial
    | rfind a => exact iff_of_true (congrArg Answer.position (findWith_overloads traits _ _ z a)) trivial
    | findFirstOf a => exact iff_of_true (congrArg Answer.position (findWith_overloads traits _ _ z a)) trivial
    | findLastOf a => exact iff_of_true (congrArg Answer.position (findWith_overloads traits _ _ z a)) trivial
    | findFirstNotOf a => exact iff_of_true (congrArg Answer.position (findWith_overloads traits _ _ z a)) trivial
    | findLastNotOf a => exact iff_of_true (congrArg Answer.position (findWith_overloads traits _ _ z a)) trivial
  · exact fun z v free => ⟨z.startsWith_pointer_iff traits free, z.endsWith_pointer_iff traits free⟩

/-- What is no beginning of the string is reported as one. -/
theorem startsWith_other : ∃ z : ZstringView UInt8, z.sv = [97, 98] ∧
    z.ask (.byCode UInt8.toNat) (.startsWith (.view [120])) ≠
      StringView.ask (.byCode UInt8.toNat) z.sv (.startsWith (.view [120])) := by
  refine ⟨⟨[97, 98]⟩, rfl, ?_⟩
  intro same
  simp only [ask, StringView.ask, Answer.truth.injEq, startsWith_view] at same
  revert same
  decide

end ZstringView

end Stdplus
