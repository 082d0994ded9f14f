import Stdplus.Base.Holders

namespace Stdplus.Base

variable {ι α : Type} [DecidableEq α]

def taken (free : α) (table : List α) : Nat := table.countP (· ≠ free)

def room (free : α) (table : List α) : Nat := table.countP (· = free)

/-- Each holder has a slot of its own with what it put there; the others are free. -/
structure Slots (free : α) (table : List α) (held : ι → Option (Nat × α)) : Prop where
  alone : ∀ i j slot x y, held i = some (slot, x) → held j = some (slot, y) → i = j
  there : ∀ i slot x, held i = some (slot, x) → table[slot]? = some x ∧ x ≠ free
  vacant : ∀ slot, slot < table.length → (∀ i x, held i ≠ some (slot, x)) → table[slot]? = some free
  counted : ∃ live : Finset ι, (∀ i, i ∈ live ↔ held i ≠ none) ∧ live.card = taken free table

variable {free : α} {table : List α} {slot : Nat} {x : α}

theorem taken_add_room (free : α) (table : List α) : taken free table + room free table = table.length := by
  have both := List.length_eq_countP_add_countP (fun x => decide (x ≠ free)) (l := table)
  rw [taken, room, both]
  simp

theorem taken_le (free : α) (table : List α) : taken free table ≤ table.length := List.countP_le_length

theorem taken_append_free (table : List α) (n : Nat) :
    taken free (table ++ List.replicate n free) = taken free table := by
  rw [taken, List.countP_append, List.countP_replicate]
  simp [taken]

theorem taken_set_take (vacant : table[slot]? = some free) (differ : x ≠ free) :
    taken free (table.set slot x) = taken free table + 1 := by
  obtain ⟨inside, here⟩ := List.getElem?_eq_some_iff.mp vacant
  rw [taken, List.countP_set inside, here]
  simp [taken, differ]

theorem taken_pos (there : table[slot]? = some x) (differ : x ≠ free) : 0 < taken free table :=
  List.countP_pos_iff.mpr ⟨x, List.mem_of_getElem? there, by simpa using differ⟩

theorem taken_set_free (there : table[slot]? = some x) (differ : x ≠ free) :
    taken free (table.set slot free) = taken free table - 1 := by
  obtain ⟨inside, here⟩ := List.getElem?_eq_some_iff.mp there
  rw [taken, List.countP_set inside, here]
  simp [taken, differ]

theorem room_append_free (table : List α) (n : Nat) :
    room free (table ++ List.replicate n free) = room free table + n := by
  rw [room, List.countP_append, List.countP_replicate]
  simp [room]

theorem room_set_take (vacant : table[slot]? = some free) (differ : x ≠ free) :
    room free (table.set slot x) + 1 = room free table := by
  have before := taken_add_room free table
  have after := taken_add_room free (table.set slot x)
  rw [taken_set_take vacant differ, List.length_set] at after
  omega

theorem room_set_free (there : table[slot]? = some x) (differ : x ≠ free) :
    room free (table.set slot free) = room free table + 1 := by
  have positive := taken_pos there differ
  have before := taken_add_room free table
  have after := taken_add_room free (table.set slot free)
  rw [taken_set_free there differ, List.length_set] at after
  omega

namespace Slots

variable {held : ι → Option (Nat × α)} {i j : ι}

theorem start (free : α) : Slots free [] (fun _ : ι => none) where
  alone := nofun
  there := nofun
  vacant := nofun
  counted := ⟨∅, by simp, rfl⟩

theorem extend (slots : Slots free table held) (n : Nat) :
    Slots free (table ++ List.replicate n free) held where
  alone := slots.alone
  there k slot x holds := by
    obtain ⟨there, differ⟩ := slots.there k slot x holds
    obtain ⟨inside, -⟩ := List.getElem?_eq_some_iff.mp there
    exact ⟨(List.getElem?_append_left inside).trans there, differ⟩
  vacant slot inside none := by
    by_cases old : slot < table.length
    · exact (List.getElem?_append_left old).trans (slots.vacant slot old none)
    · rw [List.length_append, List.length_replicate] at inside
      rw [List.getElem?_append_right (by omega), List.getElem?_replicate_of_lt (by omega)]
  counted := by
    rw [taken_append_free]
    exact slots.counted

variable [DecidableEq ι]

theorem take (slots : Slots free table held) (empty : held i = none) (vacant : table[slot]? = some free)
    (differ : x ≠ free) : Slots free (table.set slot x) (Function.update held i (some (slot, x))) := by
  obtain ⟨inside, -⟩ := List.getElem?_eq_some_iff.mp vacant
  have cases (k : ι) (other : Nat) (y : α)
      (holds : Function.update held i (some (slot, x)) k = some (other, y)) :
      (k = i ∧ other = slot ∧ y = x) ∨ (held k = some (other, y) ∧ other ≠ slot) := by
    rcases given_cases holds with ⟨same, entry⟩ | ⟨-, before⟩
    · cases entry
      exact .inl ⟨same, rfl, rfl⟩
    · refine .inr ⟨before, ?_⟩
      rintro rfl
      obtain ⟨there, taken⟩ := slots.there k other y before
      rw [vacant] at there
      exact taken (Option.some.inj there).symm
  constructor
  · intro k m which y z first second
    rcases cases k _ _ first with ⟨rfl, here, -⟩ | ⟨one, away⟩ <;>
      rcases cases m _ _ second with ⟨rfl, there, -⟩ | ⟨two, off⟩
    · rfl
    · exact absurd here off
    · exact absurd there away
    · exact slots.alone k m which y z one two
  · intro k other y holds
    rcases cases k other y holds with ⟨-, rfl, rfl⟩ | ⟨holds, away⟩
    · exact ⟨List.getElem?_set_self inside, differ⟩
    · rw [List.getElem?_set_ne (Ne.symm away)]
      exact slots.there k other y holds
  · intro other within none
    have away : other ≠ slot := by
      rintro rfl
      exact none i x (Function.update_self _ _ _)
    rw [List.length_set] at within
    rw [List.getElem?_set_ne (Ne.symm away)]
    exact slots.vacant other within fun k y holds => none k y (given_keeps empty holds)
  · obtain ⟨live, members, card⟩ := slots.counted
    have outside : i ∉ live := fun inside => (members i).mp inside empty
    refine ⟨insert i live, fun k => ?_, ?_⟩
    · rw [Finset.mem_insert, members]
      by_cases same : k = i
      · simp [same]
      · rw [Function.update_of_ne same]
        exact ⟨fun either => either.resolve_left same, .inr⟩
    · rw [Finset.card_insert_of_notMem outside, card, taken_set_take vacant differ]

theorem drop (slots : Slots free table held) (holds : held i = some (slot, x)) :
    Slots free (table.set slot free) (Function.update held i none) := by
  obtain ⟨there, differ⟩ := slots.there i slot x holds
  obtain ⟨inside, -⟩ := List.getElem?_eq_some_iff.mp there
  have rest (k : ι) (other : Nat) (y : α) (kept : Function.update held i none k = some (other, y)) :
      held k = some (other, y) ∧ other ≠ slot := by
    obtain ⟨apart, before⟩ := released_holds kept
    refine ⟨before, ?_⟩
    rintro rfl
    exact apart (slots.alone k i _ _ _ before holds)
  constructor
  · intro k m which y z first second
    exact slots.alone k m which y z (rest k _ _ first).1 (rest m _ _ second).1
  · intro k other y kept
    obtain ⟨kept, away⟩ := rest k other y kept
    rw [List.getElem?_set_ne (Ne.symm away)]
    exact slots.there k other y kept
  · intro other within none
    by_cases same : other = slot
    · rw [same]
      exact List.getElem?_set_self inside
    · rw [List.length_set] at within
      rw [List.getElem?_set_ne (Ne.symm same)]
      refine slots.vacant other within fun k y kept => none k y ?_
      have apart : k ≠ i := by
        rintro rfl
        rw [holds] at kept
        cases kept
        exact same rfl
      rw [Function.update_of_ne apart, kept]
  · obtain ⟨live, members, card⟩ := slots.counted
    have inside : i ∈ live := (members i).mpr (by rw [holds]; nofun)
    refine ⟨live.erase i, fun k => ?_, ?_⟩
    · rw [Finset.mem_erase, members]
      by_cases same : k = i
      · simp [same]
      · rw [Function.update_of_ne same]
        exact ⟨fun both => both.2, fun kept => ⟨same, kept⟩⟩
    · rw [Finset.card_erase_of_mem inside, card, taken_set_free there differ]

theorem pass (slots : Slots free table held) (differ : i ≠ j) (empty : held j = none) :
    Slots free table (Function.update (Function.update held i none) j (held i)) := by
  constructor
  · intro k m which y z first second
    rcases passed_cases first with ⟨rfl, one⟩ | ⟨away, one⟩ <;>
      rcases passed_cases second with ⟨rfl, two⟩ | ⟨off, two⟩
    · rfl
    · exact absurd (slots.alone _ _ _ _ _ two one) off
    · exact absurd (slots.alone _ _ _ _ _ one two) away
    · exact slots.alone k m which y z one two
  · intro k slot x holds
    obtain ⟨m, holds⟩ := passed_was_held holds
    exact slots.there m slot x holds
  · intro slot within none
    refine slots.vacant slot within fun k x holds => ?_
    obtain ⟨m, holds⟩ := passed_keeps empty holds
    exact none m x holds
  · obtain ⟨live, members, card⟩ := slots.counted
    have outside : j ∉ live := fun inside => (members j).mp inside empty
    by_cases holds : held i = none
    · refine ⟨live, fun k => ?_, card⟩
      rw [members, holds]
      by_cases here : k = j
      · rw [here, Function.update_self, empty]
      · by_cases same : k = i
        · rw [Function.update_of_ne here, same, Function.update_self, holds]
        · rw [Function.update_of_ne here, Function.update_of_ne same]
    · have inside : i ∈ live := (members i).mpr holds
      refine ⟨insert j (live.erase i), fun k => ?_, ?_⟩
      · rw [Finset.mem_insert, Finset.mem_erase, members]
        by_cases here : k = j
        · simp [here, holds]
        · by_cases same : k = i
          · simp [same, differ]
          · simp [here, same]
      · have gone : j ∉ live.erase i := fun inside => outside (Finset.mem_of_mem_erase inside)
        have positive : 0 < live.card := Finset.card_pos.mpr ⟨i, inside⟩
        rw [Finset.card_insert_of_notMem gone, Finset.card_erase_of_mem inside, ← card]
        omega

end Slots

end Stdplus.Base
