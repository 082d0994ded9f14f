import Stdplus.Base.Holders

namespace Stdplus.Base

variable {ι α β : Type}

/-- The holders and the books of what was made, what was placed and what was dropped. -/
structure Tenure (held : ι → Option (α × β)) (made placed : List (α × β)) (dropped : List α) : Prop where
  alone : ∀ i j item x y, held i = some (item, x) → held j = some (item, y) → i = j
  entered : ∀ i item, held i = some item → item ∈ made
  unplaced : ∀ i item, held i = some item → item.1 ∉ placed.map Prod.fst
  kept : ∀ i item, held i = some item → item.1 ∉ dropped
  accounted : ∀ item ∈ made, item ∈ placed ∨ item.1 ∈ dropped ∨ ∃ i, held i = some item
  recorded : ∀ item ∈ placed.map Prod.fst ++ dropped, item ∈ made.map Prod.fst
  once : (placed.map Prod.fst ++ dropped).Nodup

namespace Tenure

variable {held : ι → Option (α × β)} {made placed : List (α × β)} {dropped : List α} {i j : ι}
  {item : α × β}

theorem start : Tenure (fun _ : ι => none) ([] : List (α × β)) [] [] where
  alone := nofun
  entered := nofun
  unplaced := nofun
  kept := nofun
  accounted := nofun
  recorded := nofun
  once := List.nodup_nil

variable [DecidableEq ι]

theorem take (tenure : Tenure held made placed dropped) (free : held i = none)
    (new : item.1 ∉ made.map Prod.fst) :
    Tenure (Function.update held i (some item)) (made ++ [item]) placed dropped := by
  have other (k : ι) (old : α × β) (holds : held k = some old) : old.1 ≠ item.1 :=
    fun same => new (same ▸ List.mem_map_of_mem (tenure.entered k old holds))
  have outside (list : List α) (among : ∀ old ∈ list, old ∈ made.map Prod.fst) : item.1 ∉ list :=
    fun inside => new (among _ inside)
  constructor
  · intro k m which x y first second
    rcases given_cases first with ⟨rfl, here⟩ | ⟨-, one⟩ <;>
      rcases given_cases second with ⟨rfl, there⟩ | ⟨-, two⟩
    · rfl
    · exact absurd (congrArg Prod.fst here) (other m (which, y) two)
    · exact absurd (congrArg Prod.fst there) (other k (which, x) one)
    · exact tenure.alone k m which x y one two
  · intro k old holds
    rcases given_cases holds with ⟨-, rfl⟩ | ⟨-, holds⟩
    · simp
    · exact List.mem_append_left _ (tenure.entered k old holds)
  · intro k old holds
    rcases given_cases holds with ⟨-, rfl⟩ | ⟨-, holds⟩
    · exact outside _ fun old inside => tenure.recorded old (List.mem_append_left _ inside)
    · exact tenure.unplaced k old holds
  · intro k old holds
    rcases given_cases holds with ⟨-, rfl⟩ | ⟨-, holds⟩
    · exact outside _ fun old inside => tenure.recorded old (List.mem_append_right _ inside)
    · exact tenure.kept k old holds
  · intro old there
    rcases List.mem_append.mp there with there | there
    · rcases tenure.accounted old there with done | done | ⟨k, holds⟩
      · exact .inl done
      · exact .inr (.inl done)
      · exact .inr (.inr ⟨k, given_keeps free holds⟩)
    · rw [List.mem_singleton.mp there]
      exact .inr (.inr ⟨i, Function.update_self _ _ _⟩)
  · intro old there
    rw [List.map_append]
    exact List.mem_append_left _ (tenure.recorded old there)
  · exact tenure.once

theorem pass (tenure : Tenure held made placed dropped) (free : held j = none) :
    Tenure (Function.update (Function.update held i none) j (held i)) made placed dropped := by
  constructor
  · intro k m which x y first second
    rcases passed_cases first with ⟨rfl, one⟩ | ⟨away, one⟩ <;>
      rcases passed_cases second with ⟨rfl, two⟩ | ⟨off, two⟩
    · rfl
    · exact absurd (tenure.alone _ _ _ _ _ two one) off
    · exact absurd (tenure.alone _ _ _ _ _ one two) away
    · exact tenure.alone k m which x y one two
  · intro k item holds
    obtain ⟨m, holds⟩ := passed_was_held holds
    exact tenure.entered m item holds
  · intro k item holds
    obtain ⟨m, holds⟩ := passed_was_held holds
    exact tenure.unplaced m item holds
  · intro k item holds
    obtain ⟨m, holds⟩ := passed_was_held holds
    exact tenure.kept m item holds
  · intro item there
    rcases tenure.accounted item there with done | done | ⟨k, holds⟩
    · exact .inl done
    · exact .inr (.inl done)
    · exact .inr (.inr (passed_keeps free holds))
  · exact tenure.recorded
  · exact tenure.once

private theorem rest_differ (tenure : Tenure held made placed dropped) (holds : held i = some item) {k : ι}
    {old : α × β} (kept : Function.update held i none k = some old) : old.1 ≠ item.1 := by
  obtain ⟨differ, kept⟩ := released_holds kept
  intro same
  have there : held k = some (item.1, old.2) := by rw [kept, ← same]
  exact differ (tenure.alone k i _ _ _ there holds)

private theorem rest_accounted (tenure : Tenure held made placed dropped) (holds : held i = some item)
    {old : α × β} (there : old ∈ made) :
    old ∈ placed ∨ old.1 ∈ dropped ∨ old = item ∨ ∃ k, Function.update held i none k = some old := by
  rcases tenure.accounted old there with done | done | ⟨k, kept⟩
  · exact .inl done
  · exact .inr (.inl done)
  · by_cases same : k = i
    · rw [same, holds] at kept
      exact .inr (.inr (.inl (Option.some.inj kept).symm))
    · exact .inr (.inr (.inr ⟨k, (Function.update_of_ne same _ _).trans kept⟩))

theorem place (tenure : Tenure held made placed dropped) (holds : held i = some item) :
    Tenure (Function.update held i none) made (placed ++ [item]) dropped where
  alone k m which x y first second := tenure.alone k m which x y (released_holds first).2 (released_holds second).2
  entered k old kept := tenure.entered k old (released_holds kept).2
  unplaced k old kept := by
    have before := tenure.unplaced k old (released_holds kept).2
    have differ := rest_differ tenure holds kept
    rw [List.map_append, List.mem_append]
    rintro (inside | inside)
    · exact before inside
    · exact differ (List.mem_singleton.mp inside)
  kept k old kept := tenure.kept k old (released_holds kept).2
  accounted old there := by
    rcases rest_accounted tenure holds there with done | done | rfl | kept
    · exact .inl (List.mem_append_left _ done)
    · exact .inr (.inl done)
    · exact .inl (List.mem_append_right _ (List.mem_singleton_self _))
    · exact .inr (.inr kept)
  recorded old there := by
    rw [List.map_append, List.append_assoc, List.mem_append, List.mem_append] at there
    rcases there with there | there | there
    · exact tenure.recorded old (List.mem_append_left _ there)
    · rw [List.mem_singleton.mp there]
      exact List.mem_map_of_mem (tenure.entered i item holds)
    · exact tenure.recorded old (List.mem_append_right _ there)
  once := by
    have split : ((placed ++ [item]).map Prod.fst ++ dropped).Perm
        (item.1 :: (placed.map Prod.fst ++ dropped)) := by
      rw [List.map_append, List.append_assoc]
      exact List.perm_middle
    refine split.nodup_iff.mpr (List.nodup_cons.mpr ⟨?_, tenure.once⟩)
    rw [List.mem_append]
    rintro (inside | inside)
    · exact tenure.unplaced i item holds inside
    · exact tenure.kept i item holds inside

theorem drop (tenure : Tenure held made placed dropped) (holds : held i = some item) :
    Tenure (Function.update held i none) made placed (dropped ++ [item.1]) where
  alone k m which x y first second := tenure.alone k m which x y (released_holds first).2 (released_holds second).2
  entered k old kept := tenure.entered k old (released_holds kept).2
  unplaced k old kept := tenure.unplaced k old (released_holds kept).2
  kept k old kept := by
    have before := tenure.kept k old (released_holds kept).2
    have differ := rest_differ tenure holds kept
    rw [List.mem_append]
    rintro (inside | inside)
    · exact before inside
    · exact differ (List.mem_singleton.mp inside)
  accounted old there := by
    rcases rest_accounted tenure holds there with done | done | rfl | kept
    · exact .inl done
    · exact .inr (.inl (List.mem_append_left _ done))
    · exact .inr (.inl (List.mem_append_right _ (List.mem_singleton_self _)))
    · exact .inr (.inr kept)
  recorded old there := by
    rw [← List.append_assoc, List.mem_append] at there
    rcases there with there | there
    · exact tenure.recorded old there
    · rw [List.mem_singleton.mp there]
      exact List.mem_map_of_mem (tenure.entered i item holds)
  once := by
    rw [← List.append_assoc]
    refine List.nodup_append'.mpr ⟨tenure.once, List.nodup_singleton _, ?_⟩
    refine List.disjoint_singleton.mpr ?_
    rw [List.mem_append]
    rintro (inside | inside)
    · exact tenure.unplaced i item holds inside
    · exact tenure.kept i item holds inside

end Tenure

end Stdplus.Base
