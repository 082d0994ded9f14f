import Stdplus.Base.Holders

/-! Items to be spent once. A holder whose spending failed is marked, for what it still holds
counts as spent. -/

namespace Stdplus.Base

variable {ι α : Type}

structure Once (held : ι → Option α) (marked : ι → Bool) (spent : List α) : Prop where
  once : spent.Nodup
  alone : ∀ i j item, held i = some item → held j = some item → i = j
  clean : ∀ i item, held i = some item → marked i = false → item ∉ spent
  dirty : ∀ i, marked i = true → ∃ item, held i = some item ∧ item ∈ spent

namespace Once

variable {held : ι → Option α} {marked : ι → Bool} {spent : List α} {i j : ι} {item : α}

theorem start : Once (fun _ : ι => (none : Option α)) (fun _ => false) [] where
  once := List.nodup_nil
  alone := nofun
  clean := nofun
  dirty := nofun

theorem again (once : Once held marked spent) (mark : marked i = true) (holds : held i = some item) :
    ¬ (spent ++ [item]).Nodup := by
  obtain ⟨old, holding, gone⟩ := once.dirty i mark
  obtain rfl : old = item := Option.some.inj (holding.symm.trans holds)
  intro nodup
  exact List.disjoint_of_nodup_append nodup gone List.mem_cons_self

variable [DecidableEq ι]

theorem put (once : Once held marked spent) (i : ι) {maybe : Option α}
    (own : ∀ item ∈ maybe, (∀ k, held k ≠ some item) ∧ item ∉ spent) :
    Once (Function.update held i maybe) (Function.update marked i false) spent := by
  refine ⟨once.once, ?_, ?_, ?_⟩
  · intro k m item one two
    simp only [Function.update_apply] at one two
    split at one <;> split at two
    · simp_all
    · exact absurd two ((own item one).1 m)
    · exact absurd one ((own item two).1 k)
    · exact once.alone k m item one two
  · intro k item holds mark
    simp only [Function.update_apply] at holds mark
    split at holds
    · exact (own item holds).2
    · rename_i differ
      rw [if_neg differ] at mark
      exact once.clean k item holds mark
  · intro k mark
    simp only [Function.update_apply] at mark ⊢
    split at mark
    · cases mark
    · rename_i differ
      rw [if_neg differ]
      exact once.dirty k mark

theorem pass (once : Once held marked spent) (i j : ι) :
    Once (Function.update (Function.update held i none) j (held i))
      (Function.update (Function.update marked i false) j (marked i)) spent := by
  refine ⟨once.once, ?_, ?_, ?_⟩
  · intro k m item first second
    rcases passed_cases first with ⟨rfl, one⟩ | ⟨away, one⟩ <;>
      rcases passed_cases second with ⟨rfl, two⟩ | ⟨off, two⟩
    · rfl
    · exact absurd (once.alone _ _ _ two one) off
    · exact absurd (once.alone _ _ _ one two) away
    · exact once.alone k m item one two
  · intro k item holds mark
    simp only [Function.update_apply] at holds mark
    split at holds
    · rename_i here
      rw [if_pos here] at mark
      exact once.clean i item holds mark
    · rename_i there
      rw [if_neg there] at mark
      split at holds
      · cases holds
      · rename_i away
        rw [if_neg away] at mark
        exact once.clean k item holds mark
  · intro k mark
    simp only [Function.update_apply] at mark ⊢
    split at mark
    · rename_i here
      rw [if_pos here]
      exact once.dirty i mark
    · rename_i there
      rw [if_neg there]
      split at mark
      · cases mark
      · rename_i away
        rw [if_neg away]
        exact once.dirty k mark

theorem fail (once : Once held marked spent) (clear : marked i = false) (holds : held i = some item) :
    Once held (Function.update marked i true) (spent ++ [item]) := by
  have fresh := once.clean i item holds clear
  refine ⟨?_, once.alone, ?_, ?_⟩
  · refine List.nodup_append.mpr ⟨once.once, List.nodup_singleton item, ?_⟩
    intro old gone new here same
    rw [List.mem_singleton.mp here] at same
    exact fresh (same ▸ gone)
  · intro k other holding mark
    simp only [Function.update_apply] at mark
    split at mark
    · cases mark
    · rename_i differ
      intro gone
      rcases List.mem_append.mp gone with gone | same
      · exact once.clean k other holding mark gone
      · rw [List.mem_singleton.mp same] at holding
        exact differ (once.alone k i item holding holds)
  · intro k mark
    simp only [Function.update_apply] at mark
    split at mark
    · rename_i here
      exact ⟨item, here ▸ holds, List.mem_append_right _ (List.mem_singleton_self item)⟩
    · obtain ⟨old, holding, gone⟩ := once.dirty k mark
      exact ⟨old, holding, List.mem_append_left _ gone⟩

theorem spend (once : Once held marked spent) (clear : marked i = false) :
    Once (Function.update held i none) (Function.update marked i false) (spent ++ (held i).toList) := by
  cases holds : held i with
  | none =>
    rw [Option.toList_none, List.append_nil]
    exact once.put i (by simp)
  | some item =>
    have gone := (once.fail clear holds).put i (by simp : ∀ item ∈ (none : Option α), _)
    rwa [Function.update_idem] at gone

private theorem update_skip {β : Type} (differ : i ≠ j) (given : ι → β) (first second : β) :
    Function.update (Function.update (Function.update given j first) i second) j
        (Function.update given j first i) =
      Function.update (Function.update given i second) j (given i) := by
  funext k
  by_cases last : k = j
  · rw [last, Function.update_self, Function.update_self, Function.update_of_ne differ]
  · simp only [Function.update_apply, if_neg last]

/-- All that `j` has is spent, and what `i` has takes its place. -/
theorem succeed (once : Once held marked spent) (clear : marked j = false) (differ : i ≠ j) :
    Once (Function.update (Function.update held i none) j (held i))
      (Function.update (Function.update marked i false) j (marked i)) (spent ++ (held j).toList) := by
  have passed := (once.spend clear).pass i j
  rwa [update_skip differ, update_skip differ] at passed

end Once

end Stdplus.Base
