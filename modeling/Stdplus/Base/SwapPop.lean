import Mathlib

namespace Stdplus.Base

variable {α : Type}

/-- `std::swap(*it, back())` unless `it` is the last, then `pop_back()`. -/
def swapPop (items : List α) (it : Nat) : List α :=
  match items[it]?, items.getLast? with
  | some here, some back =>
    (if it ≠ items.length - 1 then (items.set it back).set (items.length - 1) here else items).dropLast
  | _, _ => items.dropLast

private theorem swapPop_last (front : List α) (here : α) :
    swapPop (front ++ [here]) front.length = front := by
  simp [swapPop]

private theorem swapPop_inner (front rest : List α) (here back : α) :
    swapPop (front ++ here :: (rest ++ [back])) front.length = front ++ back :: rest := by
  have found : (front ++ here :: (rest ++ [back]))[front.length]? = some here := by simp
  have last : (front ++ here :: (rest ++ [back])).getLast? = some back := by
    rw [← List.cons_append, ← List.append_assoc, List.getLast?_concat]
  have length : (front ++ here :: (rest ++ [back])).length - 1 = (front ++ back :: rest).length := by simp
  have first : (front ++ here :: (rest ++ [back])).set front.length back =
      front ++ back :: rest ++ [back] := by simp
  have second : (front ++ back :: rest ++ [back]).set (front ++ back :: rest).length here =
      front ++ back :: rest ++ [here] := by simp
  have inner : front.length ≠ (front ++ back :: rest).length := by simp
  simp only [swapPop, found, last, length, first, second, if_pos inner, List.dropLast_concat]

theorem swapPop_perm {items : List α} {it : Nat} {here : α} (found : items[it]? = some here) :
    (here :: swapPop items it).Perm items := by
  obtain ⟨inside, same⟩ := List.getElem?_eq_some_iff.mp found
  have split : items = items.take it ++ here :: items.drop (it + 1) := by
    rw [← same, ← List.drop_eq_getElem_cons inside, List.take_append_drop]
  have place : (items.take it).length = it := List.length_take_of_le (by omega)
  generalize items.take it = front at split place
  generalize items.drop (it + 1) = rest at split
  subst split place
  rcases List.eq_nil_or_concat rest with rfl | ⟨middle, back, rfl⟩
  · rw [swapPop_last]
    exact (List.perm_append_singleton here front).symm
  · rw [List.concat_eq_append, swapPop_inner]
    have moved : (back :: middle).Perm (middle ++ [back]) := (List.perm_append_singleton back middle).symm
    exact ((moved.append_left front).cons here).trans List.perm_middle.symm

end Stdplus.Base
