import Stdplus.Uring.Ledger

/-! The accounts behind every operation of the ring: the vector of handlers and
the ledger agree on which requests wait for which handler, and the calls made are
the calls the ledger settled. -/

namespace Stdplus.Uring

open Stdplus.Base

variable {H : Type}

def owned (requests : List (Request H)) : List (Nat × H) :=
  requests.filterMap (fun request => request.user_data.map (request.sqe, ·))

/-- The vector of handlers, the requests whose completion is not processed, the
ledger and the calls so far agree. -/
structure Books (handlers : List H) (requests : List (Request H)) (ledger : Ledger H)
    (log : List (H × Completion H)) : Prop where
  distinct : (requests.map Request.sqe).Nodup
  held : handlers.Perm (requests.filterMap Request.user_data)
  waits : ledger.waiting.Perm (owned requests)
  called : log.Perm ledger.calls

namespace Books

variable {handlers : List H} {requests rest : List (Request H)} {ledger : Ledger H}
variable {log : List (H × Completion H)}

theorem empty : Books ([] : List H) [] [] [] := ⟨by simp, .rfl, .rfl, .rfl⟩

theorem perm (books : Books handlers requests ledger log) (same : requests.Perm rest) :
    Books handlers rest ledger log where
  distinct := (same.map _).nodup_iff.mp books.distinct
  held := books.held.trans (same.filterMap _)
  waits := books.waits.trans (same.filterMap _)
  called := books.called

theorem holders (books : Books handlers requests ledger log) :
    handlers.Perm (ledger.waiting.map (·.2)) := by
  have same : (owned requests).map (·.2) = requests.filterMap Request.user_data := by
    rw [owned, List.map_filterMap]
    refine List.filterMap_congr fun request _ => ?_
    cases request.user_data <;> rfl
  have waits := books.waits.map (·.2)
  rw [same] at waits
  exact books.held.trans waits.symm

private theorem owned_sqe {requests : List (Request H)} {sqe : Nat} {h : H}
    (member : (sqe, h) ∈ owned requests) : sqe ∈ requests.map Request.sqe := by
  obtain ⟨request, among, found⟩ := List.mem_filterMap.mp member
  obtain ⟨_, _, same⟩ := Option.map_eq_some_iff.mp found
  cases same
  exact List.mem_map_of_mem among

private theorem filter_other {request : Request H} {rest : List (Request H)}
    (absent : request.sqe ∉ rest.map Request.sqe) :
    (owned (request :: rest)).filter (·.1 ≠ request.sqe) = owned rest ∧
      (owned (request :: rest)).filter (·.1 = request.sqe) =
        (request.user_data.map (request.sqe, ·)).toList := by
  have other (pair : Nat × H) (member : pair ∈ owned rest) : pair.1 ≠ request.sqe :=
    fun same => absent (same ▸ owned_sqe member)
  have kept : (owned rest).filter (·.1 ≠ request.sqe) = owned rest :=
    List.filter_eq_self.mpr fun pair member => by simpa using other pair member
  have gone : (owned rest).filter (·.1 = request.sqe) = [] :=
    List.filter_eq_nil_iff.mpr fun pair member => by simpa using other pair member
  cases data : request.user_data with
  | none =>
    have same : owned (request :: rest) = owned rest := by simp [owned, data]
    rw [same, kept, gone]
    exact ⟨rfl, rfl⟩
  | some h =>
    have split : owned (request :: rest) = (request.sqe, h) :: owned rest := by simp [owned, data]
    rw [split, List.filter_cons_of_neg (by simp), List.filter_cons_of_pos (by simp), kept, gone]
    exact ⟨rfl, rfl⟩

private theorem matching {request : Request H} (books : Books handlers (request :: rest) ledger log) :
    ledger.waiting.filter (·.1 = request.sqe) = (request.user_data.map (request.sqe, ·)).toList := by
  have absent : request.sqe ∉ rest.map Request.sqe := (List.nodup_cons.mp books.distinct).1
  have same := books.waits.filter (·.1 = request.sqe)
  rw [(filter_other absent).2] at same
  cases data : request.user_data with
  | none =>
    rw [data] at same
    exact same.eq_nil
  | some h =>
    rw [data] at same
    exact List.perm_singleton.mp same

theorem current {request : Request H} (books : Books handlers (request :: rest) ledger log) :
    ledger.current request.sqe = request.user_data := by
  rw [Ledger.current, ← List.head?_filter, books.matching]
  cases request.user_data <;> rfl

theorem add (books : Books handlers rest ledger log) {sqe : Nat} (fresh : sqe ∉ rest.map Request.sqe)
    (h : Option H) :
    Books (handlers ++ h.toList) ({ sqe := sqe, user_data := h } :: rest)
      (ledger ++ (h.map ({ handler := ·, sqe := sqe, fate := none })).toList) log where
  distinct := by
    rw [List.map_cons, List.nodup_cons]
    exact ⟨fresh, books.distinct⟩
  held := by
    cases h with
    | none => simpa using books.held
    | some h => simpa using (books.held.append_right [h]).trans (List.perm_append_singleton _ _)
  waits := by
    cases h with
    | none => simpa [owned] using books.waits
    | some h =>
      have waits := (books.waits.append_right [(sqe, h)]).trans (List.perm_append_singleton _ _)
      simpa [owned, Ledger.waiting] using waits
  called := by
    cases h with
    | none => simpa using books.called
    | some h => simpa [Ledger.calls] using books.called

/-- Dropping the handler of a request finds it, calls it, and settles the request. -/
theorem remove [DecidableEq H] {ring : IoUring H} {request : Request H}
    (books : Books ring.handlers (request :: rest) ledger ring.log) (cqe : Completion H) :
    ∃ handlers log, ring.dropHandler request.user_data cqe =
        .ok { ring with handlers := handlers, log := log } ∧
      Books handlers rest (ledger.settle request.sqe cqe) log := by
  have distinct := List.nodup_cons.mp books.distinct
  have waits : (ledger.settle request.sqe cqe).waiting.Perm (owned rest) := by
    rw [Ledger.waiting_settle, ← (filter_other distinct.1).1]
    exact books.waits.filter _
  have settled := Ledger.calls_settle request.sqe cqe ledger
  rw [books.matching] at settled
  cases data : request.user_data with
  | none =>
    rw [data] at settled
    refine ⟨ring.handlers, ring.log, rfl, distinct.2, ?_, waits, ?_⟩
    · simpa [data] using books.held
    · exact books.called.trans (by simpa using settled.symm)
  | some h =>
    rw [data] at settled
    have held : ring.handlers.Perm (h :: rest.filterMap Request.user_data) := by
      simpa [data] using books.held
    have present : h ∈ ring.handlers := held.mem_iff.mpr (by simp)
    obtain ⟨it, found⟩ := Option.isSome_iff_exists.mp
      (List.findIdx?_isSome.trans (List.any_eq_true.mpr ⟨h, present, by simp⟩) :
        (ring.handlers.findIdx? (· = h)).isSome = true)
    have here : ring.handlers[it]? = some h := by
      obtain ⟨inside, same, _⟩ := List.findIdx?_eq_some_iff_getElem.mp found
      exact List.getElem?_eq_some_iff.mpr ⟨inside, by simpa using same⟩
    refine ⟨swapPop ring.handlers it, ring.log ++ [(h, cqe)], ?_, distinct.2, ?_, waits, ?_⟩
    · simp only [IoUring.dropHandler, found]
    · exact ((swapPop_perm here).trans held).cons_inv
    · exact (books.called.append_right _).trans (by simpa using settled.symm)

end Books

end Stdplus.Uring
