import Mathlib.Data.List.Basic
import LeaseQueue.Proofs.Job.Lock
import LeaseQueue.Proofs.Store.Index
/-!
# Jobs in the order of their first saves

The first save of a job puts it behind all others, and nothing moves it from its
place again. So the jobs of a store stand in the order in which they were saved
for the first time.
-/

namespace LeaseQueue

namespace Keyed

variable {α : Type}

theorem keys_put_of_get? {m : Keyed α} {key : String} {v : α} (h : m.get? key = some v)
    (w : α) : (m.put key w).keys = m.keys := by
  rcases exists_split_of_find h with ⟨front, back, hl, hplace⟩
  show (place key w m.entries).map Prod.fst = m.entries.map Prod.fst
  rw [hplace, hl]
  simp

theorem keys_put_of_get?_none {m : Keyed α} {key : String} (h : m.get? key = none) (w : α) :
    (m.put key w).keys = m.keys ++ [key] := by
  show (place key w m.entries).map Prod.fst = m.entries.map Prod.fst ++ [key]
  rw [place_of_find_none h, List.map_append]
  rfl

theorem filterMap_keys {m : Keyed α} (h : m.keys.Nodup) :
    m.keys.filterMap m.get? = m.entries.map Prod.snd := by
  show (m.entries.map Prod.fst).filterMap m.get? = _
  rw [List.filterMap_map, ← List.filterMap_eq_map]
  apply List.filterMap_congr
  intro p hp
  exact find_of_mem h hp

end Keyed

namespace Backend

variable {β : Type} [Body β]

/-- The id of the job that an operation saves for the first time, if it does. -/
def newcomer? (b : Backend β) (a : Access β) : Option String :=
  match a.operation with
  | .save j =>
      if b.record? false j.id = none ∧ (b.after a).record? false j.id ≠ none then some j.id
      else none
  | _ => none

/-- The ids of the jobs that a run saves for the first time, in the order of those saves. -/
def firstSaves (b : Backend β) : List (Access β) → List String
  | [] => []
  | a :: rest => (b.newcomer? a).toList ++ (b.after a).firstSaves rest

section

variable {b : Backend β} {a : Access β}

theorem newcomer?_eq_some {j : Job β} (hop : a.operation = .save j)
    (hbefore : b.record? false j.id = none) (hafter : (b.after a).record? false j.id ≠ none) :
    b.newcomer? a = some j.id := by
  unfold newcomer?
  rw [hop]
  exact if_pos ⟨hbefore, hafter⟩

theorem newcomer?_eq_none
    (h : ∀ j, a.operation = .save j → b.record? false j.id = none →
      (b.after a).record? false j.id = none) :
    b.newcomer? a = none := by
  unfold newcomer?
  cases hop : a.operation with
  | save j =>
      apply if_neg
      intro hnew
      exact hnew.2 (h j hop hnew.1)
  | _ => rfl

end

/-!
## Stores in memory
-/

section

variable {b : Backend β} {d : Discipline} {m m' : Memory}

omit [Body β] in
theorem onMemory_injective (h : b.onMemory d m = b.onMemory d m') : m = m' := by
  have hstorage : Storage.memory d m = .memory d m' := congrArg Backend.storage h
  injection hstorage

theorem keys_after {a : Access β} (hm : m.Indexed)
    (h : (b.onMemory d m).after a = b.onMemory d m') :
    m'.jobs.keys = m.jobs.keys ++ ((b.onMemory d m).newcomer? a).toList := by
  -- An operation other than a first save keeps the keys of the entries.
  have hkeeps : ∀ {id e e'}, m.lookup? id = some e → m' = m.replace id e' →
      (∀ j, a.operation = .save j → j.id = id) →
      m'.jobs.keys = m.jobs.keys ++ ((b.onMemory d m).newcomer? a).toList := by
    intro id e e' he hm' hsaved
    have hnone : (b.onMemory d m).newcomer? a = none := by
      apply newcomer?_eq_none
      intro j hop hbefore
      rw [record?_onMemory, hsaved j hop, he] at hbefore
      cases hbefore
    rw [hnone, hm']
    exact (Keyed.keys_put_of_get? he e').trans (List.append_nil _).symm
  rcases exists_change b d m a with ⟨m₁, hafter, hchange⟩
  cases onMemory_injective (h.symm.trans hafter)
  generalize hop : a.operation = op at hchange
  cases hchange with
  | none =>
      have hnone : (b.onMemory d m).newcomer? a = none := by
        apply newcomer?_eq_none
        intro j _ hbefore
        rw [h]
        exact hbefore
      rw [hnone]
      exact (List.append_nil _).symm
  | @saved j r _ e hj he hcheck =>
      apply hkeeps he rfl
      intro j' hj'
      cases hop.symm.trans hj'
      exact (Job.toRecord_id hj).symm
  | @added j r _ hj hnone =>
      have hid : r.id = j.id := Job.toRecord_id hj
      have hnew : (b.onMemory d m).newcomer? a = some j.id := by
        apply newcomer?_eq_some hop
        · rw [record?_onMemory, ← hid, hnone]
          rfl
        · rw [h, record?_onMemory, Memory.lookup?_append, if_pos hid]
          simp
      rw [hnew, ← hid]
      exact Keyed.keys_put_of_get?_none hnone _
  | handed hmem heligible =>
      exact hkeeps (hm.lookup?_of_mem hmem) rfl (fun j hj => nomatch hop.symm.trans hj)
  | locked he _ | lockBroken he _ | unlocked he _ | unlockBroken he _ =>
      exact hkeeps he rfl (fun j hj => nomatch hop.symm.trans hj)

theorem keys_run (hm : m.Indexed) (accesses : List (Access β))
    (h : (b.onMemory d m).run accesses = b.onMemory d m') :
    m'.jobs.keys = m.jobs.keys ++ (b.onMemory d m).firstSaves accesses := by
  induction accesses generalizing m with
  | nil =>
      cases onMemory_injective h
      exact (List.append_nil _).symm
  | cons a rest ih =>
      rcases exists_change b d m a with ⟨m₁, hafter, hchange⟩
      rw [run_cons, hafter] at h
      rw [ih (hm.change hchange) h, keys_after hm hafter, List.append_assoc, ← hafter]
      rfl

theorem indexed_of_run {registry : Registry β} {lease : LeaseSettings} {past : List (Access β)}
    (h : (inMemory registry d lease).run past = (inMemory registry d lease).onMemory d m) :
    m.Indexed := by
  rcases run_onMemory (inMemory registry d lease) d Memory.indexed_empty past with
    ⟨m₁, hrun, hm⟩
  cases onMemory_injective (h.symm.trans hrun)
  exact hm

/-- The entries of a store in memory are those of the jobs that a run has saved, in the order of their
first saves. -/
theorem filterMap_firstSaves {registry : Registry β} {lease : LeaseSettings}
    {past : List (Access β)}
    (h : (inMemory registry d lease).run past = (inMemory registry d lease).onMemory d m) :
    ((inMemory registry d lease).firstSaves past).filterMap m.lookup? =
      m.jobs.entries.map Prod.snd := by
  have hkeys : m.jobs.keys = (inMemory registry d lease).firstSaves past :=
    keys_run (b := inMemory registry d lease) Memory.indexed_empty past h
  rw [← hkeys]
  exact Keyed.filterMap_keys (indexed_of_run h).nodup

end

end Backend
end LeaseQueue
