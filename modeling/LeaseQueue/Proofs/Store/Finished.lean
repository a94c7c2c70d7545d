import LeaseQueue.Proofs.Store.Index
import LeaseQueue.Proofs.Job.Lock
/-!
# Finished jobs

A finished job cannot be locked, so that it stays finished until somebody saves
it otherwise. The same goes for all that is true of a finished job and is not
undone by a release.
-/

namespace LeaseQueue

namespace Status

/-- A property of finished jobs that neither a release nor a save of another such status takes
away. -/
structure Lasting (P : Status → Prop) : Prop where
  finished : ∀ s : Status, P s → s.isFinished = true
  merged : ∀ stored incoming : Status, P incoming → P (stored.merge incoming)
  released : ∀ (s : Status) (n : UInt64) (t : Option Timestamp), P s → P { s with
    inProgress := false, owner := "", modCount := n, modTime := t }

theorem lasting_isFinished : Lasting fun s => s.isFinished = true where
  finished := fun _ hs => hs
  merged := fun _ _ hs => hs
  released := fun _ _ _ hs => hs

end Status

namespace Memory

def Shows (m : Memory) (id : String) (P : Status → Prop) : Prop :=
  ∃ e, m.lookup? id = some e ∧ P e.record.status

def Finished (m : Memory) (id : String) : Prop := m.Shows id fun s => s.isFinished = true

variable {m m' : Memory} {id : String} {P : Status → Prop}

theorem Shows.replace (h : m.Shows id P) {id' : String} {e : Entry}
    (hsame : id' = id → P e.record.status) : (m.replace id' e).Shows id P := by
  rcases h with ⟨e₀, he₀, hP⟩
  by_cases hid : id' = id
  · exact ⟨e, by rw [lookup?_replace, if_pos hid], hsame hid⟩
  · exact ⟨e₀, by rw [lookup?_replace, if_neg hid, he₀], hP⟩

variable {β : Type} [Body β] {op : Operation β} {lease : LeaseSettings} {now : Reading}

theorem Shows.change (h : m.Shows id P) (hP : Status.Lasting P) (hm : m.Indexed)
    (hop : ∀ j, op = .save j → j.id = id → P j.status)
    (hchange : Change lease now op m m') : m'.Shows id P := by
  have hshows := h
  rcases hshows with ⟨e₀, he₀, hstatus⟩
  cases hchange with
  | none => exact h
  | @saved j r _ e hj he hcheck =>
      apply h.replace
      intro hid
      have hincoming := hop j rfl ((Job.toRecord_id hj).symm.trans hid)
      rw [← Job.toRecord_status hj] at hincoming
      exact hP.merged _ _ hincoming
  | @added j r _ hj hnone =>
      have hid : r.id ≠ id := by
        intro hid
        rw [hid, he₀] at hnone
        cases hnone
      exact ⟨e₀, by rw [lookup?_append, if_neg hid, he₀], hstatus⟩
  | @handed _ id' e hmem heligible =>
      apply h.replace
      intro hid
      have he := hm.lookup?_of_mem hmem
      rw [hid, he₀] at he
      cases he
      exact hstatus
  | @locked _ id' other e s he hs =>
      apply h.replace
      intro hid
      rw [hid, he₀] at he
      cases he
      have hfinished := hP.finished _ hstatus
      rcases Status.lock_cases hs with ⟨hcompleted, hfailed, -, -⟩
      simp [Status.isFinished, hcompleted, hfailed] at hfinished
  | @lockBroken _ id' other e s he hs =>
      apply h.replace
      intro hid
      rw [hid, he₀] at he
      cases he
      have hfinished := hP.finished _ hstatus
      rcases Status.lock_broken_cases hs with ⟨hcompleted, hfailed, -, -⟩
      simp [Status.isFinished, hcompleted, hfailed] at hfinished
  | @unlocked _ id' other e s he hs =>
      apply h.replace
      intro hid
      rw [hid, he₀] at he
      cases he
      rcases Status.unlock_cases hs with ⟨-, rfl⟩ | ⟨-, -, -, rfl⟩
      · exact hstatus
      · exact hP.released _ _ _ hstatus
  | @unlockBroken _ id' other e s he hs =>
      apply h.replace
      intro hid
      rw [hid, he₀] at he
      cases he
      rcases Status.unlock_broken_cases hs with ⟨-, -, -, rfl⟩
      exact hP.released _ _ _ hstatus

omit [Body β] in
theorem finished_of_save {r : Record} {wall : Timestamp} {timeout : Nat}
    (h : m.save r wall timeout = .ok m') (hr : r.status.isFinished = true) :
    m'.Finished r.id := by
  rcases save_cases h with ⟨e, -, -, rfl⟩ | ⟨-, rfl⟩
  · exact ⟨_, by rw [lookup?_replace, if_pos rfl], hr⟩
  · exact ⟨_, by rw [lookup?_append, if_pos rfl], hr⟩

end Memory

end LeaseQueue
