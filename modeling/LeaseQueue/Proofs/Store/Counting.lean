import Mathlib.Data.List.Nodup
import LeaseQueue.Proofs.Store.Holdings
/-!
# Counts of a store

The counts of a store put each of its jobs under one of four heads: completed,
failed, running, pending. A table counts with conditions over its rows and a store
in memory along a list; of the same jobs, in whatever order, both make the same
counts.
-/

namespace LeaseQueue

namespace Tally

/-!
## Heads
-/

def pendingOf (l : List StatusInfo) : Nat :=
  l.countP fun i => !i.completed && !i.failed && !i.inProgress

theorem length_eq_heads (l : List StatusInfo) :
    l.length = pendingOf l + runningOf l + completedOf l + failedOf l := by
  induction l with
  | nil => rfl
  | cons i rest ih =>
      unfold pendingOf runningOf completedOf failedOf at *
      simp only [List.countP_cons, List.length_cons]
      cases i.completed <;> cases i.failed <;> cases i.inProgress <;> simp <;> omega

theorem ofInfos_eq_heads (l : List StatusInfo) :
    ofInfos l = ⟨l.length, pendingOf l, runningOf l, completedOf l, failedOf l⟩ := by
  have hpending : l.length - (completedOf l + failedOf l + runningOf l) = pendingOf l := by
    have hlength := length_eq_heads l
    omega
  rw [ofInfos_eq, hpending]

theorem ofInfos_of_perm {l l' : List StatusInfo} (h : l.Perm l') : ofInfos l = ofInfos l' := by
  rw [ofInfos_eq_heads, ofInfos_eq_heads]
  unfold pendingOf runningOf completedOf failedOf
  rw [h.length_eq, h.countP_eq, h.countP_eq, h.countP_eq, h.countP_eq]

theorem total_ofInfos (l : List StatusInfo) :
    (ofInfos l).total =
      (ofInfos l).pending + (ofInfos l).running + (ofInfos l).completed + (ofInfos l).failed := by
  rw [ofInfos_eq_heads]
  exact length_eq_heads l

theorem isComplete_iff_active (l : List StatusInfo) :
    (ofInfos l).isComplete = true ↔ (ofInfos l).active = 0 := by
  have htotal := total_ofInfos l
  unfold isComplete active
  rw [beq_iff_eq]
  omega

theorem active_eq_countP (l : List StatusInfo) :
    (ofInfos l).active = l.countP fun i => !i.completed && !i.failed := by
  rw [ofInfos_eq_heads]
  unfold active pendingOf runningOf
  induction l with
  | nil => rfl
  | cons i rest ih =>
      simp only [List.countP_cons] at *
      cases i.completed <;> cases i.failed <;> cases i.inProgress <;> simp at * <;> omega

theorem active_eq_zero_iff (l : List StatusInfo) :
    (ofInfos l).active = 0 ↔ ∀ i ∈ l, (i.completed || i.failed) = true := by
  rw [active_eq_countP, List.countP_eq_zero]
  refine forall₂_congr fun i _ => ?_
  cases i.completed <;> cases i.failed <;> simp

end Tally

theorem StatusInfo.ofRecord_eq_iff {r r' : Record} :
    StatusInfo.ofRecord r = .ofRecord r' ↔ r.id = r'.id ∧ r.status = r'.status := by
  constructor
  · intro h
    injection h with hid hcompleted hfailed hinProgress howner hmodCount hmodTime
    refine ⟨hid, ?_⟩
    show Status.mk r.status.completed r.status.failed r.status.inProgress r.status.owner
      r.status.modCount r.status.modTime = r'.status
    rw [hcompleted, hfailed, hinProgress, howner, hmodCount, hmodTime]
  · rintro ⟨hid, hstatus⟩
    unfold ofRecord
    rw [hid, hstatus]

namespace Backend

variable {β : Type}

def countOf (b : Backend β) (ids : List String) (kind : Status → Bool) : Nat :=
  ids.countP fun id => (b.record? false id).any fun r => kind r.status

/-!
## Stores with the same jobs
-/

namespace Holds

variable {b other : Backend β} {records records' : List Record}

theorem countOf_ids (h : b.Holds records) (kind : Status → Bool) :
    b.countOf (records.map Record.id) kind = records.countP fun r => kind r.status := by
  unfold countOf
  rw [List.countP_map]
  apply List.countP_congr
  intro r hr
  have hfound : b.record? false r.id = some r := h.record?_eq_some_iff.mpr ⟨hr, rfl⟩
  show (b.record? false r.id).any _ = true ↔ _
  rw [hfound]
  exact Iff.rfl

theorem mem_infos_iff (h : b.Holds records) {i : StatusInfo} :
    i ∈ b.infos false ↔ ∃ r, b.record? false i.id = some r ∧ .ofRecord r = i := by
  rw [h.infos_eq, List.mem_map]
  constructor
  · rintro ⟨r, hr, rfl⟩
    exact ⟨r, h.record?_eq_some_iff.mpr ⟨hr, rfl⟩, rfl⟩
  · rintro ⟨r, hr, hi⟩
    exact ⟨r, (h.record?_eq_some_iff.mp hr).1, hi⟩

theorem nodup_infos (h : b.Holds records) : (b.infos false).Nodup := by
  have hids : ((b.infos false).map StatusInfo.id).Nodup := by
    rw [h.infos_eq, List.map_map]
    exact h.nodup
  exact hids.of_map

theorem infos_perm (h : b.Holds records) (h' : other.Holds records')
    (hsame : ∀ id, (b.record? false id).map Record.status =
      (other.record? false id).map Record.status) :
    (other.infos false).Perm (b.infos false) := by
  -- Each store lists what the other one lists.
  have hmem : ∀ {x y : Backend β} {l l' : List Record}, x.Holds l → y.Holds l' →
      (∀ id, (x.record? false id).map Record.status = (y.record? false id).map Record.status) →
      ∀ i, i ∈ x.infos false → i ∈ y.infos false := by
    intro x y l l' hx hy hxy i hi
    rcases hx.mem_infos_iff.mp hi with ⟨r, hr, hri⟩
    have hstatus : (y.record? false i.id).map Record.status = some r.status := by
      rw [← hxy, hr]
      rfl
    rcases Option.map_eq_some_iff.mp hstatus with ⟨r', hr', heq⟩
    have hid : r'.id = r.id := by
      rw [(hy.record?_eq_some_iff.mp hr').2, (hx.record?_eq_some_iff.mp hr).2]
    exact hy.mem_infos_iff.mpr ⟨r', hr', (StatusInfo.ofRecord_eq_iff.mpr ⟨hid, heq⟩).trans hri⟩
  apply (List.perm_ext_iff_of_nodup h'.nodup_infos h.nodup_infos).mpr
  intro i
  constructor
  · exact hmem h' h (fun id => (hsame id).symm) i
  · exact hmem h h' hsame i

/-- The counts of a store are the numbers of its jobs under each head. -/
theorem tally_heads (h : b.Holds records) :
    let ids := records.map Record.id
    b.tally false =
      { total := ids.length
        pending := b.countOf ids fun s => !s.completed && !s.failed && !s.inProgress
        running := b.countOf ids fun s => !s.completed && !s.failed && s.inProgress
        completed := b.countOf ids fun s => s.completed
        failed := b.countOf ids fun s => !s.completed && s.failed } := by
  intro ids
  rw [h.tally_eq, Tally.ofInfos_eq_heads, h.countOf_ids, h.countOf_ids, h.countOf_ids,
    h.countOf_ids]
  unfold Tally.pendingOf Tally.runningOf Tally.completedOf Tally.failedOf
  rw [List.countP_map, List.countP_map, List.countP_map, List.countP_map, List.length_map,
    List.length_map]
  rfl

theorem isComplete_iff (h : b.Holds records) :
    (b.tally false).isComplete = true ↔
      ∀ id r, b.record? false id = some r → r.status.isFinished = true := by
  rw [h.tally_eq, Tally.isComplete_iff_active, Tally.active_eq_zero_iff]
  constructor
  · intro hall id r hr
    exact hall _ (List.mem_map_of_mem (h.record?_eq_some_iff.mp hr).1)
  · intro hall i hi
    rcases List.mem_map.mp hi with ⟨r, hr, rfl⟩
    exact hall r.id r (h.record?_eq_some_iff.mpr ⟨hr, rfl⟩)

end Holds

variable [Body β]

/-- In every store that a run leads to, in memory or in a table, the total is the number of stored
jobs, each job counts under the one head that its status puts it under, and the counts are those of
any list, in any order, of the jobs of this or of another store that has the same statuses. All jobs
are finished exactly if the counts are complete, which is to say that no job is active. -/
theorem tally_counts_each_job {b₀ b₁ : Backend β} (h₀ : b₀.IsNew) (h₁ : b₁.IsNew)
    (past₀ past₁ : List (Access β)) :
    let b := b₀.run past₀
    let other := b₁.run past₁
    let t := b.tally false
    (∃ ids : List String, ids.Nodup ∧ (∀ id, id ∈ ids ↔ b.record? false id ≠ none) ∧
      t =
        { total := ids.length
          pending := b.countOf ids fun s => !s.completed && !s.failed && !s.inProgress
          running := b.countOf ids fun s => !s.completed && !s.failed && s.inProgress
          completed := b.countOf ids fun s => s.completed
          failed := b.countOf ids fun s => !s.completed && s.failed }) ∧
    ((∀ id, (b.record? false id).map Record.status =
        (other.record? false id).map Record.status) →
      ∀ l, l.Perm (other.infos false) → t = .ofInfos l) ∧
    t.total = t.pending + t.running + t.completed + t.failed ∧
    (t.isComplete = true ↔ ∀ id r, b.record? false id = some r → r.status.isFinished = true) ∧
    (t.isComplete = true ↔ t.active = 0) := by
  intro b other t
  rcases h₀.run past₀ with ⟨records, hb, -⟩
  rcases h₁.run past₁ with ⟨records', hother, -⟩
  have ht : t = .ofInfos (b.infos false) := by
    rw [hb.infos_eq]
    exact hb.tally_eq
  refine ⟨⟨records.map Record.id, hb.nodup, fun id => hb.mem_ids_iff, hb.tally_heads⟩, ?_, ?_,
    hb.isComplete_iff, ?_⟩
  · intro hsame l hl
    rw [ht]
    exact (Tally.ofInfos_of_perm (hl.trans (hb.infos_perm hother hsame))).symm
  · rw [ht]
    exact Tally.total_ofInfos _
  · rw [ht]
    exact Tally.isComplete_iff_active _

/-- A table with a locked and a completed job counts what a store in memory lists that got the jobs
the other way round. -/
theorem tally_counts_locked_and_completed :
    let done : Job Work :=
      { sampleJob "done" with base := { (sampleJob "done").base with
        status := { Status.blank with completed := true } } }
    let memory : Backend Work := inMemory .empty .oldestFirst .standard
    let table := memory.onTable .inMemory .empty 0
    let save : Job Work → Access Work := fun j => ⟨.save j, false, .ofNanos 0⟩
    let lock : Access Work := ⟨.lock "held" "holder", false, .ofNanos 1000000000⟩
    (table.run [save (sampleJob "held"), save done, lock]).tally false =
      .ofInfos ((memory.run [save done, save (sampleJob "held"), lock]).infos false) := by
  intro done memory table save lock
  have htable : table.IsNew := Or.inr ⟨_, _, rfl⟩
  have hmemory : memory.IsNew := Or.inl ⟨_, rfl⟩
  have hsaved : table.firstSaves [save (sampleJob "held"), save done, lock] = ["held", "done"] := rfl
  have hsaved' : memory.firstSaves [save done, save (sampleJob "held"), lock] = ["done", "held"] :=
    rfl
  refine (tally_counts_each_job htable hmemory _ _).2.1 ?_ _ (List.Perm.refl _)
  intro id
  by_cases hid : id ∈ ["held", "done"]
  · rcases List.mem_pair.mp hid with rfl | rfl <;> rfl
  · have hid' : id ∉ ["done", "held"] := by
      rw [List.mem_pair] at *
      exact fun h => hid h.symm
    rw [htable.record?_of_not_mem (hsaved ▸ hid), hmemory.record?_of_not_mem (hsaved' ▸ hid')]

end Backend
end LeaseQueue
