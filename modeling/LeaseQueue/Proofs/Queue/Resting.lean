import LeaseQueue.Proofs.Queue.Moving
/-!
# Time that passes

When nothing can move, each worker that is at a job runs it, and its lock is not
yet to be renewed. The clock goes no further than to the first renewal.
-/

namespace LeaseQueue
namespace System

variable {β : Type} [Body β] {b : Backend β} {d : Discipline} {owners : String → Prop}
variable {s s' : System β} {m : Memory} {p i : Nat} {w : Worker β} {t : Nat}

omit [Body β] in
theorem exists_pool_of_workerAt (hw : s.workerAt p i = some w) :
    ∃ pool, s.pools[p]? = some pool ∧ pool.workers[i]? = some w := by
  unfold workerAt at hw
  exact Option.bind_eq_some_iff.mp hw

section

variable {pool : Pool β} {claim : Claim} {j : Job β}

theorem workerStep_of_storing {counts : Bool} (hpool : s.pools[p]? = some pool)
    (hphase : s.phaseAt p i = some (.storing claim j counts)) :
    s.workerStep p i .proceed = some (s.storeJob p i pool claim j counts) := by
  rcases Option.map_eq_some_iff.mp hphase with ⟨w, hw, hphase'⟩
  rcases exists_pool_of_workerAt hw with ⟨pool', hpool', hworker⟩
  cases hpool.symm.trans hpool'
  unfold workerStep
  simp only [hpool, hworker, hphase', Option.bind_eq_bind, Option.bind_some]
  rfl

end

theorem workerStep_of_advance (hadvance : s.advance (.worker p i) = none) (move : WorkerMove) :
    s.workerStep p i move = none := by
  have hmoves := List.findSome?_eq_none_iff.mp hadvance
  refine hmoves (.worker p i move) ?_
  cases move <;> simp [Task.moves]

theorem workerStep_eq_none (hstill : s.isStill = true) (hw : s.workerAt p i = some w)
    (move : WorkerMove) : s.workerStep p i move = none := by
  rcases exists_pool_of_workerAt hw with ⟨pool, hpool, hworker⟩
  have htask : Task.worker p i ∈ s.workerTasks := by
    have hi : i < pool.workers.length := (List.getElem?_eq_some_iff.mp hworker).1
    refine List.mem_flatMap.mpr ⟨(pool, p), List.mk_mem_zipIdx_iff_getElem?.mpr hpool, ?_⟩
    exact List.mem_map.mpr ⟨i, List.mem_range.mpr hi, rfl⟩
  unfold isStill at hstill
  have hcannot := List.all_eq_true.mp hstill (.worker p i) (by simp [htask])
  have hadvance : s.advance (.worker p i) = none := by
    unfold canMove at hcannot
    simpa using hcannot
  exact workerStep_of_advance hadvance move

theorem running_of_isStill (hstill : s.isStill = true) (hw : s.workerAt p i = some w)
    {claim : Claim} (hclaim : w.phase.claim? = some claim) :
    ∃ j endsAt renewAt, w.phase = .running claim j endsAt renewAt ∧ s.clock < renewAt := by
  rcases exists_pool_of_workerAt hw with ⟨pool, hpool, hworker⟩
  have hproceed := workerStep_eq_none hstill hw .proceed
  have hrenew := workerStep_eq_none hstill hw .renew
  unfold workerStep at hproceed hrenew
  simp only [hpool, hworker, Option.bind_eq_bind, Option.bind_some] at hproceed hrenew
  cases hphase : w.phase with
  | resting => rw [hphase] at hclaim; cases hclaim
  | asking => rw [hphase] at hclaim; cases hclaim
  | fetching => rw [hphase] at hclaim; cases hclaim
  | waiting deadline => rw [hphase] at hclaim; cases hclaim
  | claiming candidate => rw [hphase] at hclaim; cases hclaim
  | loading claim' => simp [hphase] at hproceed
  | checking claim' j left known => simp [hphase] at hproceed
  | running claim' j endsAt renewAt =>
      rw [hphase] at hclaim
      cases hclaim
      refine ⟨j, endsAt, renewAt, rfl, ?_⟩
      simpa [hphase] using hrenew
  | storing claim' j counts => simp [hphase] at hproceed
  | releasing claim' => simp [hphase] at hproceed

omit [Body β] in
theorem nextDeadline_le (ht : s.nextDeadline = some t) {moment : Nat} (hmem : moment ∈ s.deadlines)
    (hfuture : s.clock < moment) : t ≤ moment := by
  unfold nextDeadline at ht
  have hleast := (List.min?_eq_some_iff.mp ht).2
  exact hleast moment (List.mem_filter.mpr ⟨hmem, by simpa using hfuture⟩)

omit [Body β] in
theorem lt_nextDeadline (ht : s.nextDeadline = some t) : s.clock < t := by
  unfold nextDeadline at ht
  have hmem := (List.min?_eq_some_iff.mp ht).1
  simpa using (List.mem_filter.mp hmem).2

omit [Body β] in
theorem mem_deadlines_of_running (hw : s.workerAt p i = some w) {claim : Claim} {j : Job β}
    {endsAt renewAt : Nat} (hphase : w.phase = .running claim j endsAt renewAt) :
    renewAt ∈ s.deadlines := by
  rcases exists_pool_of_workerAt hw with ⟨pool, hpool, hworker⟩
  have hmem : renewAt ∈ w.deadlines := by
    unfold Worker.deadlines
    rw [hphase]
    simp
  have hmem' : renewAt ∈ s.pools.flatMap Pool.deadlines :=
    List.mem_flatMap.mpr ⟨pool, List.mem_of_getElem? hpool,
      List.mem_flatMap.mpr ⟨w, List.mem_of_getElem? hworker, hmem⟩⟩
  unfold deadlines
  simp [hmem']

/-- Time passes up to the first renewal of a lock at the latest. -/
theorem Placed.advances_tick (h : Placed b d owners s m) (htick : s.tick = some s') :
    Advances b d owners none s s' m := by
  unfold tick at htick
  split at htick
  · rename_i hstill
    rcases Option.map_eq_some_iff.mp htick with ⟨t, ht, rfl⟩
    refine ⟨m, ⟨h.wiring, h.backends, h.claims⟩, rfl, .rest ?_⟩
    refine ⟨Nat.le_of_lt (lt_nextDeadline ht), rfl, rfl, rfl, rfl, ?_⟩
    intro p i phase claim hphase hclaim
    rcases Option.map_eq_some_iff.mp hphase with ⟨w, hw, rfl⟩
    rcases running_of_isStill hstill hw hclaim with ⟨j, endsAt, renewAt, hrunning, hfuture⟩
    exact ⟨j, endsAt, renewAt, hrunning,
      nextDeadline_le ht (mem_deadlines_of_running hw hrunning) hfuture⟩
  · cases htick

end System
end LeaseQueue
