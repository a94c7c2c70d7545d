import LeaseQueue.Proofs.Job.Lock
import LeaseQueue.Proofs.Store.Index
import LeaseQueue.Proofs.Time.Elapsed
import LeaseQueue.Work.Basic
/-!
# Leases in memory

Who holds the live lease of a job in a store in memory keeps it, whatever else
is asked of the store: others can neither lock, release nor save the job, and it
is not handed out. Only the holder ends the lease early, by releasing the job
or by saving it.
-/

namespace LeaseQueue

namespace Status

/-!
## A status under a lease
-/

variable {s : Status} {owner other id : String} {t now : Timestamp} {timeout : Nat}

theorem HeldAt.isLive (h : s.HeldAt owner t) (hne : owner ≠ "")
    (hlive : now.since t < timeout) : s.isLive now timeout = true := by
  unfold Status.isLive
  rw [h.inProgress, h.owner, h.modTime]
  simp [hne, hlive]

theorem HeldAt.lock_other (h : s.HeldAt owner t) (hne : owner ≠ "")
    (hlive : now.since t < timeout) (hother : other ≠ owner) :
    s.lock id other now timeout = .refused (.held id owner) := by
  have hcan : s.canLock other now timeout = false := by
    unfold canLock
    rw [h.isLive hne hlive, h.owner]
    simp [hother.symm]
  unfold lock
  simp [h.completed, h.failed, hcan, h.owner]

theorem HeldAt.unlock_other (h : s.HeldAt owner t) (hother : other ≠ owner) :
    s.unlock id other now = .refused (.held id owner) := by
  unfold unlock
  simp [h.inProgress, h.owner, hother.symm]

theorem HeldAt.checkSave_other {incoming : Status} (h : s.HeldAt owner t)
    (hne : owner ≠ "") (hlive : now.since t < timeout)
    (hother : incoming.owner ≠ owner) :
    ∃ reason, s.checkSave incoming id now timeout = .error (.conflict id reason) := by
  apply checkSave_of_isLive (h.isLive hne hlive)
  rw [h.owner]
  exact hother

end Status

namespace Operation

variable {β : Type}

/-- The operation ends a lease that the owner holds on a job: it releases the job under the owner, or
saves it under the owner. -/
def Yields (id owner : String) : Operation β → Prop
  | .save j => j.id = id ∧ j.status.owner = owner
  | .unlock id' owner' => id' = id ∧ owner' = owner
  | _ => False

/-- The operation would change a job under another owner. -/
def Contends (id owner : String) : Operation β → Prop
  | .save j => j.id = id ∧ j.status.owner ≠ owner
  | .lock id' other => id' = id ∧ other ≠ owner
  | .unlock id' other => id' = id ∧ other ≠ owner
  | _ => False

end Operation

namespace Memory

/-!
## A store under a lease
-/

/-- An owner holds an unfinished job of the store by a lock that was taken or renewed at a moment. -/
def HeldAt (m : Memory) (id owner : String) (t : Timestamp) : Prop :=
  ∃ e, m.lookup? id = some e ∧ e.record.status.HeldAt owner t

variable {m m' : Memory} {id owner : String} {t : Timestamp} {lease : LeaseSettings}
variable {now : Reading}

theorem HeldAt.replace_other (h : m.HeldAt id owner t) {id' : String} {e : Entry}
    (hne : id' ≠ id) : (m.replace id' e).HeldAt id owner t := by
  rcases h with ⟨e', he', hheld⟩
  exact ⟨e', by rw [lookup?_replace, if_neg hne, he'], hheld⟩

theorem HeldAt.replace_same (h : m.HeldAt id owner t) {e e' : Entry}
    (he : m.lookup? id = some e) (hsame : e'.record.status = e.record.status) :
    (m.replace id e').HeldAt id owner t := by
  rcases h with ⟨e₀, he₀, hheld⟩
  rw [he] at he₀
  cases he₀
  exact ⟨e', by rw [lookup?_replace, if_pos rfl], hsame ▸ hheld⟩

variable {β : Type} [Body β] {op : Operation β}

theorem HeldAt.change (h : m.HeldAt id owner t) (hm : m.Indexed) (hne : owner ≠ "")
    (hlive : now.wall.since t < lease.lockTimeout) (hyields : ¬ op.Yields id owner)
    (hchange : Change lease now op m m') :
    m'.HeldAt id owner t ∨ (op = .lock id owner ∧ m'.HeldAt id owner now.wall) := by
  have hheld := h
  rcases hheld with ⟨e₀, he₀, hs₀⟩
  cases hchange with
  | none => exact Or.inl h
  | @saved j r _ e hj he hcheck =>
      by_cases hid : r.id = id
      · have hother : r.status.owner ≠ owner := by
          intro howner
          exact hyields ⟨Job.toRecord_id hj ▸ hid, Job.toRecord_status hj ▸ howner⟩
        rw [hid, he₀] at he
        cases he
        rcases hs₀.checkSave_other hne hlive hother with ⟨reason, herror⟩
        rw [herror] at hcheck
        cases hcheck
      · exact Or.inl (h.replace_other hid)
  | @added j r _ hj hnone =>
      have hid : r.id ≠ id := by
        intro hid
        rw [hid, he₀] at hnone
        cases hnone
      exact Or.inl ⟨e₀, by rw [lookup?_append, if_neg hid, he₀], hs₀⟩
  | @handed _ id' e hmem heligible =>
      by_cases hid : id' = id
      · subst hid
        exact Or.inl (h.replace_same (hm.lookup?_of_mem hmem) rfl)
      · exact Or.inl (h.replace_other hid)
  | @locked _ id' other e s he hs =>
      by_cases hid : id' = id
      · subst hid
        rw [he₀] at he
        cases he
        by_cases howner : other = owner
        · subst howner
          exact Or.inr ⟨rfl, _, by rw [lookup?_replace, if_pos rfl], Status.heldAt_of_lock hs⟩
        · rw [hs₀.lock_other hne hlive howner] at hs
          cases hs
      · exact Or.inl (h.replace_other hid)
  | @lockBroken _ id' other e s he hs =>
      by_cases hid : id' = id
      · subst hid
        rw [he₀] at he
        cases he
        by_cases howner : other = owner
        · -- A renewal that breaks off leaves the status as it was.
          rcases Status.lock_broken_cases hs with ⟨hcompleted, hfailed, -, -, rfl⟩
          have hheld' : { e₀.record.status with
              inProgress := true, owner := other : Status }.HeldAt owner t :=
            ⟨rfl, howner, hs₀.modTime, hcompleted, hfailed⟩
          exact Or.inl ⟨_, by rw [lookup?_replace, if_pos rfl], hheld'⟩
        · rw [hs₀.lock_other hne hlive howner] at hs
          cases hs
      · exact Or.inl (h.replace_other hid)
  | @unlocked _ id' other e s he hs =>
      by_cases hid : id' = id
      · subst hid
        rw [he₀] at he
        cases he
        have hother : other ≠ owner := fun howner => hyields ⟨rfl, howner⟩
        rw [hs₀.unlock_other hother] at hs
        cases hs
      · exact Or.inl (h.replace_other hid)
  | @unlockBroken _ id' other e s he hs =>
      by_cases hid : id' = id
      · subst hid
        rw [he₀] at he
        cases he
        have hother : other ≠ owner := fun howner => hyields ⟨rfl, howner⟩
        rw [hs₀.unlock_other hother] at hs
        cases hs
      · exact Or.inl (h.replace_other hid)

omit [Body β] in
theorem HeldAt.lock_ne_refused (h : m.HeldAt id owner t) (now : Timestamp) (timeout : Nat)
    (err : StoreError) : m.lock id owner now timeout ≠ .refused err := by
  rcases h with ⟨e, he, hs⟩
  have hcan : e.record.status.canLock owner now timeout = true := by
    simp [Status.canLock, Status.isFinished, hs.completed, hs.failed, hs.owner]
  unfold Memory.lock
  simp only [he, Status.lock_of_canLock hcan]
  rcases Status.counted_cases { e.record.status with inProgress := true, owner := owner } now with
    ⟨-, hmade⟩ | ⟨-, hbroken⟩
  · rw [hmade]
    intro hrefused
    cases hrefused
  · rw [hbroken]
    intro hrefused
    cases hrefused

omit [Body β] in
theorem HeldAt.exists_save (h : m.HeldAt id owner t) (hne : owner ≠ "") {r : Record}
    (hid : r.id = id) (howner : r.status.owner = owner) (now : Timestamp) (timeout : Nat) :
    ∃ m', m.save r now timeout = .ok m' := by
  rcases h with ⟨e, he, hs⟩
  have hheld : e.record.status.isHeldBy r.status.owner = true :=
    Status.isHeldBy_iff.mpr ⟨hs.inProgress, howner ▸ hne, hs.owner.trans howner.symm⟩
  unfold Memory.save Status.checkSave
  simp only [hid, he, hheld, if_true]
  exact ⟨_, rfl⟩

theorem HeldAt.candidate?_ne (h : m.HeldAt id owner t) (hm : m.Indexed) (hne : owner ≠ "")
    (hlive : now.wall.since t < lease.lockTimeout) {d : Discipline} {id' : String}
    {e : Entry} (hcandidate : m.candidate? d now lease = some (id', e)) : id' ≠ id := by
  intro hid
  subst hid
  rcases h with ⟨e₀, he₀, hs₀⟩
  rcases candidate?_cases hcandidate with ⟨hmem, heligible⟩
  have he : m.lookup? id' = some e := hm.lookup?_of_mem hmem
  rw [he₀] at he
  cases he
  unfold isEligible at heligible
  rw [hs₀.isLive hne hlive] at heligible
  simp at heligible

end Memory

namespace Backend

/-!
## Runs under a lease
-/

variable {β : Type} [Body β] {id owner : String} {t : Timestamp}

theorem heldAt_of_access_lock {b : Backend β} {d : Discipline} {m : Memory} (hm : m.Indexed)
    {cancelled : Bool} {now : Reading}
    (h : ((b.onMemory d m).access ⟨.lock id owner, cancelled, now⟩).1 = .done (.ok ())) :
    ∃ m', (b.onMemory d m).after ⟨.lock id owner, cancelled, now⟩ = b.onMemory d m' ∧
      m'.Indexed ∧ m'.HeldAt id owner now.wall := by
  unfold after
  rw [access_lock] at h ⊢
  cases hlock : m.lock id owner now.wall b.lease.lockTimeout with
  | refused err =>
      rw [hlock] at h
      cases h
  | broken m' =>
      rw [hlock] at h
      cases h
  | made m' =>
      rcases Memory.lock_cases hlock with ⟨e, s, he, hs, rfl⟩
      have hid := hm.record_id he
      exact ⟨_, rfl, hm.replace he rfl hid,
        _, by rw [Memory.lookup?_replace, if_pos rfl], Status.heldAt_of_lock hs⟩

/-- A run during which the lease does not end leaves it with its holder. The invariant is that the
lease was taken or renewed less than the timeout before the end of the run. -/
theorem run_heldAt (b : Backend β) (d : Discipline) {m : Memory} (hm : m.Indexed)
    (hne : owner ≠ "") (now : Reading) (accesses : List (Access β))
    (hheld : m.HeldAt id owner t)
    (hclock : Timestamp.Ordered
      (t :: (accesses.map fun a => a.reading.wall) ++ [now.wall]))
    (hkeeps : ∀ a ∈ accesses, ¬ a.operation.Yields id owner)
    (hlive : now.wall.since t < b.lease.lockTimeout) :
    ∃ m' t', (b.onMemory d m).run accesses = b.onMemory d m' ∧ m'.Indexed ∧
      m'.HeldAt id owner t' ∧ now.wall.since t' < b.lease.lockTimeout := by
  induction accesses generalizing m t with
  | nil => exact ⟨m, t, rfl, hm, hheld, hlive⟩
  | cons a rest ih =>
      have hend : now.wall ∈ (rest.map fun a => a.reading.wall) ++ [now.wall] := by simp
      have hleap : t.isLeap = false := hclock.1 t List.mem_cons_self
      have hnow : a.reading.wall.since t < b.lease.lockTimeout :=
        Int.lt_of_le_of_lt (hclock.tail.since_le hend hleap) hlive
      rcases exists_change b d m a with ⟨m', hafter, hchange⟩
      have hrest : ∀ a' ∈ rest, ¬ a'.operation.Yields id owner :=
        fun a' ha' => hkeeps a' (List.mem_cons_of_mem a ha')
      rw [run_cons, hafter]
      rcases hheld.change hm hne hnow (hkeeps a List.mem_cons_self) hchange with
        hsame | ⟨-, hrenewed⟩
      · exact ih (hm.change hchange) hsame hclock.skip hrest hlive
      · exact ih (hm.change hchange) hrenewed hclock.tail hrest
          (Int.lt_of_le_of_lt (hclock.since_second_le hend) hlive)

theorem access_contends (b : Backend β) (d : Discipline) {m : Memory} (hne : owner ≠ "")
    (hheld : m.HeldAt id owner t) {now : Reading}
    (hlive : now.wall.since t < b.lease.lockTimeout) {op : Operation β}
    (hop : op.Contends id owner) (cancelled : Bool) :
    ∃ err, (b.onMemory d m).access ⟨op, cancelled, now⟩ =
      (.done (.error err), b.onMemory d m) := by
  rcases hheld with ⟨e, he, hs⟩
  cases op with
  | save j =>
      rcases hop with ⟨hid, hother⟩
      cases hj : j.toRecord with
      | error reason => exact ⟨_, access_save_unwritable b d m cancelled now hj⟩
      | ok r =>
          have hrid : r.id = id := (Job.toRecord_id hj).trans hid
          have howner : r.status.owner ≠ owner := Job.toRecord_status hj ▸ hother
          rcases hs.checkSave_other hne hlive howner with ⟨reason, herror⟩
          refine ⟨.conflict id reason, ?_⟩
          rw [access_save b d m cancelled now hj]
          unfold Memory.save
          rw [hrid]
          simp only [he]
          rw [herror]
          rfl
  | lock id' other =>
      rcases hop with ⟨rfl, hother⟩
      refine ⟨.lock (.held id' owner), ?_⟩
      rw [access_lock]
      unfold Memory.lock
      simp only [he, hs.lock_other hne hlive hother]
      rfl
  | unlock id' other =>
      rcases hop with ⟨rfl, hother⟩
      refine ⟨.lock (.held id' owner), ?_⟩
      rw [access_unlock]
      unfold Memory.unlock
      simp only [he, hs.unlock_other hother]
      rfl
  | get _ => cases hop
  | next => cases hop
  | tally => cases hop
  | infos => cases hop
  | pull _ => cases hop

theorem access_next_ne (b : Backend β) (d : Discipline) {m : Memory} (hm : m.Indexed)
    (hne : owner ≠ "") (hheld : m.HeldAt id owner t) {now : Reading}
    (hlive : now.wall.since t < b.lease.lockTimeout) {cancelled : Bool} {j : Job β}
    (h : ((b.onMemory d m).access ⟨.next, cancelled, now⟩).1 = .job (some j)) :
    j.id ≠ id := by
  cases cancelled with
  | true => cases h
  | false =>
      rw [access_next] at h
      cases hnext : m.next d now b.lease with
      | none =>
          rw [hnext] at h
          cases h
      | some p =>
          rcases p with ⟨r, m'⟩
          rcases Memory.next_cases hnext with ⟨id', e, hcandidate, rfl, -⟩
          rw [hnext] at h
          injection h with hbuild
          have hbase : j.base = e.record.base := Registry.build?_base hbuild
          have hid : e.record.id = id' :=
            hm.ids (id', e) (Memory.candidate?_cases hcandidate).1
          have hj : j.id = id' := (congrArg Base.id hbase).trans hid
          rw [hj]
          exact hheld.candidate?_ne hm hne hlive hcandidate

/-- Once an owner has locked a job, then for as long as less than the timeout has passed since its
last lock and the owner has neither released nor saved the job, the stored record stays locked by
the owner, whatever others ask for is refused without a trace, and the job is not handed out. -/
theorem live_lease_excludes {registry : Registry β} {d : Discipline}
    {lease : LeaseSettings} {b : Backend β} (hb : Reachable registry d lease b)
    (hne : owner ≠ "") (taken now : Reading) (cancelled : Bool) (later : List (Access β))
    (hlock : (b.access ⟨.lock id owner, cancelled, taken⟩).1 = .done (.ok ()))
    (hclock : Timestamp.Ordered
      (taken.wall :: (later.map fun a => a.reading.wall) ++ [now.wall]))
    (hkeeps : ∀ a ∈ later, ¬ a.operation.Yields id owner)
    (hlive : now.wall.since taken.wall < lease.lockTimeout) :
    let b' := (b.after ⟨.lock id owner, cancelled, taken⟩).run later
    (∃ r, b'.record? false id = some r ∧ r.status.inProgress = true ∧
      r.status.owner = owner) ∧
    (∀ (op : Operation β) (c : Bool), op.Contends id owner →
      ∃ err, b'.access ⟨op, c, now⟩ = (.done (.error err), b')) ∧
    (∀ (c : Bool) (j : Job β), (b'.access ⟨.next, c, now⟩).1 = .job (some j) → j.id ≠ id) := by
  intro b'
  rcases hb.exists_memory with ⟨m, rfl, hm⟩
  rcases heldAt_of_access_lock hm hlock with ⟨m₁, hafter, hm₁, hheld⟩
  rcases run_heldAt (inMemory registry d lease) d hm₁ hne now later hheld hclock hkeeps hlive
    with ⟨m', t', hrun, hm', hheld', hlive'⟩
  have hb' : b' = (inMemory registry d lease).onMemory d m' := by
    show ((_ : Backend β).after _).run later = _
    rw [hafter, hrun]
  rw [hb']
  refine ⟨?_, ?_, ?_⟩
  · rcases hheld' with ⟨e', he', hs'⟩
    exact ⟨e'.record, by simp [record?, onMemory, Memory.record?, he'],
      hs'.inProgress, hs'.owner⟩
  · intro op c hop
    exact access_contends _ d hne hheld' hlive' hop c
  · intro c j hj
    exact access_next_ne _ d hm' hne hheld' hlive' hj

/-- A lock of five minutes that was taken at one second and renewed at two holds a rival off at five
minutes. -/
theorem live_lease_excludes_rival :
    let b : Backend Work :=
      (inMemory .empty .byPriority .standard).run [⟨.save (sampleJob "job"), false, .ofNanos 0⟩]
    let b' := (b.after ⟨.lock "job" "holder", false, .ofNanos 1000000000⟩).run
      [⟨.lock "job" "rival", false, .ofNanos 1500000000⟩,
        ⟨.lock "job" "holder", false, .ofNanos 2000000000⟩]
    ∃ err, b'.access ⟨.lock "job" "rival", false, .ofNanos 300000000000⟩ =
      (.done (.error err), b') := by
  intro b b'
  have hb : Reachable .empty .byPriority .standard b := ⟨_, rfl⟩
  exact (live_lease_excludes hb (by decide) _ (.ofNanos 300000000000) false _ rfl
    ⟨by decide, by decide⟩ (by simp [Operation.Yields]) (by decide)).2.1
    (.lock "job" "rival") false ⟨rfl, by decide⟩

end Backend
end LeaseQueue
