import LeaseQueue.Proofs.Queue.Evidence
import LeaseQueue.Proofs.Queue.Resting
/-!
# What workers store as completed

What a worker stores was made of a record that it has read since it took the lock,
in one of two ways. An attempt clears the error before it begins, so a completed
job has none after it. A job whose work is found done is completed without an
attempt, and then the error of the record is stored again with it.
-/

namespace LeaseQueue

variable {β : Type}

def Phase.isAtJob : Phase β → Bool
  | .checking .. | .running .. | .storing .. => true
  | _ => false

theorem Phase.claim?_of_isAtJob {phase : Phase β} (h : phase.isAtJob = true) :
    phase.claim? ≠ none := by
  cases phase with
  | checking claim j left known => exact Option.some_ne_none claim
  | running claim j endsAt renewAt => exact Option.some_ne_none claim
  | storing claim j counts => exact Option.some_ne_none claim
  | _ => cases h

/-- The ways in which a worker makes what it stores of the job that it has read, and whether that
counts as an attempt. `since` is what has happened since the worker took the lock. -/
inductive Made [Body β] (p i : Nat) (since : List (System β × Event β)) (j₀ : Job β) :
    Bool → Job β → Prop where
  | ran (began ended : Timestamp) :
      Made p i since j₀ true ((j₀.begun began).attempted.ended ended)
  /-- In a move of the worker there was the file that the job is to create. -/
  | passed (path : String) (x : System β × Event β) :
      j₀.base.dependency = .createsFile path → x ∈ since →
      x.2 = .move (.worker p i .proceed) → x.1.files path = true →
      Made p i since j₀ false j₀.passed

/-- Of an unfinished job an attempt that completes it leaves no error, and passing it the error that
there was. -/
theorem Made.error_eq [Body β] {p i : Nat} {since : List (System β × Event β)} {j₀ j : Job β}
    {counts : Bool} (h : Made p i since j₀ counts j) (hopen : j₀.status.completed = false) (hcompleted : j.status.completed = true) :
    j.base.error = if counts then none else j₀.base.error := by
  cases h with
  | ran began ended =>
      have hcleared : (j₀.begun began).base.error = none := rfl
      rw [Job.attempted_ended_eq hcleared] at hcompleted ⊢
      have hnone : (j₀.status.completed || (Body.attempt j₀.body).errors.isEmpty) = true :=
        hcompleted
      rw [hopen, Bool.false_or] at hnone
      show (Body.attempt j₀.body).error = none
      unfold Attempt.error
      rw [hnone]
      rfl
  | passed path x _ _ _ _ => rfl

theorem Made.after [Body β] {p i : Nat} {since : List (System β × Event β)} {j₀ j : Job β}
    {counts : Bool} (h : Made p i since j₀ counts j) (x : System β × Event β) :
    Made p i (x :: since) j₀ counts j := by
  cases h with
  | ran began ended => exact .ran began ended
  | passed path y hpath hmem hmove hexists =>
      exact .passed path y hpath (List.mem_cons_of_mem x hmem) hmove hexists

namespace System

variable {s s' : System β} {p i : Nat} {w : Worker β} {move : WorkerMove}

/-!
## Moves of a worker that has read its job
-/

variable [Body β]

/-- How a move of a worker may lead from a phase to another one, seen by the job at hand. -/
inductive Goes (s : System β) (move : WorkerMove) : Phase β → Phase β → Prop where
  /-- The worker comes to a phase without a job. -/
  | other {phase phase' : Phase β} : phase'.isAtJob = false → Goes s move phase phase'
  | loads {claim : Claim} {token : Nat} {j : Job β} :
      (s.driverGet claim.driver token claim.id).1 = some j → j.status.isFinished = false →
      Goes s move (.loading claim) (.checking claim j j.base.dependency.waitsFor [])
  | looksUp {claim : Claim} {j : Job β} {left left' : List String}
      {known known' : List (String × Option Bool)} :
      Goes s move (.checking claim j left known) (.checking claim j left' known')
  | begins {claim : Claim} {j : Job β} {left : List String} {known : List (String × Option Bool)}
      {endsAt renewAt : Nat} :
      Goes s move (.checking claim j left known) (.running claim (j.begun s.now) endsAt renewAt)
  | passes {claim : Claim} {j : Job β} {left : List String} {known : List (String × Option Bool)}
      {path : String} :
      j.base.dependency = .createsFile path → move = .proceed → s.files path = true →
      Goes s move (.checking claim j left known) (.storing claim j.passed false)
  | renews {claim : Claim} {j : Job β} {endsAt renewAt renewAt' : Nat} :
      Goes s move (.running claim j endsAt renewAt) (.running claim j endsAt renewAt')
  | ends {claim : Claim} {j : Job β} {endsAt renewAt : Nat} :
      Goes s move (.running claim j endsAt renewAt) (.storing claim (j.attempted.ended s.now) true)

def Leads (s : System β) (p i : Nat) (w : Worker β) (move : WorkerMove) (s' : System β) : Prop :=
  ∀ phase, s'.phaseAt p i = some phase → s.Goes move w.phase phase

theorem leads_modify {s₁ : System β} {f : Worker β → Worker β} (hw : s₁.workerAt p i = some w)
    (h : s.Goes move w.phase (f w).phase) : s.Leads p i w move (s₁.modifyWorker p i f) := by
  intro phase hphase
  rw [phaseAt_modifyWorker_self hw] at hphase
  cases hphase
  exact h

theorem leads_answered {α : Type} {k : Nat} {call : DriverCall} {failed a : α}
    {f : Backend β → α × Backend β} {s₁ : System β} {g : Worker β → Worker β}
    (hw : s.workerAt p i = some w) (hcall : s.viaDriver k call failed f = (a, s₁))
    (h : s.Goes move w.phase (g w).phase) : s.Leads p i w move (s₁.modifyWorker p i g) := by
  rcases runs_of_viaDriver hcall with ⟨-, hworkers⟩
  exact leads_modify ((hworkers p i).trans hw) h

theorem leads_of_eases (h : s.Eases s') (hw : s.workerAt p i = some w)
    (hidle : w.phase.claim? = none) : s.Leads p i w move s' := by
  intro phase hphase
  apply Goes.other
  cases hat : phase.isAtJob with
  | false => rfl
  | true =>
      have hclaim := Phase.claim?_of_isAtJob hat
      rcases h.phases p i with hsame | ⟨-, hnone⟩
      · rw [hsame, phaseAt_eq hw] at hphase
        cases hphase
        exact absurd hidle hclaim
      · rw [claimAt_eq hphase] at hnone
        exact absurd hnone hclaim

theorem leads_askSource {pool : Pool β} (hw : s.workerAt p i = some w)
    (h : s.askSource p i pool = some s') : s.Leads p i w move s' := by
  unfold askSource at h
  split at h
  · cases h
  · cases h
    exact leads_modify hw (.other rfl)
  · rename_i j left k hsource
    cases h
    have hpool : (s.modifyPool p fun pool => { pool with source := some (.jobs left k) }).workerAt p i =
        some w := by
      rw [workerAt_modifyPool, if_pos rfl]
      exact hw
    exact leads_modify hpool (.other rfl)
  · simp only [Option.bind_eq_bind, Option.bind_eq_some_iff] at h
    rcases h with ⟨queue, -, h⟩
    cases h
    unfold askQueue
    split
    · exact leads_modify hw (.other rfl)
    · exact leads_modify hw (.other rfl)

theorem leads_fetchJob (hw : s.workerAt p i = some w) (pool : Pool β) :
    s.Leads p i w move (s.fetchJob p i pool) := by
  unfold fetchJob restWorker
  split
  · exact leads_modify hw (.other rfl)
  · split
    · rename_i hcall
      exact leads_answered hw hcall (.other rfl)
    · rename_i hcall
      exact leads_answered hw hcall (.other rfl)

theorem leads_claimCandidate (hw : s.workerAt p i = some w) (pool : Pool β) (candidate : Job β) :
    s.Leads p i w move (s.claimCandidate p i pool candidate) := by
  unfold claimCandidate
  split
  · exact leads_modify hw (.other rfl)
  · split
    · exact leads_modify hw (.other rfl)
    · dsimp only
      split
      · rename_i hcall
        exact leads_answered hw hcall (.other rfl)
      · rename_i hcall
        exact leads_answered hw hcall (.other rfl)
      · rename_i hcall
        exact leads_answered hw hcall (.other rfl)

theorem leads_loadJob {claim : Claim} (hw : s.workerAt p i = some w)
    (hphase : w.phase = .loading claim) (pool : Pool β) :
    s.Leads p i w move (s.loadJob p i pool claim) := by
  unfold loadJob
  split
  · rename_i hcall
    split
    · exact leads_answered hw hcall (.other rfl)
    · rename_i hopen
      apply leads_answered hw hcall
      rw [hphase]
      exact .loads (congrArg Prod.fst hcall) (Bool.eq_false_iff.mpr hopen)
  · rename_i hcall
    exact leads_answered hw hcall (.other rfl)

theorem leads_checkDependency {claim : Claim} {j : Job β} {left : List String}
    {known : List (String × Option Bool)} (hw : s.workerAt p i = some w)
    (hphase : w.phase = .checking claim j left known) (pool : Pool β) :
    s.Leads p i w .proceed (s.checkDependency p i pool claim j left known) := by
  unfold checkDependency
  cases left with
  | cons id left =>
      have hcall : s.driverGet claim.driver pool.token id = s.driverGet claim.driver pool.token id := rfl
      apply leads_answered hw hcall
      rw [hphase]
      exact .looksUp
  | nil =>
      dsimp only
      split
      · have hw' : ({ s with runs := s.runs ++ [⟨claim.owner, j.begun s.now, s.clock⟩] } :
            System β).workerAt p i = some w := hw
        apply leads_modify hw'
        rw [hphase]
        exact .begins
      · rename_i hpassed
        rcases Dependency.state_eq_passed hpassed with ⟨path, hpath, hexists⟩
        apply leads_modify hw
        rw [hphase]
        exact .passes hpath rfl hexists
      · exact leads_modify hw (.other rfl)
      · exact leads_modify hw (.other rfl)

theorem leads_renewLock {claim : Claim} {j : Job β} {endsAt renewAt : Nat}
    (hw : s.workerAt p i = some w) (hphase : w.phase = .running claim j endsAt renewAt)
    (pool : Pool β) : s.Leads p i w move (s.renewLock p i pool claim j endsAt) := by
  unfold renewLock
  split
  · rename_i hcall
    apply leads_answered hw hcall
    rw [hphase]
    exact .renews
  · rename_i hcall
    exact leads_answered hw hcall (.other rfl)
  · rename_i hcall
    exact leads_answered hw hcall (.other rfl)

theorem leads_storeJob (hw : s.workerAt p i = some w) (pool : Pool β) (claim : Claim) (j : Job β)
    (counts : Bool) : s.Leads p i w move (s.storeJob p i pool claim j counts) := by
  unfold storeJob
  split
  · rename_i hcall
    exact leads_answered hw hcall (.other rfl)
  · rename_i hcall
    exact leads_answered hw hcall (.other rfl)

theorem leads_of_workerStep (hw : s.workerAt p i = some w) (h : s.workerStep p i move = some s') :
    s.Leads p i w move s' := by
  unfold workerStep at h
  simp only [Option.bind_eq_bind, Option.bind_eq_some_iff] at h
  rcases h with ⟨pool, hpool, w', hworker, h⟩
  cases hw.symm.trans (workerAt_eq hpool hworker)
  -- The cases are the moves in the order of their phases; no other move can be made.
  split at h <;> rename_i hphase
  · exact leads_of_eases (eases_handleMessage hw hphase h) hw (by rw [hphase]; rfl)
  · exact leads_askSource hw h
  · split at h <;> cases h
    exact leads_modify hw (.other rfl)
  · cases h
    exact leads_fetchJob hw pool
  · split at h <;> cases h
    exact leads_modify hw (.other rfl)
  · have hidle : w.phase.claim? = none := by rw [hphase]; rfl
    exact leads_of_eases (eases_takeFromBuffer hw hidle h) hw hidle
  · have hidle : w.phase.claim? = none := by rw [hphase]; rfl
    split at h <;> cases h
    exact leads_of_eases (eases_stopWaiting hw hidle pool) hw hidle
  · have hidle : w.phase.claim? = none := by rw [hphase]; rfl
    split at h <;> cases h
    exact leads_of_eases (eases_stopWaiting hw hidle pool) hw hidle
  · cases h
    exact leads_claimCandidate hw pool _
  · cases h
    exact leads_loadJob hw hphase pool
  · cases h
    exact leads_checkDependency hw hphase pool
  · split at h <;> cases h
    apply leads_modify hw
    rw [hphase]
    exact .ends
  · split at h <;> cases h
    exact leads_renewLock hw hphase pool
  · split at h <;> cases h
    exact leads_modify hw (.other rfl)
  · cases h
    exact leads_storeJob hw pool _ _ _
  · cases h
    unfold releaseJob
    split
    · rename_i hcall
      exact leads_answered hw hcall (.other rfl)
    · rename_i hcall
      exact leads_answered hw hcall (.other rfl)
  · cases h

/-!
## Where what is stored comes from
-/

variable {past since : List (System β × Event β)} {claim : Claim} {phase phase' : Phase β}
variable {j : Job β}

/-- A worker has read an unfinished record of a job since it took the lock. -/
structure HasRead (past : List (System β × Event β)) (p i : Nat) (claim : Claim)
    (since : List (System β × Event β)) (r : Record) (j : Job β) : Prop where
  held : Held past p i claim since
  isOpen : r.status.isFinished = false
  read : ∃ x ∈ since, x.1.HasJob claim.driver claim.id r j

/-- The job that a worker has at hand comes from one that it has read. -/
def Traced (past : List (System β × Event β)) (p i : Nat) : Phase β → Prop
  | .checking claim j _ _ => ∃ since r, HasRead past p i claim since r j
  | .running claim j _ _ =>
      ∃ since r j₀ began, HasRead past p i claim since r j₀ ∧ j = j₀.begun began
  | .storing claim j counts =>
      ∃ since r j₀, HasRead past p i claim since r j₀ ∧ Made p i since j₀ counts j
  | _ => True

omit [Body β] in
theorem HasRead.after {r : Record} (h : HasRead past p i claim since r j)
    (hclaim : s.claimAt p i = some claim) (e : Event β) :
    HasRead ((s, e) :: past) p i claim ((s, e) :: since) r j := by
  rcases h.read with ⟨x, hx, hjob⟩
  exact ⟨h.held.after hclaim e, h.isOpen, x, List.mem_cons_of_mem _ hx, hjob⟩

omit [Body β] in
theorem hasRead_of_driverGet {token : Nat} (hheld : Held past p i claim since) (hclaim : s.claimAt p i = some claim) (e : Event β)
    (hget : (s.driverGet claim.driver token claim.id).1 = some j)
    (hopen : j.status.isFinished = false) :
    ∃ r, HasRead ((s, e) :: past) p i claim ((s, e) :: since) r j := by
  rcases hasJob_of_driverGet hget with ⟨r, hjob⟩
  have hstatus : j.status = r.status := by
    rcases hjob with ⟨b, -, -, hbuilt⟩
    exact congrArg Base.status (Registry.build?_base hbuilt)
  rw [hstatus] at hopen
  exact ⟨r, hheld.after hclaim e, hopen, _, List.mem_cons_self, hjob⟩

theorem traced_of_not_isAtJob (h : phase.isAtJob = false) : Traced past p i phase := by
  cases phase with
  | checking claim j left known => cases h
  | running claim j endsAt renewAt => cases h
  | storing claim j counts => cases h
  | _ => trivial

theorem Traced.after (h : Traced past p i phase) (hphase : s.phaseAt p i = some phase)
    (e : Event β) : Traced ((s, e) :: past) p i phase := by
  have hclaim := claimAt_eq hphase
  cases phase with
  | checking claim j left known =>
      rcases h with ⟨since, r, hread⟩
      exact ⟨_, r, hread.after hclaim e⟩
  | running claim j endsAt renewAt =>
      rcases h with ⟨since, r, j₀, began, hread, hj⟩
      exact ⟨_, r, j₀, began, hread.after hclaim e, hj⟩
  | storing claim j counts =>
      rcases h with ⟨since, r, j₀, hread, hmade⟩
      exact ⟨_, r, j₀, hread.after hclaim e, hmade.after _⟩
  | _ => trivial

theorem Goes.traced (h : s.Goes move phase phase') (hbacked : Backed past p i phase)
    (htraced : Traced past p i phase) (hphase : s.phaseAt p i = some phase) :
    Traced ((s, .move (.worker p i move)) :: past) p i phase' := by
  have hclaim := claimAt_eq hphase
  cases h with
  | other hnone => exact traced_of_not_isAtJob hnone
  | loads hget hopen =>
      rcases hbacked with ⟨since, hheld⟩
      exact ⟨_, hasRead_of_driverGet hheld hclaim _ hget hopen⟩
  | looksUp =>
      rcases htraced with ⟨since, r, hread⟩
      exact ⟨_, r, hread.after hclaim _⟩
  | begins =>
      rcases htraced with ⟨since, r, hread⟩
      exact ⟨_, r, _, s.now, hread.after hclaim _, rfl⟩
  | passes hpath hmove hexists =>
      subst hmove
      rcases htraced with ⟨since, r, hread⟩
      exact ⟨_, r, _, hread.after hclaim _,
        .passed _ _ hpath List.mem_cons_self rfl hexists⟩
  | renews =>
      rcases htraced with ⟨since, r, j₀, began, hread, hj⟩
      exact ⟨_, r, j₀, began, hread.after hclaim _, hj⟩
  | ends =>
      rcases htraced with ⟨since, r, j₀, began, hread, rfl⟩
      exact ⟨_, r, j₀, hread.after hclaim _, .ran began s.now⟩

theorem traced_handle {e : Event β} (hhandle : s.handle e = some s')
    (hbacked : ∀ phase, s.phaseAt p i = some phase → Backed past p i phase)
    (htraced : ∀ phase, s.phaseAt p i = some phase → Traced past p i phase)
    (hphase : s'.phaseAt p i = some phase) : Traced ((s, e) :: past) p i phase := by
  by_cases hown : ∃ move, e = .move (.worker p i move)
  · rcases hown with ⟨move, rfl⟩
    have hstep : s.workerStep p i move = some s' := hhandle
    rcases exists_workerAt_of_workerStep hstep with ⟨w, hw⟩
    have hbefore := phaseAt_eq hw
    exact (leads_of_workerStep hw hstep phase hphase).traced (hbacked _ hbefore)
      (htraced _ hbefore) hbefore
  · cases hat : phase.isAtJob with
    | false => exact traced_of_not_isAtJob hat
    | true =>
        -- Nobody else brings a worker to a job, so it was at this one before.
        have hothers : ∀ move, e ≠ .move (.worker p i move) := fun move he => hown ⟨move, he⟩
        have hframes : s.Frames p i s' := frames_handle hothers hhandle
        have hclaim : s'.claimAt p i ≠ none := by
          rw [claimAt_eq hphase]
          exact Phase.claim?_of_isAtJob hat
        have hsame := (hframes.claims hclaim).symm.trans hphase
        exact (htraced phase hsame).after hsame e

theorem History.traced {clock : Nat} (h : History clock past s)
    (hphase : s.phaseAt p i = some phase) : Traced past p i phase := by
  induction h generalizing phase with
  | empty => cases hphase
  | event hbefore hhandle ih =>
      exact traced_handle hhandle (fun _ => hbefore.backed) (fun _ => ih) hphase
  | clock t _ ih => exact ih hphase

/-!
## What is stored
-/

section

variable {k token : Nat} {driver : Driver} {b : Backend β} {d : Discipline} {m m' : Memory}

omit [Body β] in
theorem viaDriver_cases {α : Type} (hdriver : s.drivers[k]? = some driver)
    (hstore : s.backends[driver.backend]? = some b) (call : DriverCall) (failed : α)
    (f : Backend β → α × Backend β) :
    (s.viaDriver k call failed f).1 = failed ∨
      ((s.viaDriver k call failed f).1 = (f b).1 ∧
        (s.viaDriver k call failed f).2.backends = s.backends.set driver.backend (f b).2) := by
  have hbackend : s.backends[(driver.begin call).2.backend]? = some b := hstore
  unfold viaDriver
  rw [hdriver]
  dsimp only
  split
  · exact Or.inl rfl
  · rw [hbackend]
    exact Or.inr ⟨rfl, rfl⟩

omit [Body β] in
theorem exists_record_of_save {r : Record} {now : Timestamp} {timeout : Nat}
    (h : m.save r now timeout = .ok m') :
    ∃ stored, (m'.lookup? r.id).map Entry.record = some stored ∧
      stored.base = { r.base with status := stored.status } ∧
      stored.status.completed = r.status.completed := by
  rcases Memory.save_cases h with ⟨e, -, -, rfl⟩ | ⟨-, rfl⟩
  · refine ⟨r.withStatus (e.record.status.merge r.status), ?_, rfl, rfl⟩
    rw [Memory.lookup?_replace, if_pos rfl]
    rfl
  · refine ⟨r, ?_, rfl, rfl⟩
    rw [Memory.lookup?_append, if_pos rfl]
    rfl

theorem exists_record_of_driverSave (hdriver : s.drivers[k]? = some driver)
    (hstore : s.backends[driver.backend]? = some (b.onMemory d m))
    (hsaved : (s.driverSave k token j).1 = .ok ()) :
    ∃ r, (s.driverSave k token j).2.recordIn driver.backend j.id = some r ∧
      r.base = { j.base with status := r.status } ∧ r.status.completed = j.status.completed := by
  have hn := (List.getElem?_eq_some_iff.mp hstore).1
  unfold driverSave at hsaved ⊢
  rcases viaDriver_cases hdriver hstore .save (.error .connection)
    fun b => settle b (b.save (s.isCancelled token) s.reading j) with hfailed | ⟨hdone, hbackends⟩
  · rw [hfailed] at hsaved
    cases hsaved
  · rw [hdone] at hsaved
    unfold recordIn
    rw [hbackends, List.getElem?_set_self hn]
    cases hj : j.toRecord with
    | error reason =>
        unfold Backend.save at hsaved
        rw [hj] at hsaved
        cases hsaved
    | ok r =>
        rw [Backend.save_onMemory b d m _ s.reading hj] at hsaved ⊢
        cases hsave : m.save r s.reading.wall b.lease.lockTimeout with
        | error err =>
            rw [hsave] at hsaved
            cases hsaved
        | ok m' =>
            rcases exists_record_of_save hsave with ⟨stored, hstored, hbase, hcompleted⟩
            rw [Job.toRecord_id hj] at hstored
            rw [Job.toRecord_base hj] at hbase
            rw [Job.toRecord_status hj] at hcompleted
            exact ⟨stored, hstored, hbase, hcompleted⟩

end

section

variable {clock : Nat} {pool : Pool β} {counts : Bool} {driver : Driver} {b : Backend β}
variable {d : Discipline} {m : Memory}

/-- A worker that stores a job of a store in memory stores what it has made of a record that it has
read, unfinished, since it took the lock. If that is completed, it is so by an attempt, and no error
is stored; or the file was found that the job is to create, and with it the error is stored that the
record had, from whatever attempt that was. -/
theorem completed_without_attempt_keeps_error (h : History clock past s)
    (hpool : s.pools[p]? = some pool) (hphase : s.phaseAt p i = some (.storing claim j counts))
    (hdriver : s.drivers[claim.driver]? = some driver)
    (hstore : s.backends[driver.backend]? = some (b.onMemory d m))
    (hsaved : (s.driverSave claim.driver pool.token j).1 = .ok ())
    (hstep : s.workerStep p i .proceed = some s') :
    ∃ since r₀ j₀ r, HasRead past p i claim since r₀ j₀ ∧ Made p i since j₀ counts j ∧
      s'.recordIn driver.backend j.id = some r ∧ r.status.completed = j.status.completed ∧
      (r.status.completed = true → r.base.error = if counts then none else r₀.base.error) := by
  rcases h.traced hphase with ⟨since, r₀, j₀, hread, hmade⟩
  rcases exists_record_of_driverSave hdriver hstore hsaved with ⟨r, hr, hbase, hcompleted⟩
  refine ⟨since, r₀, j₀, r, hread, hmade, ?_, hcompleted, ?_⟩
  · cases hstep.symm.trans (workerStep_of_storing hpool hphase)
    unfold storeJob
    split
    · rename_i hcall
      rw [hcall] at hr
      exact hr
    · rename_i hcall
      rw [hcall] at hr
      exact hr
  · intro hdone
    rcases hread.read with ⟨x, -, b', -, -, hbuilt⟩
    have hbase₀ : j₀.base = r₀.base := Registry.build?_base hbuilt
    have hopen₀ : j₀.status.completed = false := by
      have hstatus : j₀.status = r₀.status := congrArg Base.status hbase₀
      rw [hstatus]
      exact (Bool.or_eq_false_iff.mp hread.isOpen).1
    have herror := hmade.error_eq hopen₀ (hcompleted.symm.trans hdone)
    rw [hbase, ← hbase₀]
    exact herror

end

/-- A job that holds the error of an earlier attempt and can be run again. -/
def retriedJob (dependency : Dependency) : Job Work :=
  ⟨{ (Backend.plainJob "job").base with
    error := some "exit status: 1", dependency := dependency }, .kept (.object [])⟩

/-- Where there is one file alone, a worker is given the job, reads it, and makes some more moves. -/
def retries (j : Job Work) (more : List WorkerMove) : List (Event Work) :=
  [.files fun path => path == "out", .request (.addBackend ((Backend.inMemory Work.registry .oldestFirst .standard).run
      [⟨.save j, false, .ofNanos 0⟩]) ⟨"one", 0, []⟩),
    .request (.addPool 1 600), .request (.startPool 0 0 [j] (some 0))] ++
  (WorkerMove.handle :: .proceed :: .proceed :: .proceed :: more).map
    fun move => .move (.worker 0 0 move)

/-- An attempt that goes well clears the error of the earlier one. -/
theorem completed_without_attempt_keeps_error_of_retried :
    ∃ past s s' r, History 0 past s ∧
      past.map Prod.snd = (retries (retriedJob .always) [.proceed, .finish]).reverse ∧
      s.workerStep 0 0 .proceed = some s' ∧ s'.recordIn 0 "job" = some r ∧
      r.status.completed = true ∧ r.base.error = none := by
  have hrun : ∃ (s s' : System Work) (pool : Pool Work) (claim : Claim) (j : Job Work)
      (driver : Driver) (b : Backend Work) (m : Memory),
      (retries (retriedJob .always) [.proceed, .finish]).foldlM handle (.empty 0) = some s ∧
      s.pools[0]? = some pool ∧ s.phaseAt 0 0 = some (.storing claim j true) ∧
      s.drivers[claim.driver]? = some driver ∧
      s.backends[driver.backend]? = some (b.onMemory .oldestFirst m) ∧
      (s.driverSave claim.driver pool.token j).1 = .ok () ∧
      s.workerStep 0 0 .proceed = some s' ∧ driver.backend = 0 ∧ j.id = "job" ∧
      j.status.completed = true :=
    ⟨_, _, _, _, _, _, Backend.inMemory Work.registry .oldestFirst .standard, _,
      rfl, rfl, rfl, rfl, rfl, rfl, rfl, rfl, rfl, rfl⟩
  rcases hrun with ⟨s, s', pool, claim, j, driver, b, m, hs, hpool, hphase, hdriver, hstore, hsaved,
    hstep, hbackend, hid, hdone⟩
  rcases History.empty.events hs with ⟨past, hpast, hhistory⟩
  rw [List.append_nil] at hhistory
  rcases completed_without_attempt_keeps_error hhistory hpool hphase hdriver hstore hsaved hstep with
    ⟨since, r₀, j₀, r, -, -, hr, hcompleted, herror⟩
  rw [hbackend, hid] at hr
  rw [hdone] at hcompleted
  exact ⟨past, s, s', r, hhistory, hpast, hstep, hr, hcompleted, herror hcompleted⟩

/-- The file that the job is to create is there, so the worker completes the job with the error of the
earlier attempt. -/
theorem job_found_done_is_completed_with_error :
    ∃ s s' r, (retries (retriedJob (.createsFile "out")) [.proceed]).foldlM handle (.empty 0) =
        some s ∧
      s.workerStep 0 0 .proceed = some s' ∧ s'.recordIn 0 "job" = some r ∧
      r.status.completed = true ∧ r.base.error = some "exit status: 1" :=
  ⟨_, _, _, rfl, rfl, rfl, rfl, rfl⟩

end System
end LeaseQueue
