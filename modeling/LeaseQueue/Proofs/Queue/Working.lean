import LeaseQueue.Queue.Working
import LeaseQueue.Proofs.Queue.Placing
/-!
# Moves of workers as steps of a crew

A worker that rests, asks or waits eases the crew. A worker that has a candidate
goes through the turns of a crew: each move is one of them.
-/

namespace LeaseQueue
namespace System

variable {β : Type} {b : Backend β} {d : Discipline} {owners : String → Prop}
variable {s s' : System β} {m : Memory} {p i : Nat} {pool : Pool β} {w : Worker β}

theorem workerAt_eq (hpool : s.pools[p]? = some pool) (hw : pool.workers[i]? = some w) :
    s.workerAt p i = some w := by
  unfold workerAt
  rw [hpool]
  exact hw

/-!
## Workers at no job
-/

theorem eases_of_idle (hw : s.workerAt p i = some w) (hidle : w.phase.claim? = none)
    {f : Worker β → Worker β} (hf : (f w).phase.claim? = none) :
    s.Eases (s.modifyWorker p i f) := by
  apply eases_modifyWorker s p i f
  intro w' hw'
  rw [hw] at hw'
  cases hw'
  exact Or.inr ⟨hidle, hf⟩

theorem eases_of_idle_in_line (hw : s.workerAt p i = some w) (hidle : w.phase.claim? = none)
    {q : Nat} {g : Queue β → Queue β} (hg : ∀ queue, (g queue).post = queue.post)
    {f : Worker β → Worker β} (hf : (f w).phase.claim? = none) :
    s.Eases ((s.modifyQueue q g).modifyWorker p i f) := by
  have hw' : (s.modifyQueue q g).workerAt p i = some w := hw
  exact (eases_modifyQueue s q g hg).trans (eases_of_idle hw' hidle hf)

theorem eases_answerIdle (s : System β) (p i : Nat) (w : Worker β) (c : Nat) :
    s.Eases (s.answerIdle p i w c) := by
  unfold answerIdle
  split
  · split
    · exact eases_calls s _
    · exact .refl s
  · exact .refl s

theorem eases_handleMessage (hw : s.workerAt p i = some w) (hphase : w.phase = .resting)
    (h : s.handleMessage p i pool w = some s') : s.Eases s' := by
  have hidle : w.phase.claim? = none := by rw [hphase]; rfl
  unfold handleMessage at h
  split at h
  · cases h
  · split at h
    · cases h
      exact eases_of_idle hw hidle rfl
    · split at h
      · cases h
      · rename_i message rest hmailbox
        have hread : s.Eases (s.modifyWorker p i fun w => { w with mailbox := rest }) :=
          eases_of_idle hw hidle hidle
        have hw' : (s.modifyWorker p i fun w => { w with mailbox := rest }).workerAt p i =
            some { w with mailbox := rest } := by
          rw [workerAt_modifyWorker, if_pos ⟨rfl, rfl⟩, hw]
          rfl
        cases message with
        | poll =>
            cases h
            refine hread.trans (eases_of_idle hw' hidle ?_)
            split
            · rw [Worker.halt_phase]
              exact hidle
            · rfl
        | isIdle c =>
            cases h
            exact hread.trans (eases_answerIdle _ p i w c)
        | shutdown =>
            cases h
            refine hread.trans (eases_of_idle hw' hidle ?_)
            rw [Worker.halt_phase]
            exact hidle

theorem eases_restWorker (hw : s.workerAt p i = some w) (hidle : w.phase.claim? = none)
    (pool : Pool β) : s.Eases (s.restWorker p i pool) :=
  eases_of_idle hw hidle rfl

theorem eases_takeFromBuffer (hw : s.workerAt p i = some w) (hidle : w.phase.claim? = none)
    (h : s.takeFromBuffer p i pool = some s') : s.Eases s' := by
  unfold takeFromBuffer at h
  split at h
  · rename_i q hsource
    cases hqueue : s.queues[q]? with
    | none => simp [hqueue] at h
    | some queue =>
        simp only [hqueue, Option.bind_eq_bind, Option.bind_some] at h
        split at h
        · split at h
          · cases h
          · rename_i j buffer hbuffer
            cases h
            refine eases_of_idle_in_line hw hidle ?_ ?_
            · intro queue
              rfl
            · rfl
        · cases h
  · cases h

theorem eases_stopWaiting (hw : s.workerAt p i = some w) (hidle : w.phase.claim? = none)
    (pool : Pool β) : s.Eases (s.stopWaiting p i pool) := by
  unfold stopWaiting
  split
  · rename_i q hsource
    refine eases_of_idle_in_line hw hidle ?_ ?_
    · intro queue
      rfl
    · rfl
  · exact eases_restWorker hw hidle pool

theorem eases_askQueue (hw : s.workerAt p i = some w) (hidle : w.phase.claim? = none) (q : Nat)
    (queue : Queue β) : s.Eases (s.askQueue p i q queue) := by
  unfold askQueue
  split
  · refine eases_of_idle_in_line hw hidle ?_ ?_
    · intro queue
      rfl
    · rfl
  · exact eases_of_idle hw hidle rfl

section

variable [Body β]

theorem Placed.advances_fetchJob (h : Placed b d owners s m) {saved : Option (Job β)}
    (hw : s.workerAt p i = some w) (hidle : w.phase.claim? = none) (pool : Pool β) :
    Advances b d owners saved s (s.fetchJob p i pool) m := by
  unfold fetchJob
  split
  · exact h.advances_of_eases (eases_restWorker hw hidle pool)
  · rename_i k hdriver
    rcases h.driverNext_cases k pool.token with ⟨m', hchange, hnext⟩
    have hspares : ∀ o, owners o → (Operation.next : Operation β).Spares o := fun _ _ => trivial
    rcases hcall : s.driverNext k pool.token with ⟨j, s₁⟩
    rw [hcall] at hnext
    cases hnext
    have hw' : (System.withStore b d s m').workerAt p i = some w := hw
    cases j with
    | none =>
        exact h.advances hspares (fun _ hop => nomatch hop) hchange
          (eases_restWorker hw' hidle pool)
    | some j =>
        refine h.advances hspares (fun _ hop => nomatch hop) hchange (eases_of_idle hw' hidle ?_)
        rfl

omit [Body β] in
theorem Placed.worksFor (h : Placed b d owners s m) (hpool : s.pools[p]? = some pool)
    (hw : pool.workers[i]? = some w) : ∃ q k, s.wiring.WorksFor owners pool.staff q k := by
  have hi : i < pool.workers.length := (List.getElem?_eq_some_iff.mp hw).1
  exact h.wiring.worksFor (wiring_pools hpool) hi

theorem Placed.advances_askSource (h : Placed b d owners s m) {saved : Option (Job β)}
    (hpool : s.pools[p]? = some pool) (hw : pool.workers[i]? = some w)
    (hidle : w.phase.claim? = none) (hask : s.askSource p i pool = some s') :
    Advances b d owners saved s s' m := by
  rcases h.worksFor hpool hw with ⟨q, k, hworks⟩
  have hsource : pool.source = some (.queue q) := hworks.source
  unfold askSource at hask
  rw [hsource] at hask
  cases hqueue : s.queues[q]? with
  | none => simp [hqueue] at hask
  | some queue =>
      simp only [hqueue, Option.bind_eq_bind, Option.bind_some] at hask
      cases hask
      exact h.advances_of_eases (eases_askQueue (workerAt_eq hpool hw) hidle q queue)

/-!
## Workers at a job
-/

omit [Body β] in
theorem Placed.driver_lt (h : Placed b d owners s m) {phase : Phase β} {claim : Claim}
    (hw : s.workerAt p i = some w) (hphase : w.phase = phase)
    (hclaim : phase.claim? = some claim) :
    ∀ claim', some claim = some claim' → claim'.driver < s.drivers.length := by
  intro claim' heq
  cases heq
  apply h.claims p i claim
  rw [claimAt_eq (phaseAt_eq hw), hphase]
  exact hclaim

theorem Placed.advances_claimCandidate (h : Placed b d owners s m) {saved : Option (Job β)}
    (hpool : s.pools[p]? = some pool) (hworker : pool.workers[i]? = some w) {candidate : Job β}
    (hphase : w.phase = .claiming candidate) :
    Advances b d owners saved s (s.claimCandidate p i pool candidate) m := by
  have hw := workerAt_eq hpool hworker
  have hidle : w.phase.claim? = none := by rw [hphase]; rfl
  rcases h.worksFor hpool hworker with ⟨q, k, hworks⟩
  have hsource : s.sourceDriver pool.source = some k := by
    have hsource' : pool.source = some (.queue q) := hworks.source
    rw [hsource']
    exact (wiring_queueDriver s q).symm.trans hworks.queueDriver
  have howner : s.ownerAt p i = ownerName (s.driverName k) i := by
    unfold ownerAt
    rw [hpool, Option.bind_some, hsource]
  have hk : k < s.drivers.length := h.wiring.inRange q k hworks.queueDriver
  unfold claimCandidate
  rw [hsource]
  simp only [← howner]
  split
  · exact h.advances_of_eases (eases_of_idle hw hidle rfl)
  · rw [h.driverLock_eq hk]
    cases hlock : m.lock candidate.id (s.ownerAt p i) s.now b.lease.lockTimeout with
    | refused e => exact h.advances_of_eases (eases_of_idle hw hidle rfl)
    | made m' =>
        refine h.advances_of_turn hw hphase (.claim hlock) ?_ rfl
        intro claim hclaim
        cases hclaim
        exact hk
    | broken m' =>
        exact h.advances_of_turn hw hphase (.claimBroken hlock) (fun _ heq => nomatch heq) rfl

theorem Placed.advances_loadJob (h : Placed b d owners s m) {saved : Option (Job β)}
    (hw : s.workerAt p i = some w) {claim : Claim} (hphase : w.phase = .loading claim)
    (pool : Pool β) : Advances b d owners saved s (s.loadJob p i pool claim) m := by
  have hclaim := h.driver_lt hw hphase rfl
  have hk := hclaim claim rfl
  unfold loadJob
  rw [h.driverGet_eq hk]
  cases he : m.lookup? claim.id with
  | none => exact h.advances_of_quiet_turn hw hphase .decline hclaim rfl
  | some e =>
      rw [Option.map_some, Option.bind_some]
      cases hbuild : b.registry.build? e.record with
      | none => exact h.advances_of_quiet_turn hw hphase .decline hclaim rfl
      | some j =>
          show Advances b d owners saved s (if j.status.isFinished then _ else _) m
          split
          · exact h.advances_of_quiet_turn hw hphase .decline hclaim rfl
          · exact h.advances_of_quiet_turn hw hphase (.load he hbuild) hclaim rfl

theorem Placed.advances_checkDependency (h : Placed b d owners s m) {saved : Option (Job β)}
    (hw : s.workerAt p i = some w) {claim : Claim} {j : Job β} {left : List String}
    {known : List (String × Option Bool)} (hphase : w.phase = .checking claim j left known)
    (pool : Pool β) :
    Advances b d owners saved s (s.checkDependency p i pool claim j left known) m := by
  have hclaim := h.driver_lt hw hphase rfl
  have hk := hclaim claim rfl
  cases left with
  | cons e left =>
      unfold checkDependency
      dsimp only
      rcases hcall : s.driverGet claim.driver pool.token e with ⟨other, s₁⟩
      have hsame : s₁ = s := by
        have hsnd := h.driverGet_snd claim.driver pool.token e
        rw [hcall] at hsnd
        exact hsnd
      subst hsame
      have hturn : Turn b.registry b.lease s₁.cancelled s₁.clock (s₁.ownerAt p i) m
          (.checking claim j (e :: left) known) m
          (.checking claim j left ((e, other.map fun o => o.status.completed) :: known)) [] :=
        .check
      exact h.advances_of_quiet_turn hw hphase hturn hclaim rfl
  | nil =>
      unfold checkDependency
      dsimp only
      split
      · unfold beginAttempt
        rw [h.lockTimeout_eq hk]
        have hturn : Turn b.registry b.lease s.cancelled s.clock (s.ownerAt p i) m
            (.checking claim j [] known) m
            (.running claim (j.begun s.now) (s.clock + (Body.attempt (j.begun s.now).body).lasts)
              (s.clock + b.lease.lockTimeout / 2)) [⟨claim.owner, j.begun s.now, s.clock⟩] :=
          .begin
        have hadvances : Advances b d owners saved s
            ({ System.withStore b d s m with
              runs := s.runs ++ [⟨claim.owner, j.begun s.now, s.clock⟩] : System β }.modifyWorker
                p i fun w => w.goto _) m :=
          h.advances_of_attempt hw hphase hturn hclaim rfl
        rw [h.withStore_self] at hadvances
        exact hadvances
      · exact h.advances_of_quiet_turn hw hphase .pass hclaim rfl
      · exact h.advances_of_quiet_turn hw hphase .block hclaim rfl
      · exact h.advances_of_quiet_turn hw hphase .block hclaim rfl

theorem Placed.advances_renewLock (h : Placed b d owners s m) {saved : Option (Job β)}
    (hw : s.workerAt p i = some w) {claim : Claim} {j : Job β} {endsAt renewAt : Nat}
    (hphase : w.phase = .running claim j endsAt renewAt) (pool : Pool β) :
    Advances b d owners saved s (s.renewLock p i pool claim j endsAt) m := by
  have hclaim := h.driver_lt hw hphase rfl
  have hk := hclaim claim rfl
  have hnone : ∀ claim' : Claim, none = some claim' → claim'.driver < s.drivers.length :=
    fun _ heq => nomatch heq
  unfold renewLock
  rw [h.driverLock_eq hk]
  cases hlock : m.lock claim.id claim.owner s.now b.lease.lockTimeout with
  | refused e =>
      show Advances b d owners saved s (s.modifyWorker p i Worker.finishJob) m
      exact h.advances_of_quiet_turn hw hphase (.lose hlock) hnone rfl
  | broken m' => exact h.advances_of_turn hw hphase (.renewBroken hlock) hnone rfl
  | made m' =>
      have hrenewed : (System.withStore b d s m').lockTimeout claim.driver =
          b.lease.lockTimeout :=
        (h.withStore m').lockTimeout_eq hk
      have hturn : Turn b.registry b.lease s.cancelled s.clock (s.ownerAt p i) m
          (.running claim j endsAt renewAt) m'
          (.running claim j endsAt (s.clock + b.lease.lockTimeout / 2)) [] :=
        .renew hlock
      have hadvances : Advances b d owners saved s
          ((System.withStore b d s m').modifyWorker p i fun w =>
            w.goto (.running claim j endsAt (s.clock + b.lease.lockTimeout / 2))) m :=
        h.advances_of_turn hw hphase hturn hclaim rfl
      rw [← hrenewed] at hadvances
      exact hadvances

theorem Placed.advances_endAttempt (h : Placed b d owners s m) {saved : Option (Job β)}
    (hw : s.workerAt p i = some w) {claim : Claim} {j : Job β} {endsAt renewAt : Nat}
    (hphase : w.phase = .running claim j endsAt renewAt) :
    Advances b d owners saved s (s.endAttempt p i claim j) m :=
  h.advances_of_quiet_turn hw hphase .finish (h.driver_lt hw hphase rfl) rfl

theorem Placed.advances_dropAttempt (h : Placed b d owners s m) {saved : Option (Job β)}
    (hw : s.workerAt p i = some w) {claim : Claim} {j : Job β} {endsAt renewAt token : Nat}
    (hphase : w.phase = .running claim j endsAt renewAt) (hcancelled : s.isCancelled token = true) :
    Advances b d owners saved s (s.modifyWorker p i Worker.finishJob) m := by
  have hnone : ∀ claim' : Claim, none = some claim' → claim'.driver < s.drivers.length :=
    fun _ heq => nomatch heq
  have htokens : s.cancelled ≠ [] := by
    intro hnil
    unfold isCancelled at hcancelled
    rw [hnil] at hcancelled
    cases hcancelled
  exact h.advances_of_quiet_turn hw hphase (.drop htokens) hnone rfl

theorem Placed.advances_storeJob (h : Placed b d owners s m) {saved : Option (Job β)}
    (hw : s.workerAt p i = some w) {claim : Claim} {j : Job β} {counts : Bool}
    (hphase : w.phase = .storing claim j counts) (pool : Pool β) :
    Advances b d owners saved s (s.storeJob p i pool claim j counts) m := by
  have hclaim := h.driver_lt hw hphase rfl
  have hk := hclaim claim rfl
  unfold storeJob
  cases hj : j.toRecord with
  | error reason =>
      rw [h.driverSave_unwritable hk pool.token hj]
      refine h.advances_of_quiet_turn hw hphase (.refuse ?_) hclaim rfl
      intro r m' hr
      rw [hj] at hr
      cases hr
  | ok r =>
      rw [h.driverSave_eq hk pool.token hj]
      cases hsave : m.save r s.now b.lease.lockTimeout with
      | error e =>
          refine h.advances_of_quiet_turn hw hphase (.refuse ?_) hclaim rfl
          intro r' m' hr hsaved
          rw [hj] at hr
          cases hr
          cases hsave.symm.trans hsaved
      | ok m' => exact h.advances_of_turn hw hphase (.store hj hsave) hclaim rfl

theorem Placed.advances_releaseJob (h : Placed b d owners s m) {saved : Option (Job β)}
    (hw : s.workerAt p i = some w) {claim : Claim} (hphase : w.phase = .releasing claim)
    (pool : Pool β) : Advances b d owners saved s (s.releaseJob p i pool claim) m := by
  have hnone : ∀ claim' : Claim, none = some claim' → claim'.driver < s.drivers.length :=
    fun _ heq => nomatch heq
  rcases h.driverUnlock_cases claim.driver pool.token claim.id claim.owner with
    ⟨m', hchange, hsnd⟩
  unfold releaseJob
  rcases hcall : s.driverUnlock claim.driver pool.token claim.id claim.owner with ⟨answer, s₁⟩
  rw [hcall] at hsnd
  cases hsnd
  cases answer with
  | broken _ => exact h.advances_of_turn hw hphase (.release hchange) hnone rfl
  | made _ => exact h.advances_of_turn hw hphase (.release hchange) hnone rfl
  | refused _ => exact h.advances_of_turn hw hphase (.release hchange) hnone rfl

/-!
## All moves of a worker
-/

theorem Placed.advances_workerStep (h : Placed b d owners s m) {saved : Option (Job β)}
    {move : WorkerMove} (hstep : s.workerStep p i move = some s') :
    Advances b d owners saved s s' m := by
  unfold workerStep at hstep
  cases hpool : s.pools[p]? with
  | none => simp [hpool] at hstep
  | some pool =>
      simp only [hpool, Option.bind_eq_bind, Option.bind_some] at hstep
      cases hworker : pool.workers[i]? with
      | none => simp [hworker] at hstep
      | some w =>
          have hw := workerAt_eq hpool hworker
          simp only [hworker, Option.bind_some] at hstep
          have hidle : ∀ {phase : Phase β}, w.phase = phase → phase.claim? = none →
              w.phase.claim? = none :=
            fun hphase hnone => hphase ▸ hnone
          -- The cases are the moves in the order of their phases; no other move can be made.
          split at hstep <;> rename_i hphase
          · exact h.advances_of_eases (eases_handleMessage hw hphase hstep)
          · exact h.advances_askSource hpool hworker (hidle hphase rfl) hstep
          · split at hstep
            · cases hstep
              exact h.advances_of_eases (eases_restWorker hw (hidle hphase rfl) pool)
            · cases hstep
          · cases hstep
            exact h.advances_fetchJob hw (hidle hphase rfl) pool
          · split at hstep
            · cases hstep
              exact h.advances_of_eases (eases_restWorker hw (hidle hphase rfl) pool)
            · cases hstep
          · exact h.advances_of_eases (eases_takeFromBuffer hw (hidle hphase rfl) hstep)
          · split at hstep
            · cases hstep
              exact h.advances_of_eases (eases_stopWaiting hw (hidle hphase rfl) pool)
            · cases hstep
          · split at hstep
            · cases hstep
              exact h.advances_of_eases (eases_stopWaiting hw (hidle hphase rfl) pool)
            · cases hstep
          · cases hstep
            exact h.advances_claimCandidate hpool hworker hphase
          · cases hstep
            exact h.advances_loadJob hw hphase pool
          · cases hstep
            exact h.advances_checkDependency hw hphase pool
          · split at hstep
            · cases hstep
              exact h.advances_endAttempt hw hphase
            · cases hstep
          · split at hstep
            · cases hstep
              exact h.advances_renewLock hw hphase pool
            · cases hstep
          · split at hstep
            · rename_i hcancelled
              cases hstep
              exact h.advances_dropAttempt hw hphase hcancelled
            · cases hstep
          · cases hstep
            exact h.advances_storeJob hw hphase pool
          · cases hstep
            exact h.advances_releaseJob hw hphase pool
          · cases hstep

end

end System
end LeaseQueue
