import LeaseQueue.Proofs.Queue.Lifecycle
import LeaseQueue.Proofs.Queue.Receipts
/-!
# What becomes of the workers of a pool

In one event a worker is told something, or it is told to stop, or it makes a move,
by which it may break down. Of a pool that has started nothing else changes but the jobs that are left for its
workers. A pool that starts gets its workers, fresh ones.
-/

namespace LeaseQueue

variable {β : Type}

/-- The job that a worker in the phase was given and is not done with. -/
def Phase.job? : Phase β → Option String
  | .claiming candidate => some candidate.id
  | phase => phase.claim?.map Claim.id

theorem Phase.job?_of_claim? {phase : Phase β} {claim : Claim} (h : phase.claim? = some claim) :
    phase.job? = some claim.id := by
  cases phase with
  | claiming candidate => cases h
  | _ => exact congrArg (Option.map Claim.id) h

def Source.queue? : Source β → Option Nat
  | .queue q => some q
  | .jobs .. => none

theorem eq_queue_of_map_queue? {x y : Option (Source β)} {q : Nat}
    (h : x.map Source.queue? = y.map Source.queue?) (hx : x = some (.queue q)) :
    y = some (.queue q) := by
  rw [hx] at h
  rcases Option.map_eq_some_iff.mp h.symm with ⟨source, rfl, hsame⟩
  cases source with
  | queue q' =>
      cases hsame
      rfl
  | jobs left d => cases hsame

namespace Worker

/-- What goes on around a worker in an event: the token of its pool is cancelled, its pool is to shut
down, the queue that it gets its jobs from has no dispatch loop, the lock of its job breaks off. -/
structure Occasion where
  called : Prop
  dismissed : Prop
  loopless : Prop
  broken : Prop

/-- What one event may do to a worker. -/
inductive Change (o : Occasion) : Worker β → Worker β → Prop where
  | keeps (w : Worker β) : Change o w w
  | told (w : Worker β) {m : Message} : m ≠ .poll → (m = .shutdown → o.dismissed) →
      Change o w (w.tell m)
  /-- The moment has come to poll, as it was planned. -/
  | rings {w : Worker β} {t : Nat} : t ∈ w.alarms →
      Change o w ({ w with alarms := w.alarms.erase t }.tell .poll)
  | halts (w : Worker β) : o.called → Change o w w.halt
  | stops {w : Worker β} : w.phase = .resting → w.stopping = true → Change o w w.stop
  /-- It handles a message to poll. -/
  | asks {w : Worker β} {rest : List Message} : w.phase = .resting → w.mailbox = .poll :: rest →
      Change o w ({ w with mailbox := rest }.goto .asking)
  /-- It handles a message to poll when its token is cancelled. -/
  | heeds {w : Worker β} {rest : List Message} : w.phase = .resting → w.mailbox = .poll :: rest →
      o.called → Change o w { w with mailbox := rest }.halt
  | answers {w : Worker β} {c : Nat} {rest : List Message} : w.mailbox = .isIdle c :: rest →
      Change o w { w with mailbox := rest }
  | leaves {w : Worker β} {rest : List Message} : w.mailbox = .shutdown :: rest →
      Change o w { w with mailbox := rest }.halt
  /-- It comes into the line for a job. -/
  | waits {w : Worker β} (deadline : Nat) : w.phase.seeks = true →
      Change o w (w.goto (.waiting deadline))
  /-- It finds no dispatch loop. -/
  | fetches {w : Worker β} : w.phase.seeks = true → o.loopless → Change o w (w.goto .fetching)
  /-- It has found no job. -/
  | rests {w : Worker β} (moment : Nat) : w.phase.seeks = true → Change o w (w.sleepUntil moment)
  | takesUp {w : Worker β} (j : Job β) : w.phase.seeks = true → Change o w (w.takeUp j)
  /-- It goes on with the job that it was given. -/
  | goesOn {w : Worker β} (phase : Phase β) (completed : Nat) : w.phase.job? ≠ none →
      phase.job? = w.phase.job? → Change o w { w with phase := phase, completed := completed }
  | finishes {w : Worker β} : w.phase.job? ≠ none → Change o w w.finishJob
  | crashes {w : Worker β} : w.phase.job? ≠ none → o.broken → Change o w w.crash

theorem Change.fetching {o : Occasion} {w w' : Worker β} (h : w.Change o w')
    (hphase : w'.phase = .fetching) : w.phase = .fetching ∨ o.loopless := by
  cases h with
  | keeps => exact Or.inl hphase
  | told => exact Or.inl ((w.tell_phase _).symm.trans hphase)
  | @rings t ht =>
      exact Or.inl ((tell_phase { w with alarms := w.alarms.erase t } .poll).symm.trans hphase)
  | halts => exact Or.inl (w.halt_phase.symm.trans hphase)
  | @heeds rest => exact Or.inl ((halt_phase { w with mailbox := rest }).symm.trans hphase)
  | @leaves rest => exact Or.inl ((halt_phase { w with mailbox := rest }).symm.trans hphase)
  | answers => exact Or.inl hphase
  | fetches _ hloopless => exact Or.inr hloopless
  | goesOn phase completed hbusy hsame =>
      have hfetching : phase = .fetching := hphase
      rw [hfetching] at hsame
      exact absurd hsame.symm hbusy
  | stops => cases hphase
  | asks => cases hphase
  | waits => cases hphase
  | rests => cases hphase
  | takesUp => cases hphase
  | finishes => cases hphase
  | crashes => cases hphase

end Worker

namespace System

/-- The lock of its job that a worker takes, renews or releases in an event breaks off. -/
def BreaksDown (s : System β) (p i : Nat) (e : Event β) : Prop :=
  ∃ m w, ∃ claim : Claim, ∃ token s', e = .move (.worker p i m) ∧ s.workerAt p i = some w ∧
    w.phase.job? = some claim.id ∧
    (s.driverLock claim.driver token claim.id claim.owner = (.broken (), s') ∨
      s.driverUnlock claim.driver token claim.id claim.owner = (.broken (), s'))

def occasion (s : System β) (e : Event β) (p i : Nat) (pool : Pool β) : Worker.Occasion where
  called := s.isCancelled pool.token = true
  dismissed := e = .request (.shutdown p)
  loopless := ∀ q, pool.source.bind Source.queue? = some q → s.Loopless q
  broken := s.BreaksDown p i e

inductive Shift (s : System β) (e : Event β) (p : Nat) :
    Option (Pool β) → Option (Pool β) → Prop where
  | absent : Shift s e p none none
  | added (size millis : Nat) : Shift s e p none (some (.idle size millis))
  /-- Something happens to the workers. -/
  | works {pool : Pool β} {workers : List (Worker β)} {source : Option (Source β)}
      {watching : Bool} : workers.length = pool.workers.length →
      (∀ (i : Nat) w w', pool.workers[i]? = some w → workers[i]? = some w' →
        w.Change (s.occasion e p i pool) w') →
      source.map Source.queue? = pool.source.map Source.queue? →
      Shift s e p (some pool)
        (some { pool with workers := workers, source := source, watching := watching })
  | starts {pool : Pool β} {token : Nat} {source : Source β} : pool.started = false →
      (∀ q, source.queue? = some q → q < s.queues.length) →
      Shift s e p (some pool) (some (pool.start token source))

def Shifts (s : System β) (e : Event β) (s' : System β) : Prop :=
  ∀ p, s.Shift e p s.pools[p]? s'.pools[p]?

variable {s s' s₁ : System β} {e : Event β} {p i : Nat} {pool : Pool β} {w : Worker β}

theorem shift_self (pool : Pool β) : s.Shift e p (some pool) (some pool) :=
  .works rfl (fun i w w' hw hw' => by cases hw.symm.trans hw'; exact .keeps w) rfl

theorem shifts_of_pools (hpools : s'.pools = s.pools) : s.Shifts e s' := by
  intro p
  rw [hpools]
  cases s.pools[p]? with
  | none => exact .absent
  | some pool => exact shift_self pool

theorem shifts_of_modify (p : Nat) {f : Pool β → Pool β} (hpools : s'.pools = s.pools.modify p f)
    (hf : ∀ pool, s.pools[p]? = some pool → s.Shift e p (some pool) (some (f pool))) :
    s.Shifts e s' := by
  intro p'
  rw [hpools, List.getElem?_modify]
  cases hpool : s.pools[p']? with
  | none => exact .absent
  | some pool =>
      by_cases hp : p = p'
      · subst hp
        simp only [Option.map_eq_map, Option.map_some, if_pos]
        exact hf pool hpool
      · simp only [Option.map_eq_map, Option.map_some, if_neg hp]
        exact shift_self pool

theorem shift_modify {watching : Bool} {source : Option (Source β)}
    (hsource : source.map Source.queue? = pool.source.map Source.queue?)
    (hworker : pool.workers[i]? = some w) {f : Worker β → Worker β}
    (h : w.Change (s.occasion e p i pool) (f w)) :
    s.Shift e p (some pool)
      (some { pool with workers := pool.workers.modify i f, source := source, watching := watching }) := by
  refine .works (List.length_modify _ _ _) ?_ hsource
  intro i' w₁ w₂ hw₁ hw₂
  rw [List.getElem?_modify, hw₁] at hw₂
  by_cases hi : i = i'
  · subst hi
    cases hworker.symm.trans hw₁
    simp only [Option.map_eq_map, Option.map_some, if_pos] at hw₂
    cases hw₂
    exact h
  · simp only [Option.map_eq_map, Option.map_some, if_neg hi] at hw₂
    cases hw₂
    exact .keeps w₁

/-!
## Moves of workers
-/

theorem pools_viaDriver {α : Type} (s : System β) (k : Nat) (call : DriverCall) (failed : α)
    (f : Backend β → α × Backend β) : (s.viaDriver k call failed f).2.pools = s.pools :=
  (parts_of_viaDriver (a := (s.viaDriver k call failed f).1) rfl).2

theorem shifts_turn (hpool : s.pools[p]? = some pool) (hworker : pool.workers[i]? = some w)
    (hpools : s₁.pools = s.pools) {f : Worker β → Worker β}
    (h : w.Change (s.occasion e p i pool) (f w)) :
    s.Shifts e (s₁.modifyWorker p i f) := by
  have hmodify : (s₁.modifyWorker p i f).pools = s.pools.modify p fun pool => pool.modify i f := by
    rw [← hpools]
    rfl
  refine shifts_of_modify p hmodify ?_
  intro pool' hpool'
  cases hpool.symm.trans hpool'
  exact shift_modify rfl hworker h

theorem shifts_answered (hpool : s.pools[p]? = some pool) (hworker : pool.workers[i]? = some w)
    {α : Type} {k : Nat} {call : DriverCall} {failed a : α} {g : Backend β → α × Backend β}
    (hcall : s.viaDriver k call failed g = (a, s₁)) {f : Worker β → Worker β}
    (h : w.Change (s.occasion e p i pool) (f w)) :
    s.Shifts e (s₁.modifyWorker p i f) :=
  shifts_turn hpool hworker (parts_of_viaDriver hcall).2 h

theorem modifyWorker_twice (s : System β) (p i : Nat) (f g : Worker β → Worker β) :
    (s.modifyWorker p i f).modifyWorker p i g = s.modifyWorker p i fun w => g (f w) := by
  have htwice : ∀ pool : Pool β, (pool.modify i f).modify i g = pool.modify i fun w => g (f w) := by
    intro pool
    unfold Pool.modify
    rw [List.modify_modify_eq]
    rfl
  unfold modifyWorker modifyPool
  rw [List.modify_modify_eq]
  exact congrArg (fun F => { s with pools := s.pools.modify p F }) (funext htwice)

theorem shifts_handleMessage (hpool : s.pools[p]? = some pool)
    (hworker : pool.workers[i]? = some w) (hphase : w.phase = .resting)
    (h : s.handleMessage p i pool w = some s') : s.Shifts e s' := by
  unfold handleMessage at h
  split at h
  · cases h
  · split at h
    · rename_i hstopping
      cases h
      exact shifts_turn hpool hworker rfl (.stops hphase hstopping)
    · split at h
      · cases h
      · rename_i message rest hmailbox
        cases message with
        | poll =>
            cases h
            rw [modifyWorker_twice]
            apply shifts_turn hpool hworker rfl
            show w.Change _
              (if s.isCancelled pool.token then { w with mailbox := rest }.halt
                else { w with mailbox := rest }.goto .asking)
            split
            · rename_i hcalled
              exact .heeds hphase hmailbox hcalled
            · exact .asks hphase hmailbox
        | isIdle c =>
            cases h
            have hread : s.Shifts e (s.modifyWorker p i fun w => { w with mailbox := rest }) :=
              shifts_turn hpool hworker rfl (.answers hmailbox)
            unfold answerIdle
            split
            · split <;> exact hread
            · exact hread
        | shutdown =>
            cases h
            rw [modifyWorker_twice]
            exact shifts_turn hpool hworker rfl (.leaves hmailbox)

theorem shifts_restWorker (hpool : s.pools[p]? = some pool) (hworker : pool.workers[i]? = some w)
    (hphase : w.phase.seeks = true) (hpools : s₁.pools = s.pools) :
    s.Shifts e (s₁.restWorker p i pool) :=
  shifts_turn hpool hworker hpools (.rests _ hphase)

theorem shifts_askSource (hpool : s.pools[p]? = some pool) (hworker : pool.workers[i]? = some w)
    (hphase : w.phase.seeks = true) (h : s.askSource p i pool = some s') : s.Shifts e s' := by
  unfold askSource at h
  split at h
  · cases h
  · cases h
    exact shifts_restWorker hpool hworker hphase rfl
  · rename_i j left d hsource
    cases h
    have hmodify : ((s.modifyPool p fun pool => { pool with source := some (.jobs left d) }).modifyWorker
        p i fun w => w.takeUp j).pools = s.pools.modify p fun pool =>
          { pool.modify i (fun w => w.takeUp j) with source := some (.jobs left d) } :=
      List.modify_modify_eq _ _ _ _
    refine shifts_of_modify p hmodify ?_
    intro pool' hpool'
    cases hpool.symm.trans hpool'
    refine shift_modify ?_ hworker (.takesUp j hphase)
    rw [hsource]
    rfl
  · rename_i q hsource
    simp only [Option.bind_eq_bind, Option.bind_eq_some_iff] at h
    rcases h with ⟨queue, hqueue, h⟩
    cases h
    unfold askQueue
    split
    · exact shifts_turn hpool hworker rfl (.waits _ hphase)
    · rename_i hidle
      refine shifts_turn hpool hworker rfl (.fetches hphase ?_)
      show ∀ q', pool.source.bind Source.queue? = some q' → s.Loopless q'
      rw [hsource]
      rintro q' ⟨⟩ queue' hqueue'
      cases hqueue.symm.trans hqueue'
      simpa using hidle

theorem shifts_fetchJob (hpool : s.pools[p]? = some pool) (hworker : pool.workers[i]? = some w)
    (hphase : w.phase.seeks = true) : s.Shifts e (s.fetchJob p i pool) := by
  unfold fetchJob
  split
  · exact shifts_restWorker hpool hworker hphase rfl
  · split
    · rename_i hcall
      exact shifts_answered hpool hworker hcall (.takesUp _ hphase)
    · rename_i hcall
      exact shifts_restWorker hpool hworker hphase (parts_of_viaDriver hcall).2

theorem shifts_takeFromBuffer (hpool : s.pools[p]? = some pool)
    (hworker : pool.workers[i]? = some w) (hphase : w.phase.seeks = true)
    (h : s.takeFromBuffer p i pool = some s') : s.Shifts e s' := by
  unfold takeFromBuffer at h
  split at h
  · simp only [Option.bind_eq_bind, Option.bind_eq_some_iff] at h
    rcases h with ⟨queue, -, h⟩
    split at h
    · split at h <;> cases h
      exact shifts_turn hpool hworker rfl (.takesUp _ hphase)
    · cases h
  · cases h

theorem shifts_stopWaiting (hpool : s.pools[p]? = some pool) (hworker : pool.workers[i]? = some w)
    (hphase : w.phase.seeks = true) : s.Shifts e (s.stopWaiting p i pool) := by
  unfold stopWaiting
  dsimp only
  split <;> exact shifts_restWorker hpool hworker hphase rfl

theorem shifts_claimCandidate [Body β] {candidate : Job β} {move : WorkerMove}
    (hpool : s.pools[p]? = some pool) (hworker : pool.workers[i]? = some w)
    (hphase : w.phase = .claiming candidate) :
    s.Shifts (.move (.worker p i move)) (s.claimCandidate p i pool candidate) := by
  have hjob : w.phase.job? = some candidate.id := by rw [hphase]; rfl
  have hbusy : w.phase.job? ≠ none := by simp [hjob]
  unfold claimCandidate
  split
  · exact shifts_turn hpool hworker rfl (.finishes hbusy)
  · split
    · exact shifts_turn hpool hworker rfl (.finishes hbusy)
    · dsimp only
      split
      · rename_i hcall
        exact shifts_answered hpool hworker hcall (.goesOn _ w.completed hbusy hjob.symm)
      · rename_i hcall
        exact shifts_answered hpool hworker hcall (.finishes hbusy)
      · rename_i hcall
        refine shifts_answered hpool hworker hcall (.crashes hbusy ?_)
        exact ⟨move, w, ⟨_, _, _⟩, _, _, rfl, workerAt_eq hpool hworker, hjob, Or.inl hcall⟩

theorem shifts_goOn {claim : Claim} (hpool : s.pools[p]? = some pool)
    (hworker : pool.workers[i]? = some w) (hclaim : w.phase.claim? = some claim)
    (hpools : s₁.pools = s.pools) {phase : Phase β} (hphase : phase.claim? = some claim) :
    s.Shifts e (s₁.modifyWorker p i fun w => w.goto phase) := by
  have hjob := Phase.job?_of_claim? hclaim
  have hbusy : w.phase.job? ≠ none := by simp [hjob]
  exact shifts_turn hpool hworker hpools
    (.goesOn phase w.completed hbusy ((Phase.job?_of_claim? hphase).trans hjob.symm))

theorem shifts_finishJob {claim : Claim} (hpool : s.pools[p]? = some pool)
    (hworker : pool.workers[i]? = some w) (hclaim : w.phase.claim? = some claim)
    (hpools : s₁.pools = s.pools) : s.Shifts e (s₁.modifyWorker p i Worker.finishJob) := by
  have hbusy : w.phase.job? ≠ none := by simp [Phase.job?_of_claim? hclaim]
  exact shifts_turn hpool hworker hpools (.finishes hbusy)

section

variable {claim : Claim} {j : Job β}

theorem shifts_loadJob (hpool : s.pools[p]? = some pool) (hworker : pool.workers[i]? = some w)
    (hclaim : w.phase.claim? = some claim) : s.Shifts e (s.loadJob p i pool claim) := by
  unfold loadJob
  split
  · rename_i hcall
    split <;> exact shifts_goOn hpool hworker hclaim (parts_of_viaDriver hcall).2 rfl
  · rename_i hcall
    exact shifts_goOn hpool hworker hclaim (parts_of_viaDriver hcall).2 rfl

theorem shifts_checkDependency [Body β] (hpool : s.pools[p]? = some pool)
    (hworker : pool.workers[i]? = some w) (hclaim : w.phase.claim? = some claim)
    (left : List String) (known : List (String × Option Bool)) :
    s.Shifts e (s.checkDependency p i pool claim j left known) := by
  unfold checkDependency
  cases left with
  | cons id left =>
      have hpools : (s.driverGet claim.driver pool.token id).2.pools = s.pools :=
        pools_viaDriver s _ _ _ _
      exact shifts_goOn hpool hworker hclaim hpools rfl
  | nil =>
      dsimp only
      split
      · exact shifts_goOn hpool hworker hclaim rfl rfl
      · exact shifts_goOn hpool hworker hclaim rfl rfl
      · exact shifts_goOn hpool hworker hclaim rfl rfl
      · exact shifts_goOn hpool hworker hclaim rfl rfl

theorem shifts_renewLock {move : WorkerMove} (hpool : s.pools[p]? = some pool)
    (hworker : pool.workers[i]? = some w) (hclaim : w.phase.claim? = some claim) (endsAt : Nat) :
    s.Shifts (.move (.worker p i move)) (s.renewLock p i pool claim j endsAt) := by
  unfold renewLock
  split
  · rename_i hcall
    exact shifts_goOn hpool hworker hclaim (parts_of_viaDriver hcall).2 rfl
  · rename_i hcall
    exact shifts_finishJob hpool hworker hclaim (parts_of_viaDriver hcall).2
  · rename_i hcall
    have hjob := Phase.job?_of_claim? hclaim
    refine shifts_answered hpool hworker hcall (.crashes (by simp [hjob]) ?_)
    exact ⟨move, w, _, _, _, rfl, workerAt_eq hpool hworker, hjob, Or.inl hcall⟩

theorem shifts_storeJob [Body β] (hpool : s.pools[p]? = some pool)
    (hworker : pool.workers[i]? = some w) (hclaim : w.phase.claim? = some claim) (counts : Bool) :
    s.Shifts e (s.storeJob p i pool claim j counts) := by
  have hjob := Phase.job?_of_claim? hclaim
  have hbusy : w.phase.job? ≠ none := by simp [hjob]
  unfold storeJob
  split
  · rename_i hcall
    exact shifts_answered hpool hworker hcall (.goesOn (.releasing claim) _ hbusy hjob.symm)
  · rename_i hcall
    exact shifts_goOn hpool hworker hclaim (parts_of_viaDriver hcall).2 rfl

theorem shifts_releaseJob {move : WorkerMove} (hpool : s.pools[p]? = some pool)
    (hworker : pool.workers[i]? = some w) (hclaim : w.phase.claim? = some claim) :
    s.Shifts (.move (.worker p i move)) (s.releaseJob p i pool claim) := by
  unfold releaseJob
  split
  · rename_i hcall
    have hjob := Phase.job?_of_claim? hclaim
    refine shifts_answered hpool hworker hcall (.crashes (by simp [hjob]) ?_)
    exact ⟨move, w, _, _, _, rfl, workerAt_eq hpool hworker, hjob, Or.inr hcall⟩
  · rename_i hcall
    exact shifts_finishJob hpool hworker hclaim (parts_of_viaDriver hcall).2

end

theorem shifts_workerStep [Body β] {move : WorkerMove} (h : s.workerStep p i move = some s') :
    s.Shifts (.move (.worker p i move)) s' := by
  unfold workerStep at h
  simp only [Option.bind_eq_bind, Option.bind_eq_some_iff] at h
  rcases h with ⟨pool, hpool, w, hworker, h⟩
  -- The cases are the moves in the order of their phases; no other move can be made.
  split at h <;> rename_i hphase
  · exact shifts_handleMessage hpool hworker hphase h
  · exact shifts_askSource hpool hworker (by rw [hphase]; rfl) h
  · split at h <;> cases h
    exact shifts_restWorker hpool hworker (by rw [hphase]; rfl) rfl
  · cases h
    exact shifts_fetchJob hpool hworker (by rw [hphase]; rfl)
  · split at h <;> cases h
    exact shifts_restWorker hpool hworker (by rw [hphase]; rfl) rfl
  · exact shifts_takeFromBuffer hpool hworker (by rw [hphase]; rfl) h
  · split at h <;> cases h
    exact shifts_stopWaiting hpool hworker (by rw [hphase]; rfl)
  · split at h <;> cases h
    exact shifts_stopWaiting hpool hworker (by rw [hphase]; rfl)
  · cases h
    exact shifts_claimCandidate hpool hworker hphase
  · cases h
    exact shifts_loadJob hpool hworker (by rw [hphase]; rfl)
  · cases h
    exact shifts_checkDependency hpool hworker (by rw [hphase]; rfl) _ _
  · split at h <;> cases h
    exact shifts_goOn hpool hworker (by rw [hphase]; rfl) rfl rfl
  · split at h <;> cases h
    exact shifts_renewLock hpool hworker (by rw [hphase]; rfl) _
  · split at h <;> cases h
    exact shifts_finishJob hpool hworker (by rw [hphase]; rfl) rfl
  · cases h
    exact shifts_storeJob hpool hworker (by rw [hphase]; rfl) _
  · cases h
    exact shifts_releaseJob hpool hworker (by rw [hphase]; rfl)
  · cases h

/-!
## Moves of others
-/

theorem shifts_all (p : Nat) (watching : Bool → Bool) {f : Worker β → Worker β}
    (hf : ∀ pool, s.pools[p]? = some pool → ∀ i (w : Worker β),
      w.Change (s.occasion e p i pool) (f w)) :
    s.Shifts e (s.modifyPool p fun pool =>
      { pool with workers := pool.workers.map f, watching := watching pool.watching }) := by
  refine shifts_of_modify p rfl fun pool hpool => .works (List.length_map _) ?_ rfl
  intro i w w' hw hw'
  rw [List.getElem?_map, hw] at hw'
  cases hw'
  exact hf pool hpool i w

theorem shifts_ringAlarm (h : s.ringAlarm p i = some s') : s.Shifts e s' := by
  unfold ringAlarm at h
  simp only [Option.bind_eq_bind, Option.bind_eq_some_iff] at h
  rcases h with ⟨pool, hpool, w, hworker, alarms, halarms, h⟩
  cases h
  apply shifts_turn hpool hworker rfl
  rcases Option.map_eq_some_iff.mp halarms with ⟨t, ht, rfl⟩
  exact .rings (List.mem_of_mem_filter (List.min?_mem ht))

theorem shifts_watchPool (h : s.watchPool p = some s') : s.Shifts e s' := by
  unfold watchPool at h
  simp only [Option.bind_eq_bind, Option.bind_eq_some_iff] at h
  rcases h with ⟨pool, hpool, h⟩
  split at h <;> cases h
  rename_i hwatching
  refine shifts_all p (fun _ => false) fun pool' hpool' _ w => .halts w ?_
  cases hpool.symm.trans hpool'
  exact (Bool.and_eq_true _ _ ▸ hwatching).2

theorem pools_loopStep {q : Nat} {m : LoopMove} (h : s.loopStep q i m = some s') :
    s'.pools = s.pools := by
  unfold loopStep at h
  simp only [Option.bind_eq_bind, Option.bind_eq_some_iff] at h
  rcases h with ⟨queue, -, l, -, h⟩
  split at h
  · split at h <;> cases h
    rfl
  · split at h
    · split at h <;> cases h
      unfold askForLoop
      split
      · rename_i hcall
        exact (parts_of_viaDriver hcall).2
      · rename_i hcall
        exact (parts_of_viaDriver hcall).2
    · split at h <;> cases h
      rfl
    · split at h <;> cases h
      rfl

theorem shifts_countIdle {c n : Nat} {asked : Option Nat} {answer : Option Bool}
    (h : s.countIdle c p i n asked answer = some s') : s.Shifts e s' := by
  unfold countIdle at h
  simp only [Option.bind_eq_bind, Option.bind_eq_some_iff] at h
  rcases h with ⟨pool, hpool, h⟩
  split at h
  · cases h
    exact shifts_of_pools rfl
  · rename_i w hworker
    split at h
    · cases h
      exact shifts_of_pools rfl
    · split at h <;> cases h
      · exact shifts_of_pools rfl
      · have htold : s.Shifts e (s.tell p i (.isIdle c)) :=
          shifts_turn hpool hworker rfl (.told w nofun nofun)
        exact htold
    · split at h <;> cases h
      exact shifts_of_pools rfl

theorem pools_lookAtJob (s : System β) (c q token : Nat) (id : String) (interval : Nat)
    (limit : Option Nat) : (s.lookAtJob c q token id interval limit).pools = s.pools := by
  unfold lookAtJob
  split
  · rfl
  · split
    rename_i j s₁ hlook
    have hlooked : s₁.pools = s.pools := by
      split at hlook
      · cases hlook
        rfl
      · exact (parts_of_viaDriver hlook).2
    dsimp only
    split
    · split <;> exact hlooked
    · exact hlooked

theorem pools_takeForCall {c q : Nat} (h : s.takeForCall c q = some s') : s'.pools = s.pools := by
  unfold takeForCall at h
  simp only [Option.bind_eq_bind, Option.bind_eq_some_iff] at h
  rcases h with ⟨queue, -, h⟩
  split at h
  · split at h <;> cases h
    rfl
  · cases h

theorem pools_fetchForCall (s : System β) (c q token : Nat) :
    (s.fetchForCall c q token).pools = s.pools := by
  unfold fetchForCall
  split
  · rfl
  · exact pools_viaDriver s _ _ _ _

theorem shifts_proceedCall {c : Nat} {call : Call β} (h : s.proceedCall c call = some s') :
    s.Shifts e s' := by
  cases call with
  | launch q d token =>
      cases h
      exact shifts_of_pools rfl
  | fetch q token =>
      cases h
      exact shifts_of_pools (pools_fetchForCall s c q token)
  | next q token deadline => exact shifts_of_pools (pools_takeForCall h)
  | idle p i n asked answer => exact shifts_countIdle h
  | sleep deadline =>
      unfold proceedCall at h
      dsimp only at h
      split at h <;> cases h
      exact shifts_of_pools rfl
  | waitAll q token interval limit stage =>
      unfold proceedCall at h
      dsimp only at h
      split at h
      · cases h
        split <;> exact shifts_of_pools rfl
      · cases h
        split <;> exact shifts_of_pools rfl
      · split at h <;> cases h
        exact shifts_of_pools rfl
  | waitJob q token id interval limit stage =>
      unfold proceedCall at h
      dsimp only at h
      split at h
      · split at h <;> cases h
        exact shifts_of_pools rfl
      · cases h
        exact shifts_of_pools (pools_lookAtJob s c q token id interval limit)
  | _ => cases h

theorem pools_timeOutCall {c : Nat} {call : Call β} (h : s.timeOutCall c call = some s') :
    s'.pools = s.pools := by
  unfold timeOutCall at h
  split at h
  · split at h <;> cases h
    rfl
  · split at h <;> cases h
    rfl
  · split at h <;> cases h
    rfl
  · split at h <;> cases h
    rfl
  · cases h

theorem pools_giveUpCall {c : Nat} {call : Call β} (h : s.giveUpCall c call = some s') :
    s'.pools = s.pools := by
  unfold giveUpCall at h
  split at h
  · split at h <;> cases h
    rfl
  · split at h <;> cases h
    rfl
  · split at h <;> cases h
    rfl
  · cases h

theorem shifts_callStep {c : Nat} {m : CallMove} (h : s.callStep c m = some s') :
    s.Shifts e s' := by
  unfold callStep at h
  simp only [Option.bind_eq_bind, Option.bind_eq_some_iff] at h
  rcases h with ⟨call, -, h⟩
  cases m with
  | proceed => exact shifts_proceedCall h
  | timeOut => exact shifts_of_pools (pools_timeOutCall h)
  | giveUp => exact shifts_of_pools (pools_giveUpCall h)

/-!
## Requests
-/

theorem shifts_addPool (size millis : Nat) (hpools : s'.pools = s.pools ++ [.idle size millis]) :
    s.Shifts e s' := by
  intro p
  rw [hpools]
  by_cases hp : p < s.pools.length
  · rw [List.getElem?_append_left hp, List.getElem?_eq_getElem hp]
    exact shift_self _
  · have hle := Nat.le_of_not_lt hp
    rw [List.getElem?_append_right hle, List.getElem?_eq_none hle]
    cases p - s.pools.length with
    | zero => exact .added size millis
    | succ n => exact .absent

theorem shifts_startPool {s₀ : System β} (hpools : s₀.pools = s.pools) (p token : Nat)
    {source : Source β} (hsource : ∀ q, source.queue? = some q → q < s.queues.length) :
    s.Shifts e (s₀.startPool p token source).2 := by
  unfold startPool
  split
  · exact shifts_of_pools hpools
  · rename_i pool hpool
    split
    · exact shifts_of_pools hpools
    · split
      · exact shifts_of_pools hpools
      · rename_i hidle
        have hmodify : (s₀.modifyPool p fun pool => pool.start token source).pools =
            s.pools.modify p fun pool => pool.start token source := by
          rw [← hpools]
          rfl
        refine shifts_of_modify p hmodify fun pool' hpool' => ?_
        rw [hpools] at hpool
        cases hpool.symm.trans hpool'
        exact .starts (Bool.eq_false_iff.mpr hidle) hsource

theorem shifts_start (s : System β) (q token : Nat) : s.Shifts e (s.start q token).2 := by
  cases hqueue : s.queues[q]? with
  | none =>
      unfold System.start
      rw [hqueue]
      exact shifts_of_pools rfl
  | some queue =>
      cases starting hqueue token with
      | fails err s' hstart _ hpools _ =>
          rw [hstart]
          exact shifts_of_pools hpools
      | idles _ hstart =>
          rw [hstart]
          exact shifts_of_pools rfl
      | succeeds d r s₁ s₂ _ _ _ hopen hrun hstart =>
          rw [hstart]
          cases r with
          | broken => cases hrun
          | pool p =>
              have hlt : q < s.queues.length := (List.getElem?_eq_some_iff.mp hqueue).1
              have hsource : ∀ q', (Source.queue q : Source β).queue? = some q' →
                  q' < s.queues.length := by
                rintro q' ⟨⟩
                exact hlt
              have hpools : (s₁.setStarted q true).pools = s.pools := (parts_of_viaDriver hopen).2
              have hstarted : s.Shifts e ((s₁.setStarted q true).startPool p token (.queue q)).2 :=
                shifts_startPool hpools p token hsource
              have hrun' : (s₁.setStarted q true).startPool p token (.queue q) = (.ok (), s₂) := hrun
              rw [hrun'] at hstarted
              exact hstarted

theorem shifts_perform [Body β] (s : System β) (r : Request β) :
    s.Shifts (.request r) (s.perform r).2 := by
  have hstored : ∀ {x : Except StoreError Unit × System β}, x.2.pools = s.pools →
      s.Shifts (.request r) (stored x).2 := by
    intro x hx
    rw [stored_snd]
    exact shifts_of_pools hx
  have hturned : ∀ {x : LockChange StoreError Unit × System β}, x.2.pools = s.pools →
      s.Shifts (.request r) (turned x).2 := by
    intro x hx
    rw [turned_snd]
    exact shifts_of_pools hx
  cases r with
  | addPool size millis => exact shifts_addPool size millis rfl
  | addQueue settings => exact shifts_addPool settings.workers settings.effectivePollMillis rfl
  | start q token => exact shifts_start s q token
  | startPool p token jobs d =>
      have hstarted : s.Shifts (.request (.startPool p token jobs d))
          (s.startPool p token (.jobs jobs d)).2 := shifts_startPool rfl p token nofun
      unfold perform
      dsimp only
      split
      · rename_i hcall
        rw [hcall] at hstarted
        exact hstarted
      · rename_i hcall
        rw [hcall] at hstarted
        exact hstarted
  | shutdown p => exact shifts_all p id fun _ _ _ w => .told w nofun fun _ => rfl
  | addBackend b d => exact shifts_of_pools rfl
  | addDriver d => exact shifts_of_pools rfl
  | setDriver q d =>
      show s.Shifts _ (s.setDriver q d).2
      unfold setDriver
      split
      · split <;> exact shifts_of_pools rfl
      · exact shifts_of_pools rfl
  | setRunner q r =>
      show s.Shifts _ (s.setRunner q r).2
      unfold setRunner
      split
      · split <;> exact shifts_of_pools rfl
      · exact shifts_of_pools rfl
  | dispatch q token =>
      show s.Shifts _ (s.dispatch q token).2
      unfold dispatch
      split
      · exact shifts_of_pools rfl
      · split
        · rename_i hopen
          exact shifts_of_pools (parts_of_viaDriver hopen).2
        · rename_i hopen
          exact shifts_of_pools (parts_of_viaDriver hopen).2
  | put q token j =>
      unfold perform
      dsimp only
      split
      · exact shifts_of_pools rfl
      · exact hstored (pools_viaDriver s _ _ _ _)
  | get q token id =>
      unfold perform
      dsimp only
      split
      · exact shifts_of_pools rfl
      · exact shifts_of_pools (pools_viaDriver s _ _ _ _)
  | tally q token =>
      unfold perform
      dsimp only
      split <;> exact shifts_of_pools rfl
  | infos q token =>
      unfold perform
      dsimp only
      split <;> exact shifts_of_pools rfl
  | cancel token => exact shifts_of_pools rfl
  | openDriver k token => exact hstored (pools_viaDriver s _ _ _ _)
  | closeDriver k =>
      show s.Shifts _ (s.driverClose k)
      unfold driverClose
      split <;> exact shifts_of_pools rfl
  | saveVia k token j => exact hstored (pools_viaDriver s _ _ _ _)
  | getVia k token id =>
      have hpools : (s.driverGet k token id).2.pools = s.pools := pools_viaDriver s _ _ _ _
      exact shifts_of_pools hpools
  | nextVia k token =>
      have hpools : (s.driverNext k token).2.pools = s.pools := pools_viaDriver s _ _ _ _
      exact shifts_of_pools hpools
  | lockVia k token id owner => exact hturned (pools_viaDriver s _ _ _ _)
  | unlockVia k token id owner => exact hturned (pools_viaDriver s _ _ _ _)
  | tallyVia k token => exact shifts_of_pools rfl
  | next q token =>
      show s.Shifts _ (s.beginNext q token).2
      unfold beginNext
      split
      · exact shifts_of_pools rfl
      · split <;> exact shifts_of_pools rfl
  | sleep millis => exact shifts_of_pools rfl
  | countIdle p => exact shifts_of_pools rfl
  | waitAll q token interval limit => exact shifts_of_pools rfl
  | waitJob q token id interval limit => exact shifts_of_pools rfl

/-- An event does one of these things to each pool. -/
theorem shifts_handle [Body β] (h : s.handle e = some s') : s.Shifts e s' := by
  cases e with
  | request r =>
      cases h
      exact shifts_perform s r
  | tick =>
      have htick : s.tick = some s' := h
      unfold tick at htick
      split at htick
      · rcases Option.map_eq_some_iff.mp htick with ⟨t, -, rfl⟩
        exact shifts_of_pools rfl
      · cases htick
  | files present =>
      cases h
      exact shifts_of_pools rfl
  | move move =>
      cases move with
      | worker p i move => exact shifts_workerStep h
      | alarm p i => exact shifts_ringAlarm h
      | watch p => exact shifts_watchPool h
      | loop q i move => exact shifts_of_pools (pools_loopStep h)
      | call c move => exact shifts_callStep h

end System
end LeaseQueue
