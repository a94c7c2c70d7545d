import LeaseQueue.Proofs.Queue.Evidence
import LeaseQueue.Proofs.Queue.Processing
/-!
# Jobs that wait for others

A worker begins an attempt only when all jobs that its job waits for have been
seen completed. While nobody else changes a record, a worker whose job has to wait
gives the job back after a bounded number of moves, and nothing but the lock has
changed.
-/

namespace LeaseQueue

variable {β : Type}

def Record.givenBack (r : Record) (count : UInt64) (t : Timestamp) : Record :=
  r.withStatus { r.status with
    inProgress := false, owner := "", modCount := count, modTime := some t }

namespace System

variable [Body β]

/-- A worker goes on from its lock, and until it rests nobody else changes a record. -/
inductive Undisturbed (p i n : Nat) (s₁ : System β) : List (Act β) → System β → Prop where
  | start : Undisturbed p i n s₁ [] s₁
  | moves {acts : List (Act β)} {s s' : System β} {move : WorkerMove} :
      Undisturbed p i n s₁ acts s → s.phaseAt p i ≠ some .resting →
      s.workerStep p i move = some s' → Undisturbed p i n s₁ (acts ++ [.between s move s']) s'
  | waits {acts : List (Act β)} {s s' : System β} {e : Event β} :
      Undisturbed p i n s₁ acts s → s.phaseAt p i ≠ some .resting →
      (∀ move, e ≠ .move (.worker p i move)) → s.handle e = some s' →
      (∀ id, s'.recordIn n id = s.recordIn n id) → Undisturbed p i n s₁ acts s'
  /-- The clock is set to any moment. -/
  | clock {acts : List (Act β)} {s : System β} (t : Nat) :
      Undisturbed p i n s₁ acts s → Undisturbed p i n s₁ acts { s with clock := t }

section

variable (p i n : Nat) (b : Backend β) (d : Discipline) (claim : Claim) (r₀ : Record)
variable (ids : List String) (s₁ : System β)

/-- A job in a store in memory was just locked, and of those that it waits for one at least is not
there, cannot be read, or is not completed. -/
structure Gate : Prop where
  reaches : ∃ m, s₁.Reaches claim.driver n b d m
  locked : ∃ t, s₁.recordIn n claim.id =
    some (r₀.leased claim.owner (r₀.status.modCount + 1) t)
  completed : r₀.status.completed = false
  failed : r₀.status.failed = false
  waits : r₀.base.dependency = .edges ids
  unmet : ∃ id ∈ ids, ¬ s₁.Completed claim.driver id

/-- How far a worker is with a job that has to wait, and how many moves it has left. -/
inductive Delay : Phase β → Nat → Prop where
  | loading : Delay (.loading claim) (ids.length + 3)
  | checking {j : Job β} {left : List String} {known : List (String × Option Bool)} :
      j.base.dependency = .edges ids →
      (∀ id, (id, some true) ∈ known → s₁.Completed claim.driver id) →
      Delay (.checking claim j left known) (left.length + 2)
  | releasing : Delay (.releasing claim) 1

/-- A worker is at a job that has to wait, and all records are what they were. -/
structure Delayed (s : System β) (phase : Phase β) (budget : Nat) : Prop where
  started : s.HasStarted p
  doing : s.phaseAt p i = some phase
  reaches : ∃ m, s.Reaches claim.driver n b d m ∧ m.Indexed
  same : ∀ id, s.recordIn n id = s₁.recordIn n id
  delay : Delay claim ids s₁ phase budget

/-- A worker has given a job back, and nothing but the lock has changed. Its taking and its release
are counted, unless the count comes to its end. -/
def GaveBack (s : System β) : Prop :=
  s.phaseAt p i = some .resting ∧
    ∃ count t, s.recordIn n claim.id = some (r₀.givenBack count t) ∧
      (r₀.status.modCount.toNat + 1 < maxUInt64 → count = r₀.status.modCount + 2)

end

variable {p i n : Nat} {b : Backend β} {d : Discipline} {claim : Claim} {r₀ : Record}
variable {ids : List String} {s₁ s s' : System β} {m : Memory} {phase phase' : Phase β}
variable {budget budget' : Nat} {w : Worker β}

omit [Body β] in
theorem Reaches.completed_iff {k : Nat} (h : s.Reaches k n b d m) (id : String) :
    s.Completed k id ↔ ∃ r, s.recordIn n id = some r ∧ b.registry.build? r ≠ none ∧
      r.status.completed = true := by
  rcases h.driver with ⟨driver, hdriver, rfl, -⟩
  have hbackend : s.backendOf? k = some (b.onMemory d m) := by
    unfold backendOf?
    rw [hdriver]
    exact h.store
  have hrecord : ∀ r, s.recordIn driver.backend id = some r ↔
      (b.onMemory d m).record? false id = some r := by
    intro r
    unfold recordIn
    rw [h.store, Option.bind_some]
  constructor
  · rintro ⟨r, j, ⟨b', hb', hr, hbuilt⟩, hcompleted⟩
    cases hbackend.symm.trans hb'
    refine ⟨r, (hrecord r).mpr hr, ?_, hcompleted⟩
    intro hnone
    cases hbuilt.symm.trans hnone
  · rintro ⟨r, hr, hbuilt, hcompleted⟩
    rcases Option.ne_none_iff_exists'.mp hbuilt with ⟨j, hj⟩
    exact ⟨r, j, ⟨_, hbackend, (hrecord r).mp hr, hj⟩, hcompleted⟩

omit [Body β] in
theorem Delayed.completed (h : Delayed p i n b d claim ids s₁ s phase budget)
    (hgate : Gate n b d claim r₀ ids s₁) {id : String} (hid : s.Completed claim.driver id) :
    s₁.Completed claim.driver id := by
  rcases h.reaches with ⟨m, hreaches, -⟩
  rcases hgate.reaches with ⟨m₁, hreaches₁⟩
  rw [hreaches.completed_iff, h.same] at hid
  exact (hreaches₁.completed_iff id).mpr hid

omit [Body β] in
theorem Delayed.goto (h : Delayed p i n b d claim ids s₁ s phase budget)
    (hw : s.workerAt p i = some w) (hdelay : Delay claim ids s₁ phase' budget') :
    Delayed p i n b d claim ids s₁ (s.modifyWorker p i fun w => w.goto phase') phase' budget' := by
  rcases h.reaches with ⟨m, hreaches, hindexed⟩
  refine ⟨hasStarted_modifyWorker h.started p i _, phaseAt_modifyWorker_self hw _,
    ⟨m, ⟨hreaches.driver, hreaches.store⟩, hindexed⟩, h.same, hdelay⟩

omit [Body β] in
theorem Delayed.loadJob (h : Delayed p i n b d claim ids s₁ s (.loading claim) budget)
    (hgate : Gate n b d claim r₀ ids s₁) (hw : s.workerAt p i = some w) (pool : Pool β) :
    (s.loadJob p i pool claim).runs = s.runs ∧ ∃ phase' budget', budget' < budget ∧
      Delayed p i n b d claim ids s₁ (s.loadJob p i pool claim) phase' budget' := by
  rcases h.reaches with ⟨m, hreaches, -⟩
  rcases hgate.locked with ⟨t, hlocked⟩
  have hdelay := h.delay
  cases hdelay with
  | loading =>
  unfold System.loadJob
  rw [hreaches.driverGet_eq, ← hreaches.recordIn_eq, h.same, hlocked, Option.bind_some,
    build?_leased]
  cases hbuild : b.registry.build? r₀ with
  | none =>
      exact ⟨rfl, .releasing claim, 1, by omega, h.goto hw .releasing⟩
  | some j =>
      have hbase := Registry.build?_base hbuild
      have hstatus : j.status = r₀.status := congrArg Base.status hbase
      have hopen : (j.leased claim.owner (r₀.status.modCount + 1) t).status.isFinished = false := by
        show (j.status.completed || j.status.failed) = false
        rw [hstatus, hgate.completed, hgate.failed]
        rfl
      have hwaits : j.base.dependency = .edges ids := by
        rw [hbase]
        exact hgate.waits
      have hleft : j.base.dependency.waitsFor = ids := by
        rw [hwaits]
        rfl
      dsimp only [Option.map_some]
      rw [hopen]
      refine ⟨rfl, _, _, ?_, h.goto hw (.checking hwaits fun id hid => nomatch hid)⟩
      show j.base.dependency.waitsFor.length + 2 < _
      rw [hleft]
      omega

theorem Delayed.checkDependency {j : Job β} {left : List String}
    {known : List (String × Option Bool)}
    (h : Delayed p i n b d claim ids s₁ s (.checking claim j left known) budget)
    (hgate : Gate n b d claim r₀ ids s₁) (hw : s.workerAt p i = some w) (pool : Pool β) :
    (s.checkDependency p i pool claim j left known).runs = s.runs ∧
      ∃ phase' budget', budget' < budget ∧
        Delayed p i n b d claim ids s₁ (s.checkDependency p i pool claim j left known)
          phase' budget' := by
  rcases h.reaches with ⟨m, hreaches, -⟩
  have hdelay := h.delay
  cases hdelay with
  | checking hwaits hknown =>
  unfold System.checkDependency
  cases left with
  | cons id left =>
      have hget : s.driverGet claim.driver pool.token id =
          ((s.driverGet claim.driver pool.token id).1, s) := by
        rw [hreaches.driverGet_eq]
      dsimp only
      rw [hget]
      refine ⟨rfl, _, left.length + 2, by simp, h.goto hw (.checking hwaits ?_)⟩
      intro id' hid'
      rcases List.mem_cons.mp hid' with heq | hearlier
      · injection heq with hid hanswer
        subst hid
        exact h.completed hgate (completed_of_driverGet hanswer.symm)
      · exact hknown id' hearlier
  | nil =>
      rcases hgate.unmet with ⟨id, hid, hunmet⟩
      have hnot : ¬ j.base.dependency.state s.files (fun e => (known.lookup e).join) =
          .ready := by
        rw [hwaits, Dependency.state_edges]
        intro hready
        exact hunmet (hknown id (mem_of_lookup_join (hready id hid)))
      dsimp only
      split
      · rename_i hready
        exact absurd hready hnot
      · rename_i hpassed
        rw [hwaits] at hpassed
        exact absurd hpassed (Dependency.examine_ne_passed _ false ids)
      · exact ⟨rfl, .releasing claim, 1, by simp, h.goto hw .releasing⟩
      · exact ⟨rfl, .releasing claim, 1, by simp, h.goto hw .releasing⟩

omit [Body β] in
theorem Delayed.releaseJob (h : Delayed p i n b d claim ids s₁ s (.releasing claim) budget)
    (hgate : Gate n b d claim r₀ ids s₁) (hw : s.workerAt p i = some w) (pool : Pool β) :
    (s.releaseJob p i pool claim).runs = s.runs ∧
      GaveBack p i n claim r₀ (s.releaseJob p i pool claim) := by
  rcases h.reaches with ⟨m, hreaches, -⟩
  rcases hgate.locked with ⟨t, hlocked⟩
  have hstored : (m.lookup? claim.id).map Entry.record =
      some (r₀.leased claim.owner (r₀.status.modCount + 1) t) := by
    rw [← hreaches.recordIn_eq, h.same, hlocked]
  rcases Option.map_eq_some_iff.mp hstored with ⟨e, he, hrecord⟩
  have hback : ∀ (f : Worker β → Worker β) (count : UInt64) (u : Timestamp), (f w).phase = .resting →
      (r₀.status.modCount.toNat + 1 < maxUInt64 → count = r₀.status.modCount + 2) →
      s.releaseJob p i pool claim = (s.putStore n b d (m.replace claim.id
        { e with record := r₀.givenBack count u })).modifyWorker p i f →
      (s.releaseJob p i pool claim).runs = s.runs ∧
        GaveBack p i n claim r₀ (s.releaseJob p i pool claim) := by
    intro f count u hf hcount hs'
    rw [hs']
    refine ⟨rfl, ?_, count, u, ?_, hcount⟩
    · rw [phaseAt_modifyWorker_self (s := s.putStore n b d _) hw, hf]
    · show (s.putStore n b d _).recordIn n claim.id = _
      rw [(hreaches.putStore _).recordIn_eq, Memory.lookup?_replace, if_pos rfl]
      rfl
  let free : Status := { e.record.status with inProgress := false, owner := "" }
  have hfree : free = { r₀.status with
      inProgress := false, owner := "", modCount := r₀.status.modCount + 1, modTime := some t } := by
    show { e.record.status with inProgress := false, owner := "" } = _
    rw [hrecord]
    rfl
  have hunlock : m.unlock claim.id claim.owner s.now =
      ((free.counted s.now).mapRefusal .lock).map (m.setStatus claim.id e) := by
    unfold Memory.unlock
    rw [he]
    dsimp only
    rw [Status.unlock_of_holder (by rw [hrecord]; rfl) (by rw [hrecord]; rfl)]
  have hset : ∀ status : Status, e.record.withStatus status = r₀.withStatus status := by
    intro status
    rw [hrecord]
    rfl
  rcases Status.counted_cases free s.now with ⟨-, hmade⟩ | ⟨hlast, hbroken⟩
  · rw [hmade, hfree] at hunlock
    apply hback Worker.finishJob (r₀.status.modCount + 2) s.now rfl (fun _ => rfl)
    have htwo : r₀.status.modCount + 2 = r₀.status.modCount + 1 + 1 := by
      rw [UInt64.add_assoc]
      rfl
    unfold System.releaseJob Record.givenBack
    rw [hreaches.driverUnlock_eq, hunlock, htwo, ← hset]
    rfl
  · rw [hbroken, hfree] at hunlock
    have hend : ¬ r₀.status.modCount.toNat + 1 < maxUInt64 := by
      intro hroom
      rw [hfree] at hlast
      have hcount : (r₀.status.modCount + 1).toNat = maxUInt64 := hlast
      unfold maxUInt64 at hroom hcount
      rw [UInt64.toNat_add, UInt64.toNat_one] at hcount
      omega
    apply hback Worker.crash (r₀.status.modCount + 1) t rfl (fun hroom => absurd hroom hend)
    unfold System.releaseJob Record.givenBack
    rw [hreaches.driverUnlock_eq, hunlock, ← hset]
    rfl

/-!
## The moves until the job is given back
-/

theorem Delayed.workerStep (h : Delayed p i n b d claim ids s₁ s phase budget)
    (hgate : Gate n b d claim r₀ ids s₁) {move : WorkerMove}
    (hstep : s.workerStep p i move = some s') :
    s'.runs = s.runs ∧
      ((∃ phase' budget', budget' < budget ∧ Delayed p i n b d claim ids s₁ s' phase' budget') ∨
        (GaveBack p i n claim r₀ s' ∧ 0 < budget)) := by
  rcases exists_workerAt_of_workerStep hstep with ⟨w, hw⟩
  rcases exists_pool_of_workerAt hw with ⟨pool, hpool, hworker⟩
  have hphase : w.phase = phase := Option.some.inj ((phaseAt_eq hw).symm.trans h.doing)
  unfold System.workerStep at hstep
  simp only [hpool, hworker, hphase, Option.bind_eq_bind, Option.bind_some] at hstep
  have hdelay := h.delay
  cases hdelay with
  | loading =>
      cases move with
      | proceed =>
          cases hstep
          rcases h.loadJob hgate hw pool with ⟨hruns, hnext⟩
          exact ⟨hruns, Or.inl hnext⟩
      | _ => cases hstep
  | @checking j left known hwaits hknown =>
      cases move with
      | proceed =>
          cases hstep
          rcases h.checkDependency hgate hw pool with ⟨hruns, hnext⟩
          exact ⟨hruns, Or.inl hnext⟩
      | _ => cases hstep
  | releasing =>
      cases move with
      | proceed =>
          cases hstep
          rcases h.releaseJob hgate hw pool with ⟨hruns, hback⟩
          exact ⟨hruns, Or.inr ⟨hback, Nat.one_pos⟩⟩
      | _ => cases hstep

theorem Delayed.exists_workerStep (h : Delayed p i n b d claim ids s₁ s phase budget) :
    ∃ s', s.workerStep p i .proceed = some s' := by
  rcases Option.map_eq_some_iff.mp h.doing with ⟨w, hw, hphase⟩
  rcases exists_pool_of_workerAt hw with ⟨pool, hpool, hworker⟩
  unfold System.workerStep
  simp only [hpool, hworker, hphase, Option.bind_eq_bind, Option.bind_some]
  have hdelay := h.delay
  cases hdelay with
  | loading => exact ⟨_, rfl⟩
  | checking _ _ => exact ⟨_, rfl⟩
  | releasing => exact ⟨_, rfl⟩

theorem Delayed.handle (h : Delayed p i n b d claim ids s₁ s phase budget) {e : Event β}
    (hothers : ∀ move, e ≠ .move (.worker p i move)) (hhandle : s.handle e = some s')
    (hsame : ∀ id, s'.recordIn n id = s.recordIn n id) :
    Delayed p i n b d claim ids s₁ s' phase budget := by
  have hframes : s.Frames p i s' := frames_handle hothers hhandle
  rcases h.reaches with ⟨m, hreaches, hindexed⟩
  have hclaim : s.claimAt p i ≠ none := by
    rw [claimAt_eq h.doing]
    have hdelay := h.delay
    cases hdelay with
    | loading => exact Option.some_ne_none _
    | checking _ _ => exact Option.some_ne_none _
    | releasing => exact Option.some_ne_none _
  refine ⟨hframes.started h.started, ?_, hreaches.of_frames hindexed hframes, ?_, h.delay⟩
  · exact (hframes.phase h.started hclaim).trans h.doing
  · intro id
    exact (hsame id).trans (h.same id)

omit [Body β] in
theorem Delayed.clock (h : Delayed p i n b d claim ids s₁ s phase budget) (t : Nat) :
    Delayed p i n b d claim ids s₁ { s with clock := t } phase budget := by
  rcases h.reaches with ⟨m, hreaches, hindexed⟩
  exact ⟨h.started, h.doing, ⟨m, ⟨hreaches.driver, hreaches.store⟩, hindexed⟩, h.same, h.delay⟩

/-- A worker whose job has to wait begins no attempt, and has made no more moves than one for each
job that is waited for and three more: to load the job, to decide, and to give the job back. -/
theorem Undisturbed.delayed {acts : List (Act β)} (h : Undisturbed p i n s₁ acts s)
    (hgate : Gate n b d claim r₀ ids s₁)
    (hstart : Delayed p i n b d claim ids s₁ s₁ (.loading claim) (ids.length + 3)) :
    attempts acts = [] ∧
      ((∃ phase budget, Delayed p i n b d claim ids s₁ s phase budget ∧
          acts.length + budget ≤ ids.length + 3) ∨
        (GaveBack p i n claim r₀ s ∧ acts.length ≤ ids.length + 3)) := by
  -- The moves made and those left are the budget from the start; a move takes one from what is left.
  induction h with
  | start => exact ⟨rfl, Or.inl ⟨_, _, hstart, by simp⟩⟩
  | @moves acts s s' move _ hbusy hstep ih =>
      rcases ih with ⟨hnone, ⟨phase, budget, hdelayed, hlength⟩ | ⟨hback, -⟩⟩
      · rcases hdelayed.workerStep hgate hstep with ⟨hruns, hnext⟩
        have hbegun : (Act.between s move s').begun = [] := by
          show s'.runs.drop s.runs.length = []
          rw [hruns, List.drop_length]
        refine ⟨(attempts_append_of_nil acts hbegun).trans hnone, ?_⟩
        rw [List.length_append, List.length_singleton]
        rcases hnext with ⟨phase', budget', hless, hdelayed'⟩ | ⟨hback, hleft⟩
        · exact Or.inl ⟨phase', budget', hdelayed', by omega⟩
        · exact Or.inr ⟨hback, by omega⟩
      · exact absurd hback.1 hbusy
  | waits _ hbusy hothers hhandle hsame ih =>
      rcases ih with ⟨hnone, ⟨phase, budget, hdelayed, hlength⟩ | ⟨hback, -⟩⟩
      · exact ⟨hnone, Or.inl ⟨phase, budget, hdelayed.handle hothers hhandle hsame, hlength⟩⟩
      · exact absurd hback.1 hbusy
  | clock t _ ih =>
      rcases ih with ⟨hnone, ⟨phase, budget, hdelayed, hlength⟩ | hback⟩
      · exact ⟨hnone, Or.inl ⟨phase, budget, hdelayed.clock t, hlength⟩⟩
      · exact ⟨hnone, Or.inr hback⟩

theorem Takes.gate (htakes : s.Takes p i claim) (hstarted : s.HasStarted p)
    (hreaches : s.Reaches claim.driver n b d m) (hm : m.Indexed)
    (hr₀ : s.recordIn n claim.id = some r₀) (hwaits : r₀.base.dependency = .edges ids)
    (hstep : s.workerStep p i .proceed = some s₁)
    (hunmet : ∃ id ∈ ids, ¬ s₁.Completed claim.driver id) :
    Gate n b d claim r₀ ids s₁ ∧
      Delayed p i n b d claim ids s₁ s₁ (.loading claim) (ids.length + 3) := by
  rcases htakes with ⟨pool, candidate, hpool, hphase, hopen, hsource, hid, howner, hlocked⟩
  rcases Option.map_eq_some_iff.mp hphase with ⟨w, hw, hclaiming⟩
  rcases exists_pool_of_workerAt hw with ⟨pool', hpool', hworker⟩
  cases hpool.symm.trans hpool'
  have hs₁ : s.claimCandidate p i pool candidate = s₁ := by
    unfold System.workerStep at hstep
    simp only [hpool, hworker, hclaiming, Option.bind_eq_bind, Option.bind_some] at hstep
    exact Option.some.inj hstep
  rw [hreaches.driverLock_eq] at hlocked
  cases hlock : m.lock claim.id claim.owner s.now b.lease.lockTimeout with
  | refused err =>
      rw [hlock] at hlocked
      cases hlocked
  | broken m' =>
      rw [hlock] at hlocked
      cases hlocked
  | made m' =>
      rcases leased_of_lock hm hlock with ⟨e, he, hcompleted, hfailed, hm', hleased⟩
      rw [hreaches.recordIn_eq, he] at hr₀
      cases hr₀
      have hloading : s₁ = (s.putStore n b d m').modifyWorker p i fun w => w.goto (.loading claim) := by
        rw [← hs₁]
        unfold System.claimCandidate
        rw [hsource]
        dsimp only
        rw [if_neg (by simp [hopen]), ← howner, ← hid, hreaches.driverLock_eq, hlock]
        rfl
      have hreaches₁ : s₁.Reaches claim.driver n b d m' := by
        rw [hloading]
        exact ⟨hreaches.driver, (hreaches.putStore m').store⟩
      have hlocked₁ := (hreaches₁.recordIn_eq claim.id).trans hleased
      refine ⟨⟨⟨m', hreaches₁⟩, ⟨s.now, hlocked₁⟩, hcompleted, hfailed, hwaits, hunmet⟩, ?_⟩
      refine ⟨?_, ?_, ⟨m', hreaches₁, hm'⟩, fun _ => rfl, .loading⟩
      · rw [hloading]
        exact hasStarted_modifyWorker (s := s.putStore n b d m') hstarted p i _
      · rw [hloading]
        exact phaseAt_modifyWorker_self (s := s.putStore n b d m') hw _

/-- Whatever has happened before, a worker that begins an attempt has seen a completed record of each
job that is waited for since it took the lock. And where one of them is not there, cannot be read, or
is not completed, and nobody else changes a record, the worker begins no attempt: after a bounded
number of moves it has given the job back, and until then it can go on. -/
theorem dependency_gating {clock : Nat} {past : List (System β × Event β)}
    (h : History clock past s) (p i : Nat) :
    (∀ move s', s.workerStep p i move = some s' → s'.runs ≠ s.runs → Warranted past s p i s') ∧
    ∀ (claim : Claim) (driver : Driver) (registry : Registry β) (d : Discipline)
      (lease : LeaseSettings) (b : Backend β) (r₀ : Record) (ids : List String)
      (s₁ s' : System β) (acts : List (Act β)),
      s.drivers[claim.driver]? = some driver → driver.outages = [] →
      s.backends[driver.backend]? = some b → Backend.Reachable registry d lease b →
      s.Takes p i claim → s.workerStep p i .proceed = some s₁ →
      s.recordIn driver.backend claim.id = some r₀ → r₀.base.dependency = .edges ids →
      (∃ id ∈ ids, ¬ s₁.Completed claim.driver id) →
      Undisturbed p i driver.backend s₁ acts s' →
      attempts acts = [] ∧ acts.length ≤ ids.length + 3 ∧
        (GaveBack p i driver.backend claim r₀ s' ∨
          (s'.phaseAt p i ≠ some .resting ∧ ∃ s'', s'.workerStep p i .proceed = some s'')) := by
  refine ⟨fun move s' hstep hruns => h.warranted hstep hruns, ?_⟩
  intro claim driver registry d lease b r₀ ids s₁ s' acts hdriver houtages hbackend hb htakes hstep
    hr₀ hwaits hunmet hundisturbed
  rcases hb.exists_memory with ⟨m, rfl, hm⟩
  have hreaches : s.Reaches claim.driver driver.backend _ d m :=
    ⟨⟨driver, hdriver, rfl, houtages⟩, hbackend⟩
  have hstarted : s.HasStarted p := by
    rcases htakes with ⟨pool, candidate, -, hphase, -⟩
    exact h.hasStarted (hphase ▸ Option.some_ne_none _)
  rcases htakes.gate hstarted hreaches hm hr₀ hwaits hstep hunmet with ⟨hgate, hdelayed⟩
  rcases hundisturbed.delayed hgate hdelayed with
    ⟨hnone, ⟨phase, budget, hdelayed', hlength⟩ | ⟨hback, hlength⟩⟩
  · refine ⟨hnone, by omega, Or.inr ⟨?_, hdelayed'.exists_workerStep⟩⟩
    rw [hdelayed'.doing]
    intro hrest
    cases hrest
    have hdelay := hdelayed'.delay
    cases hdelay
  · exact ⟨hnone, hlength, Or.inl hback⟩

theorem Undisturbed.attend {moves : List (Option WorkerMove)} {acts more : List (Act β)}
    (h : Undisturbed p i n s₁ acts s) (hmore : attend p i s moves = some (more, s')) :
    Undisturbed p i n s₁ (acts ++ more) s' ∧ s'.phaseAt p i = some .resting := by
  induction moves generalizing s acts more with
  | nil =>
      unfold System.attend at hmore
      split at hmore
      · rename_i hrest
        cases hmore
        rw [List.append_nil]
        exact ⟨h, isResting_iff.mp hrest⟩
      · cases hmore
  | cons next rest ih =>
      cases next with
      | none =>
          unfold System.attend at hmore
          split at hmore
          · cases hmore
          · rcases Option.bind_eq_some_iff.mp hmore with ⟨a, htick, hrest⟩
            unfold tick at htick
            split at htick
            · rcases Option.map_eq_some_iff.mp htick with ⟨t, -, rfl⟩
              exact ih (h.clock t) hrest
            · cases htick
      | some move =>
          unfold System.attend at hmore
          split at hmore
          · cases hmore
          · rename_i hbusy
            rcases Option.bind_eq_some_iff.mp hmore with ⟨a, hstep, hrest⟩
            rcases Option.bind_eq_some_iff.mp hrest with ⟨⟨acts', s₂⟩, hacts, heq⟩
            cases heq
            have hmoved := ih (h.moves (fun hrest => hbusy (isResting_iff.mpr hrest)) hstep) hacts
            rw [List.append_assoc] at hmoved
            exact hmoved

/-- A worker gives a job back that waits for one nobody has worked on yet, and begins an attempt at it
when it comes again after the other one. -/
theorem dependency_gating_of_late_edge :
    let registry : Registry Work := Registry.empty.register "sample" 0 fun _ => some (.drill .blank)
    let first : Job Work := Backend.sampleJob "first"
    let second : Job Work :=
      ⟨{ (Backend.sampleJob "second").base with dependency := .edges ["first"] }, .drill .blank⟩
    let b : Backend Work := (Backend.inMemory registry .oldestFirst .standard).run
      [⟨.save first, false, .ofNanos 0⟩, ⟨.save second, false, .ofNanos 0⟩]
    let moves : List WorkerMove → List (Event Work) := List.map fun move => .move (.worker 0 0 move)
    let before : List (Event Work) := [.request (.addBackend b ⟨"one", 0, []⟩),
      .request (.addPool 1 600), .request (.startPool 0 0 [second, first, second] (some 0))] ++
      moves [.handle, .proceed]
    let after : List (Event Work) := moves [.proceed, .proceed, .proceed, .proceed, .proceed,
      .handle, .proceed, .proceed, .proceed, .proceed, .finish, .proceed, .proceed,
      .handle, .proceed, .proceed, .proceed, .proceed]
    (∃ s s₁ s' acts claim r₀, before.foldlM handle (.empty 0) = some s ∧ s.Takes 0 0 claim ∧
      s.workerStep 0 0 .proceed = some s₁ ∧ s.recordIn 0 "second" = some r₀ ∧
      Undisturbed 0 0 0 s₁ acts s' ∧ attempts acts = [] ∧ GaveBack 0 0 0 claim r₀ s') ∧
    ∃ past s s', History 0 past s ∧ past.map Prod.snd = (before ++ after).reverse ∧
      s.workerStep 0 0 .proceed = some s' ∧ Warranted past s 0 0 s' := by
  intro registry first second b moves before after
  constructor
  · have htaken : ∃ (s s₁ : System Work) (claim : Claim) (r₀ r : Record),
        before.foldlM handle (.empty 0) = some s ∧ s.workerStep 0 0 .proceed = some s₁ ∧
        s₁.phaseAt 0 0 = some (.loading claim) ∧ claim.id = "second" ∧ claim.driver = 0 ∧
        s.drivers[0]? = some ⟨"one", 0, []⟩ ∧ s.backends[0]? = some b ∧
        s.recordIn 0 "second" = some r₀ ∧ r₀.base.dependency = .edges ["first"] ∧
        s₁.backendOf? 0 = s₁.backends[0]? ∧ s₁.recordIn 0 "first" = some r ∧
        r.status.completed = false :=
      ⟨_, _, _, _, _, rfl, rfl, rfl, rfl, rfl, rfl, rfl, rfl, rfl, rfl, rfl, rfl⟩
    have hattend : ((before.foldlM handle (.empty 0)).any fun s =>
        (s.workerStep 0 0 .proceed).any fun s₁ =>
          (attend 0 0 s₁ [some .proceed, some .proceed, some .proceed, some .proceed]).isSome) =
        true := by decide +kernel
    rcases htaken with ⟨s, s₁, claim, r₀, r, hs, hs₁, hloading, hid, hdriver, hdrivers, hbackends,
      hr₀, hwaits, hbackend, hr, hopen⟩
    simp only [hs, hs₁, Option.any_some] at hattend
    rcases Option.isSome_iff_exists.mp hattend with ⟨⟨acts, s'⟩, hacts⟩
    rcases Undisturbed.start.attend (n := 0) hacts with ⟨hundisturbed, hrest⟩
    have htakes : s.Takes 0 0 claim := takes_of_workerStep hs₁ hloading
    rcases History.empty.events hs with ⟨past, -, hhistory⟩
    have hunmet : ¬ s₁.Completed claim.driver "first" := by
      rintro ⟨r', j, ⟨b', hb', hr', -⟩, hcompleted⟩
      rw [hdriver, hbackend] at hb'
      unfold recordIn at hr
      rw [hb', Option.bind_some, hr'] at hr
      cases hr
      cases hopen.symm.trans hcompleted
    have hdrivers' : s.drivers[claim.driver]? = some ⟨"one", 0, []⟩ := hdriver ▸ hdrivers
    have hr₀' : s.recordIn 0 claim.id = some r₀ := hid ▸ hr₀
    rcases (dependency_gating hhistory 0 0).2 claim ⟨"one", 0, []⟩ registry .oldestFirst .standard b
      r₀ ["first"] s₁ s' _ hdrivers' rfl hbackends ⟨_, rfl⟩ htakes hs₁ hr₀' hwaits
      ⟨"first", List.mem_cons_self, hunmet⟩ hundisturbed with ⟨hnone, -, hback | ⟨hbusy, -⟩⟩
    · exact ⟨s, s₁, s', _, claim, r₀, hs, htakes, hs₁, hr₀, hundisturbed, hnone, hback⟩
    · exact absurd hrest hbusy
  · have hbegun : (((before ++ after).foldlM handle (.empty 0)).any fun s =>
        (s.workerStep 0 0 .proceed).any fun s' => s'.runs.length ≠ s.runs.length) = true := by
      decide +kernel
    rcases (Option.any_eq_true _ _).mp hbegun with ⟨s, hs, hrest⟩
    rcases (Option.any_eq_true _ _).mp hrest with ⟨s', hs', hruns⟩
    rcases History.empty.events hs with ⟨past, hpast, hhistory⟩
    rw [List.append_nil] at hhistory
    have hnew : s'.runs ≠ s.runs := fun hsame => of_decide_eq_true hruns (congrArg List.length hsame)
    exact ⟨past, s, s', hhistory, hpast, hs', (dependency_gating hhistory 0 0).1 _ _ hs' hnew⟩

end System
end LeaseQueue
