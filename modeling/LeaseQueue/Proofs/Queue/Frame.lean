import LeaseQueue.Proofs.Queue.Working
import LeaseQueue.Proofs.Store.Places
/-!
# What other workers leave to a worker

Whatever another worker does, a worker that is at a job stays at what it is about
to do, its driver stays in place, and a store in memory is only changed by
operations on it.
-/

namespace LeaseQueue

namespace System

variable {β : Type}

def HasStarted (s : System β) (p : Nat) : Prop :=
  ∃ pool, s.pools[p]? = some pool ∧ pool.started = true

/-- All that a worker needs of a system stays, but for what the stores keep of their jobs, and it comes
to no job by the change. -/
structure Frames (p i : Nat) (s s' : System β) : Prop where
  started : s.HasStarted p → s'.HasStarted p
  phase : s.HasStarted p → s.claimAt p i ≠ none → s'.phaseAt p i = s.phaseAt p i
  claims : s'.claimAt p i ≠ none → s'.phaseAt p i = s.phaseAt p i
  drivers : ∀ (k : Nat) driver, s.drivers[k]? = some driver → driver.outages = [] →
    s'.drivers[k]? = some driver
  stores : ∀ (k : Nat) (b : Backend β) (d : Discipline) (m : Memory),
    s.backends[k]? = some (b.onMemory d m) → m.Indexed →
    ∃ m', s'.backends[k]? = some (b.onMemory d m') ∧ m'.Indexed ∧ m.Keeps m'

variable {p i p' i' : Nat} {s s' s'' : System β}

theorem Frames.of_eq (hpools : s'.pools = s.pools) (hdrivers : s'.drivers = s.drivers)
    (hbackends : s'.backends = s.backends) : s.Frames p i s' := by
  constructor
  · intro hstarted
    unfold HasStarted
    rw [hpools]
    exact hstarted
  · intro _ _
    unfold phaseAt workerAt
    rw [hpools]
  · intro _
    unfold phaseAt workerAt
    rw [hpools]
  · intro k driver hdriver _
    rw [hdrivers]
    exact hdriver
  · intro k b d m hb hm
    rw [hbackends]
    exact ⟨m, hb, hm, .refl m⟩

theorem Frames.refl (s : System β) : s.Frames p i s := .of_eq rfl rfl rfl

theorem Frames.trans (h : s.Frames p i s') (h' : s'.Frames p i s'') : s.Frames p i s'' := by
  constructor
  · intro hstarted
    exact h'.started (h.started hstarted)
  · intro hstarted hclaim
    have hsame := h.phase hstarted hclaim
    refine (h'.phase (h.started hstarted) ?_).trans hsame
    unfold claimAt
    rw [hsame]
    exact hclaim
  · intro hclaim
    have hsame := h'.claims hclaim
    refine hsame.trans (h.claims ?_)
    unfold claimAt at *
    rw [← hsame]
    exact hclaim
  · intro k driver hdriver houtages
    exact h'.drivers k driver (h.drivers k driver hdriver houtages) houtages
  · intro k b d m hb hm
    rcases h.stores k b d m hb hm with ⟨m₁, hb₁, hm₁, hkeeps⟩
    rcases h'.stores k b d m₁ hb₁ hm₁ with ⟨m', hb', hm', hkeeps'⟩
    exact ⟨m', hb', hm', hkeeps.trans hkeeps'⟩

theorem Frames.of_eases (h : s.Eases s') : s.Frames p i s' := by
  constructor
  · rintro ⟨pool, hpool, hstarted⟩
    have hstaff : s'.wiring.pools[p]? = some pool.staff := by
      rw [h.wiring]
      exact wiring_pools hpool
    rcases List.getElem?_map.symm.trans hstaff |> Option.map_eq_some_iff.mp with
      ⟨pool', hpool', hsame⟩
    exact ⟨pool', hpool', (congrArg Staff.started hsame).trans hstarted⟩
  · intro _ hclaim
    rcases h.phases p i with hsame | ⟨hnone, -⟩
    · exact hsame
    · exact absurd hnone hclaim
  · intro hclaim
    rcases h.phases p i with hsame | ⟨-, hnone⟩
    · exact hsame
    · exact absurd hnone hclaim
  · intro k driver hdriver _
    have hdrivers : s'.drivers = s.drivers := congrArg Wiring.drivers h.wiring
    rw [hdrivers]
    exact hdriver
  · intro k b d m hb hm
    rw [h.backends]
    exact ⟨m, hb, hm, .refl m⟩

/-!
## Changes of one part
-/

theorem frames_modifyQueue (s : System β) (q : Nat) (f : Queue β → Queue β) :
    s.Frames p i (s.modifyQueue q f) := .of_eq rfl rfl rfl

theorem frames_setCall (s : System β) (c : Nat) (call : Call β) :
    s.Frames p i (s.setCall c call) := .of_eq rfl rfl rfl

/-- A change of one pool that does not stop the pool, and leaves what its workers are about to do
unless the pool had not started. -/
theorem frames_modifyPool {f : Pool β → Pool β}
    (hf : ∀ pool, s.pools[p']? = some pool → (pool.started = true → (f pool).started = true) ∧
      (p' = p →
        ((f pool).workers[i]?).map Worker.phase = (pool.workers[i]?).map Worker.phase ∨
        (pool.started = false ∧
          (((f pool).workers[i]?).map Worker.phase).bind Phase.claim? = none))) :
    s.Frames p i (s.modifyPool p' f) := by
  have hother : p' ≠ p → (s.modifyPool p' f).pools[p]? = s.pools[p]? := by
    intro hne
    show (s.pools.modify p' f)[p]? = _
    rw [List.getElem?_modify_ne _ _ hne]
  have hself : (s.modifyPool p f).pools[p]? = (s.pools[p]?).map f := by
    show (s.pools.modify p f)[p]? = _
    rw [List.getElem?_modify_eq]
    rfl
  have hphase : ∀ pool, s.pools[p]? = some pool →
      (s.modifyPool p f).phaseAt p i = ((f pool).workers[i]?).map Worker.phase := by
    intro pool hpool
    unfold phaseAt workerAt
    rw [hself, hpool]
    rfl
  refine ⟨?_, ?_, ?_, fun _ _ hdriver _ => hdriver, fun _ _ _ m hb hm => ⟨m, hb, hm, .refl m⟩⟩
  · rintro ⟨pool, hpool, hstarted⟩
    by_cases hp : p' = p
    · subst hp
      refine ⟨f pool, ?_, (hf pool hpool).1 hstarted⟩
      rw [hself, hpool]
      rfl
    · exact ⟨pool, (hother hp).trans hpool, hstarted⟩
  · rintro ⟨pool, hpool, hstarted⟩ _
    by_cases hp : p' = p
    · subst hp
      rw [hphase pool hpool]
      unfold phaseAt workerAt
      rw [hpool]
      rcases (hf pool hpool).2 rfl with hsame | ⟨hidle, -⟩
      · exact hsame
      · simp [hstarted] at hidle
    · unfold phaseAt workerAt
      rw [hother hp]
  · intro hclaim
    by_cases hp : p' = p
    · subst hp
      cases hpool : s.pools[p']? with
      | none =>
          unfold phaseAt workerAt
          rw [hself, hpool]
          rfl
      | some pool =>
          unfold claimAt at hclaim
          rw [hphase pool hpool] at hclaim ⊢
          unfold phaseAt workerAt
          rw [hpool]
          rcases (hf pool hpool).2 rfl with hsame | ⟨-, hnone⟩
          · exact hsame
          · exact absurd hnone hclaim
    · unfold phaseAt workerAt
      rw [hother hp]

theorem frames_modifyWorker (s : System β) (hne : ¬ (p = p' ∧ i = i')) (f : Worker β → Worker β) :
    s.Frames p i (s.modifyWorker p' i' f) := by
  apply frames_modifyPool
  intro pool _
  refine ⟨id, ?_⟩
  intro hp
  apply Or.inl
  have hi : i' ≠ i := fun hi => hne ⟨hp.symm, hi.symm⟩
  show ((pool.workers.modify i' f)[i]?).map _ = _
  rw [List.getElem?_modify_ne _ _ hi]

theorem frames_setBackend {k : Nat} {b' : Backend β}
    (hb' : ∀ (b : Backend β) (d : Discipline) (m : Memory),
      s.backends[k]? = some (b.onMemory d m) → m.Indexed →
      ∃ m', b' = b.onMemory d m' ∧ m'.Indexed ∧ m.Keeps m') :
    s.Frames p i { s with backends := s.backends.set k b' } := by
  refine ⟨id, fun _ _ => rfl, fun _ => rfl, fun _ _ hdriver _ => hdriver, ?_⟩
  intro k' b d m hb hm
  by_cases hk : k = k'
  · subst hk
    rcases hb' b d m hb hm with ⟨m', rfl, hm', hkeeps⟩
    refine ⟨m', ?_, hm', hkeeps⟩
    exact List.getElem?_set_self (List.getElem?_eq_some_iff.mp hb).1
  · exact ⟨m, (List.getElem?_set_ne hk).trans hb, hm, .refl m⟩

theorem frames_setDriver {k : Nat} {driver driver' : Driver} (hdriver : s.drivers[k]? = some driver)
    (hsame : driver.outages = [] → driver' = driver) :
    s.Frames p i { s with drivers := s.drivers.set k driver' } := by
  refine ⟨id, fun _ _ => rfl, fun _ => rfl, ?_, fun _ _ _ m hb hm => ⟨m, hb, hm, .refl m⟩⟩
  intro k' other hother houtages
  by_cases hk : k = k'
  · subst hk
    rw [hdriver] at hother
    cases hother
    rw [hsame houtages]
    exact List.getElem?_set_self (List.getElem?_eq_some_iff.mp hdriver).1
  · exact (List.getElem?_set_ne hk).trans hother

/-!
## Calls of drivers
-/

theorem frames_viaDriver {α : Type} (s : System β) (k : Nat) (call : DriverCall) (failed : α)
    {f : Backend β → α × Backend β}
    (hf : ∀ (b : Backend β) (d : Discipline) (m : Memory), m.Indexed →
      ∃ m', (f (b.onMemory d m)).2 = b.onMemory d m' ∧ m'.Indexed ∧ m.Keeps m') :
    s.Frames p i (s.viaDriver k call failed f).2 := by
  unfold viaDriver
  cases hdriver : s.drivers[k]? with
  | none => exact .refl s
  | some driver =>
      have hbegun : s.Frames p i
          { s with drivers := s.drivers.set k (driver.begin call).2 } := by
        apply frames_setDriver hdriver
        intro houtages
        rw [Driver.begin_of_outages houtages]
      dsimp only
      split
      · exact hbegun
      · split
        · exact hbegun
        · rename_i b hb
          refine hbegun.trans (frames_setBackend ?_)
          intro b₀ d m hm hindexed
          rw [hb] at hm
          cases hm
          exact hf b₀ d m hindexed

variable [Body β]

theorem frames_access {α : Type} (s : System β) (k : Nat) (call : DriverCall) (failed : α)
    {f : Backend β → α × Backend β} (a : Access β) (hf : ∀ b, (f b).2 = b.after a) :
    s.Frames p i (s.viaDriver k call failed f).2 := by
  apply frames_viaDriver
  intro b d m hm
  rcases b.exists_change d m a with ⟨m', hafter, hchange⟩
  exact ⟨m', (hf _).trans hafter, hm.change hchange, hchange.keeps hm⟩

theorem frames_driverSave (s : System β) (k token : Nat) (j : Job β) :
    s.Frames p i (s.driverSave k token j).2 :=
  frames_access s k .save _ ⟨.save j, s.isCancelled token, s.reading⟩ fun _ => settle_snd _ _

theorem frames_driverLock (s : System β) (k token : Nat) (id owner : String) :
    s.Frames p i (s.driverLock k token id owner).2 :=
  frames_access s k .lock _ ⟨.lock id owner, s.isCancelled token, s.reading⟩
    fun _ => settleLock_snd _ _

theorem frames_driverUnlock (s : System β) (k token : Nat) (id owner : String) :
    s.Frames p i (s.driverUnlock k token id owner).2 :=
  frames_access s k .unlock _ ⟨.unlock id owner, s.isCancelled token, s.reading⟩
    fun _ => settleLock_snd _ _

theorem frames_driverNext (s : System β) (k token : Nat) :
    s.Frames p i (s.driverNext k token).2 :=
  frames_access s k .next _ ⟨.next, s.isCancelled token, s.reading⟩ fun _ => rfl

omit [Body β] in
theorem frames_driverGet (s : System β) (k token : Nat) (id : String) :
    s.Frames p i (s.driverGet k token id).2 :=
  frames_viaDriver s k .get _ fun _ _ m hm => ⟨m, rfl, hm, .refl m⟩

omit [Body β] in
theorem frames_driverOpen (s : System β) (k token : Nat) :
    s.Frames p i (s.driverOpen k token).2 :=
  frames_viaDriver s k .openStore _ fun _ _ m hm => ⟨m, rfl, hm, .refl m⟩

omit [Body β] in
theorem frames_driverClose (s : System β) (k : Nat) : s.Frames p i (s.driverClose k) := by
  unfold driverClose
  split
  · exact .refl s
  · refine ⟨id, fun _ _ => rfl, fun _ => rfl, fun _ _ hdriver _ => hdriver, ?_⟩
    intro k' b d m hb hm
    refine ⟨m, ?_, hm, .refl m⟩
    show (s.backends.modify _ Backend.close)[k']? = _
    rw [List.getElem?_modify, hb]
    split <;> rfl

/-!
## Other workers
-/

section

variable {pool : Pool β} {f : Worker β → Worker β}

omit [Body β] in
theorem Frames.worker (h : s.Frames p i s') (hne : ¬ (p = p' ∧ i = i')) :
    s.Frames p i (s'.modifyWorker p' i' f) :=
  h.trans (frames_modifyWorker s' hne f)

omit [Body β] in
theorem Frames.answer {α : Type} {r : α × System β} {a : α} (h : s.Frames p i r.2)
    (hr : r = (a, s')) : s.Frames p i s' := by
  rw [hr] at h
  exact h

omit [Body β] in
theorem frames_askSource (hne : ¬ (p = p' ∧ i = i')) (h : s.askSource p' i' pool = some s') :
    s.Frames p i s' := by
  unfold askSource at h
  split at h
  · cases h
  · cases h
    exact (Frames.refl s).worker hne
  · cases h
    refine Frames.worker (frames_modifyPool ?_) hne
    intro pool _
    exact ⟨id, fun _ => Or.inl rfl⟩
  · rename_i q hsource
    simp only [Option.bind_eq_bind, Option.bind_eq_some_iff] at h
    rcases h with ⟨queue, -, h⟩
    cases h
    unfold askQueue
    split
    · exact (frames_modifyQueue s q _).worker hne
    · exact (Frames.refl s).worker hne

theorem frames_fetchJob (hne : ¬ (p = p' ∧ i = i')) : s.Frames p i (s.fetchJob p' i' pool) := by
  unfold fetchJob
  split
  · exact (Frames.refl s).worker hne
  · rename_i k hdriver
    have hnext : s.Frames p i (s.driverNext k pool.token).2 := frames_driverNext s k pool.token
    split
    · rename_i hcall
      exact (hnext.answer hcall).worker hne
    · rename_i hcall
      exact (hnext.answer hcall).worker hne

theorem frames_claimCandidate (hne : ¬ (p = p' ∧ i = i')) (candidate : Job β) :
    s.Frames p i (s.claimCandidate p' i' pool candidate) := by
  unfold claimCandidate
  split
  · exact (Frames.refl s).worker hne
  · rename_i k hsource
    have hlock : ∀ id owner, s.Frames p i (s.driverLock k pool.token id owner).2 :=
      fun id owner => frames_driverLock s k pool.token id owner
    split
    · exact (Frames.refl s).worker hne
    · dsimp only
      split
      · rename_i hcall
        exact ((hlock _ _).answer hcall).worker hne
      · rename_i hcall
        exact ((hlock _ _).answer hcall).worker hne
      · rename_i hcall
        exact ((hlock _ _).answer hcall).worker hne

omit [Body β] in
theorem frames_loadJob (hne : ¬ (p = p' ∧ i = i')) (claim : Claim) :
    s.Frames p i (s.loadJob p' i' pool claim) := by
  have hget : s.Frames p i (s.driverGet claim.driver pool.token claim.id).2 :=
    frames_driverGet s claim.driver pool.token claim.id
  unfold loadJob
  split
  · rename_i hcall
    split
    · exact (hget.answer hcall).worker hne
    · exact (hget.answer hcall).worker hne
  · rename_i hcall
    exact (hget.answer hcall).worker hne

theorem frames_checkDependency (hne : ¬ (p = p' ∧ i = i')) (claim : Claim) (j : Job β)
    (left : List String) (known : List (String × Option Bool)) :
    s.Frames p i (s.checkDependency p' i' pool claim j left known) := by
  unfold checkDependency
  cases left with
  | cons e left =>
      have hget : s.Frames p i (s.driverGet claim.driver pool.token e).2 :=
        frames_driverGet s claim.driver pool.token e
      exact hget.worker hne
  | nil =>
      dsimp only
      split
      · unfold beginAttempt
        exact Frames.worker (.of_eq rfl rfl rfl) hne
      · exact (Frames.refl s).worker hne
      · exact (Frames.refl s).worker hne
      · exact (Frames.refl s).worker hne

theorem frames_renewLock (hne : ¬ (p = p' ∧ i = i')) (claim : Claim) (j : Job β) (endsAt : Nat) :
    s.Frames p i (s.renewLock p' i' pool claim j endsAt) := by
  have hlock : s.Frames p i (s.driverLock claim.driver pool.token claim.id claim.owner).2 :=
    frames_driverLock s claim.driver pool.token claim.id claim.owner
  unfold renewLock
  split
  · rename_i hcall
    exact (hlock.answer hcall).worker hne
  · rename_i hcall
    exact (hlock.answer hcall).worker hne
  · rename_i hcall
    exact (hlock.answer hcall).worker hne

theorem frames_storeJob (hne : ¬ (p = p' ∧ i = i')) (claim : Claim) (j : Job β) (counts : Bool) :
    s.Frames p i (s.storeJob p' i' pool claim j counts) := by
  have hsave : s.Frames p i (s.driverSave claim.driver pool.token j).2 :=
    frames_driverSave s claim.driver pool.token j
  unfold storeJob
  split
  · rename_i hcall
    exact (hsave.answer hcall).worker hne
  · rename_i hcall
    exact (hsave.answer hcall).worker hne

theorem frames_releaseJob (hne : ¬ (p = p' ∧ i = i')) (claim : Claim) :
    s.Frames p i (s.releaseJob p' i' pool claim) := by
  have hunlock : s.Frames p i (s.driverUnlock claim.driver pool.token claim.id claim.owner).2 :=
    frames_driverUnlock s claim.driver pool.token claim.id claim.owner
  unfold releaseJob
  split
  · rename_i hcall
    exact (hunlock.answer hcall).worker hne
  · rename_i hcall
    exact (hunlock.answer hcall).worker hne

theorem frames_workerStep (hne : ¬ (p = p' ∧ i = i')) {move : WorkerMove}
    (hstep : s.workerStep p' i' move = some s') : s.Frames p i s' := by
  unfold workerStep at hstep
  simp only [Option.bind_eq_bind, Option.bind_eq_some_iff] at hstep
  rcases hstep with ⟨pool, hpool, w, hworker, hstep⟩
  have hw := workerAt_eq hpool hworker
  -- The cases are the moves in the order of their phases; no other move can be made.
  split at hstep <;> rename_i hphase
  · exact .of_eases (eases_handleMessage hw hphase hstep)
  · exact frames_askSource hne hstep
  · split at hstep
    · cases hstep
      exact (Frames.refl s).worker hne
    · cases hstep
  · cases hstep
    exact frames_fetchJob hne
  · split at hstep
    · cases hstep
      exact (Frames.refl s).worker hne
    · cases hstep
  · exact .of_eases (eases_takeFromBuffer hw (by rw [hphase]; rfl) hstep)
  · split at hstep
    · cases hstep
      exact .of_eases (eases_stopWaiting hw (by rw [hphase]; rfl) pool)
    · cases hstep
  · split at hstep
    · cases hstep
      exact .of_eases (eases_stopWaiting hw (by rw [hphase]; rfl) pool)
    · cases hstep
  · cases hstep
    exact frames_claimCandidate hne _
  · cases hstep
    exact frames_loadJob hne _
  · cases hstep
    exact frames_checkDependency hne _ _ _ _
  · split at hstep
    · cases hstep
      exact (Frames.refl s).worker hne
    · cases hstep
  · split at hstep
    · cases hstep
      exact frames_renewLock hne _ _ _
    · cases hstep
  · split at hstep
    · cases hstep
      exact (Frames.refl s).worker hne
    · cases hstep
  · cases hstep
    exact frames_storeJob hne _ _ _
  · cases hstep
    exact frames_releaseJob hne _
  · cases hstep

end

end System
end LeaseQueue
