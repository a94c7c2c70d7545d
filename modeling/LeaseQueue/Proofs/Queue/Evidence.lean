import LeaseQueue.Proofs.Job.Readiness
import LeaseQueue.Proofs.Queue.History
/-!
# What a worker has seen of other jobs

A worker asks for the jobs that its job waits for one by one, while their owners
go on with them, and looks at the answers later. Whatever it has noted down was so
at some moment since it took the lock, and it begins an attempt only when it has
noted down of every one of them that it is completed.
-/

namespace LeaseQueue

variable {β : Type}

theorem mem_of_lookup_join {known : List (String × Option Bool)} {id : String}
    (h : (known.lookup id).join = some true) : (id, some true) ∈ known := by
  induction known with
  | nil => cases h
  | cons x rest ih =>
      rcases x with ⟨id', answer⟩
      rw [List.lookup_cons] at h
      cases hid : id == id' with
      | false =>
          rw [hid] at h
          exact List.mem_cons_of_mem _ (ih h)
      | true =>
          rw [hid] at h
          have hanswer : answer = some true := h
          rw [eq_of_beq hid, hanswer]
          exact List.mem_cons_self

/-- A worker in the phase has locked a job and has not decided about it. -/
def Phase.isEarly : Phase β → Bool
  | .loading _ | .checking .. => true
  | _ => false

theorem Phase.claim?_of_isEarly {phase : Phase β} (h : phase.isEarly = true) :
    phase.claim? ≠ none := by
  cases phase with
  | loading claim => exact Option.some_ne_none claim
  | checking claim j left known => exact Option.some_ne_none claim
  | _ => cases h

namespace System

/-- A driver finds a stored record of a job, of which the job can be built. -/
def HasJob (s : System β) (k : Nat) (id : String) (r : Record) (j : Job β) : Prop :=
  ∃ b, s.backendOf? k = some b ∧ b.record? false id = some r ∧ b.registry.build? r = some j

def Completed (s : System β) (k : Nat) (id : String) : Prop :=
  ∃ r j, s.HasJob k id r j ∧ r.status.completed = true

def Takes (s : System β) (p i : Nat) (claim : Claim) : Prop :=
  ∃ pool candidate, s.pools[p]? = some pool ∧ s.phaseAt p i = some (.claiming candidate) ∧
    candidate.status.isFinished = false ∧ s.sourceDriver pool.source = some claim.driver ∧
    claim.id = candidate.id ∧ claim.owner = ownerName (s.driverName claim.driver) i ∧
    (s.driverLock claim.driver pool.token claim.id claim.owner).1 = .made ()

variable {s s' : System β} {p i : Nat} {w : Worker β}

theorem hasJob_of_driverGet {k token : Nat} {id : String} {j : Job β}
    (h : (s.driverGet k token id).1 = some j) : ∃ r, s.HasJob k id r j := by
  unfold driverGet viaDriver at h
  split at h
  · cases h
  · rename_i driver hdriver
    dsimp only at h
    split at h
    · cases h
    · split at h
      · cases h
      · rename_i b hb
        have hget : b.get (s.isCancelled token) id = some j := h
        rcases Option.bind_eq_some_iff.mp hget with ⟨r, hr, hj⟩
        refine ⟨r, b, ?_, ?_, hj⟩
        · unfold backendOf?
          rw [hdriver]
          exact hb
        · unfold Backend.record? at *
          split at hr
          · exact hr
          · cases hr
          · split at hr
            · cases hr
            · exact hr

theorem completed_of_driverGet {k token : Nat} {id : String}
    (h : (s.driverGet k token id).1.map (fun j => j.status.completed) = some true) :
    s.Completed k id := by
  rcases Option.map_eq_some_iff.mp h with ⟨j, hj, hcompleted⟩
  rcases hasJob_of_driverGet hj with ⟨r, hjob⟩
  rcases hjob with ⟨b, hb, hr, hbuilt⟩
  have hstatus : j.status = r.status := congrArg Base.status (Registry.build?_base hbuilt)
  exact ⟨r, j, ⟨b, hb, hr, hbuilt⟩, hstatus ▸ hcompleted⟩

/-!
## Moves of the worker
-/

variable [Body β]

inductive Decides (s : System β) (p i : Nat) (w : Worker β) (move : WorkerMove) (s' : System β) :
    Prop where
  /-- The worker comes to no job that is undecided. -/
  | other : (∀ phase, s'.phaseAt p i = some phase → phase.isEarly = false) → s'.runs = s.runs →
      Decides s p i w move s'
  | takes (claim : Claim) : move = .proceed → s.Takes p i claim →
      s'.phaseAt p i = some (.loading claim) → s'.runs = s.runs → Decides s p i w move s'
  | loads (claim : Claim) (token : Nat) (j : Job β) : w.phase = .loading claim →
      (s.driverGet claim.driver token claim.id).1 = some j →
      s'.phaseAt p i = some (.checking claim j j.base.dependency.waitsFor []) →
      s'.runs = s.runs → Decides s p i w move s'
  | looksUp (claim : Claim) (token : Nat) (j : Job β) (id : String) (left : List String)
      (known : List (String × Option Bool)) : w.phase = .checking claim j (id :: left) known →
      s'.phaseAt p i = some (.checking claim j left
        ((id, (s.driverGet claim.driver token id).1.map fun o => o.status.completed) :: known)) →
      s'.runs = s.runs → Decides s p i w move s'
  | begins (claim : Claim) (j : Job β) (known : List (String × Option Bool)) :
      w.phase = .checking claim j [] known →
      j.base.dependency.state s.files (fun e => (known.lookup e).join) = .ready →
      s' = s.beginAttempt p i claim j → Decides s p i w move s'

variable {move : WorkerMove}

omit [Body β] in
theorem runs_of_viaDriver {α : Type} {k : Nat} {call : DriverCall} {failed a : α}
    {f : Backend β → α × Backend β} (h : s.viaDriver k call failed f = (a, s')) :
    s'.runs = s.runs ∧ ∀ p i, s'.workerAt p i = s.workerAt p i := by
  rcases exists_of_viaDriver h with ⟨drivers, backends, rfl⟩
  exact ⟨rfl, fun _ _ => rfl⟩

theorem Decides.turns {s₁ : System β} {f : Worker β → Worker β} (hw : s₁.workerAt p i = some w)
    (hruns : s₁.runs = s.runs) (hf : (f w).phase.isEarly = false) :
    s.Decides p i w move (s₁.modifyWorker p i f) := by
  refine .other ?_ hruns
  intro phase hphase
  rw [phaseAt_modifyWorker_self hw] at hphase
  cases hphase
  exact hf

theorem Decides.answered {α : Type} {k : Nat} {call : DriverCall} {failed a : α}
    {f : Backend β → α × Backend β} {s₁ : System β} {g : Worker β → Worker β}
    (hw : s.workerAt p i = some w) (hcall : s.viaDriver k call failed f = (a, s₁))
    (hg : (g w).phase.isEarly = false) : s.Decides p i w move (s₁.modifyWorker p i g) := by
  rcases runs_of_viaDriver hcall with ⟨hruns, hworkers⟩
  exact .turns ((hworkers p i).trans hw) hruns hg

theorem Decides.of_eases (h : s.Eases s') (hw : s.workerAt p i = some w)
    (hidle : w.phase.claim? = none) : s.Decides p i w move s' := by
  refine .other ?_ h.runs
  intro phase hphase
  cases hearly : phase.isEarly with
  | false => rfl
  | true =>
      have hclaim := Phase.claim?_of_isEarly hearly
      rcases h.phases p i with hsame | ⟨-, hnone⟩
      · rw [hsame, phaseAt_eq hw] at hphase
        cases hphase
        exact absurd hidle hclaim
      · rw [claimAt_eq hphase] at hnone
        exact absurd hnone hclaim

theorem decides_askSource {pool : Pool β} (hw : s.workerAt p i = some w)
    (h : s.askSource p i pool = some s') : s.Decides p i w move s' := by
  unfold askSource at h
  split at h
  · cases h
  · cases h
    exact .turns hw rfl rfl
  · rename_i j left k hsource
    cases h
    have hpool : (s.modifyPool p fun pool => { pool with source := some (.jobs left k) }).workerAt p i =
        some w := by
      rw [workerAt_modifyPool, if_pos rfl]
      exact hw
    exact .turns hpool rfl rfl
  · simp only [Option.bind_eq_bind, Option.bind_eq_some_iff] at h
    rcases h with ⟨queue, -, h⟩
    cases h
    unfold askQueue
    split
    · exact .turns hw rfl rfl
    · exact .turns hw rfl rfl

theorem decides_fetchJob {pool : Pool β} (hw : s.workerAt p i = some w) :
    s.Decides p i w move (s.fetchJob p i pool) := by
  unfold fetchJob restWorker
  split
  · exact .turns hw rfl rfl
  · split
    · rename_i hcall
      exact .answered hw hcall rfl
    · rename_i hcall
      exact .answered hw hcall rfl

theorem decides_claimCandidate {pool : Pool β} {candidate : Job β}
    (hpool : s.pools[p]? = some pool) (hw : s.workerAt p i = some w)
    (hphase : w.phase = .claiming candidate) :
    s.Decides p i w .proceed (s.claimCandidate p i pool candidate) := by
  unfold claimCandidate
  split
  · exact .turns hw rfl rfl
  · rename_i k hsource
    split
    · exact .turns hw rfl rfl
    · rename_i hopen
      dsimp only
      split
      · rename_i hcall
        rcases runs_of_viaDriver hcall with ⟨hruns, hworkers⟩
        refine .takes ⟨candidate.id, k, ownerName (s.driverName k) i⟩ rfl ?_ ?_ hruns
        · refine ⟨pool, candidate, hpool, ?_, by simpa using hopen, hsource, rfl, rfl, ?_⟩
          · rw [phaseAt_eq hw, hphase]
          · exact congrArg Prod.fst hcall
        · exact phaseAt_modifyWorker_self ((hworkers p i).trans hw) _
      · rename_i hcall
        exact .answered hw hcall rfl
      · rename_i hcall
        exact .answered hw hcall rfl

theorem decides_loadJob {pool : Pool β} {claim : Claim} (hw : s.workerAt p i = some w)
    (hphase : w.phase = .loading claim) : s.Decides p i w move (s.loadJob p i pool claim) := by
  unfold loadJob
  split
  · rename_i hcall
    rcases runs_of_viaDriver hcall with ⟨hruns, hworkers⟩
    split
    · exact .answered hw hcall rfl
    · exact .loads claim pool.token _ hphase (congrArg Prod.fst hcall)
        (phaseAt_modifyWorker_self ((hworkers p i).trans hw) _) hruns
  · rename_i hcall
    exact .answered hw hcall rfl

theorem decides_checkDependency {pool : Pool β} {claim : Claim} {j : Job β} {left : List String}
    {known : List (String × Option Bool)} (hw : s.workerAt p i = some w)
    (hphase : w.phase = .checking claim j left known) :
    s.Decides p i w move (s.checkDependency p i pool claim j left known) := by
  unfold checkDependency
  cases left with
  | cons id left =>
      have hcall : s.driverGet claim.driver pool.token id = s.driverGet claim.driver pool.token id := rfl
      rcases runs_of_viaDriver hcall with ⟨hruns, hworkers⟩
      exact .looksUp claim pool.token j id left known hphase
        (phaseAt_modifyWorker_self ((hworkers p i).trans hw) _) hruns
  | nil =>
      dsimp only
      split
      · rename_i hready
        exact .begins claim j known hphase hready rfl
      · exact .turns hw rfl rfl
      · exact .turns hw rfl rfl
      · exact .turns hw rfl rfl

theorem phaseAt_beginAttempt (hw : s.workerAt p i = some w) (claim : Claim) (j : Job β) :
    ∃ endsAt renewAt, (s.beginAttempt p i claim j).phaseAt p i =
      some (.running claim (j.begun s.now) endsAt renewAt) := by
  have hw' : ({ s with runs := s.runs ++ [⟨claim.owner, j.begun s.now, s.clock⟩] } :
      System β).workerAt p i = some w := hw
  exact ⟨_, _, phaseAt_modifyWorker_self hw' _⟩

theorem decides_of_workerStep (hw : s.workerAt p i = some w) (h : s.workerStep p i move = some s') :
    s.Decides p i w move s' := by
  unfold workerStep at h
  simp only [Option.bind_eq_bind, Option.bind_eq_some_iff] at h
  rcases h with ⟨pool, hpool, w', hworker, h⟩
  cases hw.symm.trans (workerAt_eq hpool hworker)
  -- The cases are the moves in the order of their phases; no other move can be made.
  split at h <;> rename_i hphase
  · exact .of_eases (eases_handleMessage hw hphase h) hw (by rw [hphase]; rfl)
  · exact decides_askSource hw h
  · split at h <;> cases h
    exact .turns hw rfl rfl
  · cases h
    exact decides_fetchJob hw
  · split at h <;> cases h
    exact .turns hw rfl rfl
  · have hidle : w.phase.claim? = none := by rw [hphase]; rfl
    exact .of_eases (eases_takeFromBuffer hw hidle h) hw hidle
  · have hidle : w.phase.claim? = none := by rw [hphase]; rfl
    split at h <;> cases h
    exact .of_eases (eases_stopWaiting hw hidle pool) hw hidle
  · have hidle : w.phase.claim? = none := by rw [hphase]; rfl
    split at h <;> cases h
    exact .of_eases (eases_stopWaiting hw hidle pool) hw hidle
  · cases h
    exact decides_claimCandidate hpool hw hphase
  · cases h
    exact decides_loadJob hw hphase
  · cases h
    exact decides_checkDependency hw hphase
  · split at h <;> cases h
    exact .turns hw rfl rfl
  · split at h <;> cases h
    unfold renewLock
    split
    · rename_i hcall
      exact .answered hw hcall rfl
    · rename_i hcall
      exact .answered hw hcall rfl
    · rename_i hcall
      exact .answered hw hcall rfl
  · split at h <;> cases h
    exact .turns hw rfl rfl
  · cases h
    unfold storeJob
    split
    · rename_i hcall
      exact .answered hw hcall rfl
    · rename_i hcall
      exact .answered hw hcall rfl
  · cases h
    unfold releaseJob
    split
    · rename_i hcall
      exact .answered hw hcall rfl
    · rename_i hcall
      exact .answered hw hcall rfl
  · cases h

/-!
## What is noted down
-/

variable {past since : List (System β × Event β)} {claim : Claim} {phase : Phase β}

/-- A worker has held a claim since it took the lock: `since` is what has happened then. -/
def Held (past : List (System β × Event β)) (p i : Nat) (claim : Claim)
    (since : List (System β × Event β)) : Prop :=
  ∃ t before, past = since ++ (t, .move (.worker p i .proceed)) :: before ∧ t.Takes p i claim ∧
    ∀ x ∈ since, x.1.claimAt p i = some claim

/-- What a worker knows of its job and of others was so at some moment since it took the lock. -/
def Backed (past : List (System β × Event β)) (p i : Nat) : Phase β → Prop
  | .loading claim => ∃ since, Held past p i claim since
  | .checking claim j _ known => ∃ since, Held past p i claim since ∧
      (∃ x ∈ since, ∃ r, x.1.HasJob claim.driver claim.id r j) ∧
      ∀ id, (id, some true) ∈ known → ∃ x ∈ since, x.1.Completed claim.driver id
  | _ => True

omit [Body β] in
theorem Held.after (h : Held past p i claim since) (hclaim : s.claimAt p i = some claim)
    (e : Event β) : Held ((s, e) :: past) p i claim ((s, e) :: since) := by
  rcases h with ⟨t, before, rfl, htakes, hsince⟩
  exact ⟨t, before, rfl, htakes, List.forall_mem_cons.mpr ⟨hclaim, hsince⟩⟩

omit [Body β] in
theorem backed_of_isEarly (h : phase.isEarly = false) : Backed past p i phase := by
  cases phase with
  | loading claim => cases h
  | checking claim j left known => cases h
  | _ => trivial

omit [Body β] in
theorem Backed.after (h : Backed past p i phase) (hphase : s.phaseAt p i = some phase)
    (e : Event β) : Backed ((s, e) :: past) p i phase := by
  have hclaim := claimAt_eq hphase
  cases phase with
  | loading claim =>
      rcases h with ⟨since, hheld⟩
      exact ⟨_, hheld.after hclaim e⟩
  | checking claim j left known =>
      rcases h with ⟨since, hheld, ⟨x, hx, hjob⟩, hknown⟩
      refine ⟨_, hheld.after hclaim e, ⟨x, List.mem_cons_of_mem _ hx, hjob⟩, ?_⟩
      intro id hid
      rcases hknown id hid with ⟨y, hy, hcompleted⟩
      exact ⟨y, List.mem_cons_of_mem _ hy, hcompleted⟩
  | _ => trivial

/-- What a worker notes down by its own move is so at that moment. -/
theorem Decides.backed (h : s.Decides p i w move s') (hw : s.workerAt p i = some w)
    (hbacked : Backed past p i w.phase) {phase : Phase β} (hphase : s'.phaseAt p i = some phase) :
    Backed ((s, .move (.worker p i move)) :: past) p i phase := by
  have hclaim := claimAt_eq (phaseAt_eq hw)
  cases h with
  | other hlate _ => exact backed_of_isEarly (hlate phase hphase)
  | takes claim hmove htakes hloading _ =>
      cases hphase.symm.trans hloading
      exact ⟨[], s, past, by rw [hmove]; rfl, htakes, fun x hx => nomatch hx⟩
  | loads claim token j hloading hget hchecking _ =>
      cases hphase.symm.trans hchecking
      rw [hloading] at hbacked hclaim
      rcases hbacked with ⟨since, hheld⟩
      refine ⟨_, hheld.after hclaim _, ⟨_, List.mem_cons_self, hasJob_of_driverGet hget⟩, ?_⟩
      intro id hid
      cases hid
  | looksUp claim token j id left known hchecking hnext _ =>
      cases hphase.symm.trans hnext
      rw [hchecking] at hbacked hclaim
      rcases hbacked with ⟨since, hheld, ⟨x, hx, hjob⟩, hknown⟩
      refine ⟨_, hheld.after hclaim _, ⟨x, List.mem_cons_of_mem _ hx, hjob⟩, ?_⟩
      intro id' hid'
      rcases List.mem_cons.mp hid' with heq | hearlier
      · injection heq with hid hanswer
        subst hid
        exact ⟨_, List.mem_cons_self, completed_of_driverGet hanswer.symm⟩
      · rcases hknown id' hearlier with ⟨y, hy, hcompleted⟩
        exact ⟨y, List.mem_cons_of_mem _ hy, hcompleted⟩
  | begins claim j known hchecking hready hs' =>
      subst hs'
      apply backed_of_isEarly
      rcases phaseAt_beginAttempt hw claim j with ⟨endsAt, renewAt, hrunning⟩
      cases hphase.symm.trans hrunning
      rfl

theorem exists_workerAt_of_workerStep (h : s.workerStep p i move = some s') :
    ∃ w, s.workerAt p i = some w := by
  unfold workerStep at h
  simp only [Option.bind_eq_bind, Option.bind_eq_some_iff] at h
  rcases h with ⟨pool, hpool, w, hworker, -⟩
  exact ⟨w, workerAt_eq hpool hworker⟩

theorem takes_of_workerStep (h : s.workerStep p i move = some s')
    (hloading : s'.phaseAt p i = some (.loading claim)) : s.Takes p i claim := by
  rcases exists_workerAt_of_workerStep h with ⟨w, hw⟩
  cases decides_of_workerStep hw h with
  | other hlate _ => cases hlate _ hloading
  | takes claim' _ htakes hphase _ =>
      cases hloading.symm.trans hphase
      exact htakes
  | loads claim' token j _ _ hphase _ => cases hloading.symm.trans hphase
  | looksUp claim' token j id left known _ hphase _ => cases hloading.symm.trans hphase
  | begins claim' j known _ _ hs' =>
      subst hs'
      rcases phaseAt_beginAttempt hw claim' j with ⟨endsAt, renewAt, hrunning⟩
      cases hloading.symm.trans hrunning

theorem backed_handle {e : Event β} (hhandle : s.handle e = some s')
    (hbacked : ∀ phase, s.phaseAt p i = some phase → Backed past p i phase)
    (hphase : s'.phaseAt p i = some phase) : Backed ((s, e) :: past) p i phase := by
  by_cases hown : ∃ move, e = .move (.worker p i move)
  · rcases hown with ⟨move, rfl⟩
    have hstep : s.workerStep p i move = some s' := hhandle
    rcases exists_workerAt_of_workerStep hstep with ⟨w, hw⟩
    exact (decides_of_workerStep hw hstep).backed hw
      (hbacked w.phase (phaseAt_eq hw)) hphase
  · cases hearly : phase.isEarly with
    | false => exact backed_of_isEarly hearly
    | true =>
        -- Nobody else brings a worker to a job, so it was at this one before.
        have hothers : ∀ move, e ≠ .move (.worker p i move) := fun move he => hown ⟨move, he⟩
        have hframes : s.Frames p i s' := frames_handle hothers hhandle
        have hclaim : s'.claimAt p i ≠ none := by
          rw [claimAt_eq hphase]
          exact Phase.claim?_of_isEarly hearly
        have hsame := (hframes.claims hclaim).symm.trans hphase
        exact (hbacked phase hsame).after hsame e

theorem History.backed {clock : Nat} (h : History clock past s) {p i : Nat}
    (hphase : s.phaseAt p i = some phase) : Backed past p i phase := by
  induction h generalizing phase with
  | empty => cases hphase
  | event _ hhandle ih => exact backed_handle hhandle (fun _ => ih) hphase
  | clock t _ ih => exact ih hphase

/-- A worker begins an attempt at a job that it has read since it took the lock; and of every job
that this one waits for, there was a completed record at some moment since. -/
def Warranted (past : List (System β × Event β)) (s : System β) (p i : Nat) (s' : System β) :
    Prop :=
  ∃ claim since r j, Held past p i claim since ∧ s.claimAt p i = some claim ∧
    (∃ x ∈ since, x.1.HasJob claim.driver claim.id r j) ∧
    s'.runs = s.runs ++ [⟨claim.owner, j.begun s.now, s.clock⟩] ∧
    ∀ ids, r.base.dependency = .edges ids → ∀ id ∈ ids, ∃ x ∈ since, x.1.Completed claim.driver id

theorem History.warranted {clock : Nat} (h : History clock past s)
    (hstep : s.workerStep p i move = some s') (hruns : s'.runs ≠ s.runs) :
    Warranted past s p i s' := by
  rcases exists_workerAt_of_workerStep hstep with ⟨w, hw⟩
  cases decides_of_workerStep hw hstep with
  | other _ hsame => exact absurd hsame hruns
  | takes claim _ _ _ hsame => exact absurd hsame hruns
  | loads claim token j _ _ _ hsame => exact absurd hsame hruns
  | looksUp claim token j id left known _ _ hsame => exact absurd hsame hruns
  | begins claim j known hchecking hready hs' =>
      have hphase : s.phaseAt p i = some (.checking claim j [] known) := by
        rw [phaseAt_eq hw, hchecking]
      rcases h.backed hphase with ⟨since, hheld, ⟨x, hx, r, hjob⟩, hknown⟩
      have hclaim : s.claimAt p i = some claim := claimAt_eq hphase
      refine ⟨claim, since, r, j, hheld, hclaim, ⟨x, hx, hjob⟩, by rw [hs']; rfl, ?_⟩
      intro ids hids id hid
      rcases hjob with ⟨b, -, -, hbuilt⟩
      rw [← Registry.build?_base hbuilt] at hids
      rw [hids, Dependency.state_edges] at hready
      exact hknown id (mem_of_lookup_join (hready id hid))

end System
end LeaseQueue
