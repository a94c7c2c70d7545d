import LeaseQueue.Proofs.Queue.History
import Mathlib.Data.List.Nodup
/-!
# Who gets a job from a queue

Workers and calls may be in the middle of asking a queue for its next job. Some of them stand in line
for it, others have found no dispatch loop and ask the driver. In one event at most one of them all
gets a job: whoever makes the move.
-/

namespace LeaseQueue

variable {β : Type}

/-- A worker in the phase is in the middle of asking its source for a job. -/
def Phase.seeks : Phase β → Bool
  | .asking | .fetching | .waiting _ => true
  | _ => false

/-- A worker in the phase has found no dispatch loop and asks the driver. -/
def Phase.fetches : Phase β → Bool
  | .fetching => true
  | _ => false

/-- The job that a worker has got from its source and has done nothing with. -/
def Phase.candidate? : Phase β → Option (Job β)
  | .claiming j => some j
  | _ => none

theorem Phase.candidate?_of_seeks {phase : Phase β} (h : phase.seeks = true) :
    phase.candidate? = none := by
  cases phase with
  | claiming j => cases h
  | _ => rfl

def Call.seeks (q : Nat) : Call β → Bool
  | .fetch q' _ | .next q' _ _ => q' = q
  | _ => false

def Call.fetches (q : Nat) : Call β → Bool
  | .fetch q' _ => q' = q
  | _ => false

def Call.job? : Call β → Option (Job β)
  | .over (.job j) => j
  | _ => none

theorem Call.job?_of_outcome? {call : Call β} (h : call.outcome? = none) : call.job? = none := by
  unfold Call.job?
  split
  · cases h
  · rfl

namespace System

def seeks (s : System β) (q : Nat) : Waiter → Bool
  | .worker p i =>
      match (s.pools[p]?).bind Pool.source with
      | some (.queue q') => q' = q && (s.phaseAt p i).any Phase.seeks
      | _ => false
  | .call c => (s.calls[c]?).any (Call.seeks q)

/-- Someone has asked for the next job of a queue when it had no dispatch loop, and asks its driver,
whether or not it has a loop by now. -/
def fetches (s : System β) (q : Nat) : Waiter → Bool
  | .worker p i =>
      match (s.pools[p]?).bind Pool.source with
      | some (.queue q') => q' = q && (s.phaseAt p i).any Phase.fetches
      | _ => false
  | .call c => (s.calls[c]?).any (Call.fetches q)

def given? (s : System β) : Waiter → Option (Job β)
  | .worker p i => (s.phaseAt p i).bind Phase.candidate?
  | .call c => (s.calls[c]?).bind Call.job?

def everyone (s : System β) : List Waiter :=
  (s.pools.zipIdx.flatMap fun x => (List.range x.1.workers.length).map (.worker x.2)) ++
    (List.range s.calls.length).map .call

/-- All jobs that a queue gives in an event, to those in the middle of a call for one. -/
def receipts [Body β] (s : System β) (q : Nat) (e : Event β) : List (Waiter × Job β) :=
  match s.handle e with
  | none => []
  | some s' => (s.everyone.filter (s.seeks q)).filterMap fun w => (s'.given? w).map fun j => (w, j)

variable {s s' s'' : System β} {w : Waiter} {mover : Option Waiter} {p i q c : Nat}

/-!
## Callers
-/

theorem seeks_worker (h : s.seeks q (.worker p i) = true) :
    ∃ pool w, s.pools[p]? = some pool ∧ pool.workers[i]? = some w ∧ pool.source = some (.queue q) ∧
      w.phase.seeks = true := by
  unfold seeks at h
  dsimp only at h
  split at h
  · rename_i q' hsource
    rw [Bool.and_eq_true, decide_eq_true_eq] at h
    rcases h with ⟨rfl, hphase⟩
    rcases Option.bind_eq_some_iff.mp hsource with ⟨pool, hpool, hqueue⟩
    cases hw : pool.workers[i]? with
    | none => simp [phaseAt, workerAt, hpool, hw] at hphase
    | some w =>
        rw [phaseAt_eq (workerAt_eq hpool hw)] at hphase
        exact ⟨pool, w, hpool, hw, hqueue, hphase⟩
  · cases h

theorem seeks_call (h : s.seeks q (.call c) = true) :
    ∃ call, s.calls[c]? = some call ∧ ∃ token, call = .fetch q token ∨
      ∃ deadline, call = .next q token deadline := by
  rcases (Option.any_eq_true _ _).mp h with ⟨call, hcall, hseeks⟩
  refine ⟨call, hcall, ?_⟩
  cases call with
  | fetch q' token =>
      cases of_decide_eq_true hseeks
      exact ⟨token, Or.inl rfl⟩
  | next q' token deadline =>
      cases of_decide_eq_true hseeks
      exact ⟨token, Or.inr ⟨deadline, rfl⟩⟩
  | _ => cases hseeks

theorem fetches_worker (h : s.fetches q (.worker p i) = true) :
    ∃ pool w, s.pools[p]? = some pool ∧ pool.workers[i]? = some w ∧ pool.source = some (.queue q) ∧
      w.phase = .fetching := by
  unfold fetches at h
  dsimp only at h
  split at h
  · rename_i q' hsource
    rw [Bool.and_eq_true, decide_eq_true_eq] at h
    rcases h with ⟨rfl, hphase⟩
    rcases Option.bind_eq_some_iff.mp hsource with ⟨pool, hpool, hqueue⟩
    cases hw : pool.workers[i]? with
    | none => simp [phaseAt, workerAt, hpool, hw] at hphase
    | some w =>
        rw [phaseAt_eq (workerAt_eq hpool hw)] at hphase
        refine ⟨pool, w, hpool, hw, hqueue, ?_⟩
        cases hat : w.phase with
        | fetching => rfl
        | _ => simp [hat, Phase.fetches] at hphase
  · cases h

theorem fetches_of_worker {pool : Pool β} {worker : Worker β} (hpool : s.pools[p]? = some pool)
    (hworker : pool.workers[i]? = some worker) (hsource : pool.source = some (.queue q)) :
    s.fetches q (.worker p i) = worker.phase.fetches := by
  unfold fetches
  simp [hpool, hsource, phaseAt_eq (workerAt_eq hpool hworker)]

theorem fetches_call (h : s.fetches q (.call c) = true) :
    ∃ token, s.calls[c]? = some (.fetch q token) := by
  rcases (Option.any_eq_true _ _).mp h with ⟨call, hcall, hfetches⟩
  cases call with
  | fetch q' token =>
      cases of_decide_eq_true hfetches
      exact ⟨token, hcall⟩
  | _ => cases hfetches

theorem given?_of_seeks (h : s.seeks q w = true) : s.given? w = none := by
  cases w with
  | worker p i =>
      rcases seeks_worker h with ⟨pool, w, hpool, hw, -, hphase⟩
      unfold given?
      dsimp only
      rw [phaseAt_eq (workerAt_eq hpool hw)]
      exact Phase.candidate?_of_seeks hphase
  | call c =>
      rcases seeks_call h with ⟨call, hcall, token, hcases⟩
      unfold given?
      dsimp only
      rw [hcall]
      rcases hcases with rfl | ⟨deadline, rfl⟩
      · rfl
      · rfl

theorem phaseAt_of_given? {j : Job β} (h : s.given? (.worker p i) = some j) :
    s.phaseAt p i = some (.claiming j) := by
  rcases Option.bind_eq_some_iff.mp h with ⟨phase, hphase, hcandidate⟩
  cases phase with
  | claiming j' =>
      cases hcandidate
      exact hphase
  | _ => cases hcandidate

theorem mem_everyone_of_seeks (h : s.seeks q w = true) : w ∈ s.everyone := by
  unfold everyone
  cases w with
  | worker p i =>
      rcases seeks_worker h with ⟨pool, w, hpool, hw, -, -⟩
      have hmem : (pool, p) ∈ s.pools.zipIdx := List.mem_zipIdx_iff_getElem?.mpr hpool
      have hlt : i < pool.workers.length := (List.getElem?_eq_some_iff.mp hw).1
      apply List.mem_append_left
      exact List.mem_flatMap.mpr ⟨(pool, p), hmem, List.mem_map_of_mem (List.mem_range.mpr hlt)⟩
  | call c =>
      rcases seeks_call h with ⟨call, hcall, -⟩
      have hlt : c < s.calls.length := (List.getElem?_eq_some_iff.mp hcall).1
      exact List.mem_append_right _ (List.mem_map_of_mem (List.mem_range.mpr hlt))

theorem nodup_everyone (s : System β) : s.everyone.Nodup := by
  refine List.nodup_append.mpr ⟨List.nodup_flatMap.mpr ⟨?_, ?_⟩, ?_, ?_⟩
  · intro x _
    exact List.nodup_range.map fun i i' heq => (Waiter.worker.inj heq).2
  · have hplaces : (s.pools.zipIdx.map Prod.snd).Nodup := by
      rw [List.zipIdx_map_snd]
      exact List.nodup_range'
    refine (List.pairwise_map.mp hplaces).imp ?_
    intro x y hne w hx hy
    rcases List.mem_map.mp hx with ⟨i, -, rfl⟩
    rcases List.mem_map.mp hy with ⟨i', -, heq⟩
    exact hne (Waiter.worker.inj heq).1.symm
  · exact List.nodup_range.map fun c c' heq => Waiter.call.inj heq
  · intro w hworker w' hcall heq
    rcases List.mem_flatMap.mp hworker with ⟨x, -, hmem⟩
    rcases List.mem_map.mp hmem with ⟨i, -, rfl⟩
    rcases List.mem_map.mp hcall with ⟨c, -, rfl⟩
    cases heq

theorem filterMap_of_one {α γ : Type} {f : α → Option γ} {a : α} {l : List α} (hl : l.Nodup)
    (ha : a ∈ l) (hother : ∀ a' ∈ l, a' ≠ a → f a' = none) : l.filterMap f = (f a).toList := by
  induction l with
  | nil => cases ha
  | cons x rest ih =>
      rcases List.nodup_cons.mp hl with ⟨hfresh, hrest⟩
      have hother' : ∀ a' ∈ rest, a' ≠ a → f a' = none :=
        fun a' hmem => hother a' (List.mem_cons_of_mem x hmem)
      rcases List.mem_cons.mp ha with rfl | hmem
      · have hnone : rest.filterMap f = [] := by
          refine List.filterMap_eq_nil_iff.mpr fun a' hmem => hother' a' hmem ?_
          rintro rfl
          exact hfresh hmem
        rw [List.filterMap_cons, hnone]
        cases f a <;> rfl
      · have hx : f x = none := by
          refine hother x List.mem_cons_self ?_
          rintro rfl
          exact hfresh hmem
        rw [List.filterMap_cons, hx]
        exact ih hrest hmem hother'

/-!
## Those who do not move
-/

/-- A change is not made by someone: they get no job by it, and a call neither comes to an end nor
begins a count or goes on with one. -/
structure Spares (w : Waiter) (s s' : System β) : Prop where
  given : s'.given? w = s.given? w ∨ s'.given? w = none
  calls : ∀ c call, w = .call c → ¬ call.IsFresh → s'.calls[c]? = some call →
    s.calls[c]? = some call

theorem Spares.refl (s : System β) : Spares w s s := ⟨Or.inl rfl, fun _ _ _ _ h => h⟩

theorem Spares.trans (h : Spares w s s') (h' : Spares w s' s'') : Spares w s s'' := by
  constructor
  · rcases h'.given with hsame | hnone
    · rw [hsame]
      exact h.given
    · exact Or.inr hnone
  · intro c call hw hfresh hcall
    exact h.calls c call hw hfresh (h'.calls c call hw hfresh hcall)

theorem spares_of_given (hgiven : s'.given? w = s.given? w ∨ s'.given? w = none)
    (hcalls : s'.calls = s.calls) : Spares w s s' :=
  ⟨hgiven, fun _ _ _ _ hcall => hcalls ▸ hcall⟩

theorem spares_of_parts (hpools : s'.pools = s.pools) (hcalls : s'.calls = s.calls) :
    Spares w s s' := by
  refine spares_of_given (Or.inl ?_) hcalls
  unfold given? phaseAt workerAt
  rw [hpools, hcalls]

theorem spares_modifyWorker (s : System β) (p i : Nat) (f : Worker β → Worker β)
    (hw : w ≠ .worker p i) : Spares w s (s.modifyWorker p i f) := by
  refine spares_of_given (Or.inl ?_) rfl
  cases w with
  | call c => rfl
  | worker p' i' =>
      have hne : ¬ (p' = p ∧ i' = i) := by
        rintro ⟨rfl, rfl⟩
        exact hw rfl
      unfold given?
      dsimp only
      rw [phaseAt_modifyWorker_other s hne]

theorem spares_of_phases (hcalls : s'.calls = s.calls)
    (hphases : ∀ p i, s'.phaseAt p i = s.phaseAt p i ∨ s'.phaseAt p i = none ∨
      s'.phaseAt p i = some .resting) : Spares w s s' := by
  refine spares_of_given ?_ hcalls
  unfold given?
  cases w with
  | call c =>
      dsimp only
      rw [hcalls]
      exact Or.inl rfl
  | worker p i =>
      dsimp only
      rcases hphases p i with hsame | hgone | hrests
      · rw [hsame]
        exact Or.inl rfl
      · rw [hgone]
        exact Or.inr rfl
      · rw [hrests]
        exact Or.inr rfl

theorem phaseAt_of_workers {pool : Pool β} (hpool : s.pools[p]? = some pool) (i : Nat) :
    s.phaseAt p i = (pool.workers.map Worker.phase)[i]? := by
  unfold phaseAt workerAt
  rw [hpool, Option.bind_some, List.getElem?_map]

theorem spares_modifyPool (s : System β) (p : Nat) {f : Pool β → Pool β}
    (hf : ∀ pool, (f pool).workers.map Worker.phase = pool.workers.map Worker.phase ∨
      ∀ phase ∈ (f pool).workers.map Worker.phase, phase = .resting) :
    Spares w s (s.modifyPool p f) := by
  refine spares_of_phases rfl fun p' i => ?_
  have hat : (s.modifyPool p f).pools[p']? = (s.pools.modify p f)[p']? := rfl
  rw [List.getElem?_modify] at hat
  cases hpool : s.pools[p']? with
  | none =>
      rw [hpool] at hat
      unfold phaseAt workerAt
      rw [hat]
      exact Or.inr (Or.inl rfl)
  | some pool =>
      rw [hpool, Option.map_eq_map, Option.map_some] at hat
      rw [phaseAt_of_workers hat, phaseAt_of_workers hpool]
      split
      · rcases hf pool with hsame | hrest
        · exact Or.inl (by rw [hsame])
        · cases hi : ((f pool).workers.map Worker.phase)[i]? with
          | none => exact Or.inr (Or.inl rfl)
          | some phase =>
              rw [hrest phase (List.mem_of_getElem? hi)]
              exact Or.inr (Or.inr rfl)
      · exact Or.inl rfl

theorem spares_setCall (s : System β) (c : Nat) (call : Call β)
    (hcall : w ≠ .call c ∨ call.IsFresh) : Spares w s (s.setCall c call) := by
  constructor
  · cases w with
    | worker p i => exact Or.inl rfl
    | call c' =>
        show ((s.calls.set c call)[c']?).bind Call.job? = (s.calls[c']?).bind Call.job? ∨
          ((s.calls.set c call)[c']?).bind Call.job? = none
        by_cases hc : c = c'
        · subst hc
          have hfresh : call.IsFresh := hcall.resolve_left fun hne => hne rfl
          apply Or.inr
          rw [List.getElem?_set, if_pos rfl]
          split
          · exact Call.job?_of_outcome? hfresh.1
          · rfl
        · rw [List.getElem?_set_ne hc]
          exact Or.inl rfl
  · intro c' call' hw hstale hcall'
    change (s.calls.set c call)[c']? = some call' at hcall'
    by_cases hc : c = c'
    · subst hc
      rw [List.getElem?_set, if_pos rfl] at hcall'
      split at hcall'
      · cases hcall'
        exact absurd (hcall.resolve_left fun hne => hne hw) hstale
      · cases hcall'
    · rw [List.getElem?_set_ne hc] at hcall'
      exact hcall'

theorem spares_begin (s : System β) (call : Call β) (hfresh : call.IsFresh) :
    Spares w s { s with calls := s.calls ++ [call] } := by
  constructor
  · cases w with
    | worker p i => exact Or.inl rfl
    | call c =>
        show ((s.calls ++ [call])[c]?).bind Call.job? = (s.calls[c]?).bind Call.job? ∨
          ((s.calls ++ [call])[c]?).bind Call.job? = none
        rw [List.getElem?_append]
        split
        · exact Or.inl rfl
        · cases hat : [call][c - s.calls.length]? with
          | none => exact Or.inr rfl
          | some call' =>
              cases List.mem_singleton.mp (List.mem_of_getElem? hat)
              exact Or.inr (Call.job?_of_outcome? hfresh.1)
  · intro c call' hw hstale hcall'
    change (s.calls ++ [call])[c]? = some call' at hcall'
    rw [List.getElem?_append] at hcall'
    split at hcall'
    · exact hcall'
    · cases List.mem_singleton.mp (List.mem_of_getElem? hcall')
      exact absurd hfresh hstale

theorem Touches.spares (h : Touches mover s s') (hw : mover ≠ some w) : Spares w s s' := by
  induction h with
  | refl s => exact .refl s
  | trans _ _ ih ih' => exact ih.trans ih'
  | outside _ hpools hcalls => exact spares_of_parts hpools hcalls
  | line s q _ => exact spares_of_parts rfl rfl
  | pool s p hf => exact spares_modifyPool s p fun pool => Or.inl (hf pool).2
  | worker s p i f hmover =>
      refine spares_modifyWorker s p i f ?_
      rintro rfl
      exact hw hmover
  | call s c call _ hmover =>
      refine spares_setCall s c call (hmover.imp_left fun hmover => ?_)
      rintro rfl
      exact hw hmover
  | begins s call _ hcall => exact spares_begin s call hcall

theorem spares_of_viaDriver {α : Type} {k : Nat} {call : DriverCall} {failed a : α}
    {f : Backend β → α × Backend β} (h : s.viaDriver k call failed f = (a, s')) : Spares w s s' := by
  have htouches : Touches none s s' := touches_of_viaDriver h
  exact htouches.spares (by simp)

theorem spares_takeFromBuffer {pool : Pool β} (h : s.takeFromBuffer p i pool = some s')
    (hw : w ≠ .worker p i) : Spares w s s' := by
  unfold takeFromBuffer at h
  split at h
  · simp only [Option.bind_eq_bind, Option.bind_eq_some_iff] at h
    rcases h with ⟨queue, -, h⟩
    split at h
    · split at h
      · cases h
      · cases h
        refine Spares.trans ?_ (spares_modifyWorker _ p i _ hw)
        exact spares_of_parts rfl rfl
    · cases h
  · cases h

theorem spares_takeForCall (h : s.takeForCall c q = some s') (hw : w ≠ .call c) :
    Spares w s s' := by
  unfold takeForCall at h
  simp only [Option.bind_eq_bind, Option.bind_eq_some_iff] at h
  rcases h with ⟨queue, -, h⟩
  split at h
  · split at h <;> cases h
    refine Spares.trans ?_ (spares_setCall _ c _ (Or.inl hw))
    exact spares_of_parts rfl rfl
  · cases h

theorem spares_loopStep [Body β] {m : LoopMove} (h : s.loopStep q i m = some s') :
    Spares w s s' := by
  unfold loopStep at h
  simp only [Option.bind_eq_bind, Option.bind_eq_some_iff] at h
  rcases h with ⟨queue, -, l, -, h⟩
  split at h
  · split at h <;> cases h
    exact spares_of_parts rfl rfl
  · split at h
    · split at h <;> cases h
      unfold askForLoop
      split
      · rename_i hcall
        exact (spares_of_viaDriver hcall).trans (spares_of_parts rfl rfl)
      · rename_i hcall
        exact (spares_of_viaDriver hcall).trans (spares_of_parts rfl rfl)
    · split at h <;> cases h
      exact spares_of_parts rfl rfl
    · split at h <;> cases h
      exact spares_of_parts rfl rfl

theorem spares_startPool (s : System β) (p token : Nat) (source : Source β) :
    Spares w s (s.startPool p token source).2 := by
  rcases startPool_cases s p token source with hsame | hstarted
  · rw [hsame]
    exact .refl s
  · rw [hstarted]
    refine spares_modifyPool s p fun pool => Or.inr ?_
    intro phase hphase
    rcases List.mem_map.mp hphase with ⟨w, hw, rfl⟩
    rw [List.eq_of_mem_replicate hw]
    rfl

theorem spares_of_startRunner {r : Runner} {token : Nat} {a : Except RunnerError Unit}
    (h : s.startRunner r token q = (a, s')) : Spares w s s' := by
  cases r with
  | broken =>
      cases h
      exact .refl s
  | pool p =>
      have hpool := spares_startPool (w := w) s p token (.queue q)
      have hcall : s.startPool p token (.queue q) = (a, s') := h
      rw [hcall] at hpool
      exact hpool

theorem spares_start (s : System β) (q token : Nat) : Spares w s (s.start q token).2 := by
  unfold System.start
  split
  · exact .refl s
  · split
    · exact .refl s
    · exact .refl s
    · split
      · exact .refl s
      · split
        · exact .refl s
        · split
          · rename_i hopen
            exact spares_of_viaDriver hopen
          · rename_i s₁ hopen
            have hmarked : Spares w s (s₁.setStarted q true) :=
              (spares_of_viaDriver hopen).trans (spares_of_parts rfl rfl)
            split
            · rename_i hrun
              exact (hmarked.trans (spares_of_startRunner hrun)).trans (spares_of_parts rfl rfl)
            · rename_i hrun
              have hrunning := hmarked.trans (spares_of_startRunner hrun)
              exact hrunning.trans (spares_begin _ _ ⟨rfl, rfl⟩)

theorem spares_addPool (pool : Pool β) (hpool : pool.workers = []) (hcalls : s'.calls = s.calls)
    (hpools : s'.pools = s.pools ++ [pool]) : Spares w s s' := by
  refine spares_of_phases hcalls fun p i => ?_
  unfold phaseAt workerAt
  rw [hpools, List.getElem?_append]
  split
  · exact Or.inl rfl
  · cases hat : [pool][p - s.pools.length]? with
    | none => exact Or.inr (Or.inl rfl)
    | some pool' =>
        cases List.mem_singleton.mp (List.mem_of_getElem? hat)
        rw [Option.bind_some, hpool]
        exact Or.inr (Or.inl rfl)

theorem spares_perform_of_shapes [Body β] {r : Request β} (hr : r.Shapes) :
    Spares w s (s.perform r).2 := by
  cases r with
  | addPool size millis => exact spares_addPool (.idle size millis) rfl rfl rfl
  | addQueue settings =>
      exact spares_addPool (.idle settings.workers settings.effectivePollMillis) rfl rfl rfl
  | setDriver q d =>
      show Spares w s (s.setDriver q d).2
      unfold setDriver
      split
      · split <;> exact spares_of_parts rfl rfl
      · exact .refl s
  | setRunner q r =>
      show Spares w s (s.setRunner q r).2
      unfold setRunner
      split
      · split <;> exact spares_of_parts rfl rfl
      · exact .refl s
  | start q token => exact spares_start s q token
  | dispatch q token =>
      show Spares w s (s.dispatch q token).2
      unfold dispatch
      split
      · exact .refl s
      · split
        · rename_i hopen
          exact spares_of_viaDriver hopen
        · rename_i hopen
          exact (spares_of_viaDriver hopen).trans (spares_of_parts rfl rfl)
  | startPool p token jobs d =>
      have hpool := spares_startPool (w := w) s p token (.jobs jobs d)
      unfold perform
      dsimp only
      split
      · rename_i hcall
        rw [hcall] at hpool
        exact hpool
      · rename_i hcall
        rw [hcall] at hpool
        exact hpool
  | _ => exact hr.elim

/-- In an event, only the mover may get a job, come to an end, or count. -/
theorem spares_handle [Body β] {e : Event β} (h : s.handle e = some s') (hw : e.mover ≠ some w) :
    Spares w s s' := by
  by_cases hstirs : e.Stirs s
  · cases e with
    | tick => cases hstirs
    | files present => cases hstirs
    | request r =>
        cases h
        exact spares_perform_of_shapes hstirs
    | move move =>
        cases move with
        | worker p i m =>
            cases hstirs
            have hstep : s.workerStep p i .take = some s' := h
            unfold workerStep at hstep
            simp only [Option.bind_eq_bind, Option.bind_eq_some_iff] at hstep
            rcases hstep with ⟨pool, -, w', -, hstep⟩
            split at hstep
            any_goals contradiction
            · refine spares_takeFromBuffer hstep ?_
              rintro rfl
              exact hw rfl
        | alarm p i => cases hstirs
        | watch p => cases hstirs
        | loop q i m => exact spares_loopStep h
        | call c m =>
            rcases hstirs with ⟨rfl, call, hcall, hstirring⟩
            have hother : w ≠ .call c := by
              rintro rfl
              exact hw rfl
            have hstep : s.callStep c .proceed = some s' := h
            unfold callStep at hstep
            rw [hcall] at hstep
            cases call with
            | launch q d token =>
                cases hstep
                refine Spares.trans ?_ (spares_setCall _ c _ (Or.inl hother))
                exact spares_of_parts rfl rfl
            | next q token deadline => exact spares_takeForCall (q := q) hstep hother
            | _ => cases hstirring
  · exact (touches_handle hstirs h).spares hw

/-!
## Receipts
-/

variable [Body β] {e : Event β}

theorem receipts_eq (h : s.handle e = some s') (q : Nat) :
    s.receipts q e =
      ((e.mover.filter (s.seeks q)).bind fun w => (s'.given? w).map fun j => (w, j)).toList := by
  have hother : ∀ w ∈ s.everyone.filter (s.seeks q), e.mover ≠ some w → s'.given? w = none := by
    intro w hmem hne
    have hnone := given?_of_seeks (List.mem_filter.mp hmem).2
    rcases (spares_handle h hne).given with hsame | hnone'
    · exact hsame.trans hnone
    · exact hnone'
  unfold receipts
  rw [h]
  dsimp only
  cases hmover : e.mover with
  | none =>
      refine List.filterMap_eq_nil_iff.mpr fun w hmem => ?_
      rw [hother w hmem (by simp [hmover])]
      rfl
  | some w =>
      have hrest : ∀ w' ∈ s.everyone.filter (s.seeks q), w' ≠ w →
          (s'.given? w').map (fun j => (w', j)) = none := by
        intro w' hmem hne
        rw [hother w' hmem (by simpa [hmover] using Ne.symm hne)]
        rfl
      cases hseeks : s.seeks q w with
      | true =>
          have hmem := List.mem_filter.mpr ⟨mem_everyone_of_seeks hseeks, hseeks⟩
          rw [filterMap_of_one (s.nodup_everyone.filter _) hmem hrest, Option.filter_some,
            if_pos hseeks]
          rfl
      | false =>
          have hnone : (s.everyone.filter (s.seeks q)).filterMap
              (fun w => (s'.given? w).map fun j => (w, j)) = [] := by
            refine List.filterMap_eq_nil_iff.mpr fun w' hmem => hrest w' hmem ?_
            rintro rfl
            exact absurd (List.mem_filter.mp hmem).2 (by simp [hseeks])
          rw [hnone, Option.filter_some, if_neg (by simp [hseeks])]
          rfl

theorem receipts_of_still (h : s.handle e = some s')
    (hmover : ∀ w, e.mover = some w → s.seeks q w = true → s'.given? w = none) :
    s.receipts q e = [] := by
  rw [receipts_eq h q]
  cases hw : e.mover with
  | none => rfl
  | some w =>
      cases hseeks : s.seeks q w with
      | true => simp [hseeks, hmover w hw hseeks]
      | false => simp [hseeks]

theorem of_mem_receipts (h : s.handle e = some s') {x : Waiter × Job β}
    (hx : x ∈ s.receipts q e) :
    e.mover = some x.1 ∧ s.seeks q x.1 = true ∧ s'.given? x.1 = some x.2 := by
  rw [receipts_eq h q, Option.mem_toList] at hx
  rcases Option.bind_eq_some_iff.mp hx with ⟨w, hw, hgiven⟩
  rcases Option.filter_eq_some_iff.mp hw with ⟨hmover, hseeks⟩
  rcases Option.map_eq_some_iff.mp hgiven with ⟨j, hj, rfl⟩
  exact ⟨hmover, hseeks, hj⟩

theorem receipts_of_mover {j : Job β} (h : s.handle e = some s') (hmover : e.mover = some w)
    (hseeks : s.seeks q w = true) (hgiven : s'.given? w = some j) :
    s.receipts q e = [(w, j)] := by
  rw [receipts_eq h q, hmover, Option.filter_some, if_pos hseeks]
  simp [hgiven]

end System
end LeaseQueue
