import LeaseQueue.Proofs.Queue.Lifecycle
import LeaseQueue.Proofs.Queue.Receipts
/-!
# What passes through a queue

A dispatch loop takes jobs from its driver and puts them into the buffer of the queue, those who stand
in line take them out again. All that one event can do to what a queue has in hand is a trade. Those who
have found no loop pass by the queue: what they get it never had in hand.
-/

namespace LeaseQueue

variable {β : Type}

def LoopPhase.offered : LoopPhase β → List (Job β)
  | .offering j => [j]
  | _ => []

/-- The jobs that were taken from drivers and have not been given to anyone. -/
def Queue.inHand (queue : Queue β) : List (Job β) :=
  queue.buffer ++ queue.loops.flatMap fun l => l.phase.offered

/-- What a queue has in hand: all but what it is set up with and who stands in line. -/
def Queue.hold (queue : Queue β) : Queue β :=
  { queue with driver := none, runner := none, started := false, waiters := [] }

theorem Queue.parts_of_hold {queue queue' : Queue β} (h : queue'.hold = queue.hold) :
    queue'.settings = queue.settings ∧ queue'.dispatching = queue.dispatching ∧
      queue'.loops = queue.loops ∧ queue'.buffer = queue.buffer := by
  unfold hold at h
  injection h with hsettings _ _ _ hdispatching hloops hbuffer
  exact ⟨hsettings, hdispatching, hloops, hbuffer⟩

/-- A job that a driver gave to a dispatch loop. -/
structure Taking (β : Type) where
  driver : Nat
  job : Job β
  moment : Timestamp

/-- The job as the driver gave it, except that the moment is set as the times of its creation and of
its start where these were unset. -/
def Taking.stamped (t : Taking β) : Job β :=
  let times := t.job.base.times
  { t.job with
    base := { t.job.base with
      times := { times with
        created := times.created.or (some t.moment)
        start := times.start.or (some t.moment) } } }

namespace System

/-- The job that a dispatch loop of a queue gets from its driver in an event. -/
def taking? (s : System β) (q : Nat) : Event β → Option (Taking β)
  | .move (.loop q' i .proceed) =>
      if q' = q then
        ((s.queues[q]?).bind fun queue => queue.loops[i]?).bind fun l =>
          match l.phase with
          | .asking => (s.driverNext l.driver l.token).1.map fun j => ⟨l.driver, j, s.now⟩
          | _ => none
      else none
  | _ => none

variable [Body β]

/-- What an event may do to what a queue has in hand. -/
inductive Trade (s : System β) (q : Nat) (e : Event β) (queue queue' : Queue β) : Prop where
  /-- Only who has found no loop may get a job, which the queue never had in hand. -/
  | keeps : (∀ x ∈ s.receipts q e, s.fetches q x.1 = true) → s.taking? q e = none →
      queue'.hold = queue.hold → Trade s q e queue queue'
  | gives (w : Waiter) (j : Job β) (buffer : List (Job β)) : queue.buffer = j :: buffer →
      s.fetches q w = false → s.receipts q e = [(w, j)] → s.taking? q e = none →
      queue'.hold = Queue.hold { queue with buffer := buffer } → Trade s q e queue queue'
  | launches (d token : Nat) : queue.driver = some d → s.receipts q e = [] → s.taking? q e = none →
      queue'.hold = (queue.launchLoop d token).hold → Trade s q e queue queue'
  | ends (i : Nat) (l : Loop β) : queue.loops[i]? = some l → s.isCancelled l.token = true →
      s.receipts q e = [] → s.taking? q e = none → queue'.hold = (queue.endLoop i).hold →
      Trade s q e queue queue'
  | turns (i : Nat) (l : Loop β) (phase : LoopPhase β) (buffer : List (Job β)) :
      queue.loops[i]? = some l → s.receipts q e = [] →
      (∀ t, s.taking? q e = some t → t.driver = l.driver) →
      buffer ++ phase.offered =
        queue.buffer ++ l.phase.offered ++ ((s.taking? q e).map Taking.stamped).toList →
      buffer.length ≤ max queue.buffer.length queue.settings.effectiveBuffer →
      queue'.hold = (Queue.setLoop { queue with buffer := buffer } i phase).hold →
      Trade s q e queue queue'

variable {s s' : System β} {e : Event β} {p i q c : Nat} {queue : Queue β}

/-!
## Events that leave the inventory
-/

omit [Body β] in
theorem exists_of_inventory (h : s'.inventory = s.inventory) (hqueue : s.queues[q]? = some queue) :
    ∃ queue', s'.queues[q]? = some queue' ∧ queue'.hold = queue.hold := by
  have hqueues : s'.queues.map Queue.unattended = s.queues.map Queue.unattended :=
    (Prod.ext_iff.mp h).1
  have hat := congrArg (fun l : List (Queue β) => l[q]?) hqueues
  simp only [List.getElem?_map, hqueue] at hat
  rcases Option.map_eq_some_iff.mp hat with ⟨queue', hqueue', hsame⟩
  have hheld : queue'.unattended.hold = queue.unattended.hold := congrArg Queue.hold hsame
  exact ⟨queue', hqueue', hheld⟩

theorem given?_of_workerStep {m : WorkerMove} (hm : m ≠ .take)
    (hseeks : s.seeks q (.worker p i) = true) (h : s.workerStep p i m = some s') :
    s'.given? (.worker p i) = none ∨ s.fetches q (.worker p i) = true := by
  rcases seeks_worker hseeks with ⟨pool, w, hpool, hw, hsource, hphase⟩
  have hworker := workerAt_eq hpool hw
  unfold workerStep at h
  simp only [Option.bind_eq_bind, hpool, hw, Option.bind_some] at h
  have hrests : (s.restWorker p i pool).given? (.worker p i) = none := by
    unfold given? restWorker
    dsimp only
    rw [phaseAt_modifyWorker_self hworker]
    rfl
  have hstops : (s.stopWaiting p i pool).given? (.worker p i) = none := by
    unfold given? stopWaiting restWorker
    rw [hsource]
    dsimp only
    rw [phaseAt_modifyWorker_self (s := s.modifyQueue q _) hworker]
    rfl
  split at h <;> rename_i hat
  any_goals
    rw [hat] at hphase
    cases hphase
  · -- Whether it goes to the line or to the driver, it has no job yet.
    unfold askSource at h
    rw [hsource] at h
    simp only [Option.bind_eq_bind, Option.bind_eq_some_iff] at h
    rcases h with ⟨queue, -, h⟩
    cases h
    apply Or.inl
    unfold askQueue given?
    dsimp only
    split
    · rw [phaseAt_modifyWorker_self (s := s.modifyQueue q _) hworker]
      rfl
    · rw [phaseAt_modifyWorker_self hworker]
      rfl
  · split at h <;> cases h
    exact Or.inl hrests
  · apply Or.inr
    rw [fetches_of_worker hpool hw hsource, hat]
    rfl
  · split at h <;> cases h
    exact Or.inl hrests
  · exact absurd rfl hm
  · split at h <;> cases h
    exact Or.inl hstops
  · split at h <;> cases h
    exact Or.inl hstops
  · cases h

omit [Body β] in
theorem given?_of_callStep {m : CallMove} (hm : m ≠ .proceed)
    (hseeks : s.seeks q (.call c) = true) (h : s.callStep c m = some s') :
    s'.given? (.call c) = none := by
  rcases seeks_call hseeks with ⟨call, hcall, token, hcases⟩
  unfold callStep at h
  simp only [Option.bind_eq_bind, hcall, Option.bind_some] at h
  have hleaves : (s.leaveForCall c q).given? (.call c) = none := by
    show (((s.calls).set c (.over (.job none)))[c]?).bind Call.job? = none
    rw [List.getElem?_set, if_pos rfl]
    split <;> rfl
  cases m with
  | proceed => exact absurd rfl hm
  | timeOut =>
      rcases hcases with rfl | ⟨deadline, rfl⟩
      · cases h
      · unfold timeOutCall at h
        dsimp only at h
        split at h <;> cases h
        exact hleaves
  | giveUp =>
      rcases hcases with rfl | ⟨deadline, rfl⟩
      · cases h
      · unfold giveUpCall at h
        dsimp only at h
        split at h <;> cases h
        exact hleaves

/-- No event gives a job from a queue but those that stir, except to who has found no loop. -/
theorem receipts_of_calm (hstirs : ¬ e.Stirs s) (h : s.handle e = some s') :
    ∀ x ∈ s.receipts q e, s.fetches q x.1 = true := by
  intro x hx
  rcases of_mem_receipts h hx with ⟨hmover, hseeks, hgiven⟩
  cases e with
  | tick => cases hmover
  | files present => cases hmover
  | request r => cases hmover
  | move move =>
      cases move with
      | worker p i m =>
          rcases x with ⟨w, j⟩
          cases hmover
          rcases given?_of_workerStep hstirs hseeks h with hnone | hfetches
          · rw [hnone] at hgiven
            cases hgiven
          · exact hfetches
      | call c m =>
          rcases x with ⟨w, j⟩
          cases hmover
          rcases seeks_call hseeks with ⟨call, hcall, token, rfl | ⟨deadline, rfl⟩⟩
          · unfold fetches
            simp [hcall, Call.fetches]
          · have hm : m ≠ .proceed := by
              rintro rfl
              exact hstirs ⟨rfl, _, hcall, trivial⟩
            rw [given?_of_callStep hm hseeks h] at hgiven
            cases hgiven
      | alarm p i => cases hmover
      | watch p => cases hmover
      | loop q i m => cases hmover

omit [Body β] in
theorem taking?_of_calm (hstirs : ¬ e.Stirs s) : s.taking? q e = none := by
  cases e with
  | tick => rfl
  | files present => rfl
  | request r => rfl
  | move move =>
      cases move with
      | loop q' i m => exact absurd trivial hstirs
      | _ => rfl

theorem trade_of_calm (hstirs : ¬ e.Stirs s) (hqueue : s.queues[q]? = some queue)
    (h : s.handle e = some s') :
    ∃ queue', s'.queues[q]? = some queue' ∧ Trade s q e queue queue' := by
  rcases exists_of_inventory (touches_handle hstirs h).inventory hqueue with ⟨queue', hqueue', hhold⟩
  exact ⟨queue', hqueue', .keeps (receipts_of_calm hstirs h) (taking?_of_calm hstirs) hhold⟩

/-!
## Jobs that are given
-/

omit [Body β] in
theorem queues_modify {q' : Nat} {f : Queue β → Queue β} (hqueue : s.queues[q]? = some queue)
    (hqueues : s'.queues = s.queues.modify q' f) :
    s'.queues[q]? = some (if q' = q then f queue else queue) := by
  rw [hqueues, List.getElem?_modify, hqueue]
  rfl

omit [Body β] in
theorem getElem?_modifyQueue (hqueue : s.queues[q]? = some queue) (q' : Nat)
    (f : Queue β → Queue β) :
    (s.modifyQueue q' f).queues[q]? = some (if q' = q then f queue else queue) :=
  queues_modify hqueue rfl

theorem keeps_of_none (h : s.receipts q e = []) :
    ∀ x ∈ s.receipts q e, s.fetches q x.1 = true := by
  rw [h]
  exact fun x hx => absurd hx List.not_mem_nil

theorem trade_take (hqueue : s.queues[q]? = some queue) (h : s.workerStep p i .take = some s') :
    ∃ queue', s'.queues[q]? = some queue' ∧
      Trade s q (.move (.worker p i .take)) queue queue' := by
  have hhandle : s.handle (.move (.worker p i .take)) = some s' := h
  unfold workerStep at h
  simp only [Option.bind_eq_bind, Option.bind_eq_some_iff] at h
  rcases h with ⟨pool, hpool, w, hw, h⟩
  split at h <;> rename_i hat
  any_goals contradiction
  · rename_i deadline _
    unfold takeFromBuffer at h
    split at h
    · rename_i q' hsource
      simp only [Option.bind_eq_bind, Option.bind_eq_some_iff] at h
      rcases h with ⟨queue₁, hqueue₁, h⟩
      split at h
      · split at h
        · cases h
        · rename_i j buffer hbuffer
          cases h
          have hqueues := getElem?_modifyQueue hqueue q' fun queue =>
            { queue.leaveLine (.worker p i) with buffer := buffer }
          refine ⟨_, hqueues, ?_⟩
          by_cases hq : q' = q
          · subst hq
            cases hqueue.symm.trans hqueue₁
            have hphase : s.phaseAt p i = some (.waiting deadline) := by
              rw [phaseAt_eq (workerAt_eq hpool hw), hat]
            have hseeks : s.seeks q' (.worker p i) = true := by
              unfold seeks
              simp [hpool, hsource, hphase, Phase.seeks]
            have hfetches : s.fetches q' (.worker p i) = false := by
              rw [fetches_of_worker hpool hw hsource, hat]
              rfl
            rw [if_pos rfl]
            refine .gives (.worker p i) j buffer hbuffer hfetches ?_ rfl rfl
            refine receipts_of_mover hhandle rfl hseeks ?_
            unfold given?
            dsimp only
            rw [phaseAt_modifyWorker_self (s := s.modifyQueue q' _) (workerAt_eq hpool hw)]
            rfl
          · rw [if_neg hq]
            -- The worker was asking the other queue, so this one gives it nothing.
            refine .keeps (keeps_of_none (receipts_of_still hhandle ?_)) rfl rfl
            intro w' hmover hseeks
            cases hmover
            rcases seeks_worker hseeks with ⟨pool', -, hpool', -, hsource', -⟩
            cases hpool.symm.trans hpool'
            rw [hsource] at hsource'
            cases hsource'
            exact absurd rfl hq
      · cases h
    · cases h

theorem trade_takeForCall {q' token deadline : Nat} (hqueue : s.queues[q]? = some queue)
    (hcall : s.calls[c]? = some (.next q' token deadline)) (h : s.callStep c .proceed = some s') :
    ∃ queue', s'.queues[q]? = some queue' ∧
      Trade s q (.move (.call c .proceed)) queue queue' := by
  have hhandle : s.handle (.move (.call c .proceed)) = some s' := h
  unfold callStep at h
  rw [hcall] at h
  have hstep : s.takeForCall c q' = some s' := h
  unfold takeForCall at hstep
  simp only [Option.bind_eq_bind, Option.bind_eq_some_iff] at hstep
  rcases hstep with ⟨queue₁, hqueue₁, hstep⟩
  split at hstep
  · split at hstep
    · cases hstep
    · rename_i j buffer hbuffer
      cases hstep
      have hqueues := getElem?_modifyQueue hqueue q' fun queue =>
        { queue.leaveLine (.call c) with buffer := buffer }
      refine ⟨_, hqueues, ?_⟩
      by_cases hq : q' = q
      · subst hq
        cases hqueue.symm.trans hqueue₁
        have hseeks : s.seeks q' (.call c) = true := by
          unfold seeks
          simp [hcall, Call.seeks]
        have hfetches : s.fetches q' (.call c) = false := by
          unfold fetches
          simp [hcall, Call.fetches]
        rw [if_pos rfl]
        refine .gives (.call c) j buffer hbuffer hfetches ?_ rfl rfl
        refine receipts_of_mover hhandle rfl hseeks ?_
        show ((s.calls.set c (.over (.job (some j))))[c]?).bind Call.job? = some j
        rw [List.getElem?_set_self (List.getElem?_eq_some_iff.mp hcall).1]
        rfl
      · rw [if_neg hq]
        refine .keeps (keeps_of_none (receipts_of_still hhandle ?_)) rfl rfl
        intro w' hmover hseeks
        cases hmover
        rcases seeks_call hseeks with ⟨call, hcall', token', rfl | ⟨deadline', rfl⟩⟩
        · simp [hcall] at hcall'
        · rw [hcall] at hcall'
          cases hcall'
          exact absurd rfl hq
  · cases hstep

/-!
## Turns of loops
-/

theorem receipts_of_loop {m : LoopMove} (h : s.loopStep q i m = some s') (q' : Nat) :
    s.receipts q' (.move (.loop q i m)) = [] := by
  have hhandle : s.handle (.move (.loop q i m)) = some s' := h
  refine receipts_of_still hhandle ?_
  intro w hmover
  cases hmover

omit [Body β] in
theorem taking?_of_loop {l : Loop β} (hqueue : s.queues[q]? = some queue)
    (hl : queue.loops[i]? = some l) :
    s.taking? q (.move (.loop q i .proceed)) = match l.phase with
      | .asking => (s.driverNext l.driver l.token).1.map fun j => ⟨l.driver, j, s.now⟩
      | _ => none := by
  unfold taking?
  dsimp only
  rw [if_pos rfl, hqueue, Option.bind_some, hl]
  rfl

omit [Body β] in
theorem askForLoop_queues (s : System β) (q i : Nat) (queue : Queue β) (l : Loop β) :
    ∃ deadline, (s.askForLoop q i queue l).queues = s.queues.modify q fun queue =>
      queue.setLoop i <| match (s.driverNext l.driver l.token).1 with
        | some j => .offering (j.markDispatched s.now)
        | none => .resting deadline := by
  unfold askForLoop
  split
  · rename_i hcall
    rcases exists_of_viaDriver hcall with ⟨drivers, backends, rfl⟩
    refine ⟨0, ?_⟩
    rw [hcall]
    rfl
  · rename_i hcall
    rcases exists_of_viaDriver hcall with ⟨drivers, backends, rfl⟩
    refine ⟨s.clock + queue.pollNanos, ?_⟩
    rw [hcall]
    rfl

theorem trade_proceed {l : Loop β} (hqueue : s.queues[q]? = some queue)
    (hl : queue.loops[i]? = some l) (h : s.loopStep q i .proceed = some s') :
    ∃ queue', s'.queues[q]? = some queue' ∧
      Trade s q (.move (.loop q i .proceed)) queue queue' := by
  have hnone := receipts_of_loop h q
  have htaking := taking?_of_loop hqueue hl
  unfold loopStep at h
  simp only [Option.bind_eq_bind, hqueue, hl, Option.bind_some] at h
  cases hphase : l.phase with
  | asking =>
      rw [hphase] at h htaking
      dsimp only at h htaking
      split at h <;> cases h
      rcases s.askForLoop_queues q i queue l with ⟨deadline, hqueues⟩
      have hat := queues_modify hqueue hqueues
      rw [if_pos rfl] at hat
      refine ⟨_, hat, .turns i l _ queue.buffer hl hnone ?_ ?_ (Nat.le_max_left _ _) rfl⟩
      · intro t ht
        rw [htaking] at ht
        rcases Option.map_eq_some_iff.mp ht with ⟨j, -, rfl⟩
        rfl
      · rw [htaking, hphase]
        cases (s.driverNext l.driver l.token).1 with
        | none => simp [LoopPhase.offered]
        | some j =>
            simp only [LoopPhase.offered, List.append_nil]
            rfl
  | offering j =>
      rw [hphase] at h htaking
      dsimp only at h htaking
      split at h <;> cases h
      rename_i hroom
      have hat : (s.offerJob q i j).queues[q]? = _ := queues_modify hqueue rfl
      rw [if_pos rfl] at hat
      refine ⟨_, hat, .turns i l .asking (queue.buffer ++ [j]) hl hnone ?_ ?_ ?_ rfl⟩
      · intro t ht
        rw [htaking] at ht
        cases ht
      · rw [htaking, hphase]
        simp [LoopPhase.offered]
      · have hlt : queue.buffer.length < queue.settings.effectiveBuffer := of_decide_eq_true hroom
        rw [List.length_append, List.length_singleton]
        omega
  | resting deadline =>
      rw [hphase] at h htaking
      dsimp only at h htaking
      split at h <;> cases h
      have hat := getElem?_modifyQueue hqueue q fun queue => queue.setLoop i .asking
      rw [if_pos rfl] at hat
      refine ⟨_, hat, .turns i l .asking queue.buffer hl hnone ?_ ?_ (Nat.le_max_left _ _) rfl⟩
      · intro t ht
        rw [htaking] at ht
        cases ht
      · rw [htaking, hphase]
        simp [LoopPhase.offered]

omit [Body β] in
theorem loopStep_queues {m : LoopMove} (h : s.loopStep q i m = some s') :
    ∃ f, s'.queues = s.queues.modify q f := by
  unfold loopStep at h
  simp only [Option.bind_eq_bind, Option.bind_eq_some_iff] at h
  rcases h with ⟨queue, -, l, -, h⟩
  split at h
  · split at h <;> cases h
    exact ⟨_, rfl⟩
  · split at h
    · split at h <;> cases h
      rcases s.askForLoop_queues q i queue l with ⟨deadline, hqueues⟩
      exact ⟨_, hqueues⟩
    · split at h <;> cases h
      exact ⟨_, rfl⟩
    · split at h <;> cases h
      exact ⟨_, rfl⟩

theorem trade_loopStep {q' : Nat} {m : LoopMove} (hqueue : s.queues[q]? = some queue)
    (h : s.loopStep q' i m = some s') :
    ∃ queue', s'.queues[q]? = some queue' ∧ Trade s q (.move (.loop q' i m)) queue queue' := by
  by_cases hq : q' = q
  · subst hq
    cases m with
    | proceed =>
        have hstep := h
        unfold loopStep at hstep
        simp only [Option.bind_eq_bind, hqueue, Option.bind_some, Option.bind_eq_some_iff] at hstep
        rcases hstep with ⟨l, hl, -⟩
        exact trade_proceed hqueue hl h
    | giveUp =>
        have hnone := receipts_of_loop h q'
        unfold loopStep at h
        simp only [Option.bind_eq_bind, hqueue, Option.bind_some, Option.bind_eq_some_iff] at h
        rcases h with ⟨l, hl, h⟩
        split at h <;> cases h
        rename_i hcancelled
        have hat := getElem?_modifyQueue hqueue q' fun queue => queue.endLoop i
        rw [if_pos rfl] at hat
        exact ⟨_, hat, .ends i l hl hcancelled hnone rfl rfl⟩
  · rcases loopStep_queues h with ⟨f, hqueues⟩
    have hat := queues_modify hqueue hqueues
    rw [if_neg hq] at hat
    refine ⟨queue, hat, .keeps (keeps_of_none (receipts_of_loop h q)) ?_ rfl⟩
    cases m with
    | proceed => exact if_neg hq
    | giveUp => rfl

/-!
## Requests that set up or start something
-/

theorem receipts_of_request (s : System β) (r : Request β) (q : Nat) :
    s.receipts q (.request r) = [] := by
  have hhandle : s.handle (.request r) = some (s.perform r).2 := rfl
  refine receipts_of_still hhandle ?_
  intro w hmover
  cases hmover

theorem trade_of_queues {r : Request β} (hqueue : s.queues[q]? = some queue)
    (hqueues : s'.queues = s.queues) :
    ∃ queue', s'.queues[q]? = some queue' ∧ Trade s q (.request r) queue queue' :=
  ⟨queue, by rw [hqueues, hqueue], .keeps (keeps_of_none (s.receipts_of_request r q)) rfl rfl⟩

theorem trade_of_modify {r : Request β} (hqueue : s.queues[q]? = some queue)
    {q' : Nat} {f : Queue β → Queue β} (hqueues : s'.queues = s.queues.modify q' f)
    (hf : q' = q → (f queue).hold = queue.hold ∨ ∃ d token, queue.driver = some d ∧
      (f queue).hold = (queue.launchLoop d token).hold) :
    ∃ queue', s'.queues[q]? = some queue' ∧ Trade s q (.request r) queue queue' := by
  refine ⟨_, queues_modify hqueue hqueues, ?_⟩
  split
  · rename_i hq
    rcases hf hq with hkeeps | ⟨d, token, hdriver, hlaunches⟩
    · exact .keeps (keeps_of_none (s.receipts_of_request r q)) rfl hkeeps
    · exact .launches d token hdriver (s.receipts_of_request r q) rfl hlaunches
  · exact .keeps (keeps_of_none (s.receipts_of_request r q)) rfl rfl

theorem trade_start (hqueue : s.queues[q]? = some queue) (q' token : Nat) :
    ∃ queue', (s.start q' token).2.queues[q]? = some queue' ∧
      Trade s q (.request (.start q' token)) queue queue' := by
  cases hqueue' : s.queues[q']? with
  | none =>
      refine trade_of_queues hqueue ?_
      unfold System.start
      rw [hqueue']
      rfl
  | some queue' =>
      cases starting hqueue' token with
      | fails err s' hstart hqueues _ _ _ =>
          rw [hstart]
          exact trade_of_queues hqueue hqueues
      | idles _ hstart =>
          rw [hstart]
          exact trade_of_queues hqueue rfl
      | succeeds d r s₁ s₂ _ _ _ hopen hrun hstart =>
          rw [hstart]
          exact trade_of_modify hqueue (parts_of_started hopen hrun).1 fun _ => Or.inl rfl

theorem trade_perform {r : Request β} (hr : r.Shapes) (hqueue : s.queues[q]? = some queue) :
    ∃ queue', (s.perform r).2.queues[q]? = some queue' ∧ Trade s q (.request r) queue queue' := by
  cases r with
  | addPool size millis => exact trade_of_queues hqueue rfl
  | addQueue settings =>
      refine ⟨queue, ?_, .keeps (keeps_of_none (s.receipts_of_request _ q)) rfl rfl⟩
      show (s.queues ++ [_])[q]? = some queue
      rw [List.getElem?_append_left (List.getElem?_eq_some_iff.mp hqueue).1]
      exact hqueue
  | setDriver q' d =>
      show ∃ queue', (s.setDriver q' d).2.queues[q]? = some queue' ∧ _
      unfold setDriver
      split
      · split
        · exact trade_of_queues hqueue rfl
        · exact trade_of_modify hqueue rfl fun _ => Or.inl rfl
      · exact trade_of_queues hqueue rfl
  | setRunner q' r =>
      show ∃ queue', (s.setRunner q' r).2.queues[q]? = some queue' ∧ _
      unfold setRunner
      split
      · split
        · exact trade_of_queues hqueue rfl
        · exact trade_of_modify hqueue rfl fun _ => Or.inl rfl
      · exact trade_of_queues hqueue rfl
  | start q' token => exact trade_start hqueue q' token
  | dispatch q' token =>
      show ∃ queue', (s.dispatch q' token).2.queues[q]? = some queue' ∧ _
      unfold dispatch
      split
      · exact trade_of_queues hqueue rfl
      · rename_i d hdriver
        split
        · rename_i hopen
          exact trade_of_queues hqueue (parts_of_viaDriver hopen).1
        · rename_i s₁ hopen
          have hqueues : (s₁.launchLoop q' d token).queues =
              s.queues.modify q' fun queue => queue.launchLoop d token := by
            show s₁.queues.modify q' _ = _
            rw [(parts_of_viaDriver hopen).1]
          refine trade_of_modify hqueue hqueues ?_
          rintro rfl
          unfold queueDriver at hdriver
          rw [hqueue] at hdriver
          exact Or.inr ⟨d, token, hdriver, rfl⟩
  | startPool p token jobs d =>
      refine trade_of_queues hqueue ?_
      have hpool := (parts_startPool s p token (.jobs jobs d)).1
      unfold perform
      dsimp only
      split
      · rename_i hcall
        rw [hcall] at hpool
        exact hpool
      · rename_i hcall
        rw [hcall] at hpool
        exact hpool
  | _ => exact hr.elim

/-!
## All events
-/

theorem trade_launch {d token q' : Nat} (hown : s.LaunchesOwn) (hqueue : s.queues[q]? = some queue)
    (hcall : s.calls[c]? = some (.launch q' d token)) :
    ∃ queue', ((s.launchLoop q' d token).endCall c .started).queues[q]? = some queue' ∧
      Trade s q (.move (.call c .proceed)) queue queue' := by
  have hhandle := (callStep_launch hcall .proceed _).mpr ⟨rfl, rfl⟩
  have hnone : s.receipts q (.move (.call c .proceed)) = [] := by
    refine receipts_of_still hhandle ?_
    intro w hmover hseeks
    cases hmover
    rcases seeks_call hseeks with ⟨call, hcall', token', rfl | ⟨deadline', rfl⟩⟩
    · simp [hcall] at hcall'
    · simp [hcall] at hcall'
  refine ⟨_, getElem?_modifyQueue hqueue q' fun queue => queue.launchLoop d token, ?_⟩
  split
  · rename_i hq
    subst hq
    rcases hown c q' d token hcall with ⟨queue', hqueue', -, hdriver⟩
    cases hqueue.symm.trans hqueue'
    exact .launches d token hdriver hnone rfl rfl
  · exact .keeps (keeps_of_none hnone) rfl rfl

/-- Every event is a trade. -/
theorem trade_of_handle (hown : s.LaunchesOwn) (hqueue : s.queues[q]? = some queue)
    (h : s.handle e = some s') :
    ∃ queue', s'.queues[q]? = some queue' ∧ Trade s q e queue queue' := by
  by_cases hstirs : e.Stirs s
  · cases e with
    | tick => cases hstirs
    | files present => cases hstirs
    | request r =>
        cases h
        exact trade_perform hstirs hqueue
    | move move =>
        cases move with
        | worker p i m =>
            cases hstirs
            exact trade_take hqueue h
        | alarm p i => cases hstirs
        | watch p => cases hstirs
        | loop q' i m => exact trade_loopStep hqueue h
        | call c m =>
            rcases hstirs with ⟨rfl, call, hcall, hstirring⟩
            cases call with
            | launch q' d token =>
                cases ((callStep_launch hcall .proceed s').mp h).2
                exact trade_launch hown hqueue hcall
            | next q' token deadline => exact trade_takeForCall hqueue hcall h
            | _ => cases hstirring
  · exact trade_of_calm hstirs hqueue h

end System
end LeaseQueue
