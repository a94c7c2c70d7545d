import LeaseQueue.Proofs.Queue.HandOff
/-!
# Which driver feeds a queue

A dispatch loop keeps the driver that it was launched with, while the driver of the queue may be
replaced until the queue has started, also beside a loop. Unless that happens, a queue gives no job
but those that its own driver has handed out.
-/

namespace LeaseQueue

variable {β : Type}

def Event.newDriver? : Event β → Option Nat
  | .request (.setDriver _ d) => some d
  | _ => none

namespace System

/-- All that was taken for a queue came from the driver that the queue has, what its loops will take
comes from there too, and it holds nothing else. -/
structure Attributed (taken : List (Taking β)) (queue : Queue β) : Prop where
  loops : ∀ l ∈ queue.loops, queue.driver = some l.driver
  drivers : ∀ t ∈ taken, queue.driver = some t.driver
  inHand : ∀ j ∈ queue.inHand, ∃ t ∈ taken, t.stamped = j

def AttributedAt (taken : List (Taking β)) : Option (Queue β) → Prop
  | some queue => Attributed taken queue
  | none => taken = []

variable {s s' : System β} {e : Event β} {q : Nat} {queue queue' : Queue β}
variable {taken : List (Taking β)}

theorem Attributed.of_dormant (h : Dormant queue) : Attributed [] queue := by
  constructor
  · rw [h.loops]
    exact fun l hl => absurd hl List.not_mem_nil
  · exact fun t ht => absurd ht List.not_mem_nil
  · unfold Queue.inHand
    rw [h.loops, h.buffer]
    exact fun j hj => absurd hj List.not_mem_nil

theorem mem_inHand {j : Job β} :
    j ∈ queue.inHand ↔ j ∈ queue.buffer ∨ ∃ l ∈ queue.loops, j ∈ l.phase.offered := by
  unfold Queue.inHand
  rw [List.mem_append, List.mem_flatMap]

theorem Attributed.shrink (h : Attributed taken queue) (hdriver : queue'.driver = queue.driver)
    (hloops : ∀ l ∈ queue'.loops, queue.driver = some l.driver)
    (hjobs : ∀ j ∈ queue'.inHand, j ∈ queue.inHand) : Attributed taken queue' := by
  constructor
  · rw [hdriver]
    exact hloops
  · rw [hdriver]
    exact h.drivers
  · exact fun j hj => h.inHand j (hjobs j hj)

theorem Attributed.keep (h : Attributed taken queue) (hdriver : queue'.driver = queue.driver)
    (hloops : queue'.loops = queue.loops) (hbuffer : ∀ j ∈ queue'.buffer, j ∈ queue.buffer) :
    Attributed taken queue' := by
  refine h.shrink hdriver (hloops ▸ h.loops) fun j hj => ?_
  rw [mem_inHand, hloops] at hj
  exact mem_inHand.mpr (hj.imp_left (hbuffer j))

theorem Attributed.launch (h : Attributed taken queue) (hdriver : queue'.driver = queue.driver)
    {d token : Nat} (hd : queue.driver = some d) (hhold : queue'.hold = (queue.launchLoop d token).hold) :
    Attributed taken queue' := by
  rcases Queue.parts_of_hold hhold with ⟨-, -, hloops, hbuffer⟩
  unfold Queue.launchLoop at hloops hbuffer
  split at hloops <;> rename_i hdispatching
  · rw [if_pos hdispatching] at hbuffer
    exact h.keep hdriver hloops fun j hj => hbuffer ▸ hj
  · rw [if_neg hdispatching] at hbuffer
    refine h.shrink hdriver ?_ ?_
    · intro l hl
      rw [hloops] at hl
      rcases List.mem_append.mp hl with hold | hnew
      · exact h.loops l hold
      · cases List.mem_singleton.mp hnew
        exact hd
    · intro j hj
      rw [mem_inHand, hloops, hbuffer] at hj
      rcases hj with hj | ⟨l, hl, hj⟩
      · exact mem_inHand.mpr (Or.inl hj)
      · rcases List.mem_append.mp hl with hold | hnew
        · exact mem_inHand.mpr (Or.inr ⟨l, hold, hj⟩)
        · cases List.mem_singleton.mp hnew
          cases hj

theorem Attributed.turn (h : Attributed taken queue) (hdriver : queue'.driver = queue.driver)
    {i : Nat} {l : Loop β} {phase : LoopPhase β} {buffer : List (Job β)} {t : Option (Taking β)}
    (hl : queue.loops[i]? = some l) (hfrom : ∀ t', t = some t' → t'.driver = l.driver)
    (hjobs : buffer ++ phase.offered =
      queue.buffer ++ l.phase.offered ++ (t.map Taking.stamped).toList)
    (hhold : queue'.hold = (Queue.setLoop { queue with buffer := buffer } i phase).hold) :
    Attributed (taken ++ t.toList) queue' := by
  rcases Queue.parts_of_hold hhold with ⟨-, -, hloops, hbuffer⟩
  have hmem : l ∈ queue.loops := List.mem_of_getElem? hl
  have hturned : queue'.loops = queue.loops.set i { l with phase := phase } := by
    have hset := map_modify_eq_set hl (fun l => { l with phase := phase }) id
    rw [List.map_id, List.map_id] at hset
    exact hloops.trans hset
  -- What the loop passes on was in hand before, or is what it has just taken.
  have hold : ∀ j ∈ queue.inHand, ∃ t' ∈ taken ++ t.toList, t'.stamped = j := by
    intro j hj
    rcases h.inHand j hj with ⟨t', ht', hsame⟩
    exact ⟨t', List.mem_append_left _ ht', hsame⟩
  have hpassed : ∀ j ∈ buffer ++ phase.offered, ∃ t' ∈ taken ++ t.toList, t'.stamped = j := by
    intro j hj
    rw [hjobs] at hj
    rcases List.mem_append.mp hj with hj | hj
    · apply hold
      rcases List.mem_append.mp hj with hj | hj
      · exact mem_inHand.mpr (Or.inl hj)
      · exact mem_inHand.mpr (Or.inr ⟨l, hmem, hj⟩)
    · rcases Option.map_eq_some_iff.mp (Option.mem_toList.mp hj) with ⟨t', rfl, hsame⟩
      exact ⟨t', List.mem_append_right _ (Option.mem_toList.mpr rfl), hsame⟩
  constructor
  · intro l' hl'
    rw [hdriver]
    rw [hturned] at hl'
    rcases List.mem_or_eq_of_mem_set hl' with hstays | rfl
    · exact h.loops l' hstays
    · exact h.loops l hmem
  · intro t' ht'
    rw [hdriver]
    rcases List.mem_append.mp ht' with ht' | ht'
    · exact h.drivers t' ht'
    · rw [hfrom t' (Option.mem_toList.mp ht')]
      exact h.loops l hmem
  · intro j hj
    rw [mem_inHand, hturned, hbuffer] at hj
    rcases hj with hj | ⟨l', hl', hj⟩
    · exact hpassed j (List.mem_append_left _ hj)
    · rcases List.mem_or_eq_of_mem_set hl' with hstays | rfl
      · exact hold j (mem_inHand.mpr (Or.inr ⟨l', hstays, hj⟩))
      · exact hpassed j (List.mem_append_right _ hj)

variable [Body β]

/-- Whatever happens to a queue whose driver stays, it holds what that driver gave. -/
theorem Trade.attributed (h : Trade s q e queue queue') (hattributed : Attributed taken queue)
    (hdriver : queue'.driver = queue.driver) :
    Attributed (taken ++ (s.taking? q e).toList) queue' := by
  cases h with
  | keeps _ htaking hhold =>
      rcases Queue.parts_of_hold hhold with ⟨-, -, hloops, hbuffer⟩
      rw [htaking, Option.toList_none, List.append_nil]
      exact hattributed.keep hdriver hloops fun j hj => hbuffer ▸ hj
  | gives w j buffer hfirst _ _ htaking hhold =>
      rcases Queue.parts_of_hold hhold with ⟨-, -, hloops, hbuffer⟩
      rw [htaking, Option.toList_none, List.append_nil]
      refine hattributed.keep hdriver hloops fun j' hj' => ?_
      rw [hfirst]
      rw [hbuffer] at hj'
      exact List.mem_cons_of_mem j hj'
  | launches d token hd _ htaking hhold =>
      rw [htaking, Option.toList_none, List.append_nil]
      exact hattributed.launch hdriver hd hhold
  | ends i l hl _ _ htaking hhold =>
      rcases Queue.parts_of_hold hhold with ⟨-, -, hloops, hbuffer⟩
      have hsub : ∀ l' ∈ queue'.loops, l' ∈ queue.loops := by
        intro l' hl'
        rw [hloops] at hl'
        exact List.mem_of_mem_eraseIdx hl'
      rw [htaking, Option.toList_none, List.append_nil]
      refine hattributed.shrink hdriver (fun l' hl' => hattributed.loops l' (hsub l' hl')) ?_
      intro j hj
      rw [mem_inHand, hbuffer] at hj
      refine mem_inHand.mpr (hj.imp_right ?_)
      rintro ⟨l', hl', hj⟩
      exact ⟨l', hsub l' hl', hj⟩
  | turns i l phase buffer hl _ hfrom hjobs _ hhold =>
      exact hattributed.turn hdriver hl hfrom hjobs hhold

omit [Body β] in
theorem Turn.driver (h : s.Turn q e (some queue) (some queue'))
    (hkept : ∀ d, e = .request (.setDriver q d) → queue.started = true) :
    queue'.driver = queue.driver := by
  have hlaunched : ∀ d token, (queue.launchLoop d token).driver = queue.driver := by
    intro d token
    unfold Queue.launchLoop
    split <;> rfl
  cases h with
  | keeps _ houtline => exact (Queue.setup_of_outline houtline).1
  | setsDriver hidle =>
      rw [hkept _ rfl] at hidle
      cases hidle
  | setsRunner _ => rfl
  | stays _ => rfl
  | starts _ _ _ _ => rfl
  | launches _ => exact hlaunched _ _
  | dispatches => exact hlaunched _ _
  | ends _ => rfl

omit [Body β] in
theorem dormant_setDriver (hqueue : s.queues[q]? = some queue) (hdormant : Dormant queue) (d : Nat) :
    ∃ queue', (s.setDriver q d).2.queues[q]? = some queue' ∧ Dormant queue' := by
  unfold setDriver
  rw [hqueue]
  dsimp only
  split
  · exact ⟨queue, hqueue, hdormant⟩
  · refine ⟨_, getElem?_modifyQueue hqueue q _, ?_⟩
    rw [if_pos rfl]
    exact ⟨hdormant.dispatching, hdormant.loops, hdormant.buffer⟩

/-!
## Histories
-/

omit [Body β] in
theorem taking?_of_idle (h : ∀ queue, s.queues[q]? = some queue → queue.loops = []) (e : Event β) :
    s.taking? q e = none := by
  unfold taking?
  split
  · split
    · cases hqueue : s.queues[q]? with
      | none => rfl
      | some queue =>
          rw [Option.bind_some, h queue hqueue]
          rfl
    · rfl
  · rfl

omit [Body β] in
theorem takings_of_idle {past : List (System β × Event β)}
    (h : ∀ x ∈ past, ∀ queue, x.1.queues[q]? = some queue → queue.loops = []) :
    takings q past = [] := by
  unfold takings
  refine List.filterMap_eq_nil_iff.mpr fun x hx => ?_
  exact taking?_of_idle (h x (List.mem_reverse.mp hx)) x.2

theorem attributedAt_of_absent (hnone : s.queues[q]? = none) (hhandle : s.handle e = some s') :
    AttributedAt [] s'.queues[q]? := by
  have hturn := turn_of_handle q hhandle
  rw [hnone] at hturn
  generalize hqueue : s'.queues[q]? = x at hturn
  cases hturn with
  | absent => rfl
  | added => exact Attributed.of_dormant ⟨rfl, rfl, rfl⟩

theorem attributedAt_of_dormant (hown : s.LaunchesOwn) (hqueue : s.queues[q]? = some queue) (hdormant : Dormant queue)
    (hhandle : s.handle e = some s') : AttributedAt [] s'.queues[q]? := by
  have hnone : s.taking? q e = none := by
    refine taking?_of_idle (fun queue' hqueue' => ?_) e
    cases hqueue.symm.trans hqueue'
    exact hdormant.loops
  rcases trade_of_handle hown hqueue hhandle with ⟨queue', hqueue', htrade⟩
  rw [hqueue']
  -- Either the driver is replaced and there is still no loop, or a loop is launched with it.
  by_cases hset : ∃ d, e = .request (.setDriver q d)
  · rcases hset with ⟨d, rfl⟩
    cases hhandle
    rcases dormant_setDriver hqueue hdormant d with ⟨queue'', hqueue'', hdormant'⟩
    cases hqueue'.symm.trans hqueue''
    exact Attributed.of_dormant hdormant'
  · have hturn := turn_of_handle q hhandle
    rw [hqueue, hqueue'] at hturn
    have hdriver := hturn.driver fun d he => absurd ⟨d, he⟩ hset
    have hattributed := htrade.attributed (Attributed.of_dormant hdormant) hdriver
    rw [hnone] at hattributed
    exact hattributed

theorem AttributedAt.handle (h : AttributedAt taken s.queues[q]?) (hown : s.LaunchesOwn) (hhandle : s.handle e = some s')
    (hkept : ∀ d, e = .request (.setDriver q d) → (s.setDriver q d).1.succeeds = false) :
    AttributedAt (taken ++ (s.taking? q e).toList) s'.queues[q]? := by
  cases hqueue : s.queues[q]? with
  | none =>
      rw [hqueue] at h
      have hempty : taken = [] := h
      have hnone : s.taking? q e = none := taking?_of_idle (by simp [hqueue]) e
      rw [hempty, hnone]
      exact attributedAt_of_absent hqueue hhandle
  | some queue =>
      rw [hqueue] at h
      rcases trade_of_handle hown hqueue hhandle with ⟨queue', hqueue', htrade⟩
      rw [hqueue']
      have hturn := turn_of_handle q hhandle
      rw [hqueue, hqueue'] at hturn
      refine htrade.attributed h (hturn.driver fun d he => ?_)
      have hrefused := hkept d he
      cases hstarted : queue.started with
      | true => rfl
      | false =>
          have hset : (s.setDriver q d).1 = .done (.ok ()) := setDriver_of_idle hqueue hstarted d
          rw [hset] at hrefused
          cases hrefused

theorem History.attributed {clock : Nat} {past since before : List (System β × Event β)}
    (h : History clock past s) (hpast : past = since ++ before)
    (hidle : ∀ x ∈ before, ∀ queue, x.1.queues[q]? = some queue → queue.loops = [])
    (hkept : ∀ x ∈ since, ∀ d, x.2 = .request (.setDriver q d) →
      (x.1.setDriver q d).1.succeeds = false) :
    AttributedAt (takings q past) s.queues[q]? := by
  induction h generalizing since with
  | empty => rfl
  | clock t _ ih => exact ih hpast hkept
  | @event past s s' e hhistory hhandle ih =>
      cases since with
      | cons x rest =>
          rcases List.cons.inj hpast with ⟨rfl, hrest⟩
          rw [takings_cons]
          have hbefore := ih hrest fun x hx => hkept x (List.mem_cons_of_mem _ hx)
          exact hbefore.handle hhistory.launchesOwn hhandle (hkept (s, e) List.mem_cons_self)
      | nil =>
          have hbefore : before = (s, e) :: past := hpast.symm
          subst hbefore
          rw [takings_of_idle hidle]
          cases hqueue : s.queues[q]? with
          | none => exact attributedAt_of_absent hqueue hhandle
          | some queue =>
              have hdormant := hhistory.dormant (fun x hx => hidle x (List.mem_cons_of_mem _ hx))
                hqueue (hidle (s, e) List.mem_cons_self queue hqueue)
              exact attributedAt_of_dormant hhistory.launchesOwn hqueue hdormant hhandle

theorem taking_of_fetches {x : Waiter × Job β} (h : s.handle e = some s')
    (hx : x ∈ s.receipts q e) (hfetches : s.fetches q x.1 = true) :
    ∃ t : Taking β, t.stamped = x.2 ∧ t.moment = s.now ∧ s.queueDriver q = some t.driver ∧
      ∃ token, (s.driverNext t.driver token).1 = some t.job := by
  rcases of_mem_receipts h hx with ⟨hmover, -, hgiven⟩
  rcases x with ⟨w, j⟩
  have hclock : ∀ {d token s₁} {a : Option (Job β)}, s.driverNext d token = (a, s₁) →
      s₁.now = s.now := by
    intro d token s₁ a hcall
    rcases exists_of_viaDriver hcall with ⟨drivers, backends, rfl⟩
    rfl
  cases e with
  | request r => cases hmover
  | tick => cases hmover
  | files present => cases hmover
  | move m =>
      cases m with
      | alarm p i => cases hmover
      | watch p => cases hmover
      | loop q i m => cases hmover
      | call c m =>
          cases hmover
          rcases fetches_call hfetches with ⟨token, hcall⟩
          have hstep : s.callStep c m = some s' := h
          unfold callStep at hstep
          rw [hcall] at hstep
          cases m with
          | timeOut => cases hstep
          | giveUp => cases hstep
          | proceed =>
              cases hstep
              have hset : ∀ (s₁ : System β) (j' : Option (Job β)), s₁.calls = s.calls →
                  (s₁.endCall c (.job j')).given? (.call c) = j' := by
                intro s₁ j' hcalls
                show ((s₁.calls.set c (.over (.job j')))[c]?).bind Call.job? = j'
                rw [hcalls, List.getElem?_set_self (List.getElem?_eq_some_iff.mp hcall).1]
                rfl
              unfold fetchForCall at hgiven
              split at hgiven
              · rw [hset s none rfl] at hgiven
                cases hgiven
              · rename_i d hdriver
                cases hnext : s.driverNext d token with
                | mk j' s₁ =>
                    rw [hnext] at hgiven
                    rw [hset s₁ _ (calls_of_viaDriver hnext)] at hgiven
                    rcases Option.map_eq_some_iff.mp hgiven with ⟨j₀, rfl, rfl⟩
                    refine ⟨⟨d, j₀, s.now⟩, ?_, rfl, hdriver, token, congrArg Prod.fst hnext⟩
                    rw [hclock hnext]
                    rfl
      | worker p i m =>
          cases hmover
          rcases fetches_worker hfetches with ⟨pool, worker, hpool, hworker, hsource, hphase⟩
          have hat := workerAt_eq hpool hworker
          have hrests : ∀ s₁ : System β, s₁.pools = s.pools →
              (s₁.restWorker p i pool).given? (.worker p i) = none := by
            intro s₁ hpools
            have hat₁ : s₁.workerAt p i = some worker := by
              unfold workerAt at hat ⊢
              rw [hpools]
              exact hat
            unfold given? restWorker
            dsimp only
            rw [phaseAt_modifyWorker_self hat₁]
            rfl
          have hstep : s.workerStep p i m = some s' := h
          unfold workerStep at hstep
          simp only [Option.bind_eq_bind, hpool, hworker, hphase, Option.bind_some] at hstep
          cases m with
          | giveUp =>
              dsimp only at hstep
              split at hstep <;> cases hstep
              rw [hrests s rfl] at hgiven
              cases hgiven
          | proceed =>
              cases hstep
              unfold fetchJob at hgiven
              split at hgiven
              · rw [hrests s rfl] at hgiven
                cases hgiven
              · rename_i d hdriver
                rw [hsource] at hdriver
                split at hgiven
                · rename_i j₀ s₁ hnext
                  have hat₁ : s₁.workerAt p i = some worker := by
                    unfold workerAt at hat ⊢
                    rw [(parts_of_viaDriver hnext).2]
                    exact hat
                  have hgot := phaseAt_of_given? hgiven
                  rw [phaseAt_modifyWorker_self hat₁] at hgot
                  cases hgot
                  refine ⟨⟨d, j₀, s.now⟩, ?_, rfl, hdriver, pool.token, congrArg Prod.fst hnext⟩
                  rw [hclock hnext]
                  rfl
                · rename_i s₁ hnext
                  rw [hrests s₁ (parts_of_viaDriver hnext).2] at hgiven
                  cases hgiven
          | _ => cases hstep

/-- Unless the driver of a queue is replaced after the queue had its first loop, every loop takes from
the driver that the queue has, everything was taken from there, and each job that a queue gives to
someone was handed out by the driver that the workers of the queue lock it through: to a loop, or, where
someone had found no loop, in the same event. -/
theorem queue_feeds_from_its_driver {clock : Nat} {since before : List (System β × Event β)}
    (h : History clock (since ++ before) s)
    (hidle : ∀ x ∈ before, ∀ queue, x.1.queues[q]? = some queue → queue.loops = [])
    (hkept : ∀ x ∈ since, ∀ d, x.2 = .request (.setDriver q d) →
      (x.1.setDriver q d).1.succeeds = false)
    (hqueue : s.queues[q]? = some queue) :
    (∀ l ∈ queue.loops, queue.driver = some l.driver) ∧
      (∀ t ∈ takings q (since ++ before), queue.driver = some t.driver) ∧
      ∀ e, ∀ x ∈ s.receipts q e, ∃ t : Taking β, t.stamped = x.2 ∧
        s.sourceDriver (some (.queue q)) = some t.driver ∧
        (s.fetches q x.1 = false → t ∈ takings q (since ++ before)) ∧
        (s.fetches q x.1 = true → t.moment = s.now ∧
          ∃ token, (s.driverNext t.driver token).1 = some t.job) := by
  have hattributed := h.attributed rfl hidle hkept
  rw [hqueue] at hattributed
  refine ⟨hattributed.loops, hattributed.drivers, fun e x hx => ?_⟩
  have hsource : s.sourceDriver (some (.queue q)) = queue.driver := by
    show s.queueDriver q = _
    unfold queueDriver
    rw [hqueue]
    rfl
  cases hhandle : s.handle e with
  | none =>
      unfold receipts at hx
      rw [hhandle] at hx
      cases hx
  | some s' =>
      rcases trade_of_handle h.launchesOwn hqueue hhandle with ⟨queue', -, htrade⟩
      have hempty : s.receipts q e ≠ [] := by
        intro hnone
        rw [hnone] at hx
        cases hx
      cases htrade with
      | keeps hreceipts =>
          have hfetches := hreceipts x hx
          rcases taking_of_fetches hhandle hx hfetches with ⟨t, hsame, hmoment, hdriver, hnext⟩
          exact ⟨t, hsame, hdriver, fun hnot => absurd (hfetches.symm.trans hnot) nofun,
            fun _ => ⟨hmoment, hnext⟩⟩
      | gives w j buffer hbuffer hfetches hreceipts =>
          rw [hreceipts] at hx
          cases List.mem_singleton.mp hx
          have hmem : j ∈ queue.inHand := mem_inHand.mpr (Or.inl (hbuffer ▸ List.mem_cons_self))
          rcases hattributed.inHand j hmem with ⟨t, ht, hsame⟩
          exact ⟨t, hsame, hsource.trans (hattributed.drivers t ht), fun _ => ht,
            fun hfetch => absurd (hfetches.symm.trans hfetch) nofun⟩
      | launches d token _ hreceipts => exact absurd hreceipts hempty
      | ends i l _ _ hreceipts => exact absurd hreceipts hempty
      | turns i l phase buffer _ hreceipts => exact absurd hreceipts hempty

/-- The driver of a queue that was started stays, and a worker gets what it has handed out. -/
theorem queue_feeds_from_its_driver_to_worker :
    let registry : Registry Work := Registry.empty.register "sample" 0 fun _ => some (.drill .blank)
    let setUp : List (Event Work) := [
      .request (.addBackend (.inMemory registry .oldestFirst .standard) ⟨"one", 0, []⟩),
      .request (.addBackend (.inMemory registry .oldestFirst .standard) ⟨"two", 0, []⟩),
      .request (.addQueue ⟨1, 50, 16⟩), .request (.setDriver 0 1), .request (.setDriver 0 0),
      .request (.put 0 9 (Backend.sampleJob "job")), .request (.start 0 8)]
    let work : List (Event Work) := [.move (.call 0 .proceed), .request (.setDriver 0 1),
      .move (.loop 0 0 .proceed),
      .move (.loop 0 0 .proceed), .move (.worker 0 0 .handle), .move (.worker 0 0 .proceed)]
    ∃ before since s₀ s queue x, setUp.foldlM chronicle ([], .empty 0) = some (before, s₀) ∧
      work.foldlM chronicle ([], s₀) = some (since, s) ∧ s.queues[0]? = some queue ∧
      x ∈ s.receipts 0 (.move (.worker 0 0 .take)) ∧
      ∃ t ∈ takings 0 (since ++ before), t.stamped = x.2 ∧
        s.sourceDriver (some (.queue 0)) = some t.driver := by
  intro registry setUp work
  have hrun : ((setUp.foldlM chronicle ([], (.empty 0 : System Work))).any fun x =>
      (work.foldlM chronicle ([], x.2)).any fun y =>
        (x.1.all fun v => (v.1.queues[0]?).all fun queue => queue.loops.isEmpty) &&
        (y.1.all fun v => v.2.newDriver?.all fun d => !(v.1.setDriver 0 d).1.succeeds) &&
        (y.2.queues[0]?).isSome && !y.2.fetches 0 (.worker 0 0) &&
        (y.2.receipts 0 (.move (.worker 0 0 .take))).any fun x => decide (x.1 = .worker 0 0)) =
      true := by
    decide +kernel
  rcases (Option.any_eq_true _ _).mp hrun with ⟨⟨before, s₀⟩, hx, hrest⟩
  rcases (Option.any_eq_true _ _).mp hrest with ⟨⟨since, s⟩, hy, hchecks⟩
  simp only [Bool.and_eq_true, List.all_eq_true, List.any_eq_true, Option.isSome_iff_exists,
    decide_eq_true_eq] at hchecks
  rcases hchecks with ⟨⟨⟨⟨hnone, hrefused⟩, queue, hqueue⟩, hwaits⟩, x, hmem, hwho⟩
  have hbefore : History 0 ([] ++ before) s₀ := history_of_chronicle hx
  have hidle : ∀ v ∈ before, ∀ queue, v.1.queues[0]? = some queue → queue.loops = [] :=
    fun v hv => loops_of_all (hnone v hv)
  have hkept : ∀ v ∈ since, ∀ d, v.2 = .request (.setDriver 0 d) →
      (v.1.setDriver 0 d).1.succeeds = false := by
    intro v hv d he
    have hanswer := hrefused v hv
    rw [he] at hanswer
    simpa [Event.newDriver?] using hanswer
  have hfeeds := queue_feeds_from_its_driver (hbefore.chronicle hy) hidle hkept hqueue
  rcases hfeeds.2.2 (.move (.worker 0 0 .take)) x hmem with ⟨t, hsame, hsource, htaken, -⟩
  have hline : s.fetches 0 x.1 = false := by
    rw [hwho]
    simpa using hwaits
  exact ⟨before, since, s₀, s, queue, x, hx, hy, hqueue, hmem, t, htaken hline, hsame, hsource⟩

/-- A queue is given another driver beside its loop, and is started. The start succeeds, but the loop
goes on with the driver that it has: a worker gets a job of the one driver and is to lock it through
the other. -/
theorem started_queue_feeds_from_replaced_driver :
    let registry : Registry Work := Registry.empty.register "sample" 0 fun _ => some (.drill .blank)
    let events : List (Event Work) := [
      .request (.addBackend (.inMemory registry .oldestFirst .standard) ⟨"one", 0, []⟩),
      .request (.addBackend (.inMemory registry .oldestFirst .standard) ⟨"two", 0, []⟩),
      .request (.addQueue ⟨1, 50, 16⟩), .request (.saveVia 0 9 (Backend.sampleJob "job")),
      .request (.setDriver 0 0), .request (.dispatch 0 8), .request (.setDriver 0 1),
      .request (.start 0 8), .move (.call 0 .proceed), .move (.loop 0 0 .proceed),
      .move (.loop 0 0 .proceed), .move (.worker 0 0 .handle), .move (.worker 0 0 .proceed),
      .move (.worker 0 0 .take)]
    ∃ past s queue l, events.foldlM chronicle ([], .empty 0) = some (past, s) ∧ History 0 past s ∧
      s.queues[0]? = some queue ∧ queue.started = true ∧ l ∈ queue.loops ∧
      s.isCancelled l.token = false ∧ l.driver = 0 ∧ queue.driver = some 1 ∧
      (takings 0 past).map (fun t => (t.driver, t.job.id)) = [(0, "job")] ∧
      (s.given? (.worker 0 0)).map Job.id = some "job" ∧
      s.sourceDriver (some (.queue 0)) = some 1 := by
  intro registry events
  have hrun : ((events.foldlM chronicle ([], (.empty 0 : System Work))).any fun x =>
      (x.2.queues[0]?).any fun queue => queue.loops.any fun l =>
        decide (queue.started = true ∧ x.2.isCancelled l.token = false ∧ l.driver = 0 ∧
          queue.driver = some 1 ∧
          (takings 0 x.1).map (fun t => (t.driver, t.job.id)) = [(0, "job")] ∧
          (x.2.given? (.worker 0 0)).map Job.id = some "job" ∧
          x.2.sourceDriver (some (.queue 0)) = some 1)) = true := by
    decide +kernel
  rcases (Option.any_eq_true _ _).mp hrun with ⟨⟨past, s⟩, hevents, hrest⟩
  rcases (Option.any_eq_true _ _).mp hrest with ⟨queue, hqueue, hrest⟩
  rcases List.any_eq_true.mp hrest with ⟨l, hl, hchecks⟩
  rcases of_decide_eq_true hchecks with ⟨hstarted, hlive, hold, hnew, htaken, hgiven, hsource⟩
  exact ⟨past, s, queue, l, hevents, history_of_chronicle hevents, hqueue, hstarted, hl, hlive, hold,
    hnew, htaken, hgiven, hsource⟩

end System
end LeaseQueue
