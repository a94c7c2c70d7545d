import LeaseQueue.Proofs.Queue.Staffing
import LeaseQueue.Proofs.Queue.Trading
import LeaseQueue.Work.Basic
/-!
# Hand-off

From the launch of its first dispatch loop on, a queue hands the jobs that the loop takes from its
driver to those who stand in line, in their order, each one to one of them. The others are in the buffer
or in the hands of the loop, and there are only so many of these. Whoever has looked for a loop before
the launch, and has found none, asks the driver past the loop; nobody begins to do so after it.
-/

namespace LeaseQueue

variable {β : Type}

namespace System

variable [Body β]

/-- The jobs that a queue gives in an event to those who stand in line. -/
def handOffs (s : System β) (q : Nat) (e : Event β) : List (Waiter × Job β) :=
  (s.receipts q e).filter fun x => !s.fetches q x.1

/-- All that those have got from a queue who stood in line, the earliest first. -/
def received (q : Nat) (past : List (System β × Event β)) : List (Waiter × Job β) :=
  past.reverse.flatMap fun x => x.1.handOffs q x.2

omit [Body β] in
/-- All that the drivers gave to the dispatch loops of a queue, the earliest first. -/
def takings (q : Nat) (past : List (System β × Event β)) : List (Taking β) :=
  past.reverse.filterMap fun x => x.1.taking? q x.2

variable {s s' : System β} {e : Event β} {q : Nat} {queue queue' : Queue β} {l : Loop β}

theorem received_cons (q : Nat) (s : System β) (e : Event β) (past : List (System β × Event β)) :
    received q ((s, e) :: past) = received q past ++ s.handOffs q e := by
  simp [received]

theorem handOffs_of_fetches (h : ∀ x ∈ s.receipts q e, s.fetches q x.1 = true) :
    s.handOffs q e = [] := by
  refine List.filter_eq_nil_iff.mpr fun x hx => ?_
  simp [h x hx]

theorem handOffs_of_none (h : s.receipts q e = []) : s.handOffs q e = [] :=
  handOffs_of_fetches (keeps_of_none h)

theorem handOffs_of_one {w : Waiter} {j : Job β} (hfetches : s.fetches q w = false)
    (h : s.receipts q e = [(w, j)]) : s.handOffs q e = [(w, j)] := by
  unfold handOffs
  rw [h]
  simp [hfetches]

omit [Body β] in
theorem takings_cons (q : Nat) (s : System β) (e : Event β) (past : List (System β × Event β)) :
    takings q ((s, e) :: past) = takings q past ++ (s.taking? q e).toList := by
  unfold takings
  rw [List.reverse_cons, List.filterMap_append]
  cases htaking : s.taking? q e <;> simp [htaking]

/-!
## Queues without a loop
-/

omit [Body β] in
structure Dormant (queue : Queue β) : Prop where
  dispatching : queue.dispatching = false
  loops : queue.loops = []
  buffer : queue.buffer = []

omit [Body β] in
theorem loops_of_all {x : Option (Queue β)}
    (h : x.all (fun queue => queue.loops.isEmpty) = true) (queue : Queue β) (hx : x = some queue) :
    queue.loops = [] := by
  rw [hx] at h
  exact List.isEmpty_iff.mp h

omit [Body β] in
theorem Dormant.launchLoop (h : Dormant queue) (d token : Nat) :
    (queue.launchLoop d token).hold =
      Queue.hold { queue with dispatching := true, loops := [⟨d, token, .asking⟩] } := by
  unfold Queue.launchLoop
  rw [if_neg (by simp [h.dispatching]), h.loops]
  rfl

omit [Body β] in
theorem Dormant.of_hold (h : Dormant queue) (hhold : queue'.hold = queue.hold) : Dormant queue' := by
  rcases Queue.parts_of_hold hhold with ⟨-, hdispatching, hloops, hbuffer⟩
  exact ⟨hdispatching.trans h.dispatching, hloops.trans h.loops, hbuffer.trans h.buffer⟩

theorem Trade.of_dormant (h : Trade s q e queue queue') (hdormant : Dormant queue) :
    Dormant queue' ∨ ∃ d token, queue'.hold =
      Queue.hold { queue with dispatching := true, loops := [⟨d, token, .asking⟩] } := by
  have hnone : ∀ (i : Nat) (l : Loop β), queue.loops[i]? ≠ some l := by
    intro i l hl
    rw [hdormant.loops] at hl
    cases hl
  cases h with
  | keeps _ _ hhold => exact Or.inl (hdormant.of_hold hhold)
  | gives w j buffer hbuffer =>
      rw [hdormant.buffer] at hbuffer
      cases hbuffer
  | launches d token _ _ _ hhold =>
      exact Or.inr ⟨d, token, hhold.trans (hdormant.launchLoop d token)⟩
  | ends i l hl => exact absurd hl (hnone i l)
  | turns i l phase buffer hl => exact absurd hl (hnone i l)

theorem History.dormant {clock : Nat} {past : List (System β × Event β)}
    (h : History clock past s)
    (hpast : ∀ x ∈ past, ∀ queue, x.1.queues[q]? = some queue → queue.loops = [])
    (hqueue : s.queues[q]? = some queue) (hloops : queue.loops = []) : Dormant queue := by
  induction h generalizing queue with
  | empty => cases hqueue
  | clock t _ ih => exact ih hpast hqueue hloops
  | @event past s s' e hhistory hhandle ih =>
      have hbefore : ∀ x ∈ past, ∀ queue, x.1.queues[q]? = some queue → queue.loops = [] :=
        fun x hmem => hpast x (List.mem_cons_of_mem _ hmem)
      cases hold : s.queues[q]? with
      | none =>
          have hturn := turn_of_handle q hhandle
          rw [hold, hqueue] at hturn
          cases hturn
          exact ⟨rfl, rfl, rfl⟩
      | some before =>
          have hdormant := ih hbefore hold (hpast (s, e) List.mem_cons_self before hold)
          rcases trade_of_handle hhistory.launchesOwn hold hhandle with ⟨after, hafter, htrade⟩
          cases hqueue.symm.trans hafter
          rcases htrade.of_dormant hdormant with hstill | ⟨d, token, hhold⟩
          · exact hstill
          · rw [(Queue.parts_of_hold hhold).2.2.1] at hloops
            cases hloops

/-!
## Queues with their first loop
-/

omit [Body β] in
/-- A loop has fed a queue with the jobs that it took, and the queue has given some of them away. -/
structure Fed (l : Loop β) (given : List (Waiter × Job β)) (taken : List (Taking β))
    (queue : Queue β) : Prop where
  dispatching : queue.dispatching = true
  loops : ∃ phase, queue.loops = [{ l with phase := phase }]
  room : queue.buffer.length ≤ queue.settings.effectiveBuffer
  drivers : ∀ t ∈ taken, t.driver = l.driver
  jobs : given.map Prod.snd ++ queue.inHand = taken.map Taking.stamped

variable {given : List (Waiter × Job β)} {taken : List (Taking β)}

omit [Body β] in
theorem Fed.of_hold (h : Fed l given taken queue) (hhold : queue'.hold = queue.hold) :
    Fed l given taken queue' := by
  rcases Queue.parts_of_hold hhold with ⟨hsettings, hdispatching, hloops, hbuffer⟩
  refine ⟨hdispatching.trans h.dispatching, ?_, ?_, h.drivers, ?_⟩
  · rw [hloops]
    exact h.loops
  · rw [hsettings, hbuffer]
    exact h.room
  · unfold Queue.inHand
    rw [hloops, hbuffer]
    exact h.jobs

omit [Body β] in
theorem Fed.first (hdormant : Dormant queue) {d token : Nat} (hhold : queue'.hold =
      Queue.hold { queue with dispatching := true, loops := [⟨d, token, .asking⟩] }) :
    Fed ⟨d, token, .asking⟩ [] [] queue' := by
  have hlaunched : Fed ⟨d, token, .asking⟩ [] []
      { queue with dispatching := true, loops := [⟨d, token, .asking⟩] } := by
    refine ⟨rfl, ⟨.asking, rfl⟩, ?_, by simp, ?_⟩
    · show queue.buffer.length ≤ queue.settings.effectiveBuffer
      rw [hdormant.buffer]
      exact Nat.zero_le _
    · show [] ++ (queue.buffer ++ []) = []
      rw [hdormant.buffer]
      rfl
  exact hlaunched.of_hold hhold

omit [Body β] in
theorem Fed.give (h : Fed l given taken queue) {w : Waiter} {j : Job β} {buffer : List (Job β)}
    (hbuffer : queue.buffer = j :: buffer) :
    Fed l (given ++ [(w, j)]) taken { queue with buffer := buffer } := by
  have hroom := h.room
  have hjobs := h.jobs
  unfold Queue.inHand at hjobs
  rw [hbuffer] at hroom hjobs
  refine ⟨h.dispatching, h.loops, Nat.le_of_succ_le hroom, h.drivers, ?_⟩
  rw [← hjobs]
  simp [Queue.inHand]

omit [Body β] in
theorem Fed.turn (h : Fed l given taken queue) {l' : Loop β} (hl' : queue.loops = [l'])
    {phase : LoopPhase β} {buffer : List (Job β)} {t : Option (Taking β)}
    (hdriver : ∀ t', t = some t' → t'.driver = l.driver)
    (hjobs : buffer ++ phase.offered =
      queue.buffer ++ l'.phase.offered ++ (t.map Taking.stamped).toList)
    (hroom : buffer.length ≤ max queue.buffer.length queue.settings.effectiveBuffer) :
    Fed l given (taken ++ t.toList) (Queue.setLoop { queue with buffer := buffer } 0 phase) := by
  rcases h.loops with ⟨phase₀, hloops⟩
  have hturned : (Queue.setLoop { queue with buffer := buffer } 0 phase).loops =
      [{ l with phase := phase }] := by
    show queue.loops.modify 0 _ = _
    rw [hloops]
    rfl
  refine ⟨h.dispatching, ⟨phase, hturned⟩, ?_, ?_, ?_⟩
  · have hle := h.room
    show buffer.length ≤ queue.settings.effectiveBuffer
    omega
  · intro t' hmem
    rcases List.mem_append.mp hmem with hold | hnew
    · exact h.drivers t' hold
    · exact hdriver t' (Option.mem_toList.mp hnew)
  · have hbefore := h.jobs
    unfold Queue.inHand at hbefore ⊢
    rw [hl'] at hbefore
    rw [hturned]
    simp only [List.flatMap_cons, List.flatMap_nil, List.append_nil] at hbefore ⊢
    -- What the loop has just taken comes behind all that was in hand.
    show given.map Prod.snd ++ (buffer ++ phase.offered) = _
    rw [hjobs, List.map_append, ← hbefore]
    cases t <;> simp

/-- While the token of the loop is live, an event leaves the queue fed by that loop. -/
theorem Trade.fed (h : Trade s q e queue queue') (hfed : Fed l given taken queue)
    (hlive : s.isCancelled l.token = false) :
    Fed l (given ++ s.handOffs q e) (taken ++ (s.taking? q e).toList) queue' := by
  rcases hfed.loops with ⟨phase₀, hloops⟩
  -- There is one loop. Its token is live, so it does not end, and no other one is launched beside it.
  have hone : ∀ (i : Nat) (l' : Loop β), queue.loops[i]? = some l' →
      i = 0 ∧ l' = { l with phase := phase₀ } := by
    intro i l' hl'
    rw [hloops] at hl'
    cases i with
    | zero => exact ⟨rfl, (Option.some.inj hl').symm⟩
    | succ i => cases hl'
  cases h with
  | keeps hreceipts htaking hhold =>
      rw [handOffs_of_fetches hreceipts, htaking, List.append_nil, Option.toList_none, List.append_nil]
      exact hfed.of_hold hhold
  | gives w j buffer hbuffer hfetches hreceipts htaking hhold =>
      rw [handOffs_of_one hfetches hreceipts, htaking, Option.toList_none, List.append_nil]
      exact (hfed.give hbuffer).of_hold hhold
  | launches d token _ hreceipts htaking hhold =>
      rw [handOffs_of_none hreceipts, htaking, List.append_nil, Option.toList_none, List.append_nil]
      unfold Queue.launchLoop at hhold
      rw [if_pos hfed.dispatching] at hhold
      exact hfed.of_hold hhold
  | ends i l' hl' hcancelled =>
      rcases hone i l' hl' with ⟨-, rfl⟩
      rw [hlive] at hcancelled
      cases hcancelled
  | turns i l' phase buffer hl' hreceipts hdriver hjobs hroom hhold =>
      rcases hone i l' hl' with ⟨rfl, rfl⟩
      rw [handOffs_of_none hreceipts, List.append_nil]
      exact (hfed.turn hloops hdriver hjobs hroom).of_hold hhold

/-!
## Those who have found no loop
-/

theorem fetches_of_handle (hqueue : s.queues[q]? = some queue)
    (hdispatching : queue.dispatching = true) (h : s.handle e = some s') {w : Waiter}
    (hw : s'.fetches q w = true) : s.fetches q w = true := by
  have hloop : ¬ s.Loopless q := by
    intro hidle
    simp [hidle queue hqueue] at hdispatching
  cases w with
  | call c =>
      rcases fetches_call hw with ⟨token, hcall⟩
      rcases errand_of_handle h rfl hcall with hbefore | ⟨-, hidle⟩ | ⟨d, token', queue', heq, -⟩
      · unfold fetches
        simp [hbefore, Call.fetches]
      · exact absurd hidle hloop
      · cases heq
  | worker p i =>
      rcases fetches_worker hw with ⟨pool', w', hpool', hworker', hsource', hphase'⟩
      have hshift := shifts_handle h p
      generalize hpool : s.pools[p]? = before at hshift
      rw [hpool'] at hshift
      cases hshift with
      | added size millis => cases hworker'
      | starts hidle _ =>
          have hfresh := List.eq_of_mem_replicate (List.mem_of_getElem? hworker')
          rw [hfresh] at hphase'
          cases hphase'
      | @works pool workers source watching hlength hworkers hsource =>
          have hlt : i < pool.workers.length := hlength ▸ (List.getElem?_eq_some_iff.mp hworker').1
          have hworker := List.getElem?_eq_getElem hlt
          have hqueue' : pool.source = some (.queue q) := eq_queue_of_map_queue? hsource hsource'
          rw [fetches_of_worker hpool hworker hqueue']
          rcases (hworkers i _ w' hworker hworker').fetching hphase' with hfetching | hidle
          · rw [hfetching]
            rfl
          · have hnone : s.Loopless q := hidle q (by rw [hqueue']; rfl)
            exact absurd hnone hloop

/-!
## Histories
-/

/-- What has happened and the system that it led to, after one more event. -/
def chronicle (x : List (System β × Event β) × System β) (e : Event β) :
    Option (List (System β × Event β) × System β) :=
  (x.2.handle e).map fun s => ((x.2, e) :: x.1, s)

theorem History.chronicle {clock : Nat} {past since : List (System β × Event β)}
    {events : List (Event β)} {x : List (System β × Event β) × System β}
    (h : History clock (since ++ past) s) (hevents : events.foldlM chronicle (since, s) = some x) :
    History clock (x.1 ++ past) x.2 := by
  induction events generalizing since s with
  | nil =>
      cases hevents
      exact h
  | cons e rest ih =>
      rcases Option.bind_eq_some_iff.mp hevents with ⟨x₁, hx₁, hrest⟩
      rcases Option.map_eq_some_iff.mp hx₁ with ⟨s₁, hhandle, rfl⟩
      exact ih (h.event hhandle) hrest

theorem history_of_chronicle {clock : Nat} {events : List (Event β)}
    {x : List (System β × Event β) × System β}
    (h : events.foldlM chronicle ([], .empty clock) = some x) : History clock x.1 x.2 := by
  have hstart : History clock ([] ++ []) (.empty clock : System β) := .empty
  have hhistory := hstart.chronicle h
  rwa [List.append_nil] at hhistory

theorem History.before {clock : Nat} {s₀ : System β} {e₀ : Event β}
    {past since : List (System β × Event β)} (h : History clock (since ++ (s₀, e₀) :: past) s) :
    History clock past s₀ := by
  generalize hall : since ++ (s₀, e₀) :: past = all at h
  induction h generalizing since with
  | empty => simp at hall
  | clock t _ ih => exact ih hall
  | event hhistory hhandle ih =>
      cases since with
      | nil =>
          cases hall
          exact hhistory
      | cons x rest => exact ih (List.cons.inj hall).2

theorem History.fed {clock : Nat} {s₀ s₁ : System β} {e₀ : Event β} {queue₁ : Queue β}
    {past since : List (System β × Event β)} (h : History clock (since ++ (s₀, e₀) :: past) s)
    (hlaunch : s₀.handle e₀ = some s₁) (hqueue : s₁.queues[q]? = some queue₁)
    (hfed : Fed l [] [] queue₁) (hlive : ∀ x ∈ since, x.1.isCancelled l.token = false) :
    ∃ queue, s.queues[q]? = some queue ∧ Fed l (received q since) (takings q since) queue := by
  generalize hall : since ++ (s₀, e₀) :: past = all at h
  -- The induction goes back to the launch, where nothing has been taken yet.
  induction h generalizing since with
  | empty => simp at hall
  | clock t _ ih => exact ih hlive hall
  | @event all s s' e hhistory hhandle ih =>
      cases since with
      | nil =>
          cases hall
          cases hlaunch.symm.trans hhandle
          exact ⟨queue₁, hqueue, hfed⟩
      | cons x rest =>
          rcases List.cons.inj hall with ⟨rfl, hrest⟩
          rcases ih (fun x hmem => hlive x (List.mem_cons_of_mem _ hmem)) hrest with
            ⟨before, hbefore, hfed'⟩
          rcases trade_of_handle hhistory.launchesOwn hbefore hhandle with ⟨after, hafter, htrade⟩
          refine ⟨after, hafter, ?_⟩
          rw [received_cons, takings_cons]
          exact htrade.fed hfed' (hlive (s, e) List.mem_cons_self)

omit [Body β] in
theorem Fed.inHand_le (h : Fed l given taken queue) :
    queue.inHand.length ≤ max queue.settings.buffer 1 + 1 := by
  rcases h.loops with ⟨phase, hloops⟩
  have hoffered : phase.offered.length ≤ 1 := by
    cases phase <;> simp [LoopPhase.offered]
  have hroom : queue.buffer.length ≤ max queue.settings.buffer 1 := h.room
  unfold Queue.inHand
  rw [hloops]
  simp only [List.flatMap_cons, List.flatMap_nil, List.append_nil, List.length_append]
  omega

theorem History.fed_at {clock : Nat} {s₀ s₁ : System β} {e₀ : Event β} {queue₁ : Queue β}
    {past since : List (System β × Event β)} (h : History clock (since ++ (s₀, e₀) :: past) s)
    (hlaunch : s₀.handle e₀ = some s₁) (hqueue : s₁.queues[q]? = some queue₁)
    (hfed : Fed l [] [] queue₁) (hlive : ∀ x ∈ since, x.1.isCancelled l.token = false)
    {x : System β × Event β} (hx : x ∈ since) :
    ∃ queue, x.1.queues[q]? = some queue ∧ queue.dispatching = true := by
  rcases List.append_of_mem hx with ⟨after, before, rfl⟩
  rw [List.append_assoc, List.cons_append] at h
  have hlive' : ∀ y ∈ before, y.1.isCancelled l.token = false :=
    fun y hy => hlive y (List.mem_append_right _ (List.mem_cons_of_mem _ hy))
  rcases h.before.fed hlaunch hqueue hfed hlive' with ⟨queue, hat, hfed'⟩
  exact ⟨queue, hat, hfed'.dispatching⟩

/-- From the launch of its first dispatch loop and as long as that loop's token is live, a queue gives
the jobs that the loop gets from its driver to those who stand in line for one, in the same order, each
to one of them, with only their unset times stamped. What it has not given yet is in the buffer or with
the loop: no more than the buffer has room for, and one. Nobody who asks after the launch passes by the
line. -/
theorem queue_hands_off_in_order {clock : Nat} {past since : List (System β × Event β)}
    {s₀ s₁ : System β} {e₀ : Event β} {queue₁ : Queue β}
    (h : History clock (since ++ (s₀, e₀) :: past) s)
    (hfirst : ∀ x ∈ (s₀, e₀) :: past, ∀ queue, x.1.queues[q]? = some queue → queue.loops = [])
    (hlaunch : s₀.handle e₀ = some s₁) (hqueue : s₁.queues[q]? = some queue₁)
    (hloop : l ∈ queue₁.loops) (hlive : ∀ x ∈ since, x.1.isCancelled l.token = false) :
    ∃ queue phase, s.queues[q]? = some queue ∧ queue.loops = [{ l with phase := phase }] ∧
      (∀ t ∈ takings q since, t.driver = l.driver) ∧
      (received q since).map Prod.snd <+: (takings q since).map Taking.stamped ∧
      (received q since).map Prod.snd ++ (queue.buffer ++ phase.offered) =
        (takings q since).map Taking.stamped ∧
      (takings q since).length ≤ (received q since).length + (max queue.settings.buffer 1 + 1) ∧
      ∀ x ∈ since, ∀ s' w, x.1.handle x.2 = some s' → s'.fetches q w = true →
        x.1.fetches q w = true := by
  have hfed₁ : Fed l [] [] queue₁ := by
    have hnone : s₀.queues[q]? ≠ none := by
      intro hnone
      have hturn := turn_of_handle q hlaunch
      rw [hnone, hqueue] at hturn
      cases hturn
      cases hloop
    rcases Option.ne_none_iff_exists'.mp hnone with ⟨queue₀, hqueue₀⟩
    have hdormant := h.before.dormant (fun x hmem => hfirst x (List.mem_cons_of_mem _ hmem)) hqueue₀
      (hfirst (s₀, e₀) List.mem_cons_self queue₀ hqueue₀)
    rcases trade_of_handle h.before.launchesOwn hqueue₀ hlaunch with ⟨after, hafter, htrade⟩
    cases hqueue.symm.trans hafter
    rcases htrade.of_dormant hdormant with hstill | ⟨d, token, hhold⟩
    · rw [hstill.loops] at hloop
      cases hloop
    · rw [(Queue.parts_of_hold hhold).2.2.1] at hloop
      cases List.mem_singleton.mp hloop
      exact Fed.first hdormant hhold
  rcases h.fed hlaunch hqueue hfed₁ hlive with ⟨queue, hat, hfed⟩
  rcases hfed.loops with ⟨phase, hloops⟩
  have hjobs := hfed.jobs
  have hlength := congrArg List.length hjobs
  have hle := hfed.inHand_le
  rw [List.length_append, List.length_map, List.length_map] at hlength
  refine ⟨queue, phase, hat, hloops, hfed.drivers, ⟨queue.inHand, hjobs⟩, ?_, by omega, ?_⟩
  · rw [← hjobs]
    unfold Queue.inHand
    rw [hloops]
    simp
  · intro x hx s' w hhandle hfetches
    rcases h.fed_at hlaunch hqueue hfed₁ hlive hx with ⟨queue', hqueue', hdispatching⟩
    exact fetches_of_handle hqueue' hdispatching hhandle hfetches

/-- Two clients ask a queue that has room for one job; one of them gets the first job, the other one
gives up. The loop has taken two more by then, as many as it may. -/
theorem queue_hands_off_in_order_past_impatient_client :
    let registry : Registry Work := Registry.empty.register "sample" 0 fun _ => some (.drill .blank)
    let setUp : List (Event Work) := [
      .request (.addBackend (.inMemory registry .oldestFirst .standard) ⟨"driver", 0, []⟩),
      .request (.addQueue ⟨1, 50, 0⟩), .request (.setDriver 0 0),
      .request (.put 0 9 (Backend.sampleJob "first")),
      .request (.put 0 9 (Backend.sampleJob "second")),
      .request (.put 0 9 (Backend.sampleJob "third"))]
    let inTime : List (Event Work) := [.request (.next 0 9), .request (.next 0 9),
      .move (.loop 0 0 .proceed), .move (.loop 0 0 .proceed), .move (.loop 0 0 .proceed),
      .move (.call 0 .proceed)]
    let late : List (Event Work) :=
      [.move (.call 1 .timeOut), .move (.loop 0 0 .proceed), .move (.loop 0 0 .proceed)]
    ∃ past early since s₀ s₁ s₂ s, setUp.foldlM chronicle ([], .empty 0) = some (past, s₀) ∧
      s₀.handle (.request (.dispatch 0 8)) = some s₁ ∧
      inTime.foldlM chronicle ([], s₁) = some (early, s₂) ∧
      late.foldlM chronicle (early, { s₂ with clock := 60000000 }) = some (since, s) ∧
      (received 0 since).map (fun x => (x.1, x.2.id)) = [(.call 0, "first")] ∧
      (takings 0 since).map (fun t => t.job.id) = ["first", "second", "third"] ∧
      (received 0 since).map Prod.snd <+: (takings 0 since).map Taking.stamped := by
  intro registry setUp inTime late
  have hrun : ((setUp.foldlM chronicle ([], (.empty 0 : System Work))).any fun x =>
      (x.2.handle (.request (.dispatch 0 8))).any fun s₁ =>
        (inTime.foldlM chronicle ([], s₁)).any fun y =>
          (late.foldlM chronicle (y.1, { y.2 with clock := 60000000 })).any fun z =>
            (s₁.queues[0]?).any fun queue => queue.loops.any fun l =>
              (z.1.all fun v => !v.1.isCancelled l.token) &&
              (((x.2, .request (.dispatch 0 8)) :: x.1).all fun v : System Work × Event Work =>
                (v.1.queues[0]?).all fun queue => queue.loops.isEmpty) &&
              decide ((received 0 z.1).map (fun x => (x.1, x.2.id)) = [(.call 0, "first")] ∧
                (takings 0 z.1).map (fun t => t.job.id) = ["first", "second", "third"])) = true := by
    decide +kernel
  rcases (Option.any_eq_true _ _).mp hrun with ⟨x, hx, hrest⟩
  rcases (Option.any_eq_true _ _).mp hrest with ⟨s₁, hlaunch, hrest⟩
  rcases (Option.any_eq_true _ _).mp hrest with ⟨y, hy, hrest⟩
  rcases (Option.any_eq_true _ _).mp hrest with ⟨z, hz, hrest⟩
  rcases (Option.any_eq_true _ _).mp hrest with ⟨queue, hqueue, hrest⟩
  rcases List.any_eq_true.mp hrest with ⟨l, hl, hchecks⟩
  simp only [Bool.and_eq_true, List.all_eq_true, decide_eq_true_eq] at hchecks
  rcases hchecks with ⟨⟨hlive, hfirst⟩, hreceived, htakings⟩
  have hlaunched : History 0 ([] ++ (x.2, .request (.dispatch 0 8)) :: x.1) s₁ :=
    (history_of_chronicle hx).event hlaunch
  have hearly := hlaunched.chronicle hy
  have hhistory := (hearly.clock 60000000).chronicle hz
  have hloops : ∀ v ∈ (x.2, .request (.dispatch 0 8)) :: x.1, ∀ queue, v.1.queues[0]? = some queue →
      queue.loops = [] := fun v hmem => loops_of_all (hfirst v hmem)
  have hlive' : ∀ v ∈ z.1, v.1.isCancelled l.token = false := by
    intro v hmem
    simpa using hlive v hmem
  rcases queue_hands_off_in_order hhistory hloops hlaunch hqueue hl hlive' with
    ⟨-, -, -, -, -, hprefix, -⟩
  exact ⟨x.1, y.1, z.1, x.2, s₁, y.2, z.2, hx, hlaunch, hy, hz, hreceived, htakings, hprefix⟩

/-- A client asks a queue that has no loop, and is about to ask the driver when a loop is launched. It
gets a job that this loop never took. -/
theorem job_received_past_loop :
    let registry : Registry Work := Registry.empty.register "sample" 0 fun _ => some (.drill .blank)
    let setUp : List (Event Work) := [
      .request (.addBackend (.inMemory registry .oldestFirst .standard) ⟨"driver", 0, []⟩),
      .request (.addQueue ⟨1, 50, 0⟩), .request (.setDriver 0 0),
      .request (.put 0 9 (Backend.sampleJob "job")), .request (.next 0 9)]
    ∃ past since s₀ s₁ s queue l, setUp.foldlM chronicle ([], .empty 0) = some (past, s₀) ∧
      s₀.handle (.request (.dispatch 0 8)) = some s₁ ∧
      [.move (.call 0 .proceed)].foldlM chronicle ([], s₁) = some (since, s) ∧
      (∀ x ∈ (s₀, .request (.dispatch 0 8)) :: past, ∀ queue, x.1.queues[0]? = some queue →
        queue.loops = []) ∧
      s₁.queues[0]? = some queue ∧ l ∈ queue.loops ∧
      (∀ x ∈ since, x.1.isCancelled l.token = false) ∧
      (since.reverse.flatMap fun x => x.1.receipts 0 x.2).map (fun x => (x.1, x.2.id)) =
        [(.call 0, "job")] ∧
      takings 0 since = [] ∧
      ¬ (since.reverse.flatMap fun x => x.1.receipts 0 x.2).map Prod.snd <+:
        (takings 0 since).map Taking.stamped := by
  intro registry setUp
  have hrun : ((setUp.foldlM chronicle ([], (.empty 0 : System Work))).any fun x =>
      (x.2.handle (.request (.dispatch 0 8))).any fun s₁ =>
        ([.move (.call 0 .proceed)].foldlM chronicle ([], s₁)).any fun y =>
          (s₁.queues[0]?).any fun queue => queue.loops.any fun l =>
            (y.1.all fun v => !v.1.isCancelled l.token) &&
            (((x.2, .request (.dispatch 0 8)) :: x.1).all fun v : System Work × Event Work =>
              (v.1.queues[0]?).all fun queue => queue.loops.isEmpty) &&
            decide ((y.1.reverse.flatMap fun x => x.1.receipts 0 x.2).map
              (fun x => (x.1, x.2.id)) = [(.call 0, "job")]) &&
            (takings 0 y.1).isEmpty) = true := by
    decide +kernel
  rcases (Option.any_eq_true _ _).mp hrun with ⟨x, hx, hrest⟩
  rcases (Option.any_eq_true _ _).mp hrest with ⟨s₁, hlaunch, hrest⟩
  rcases (Option.any_eq_true _ _).mp hrest with ⟨y, hy, hrest⟩
  rcases (Option.any_eq_true _ _).mp hrest with ⟨queue, hqueue, hrest⟩
  rcases List.any_eq_true.mp hrest with ⟨l, hl, hchecks⟩
  simp only [Bool.and_eq_true, List.all_eq_true, decide_eq_true_eq, List.isEmpty_iff] at hchecks
  rcases hchecks with ⟨⟨⟨hlive, hfirst⟩, hreceived⟩, hnone⟩
  have hloops : ∀ v ∈ (x.2, .request (.dispatch 0 8)) :: x.1, ∀ queue,
      v.1.queues[0]? = some queue → queue.loops = [] := fun v hmem => loops_of_all (hfirst v hmem)
  have hlive' : ∀ v ∈ y.1, v.1.isCancelled l.token = false := by
    intro v hmem
    simpa using hlive v hmem
  refine ⟨x.1, y.1, x.2, s₁, y.2, queue, l, hx, hlaunch, hy, hloops, hqueue, hl, hlive', hreceived,
    hnone, ?_⟩
  intro hprefix
  rw [hnone] at hprefix
  rw [List.map_eq_nil_iff.mp (List.prefix_nil.mp hprefix)] at hreceived
  cases hreceived

end System
end LeaseQueue
