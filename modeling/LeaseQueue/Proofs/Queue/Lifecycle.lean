import LeaseQueue.Proofs.Queue.Errands
/-!
# Lifecycle of a queue

A queue is set up, started once, and stays started. Until then its driver and its
runner may be replaced, and a start that fails leaves it as it was. A start that
succeeds has yet to launch its dispatch loop, which nothing can keep it from. A loop
may also be launched without a start, under any token, but never beside another one.
-/

namespace LeaseQueue

variable {β : Type}

/-- The request has been done, or what is left to do has become a call. -/
def Response.succeeds : Response β → Bool
  | .done (.ok _) | .call _ => true
  | _ => false

def Queue.ready? (queue : Queue β) : Option (Nat × Runner) :=
  if queue.started then none else queue.driver.bind fun d => queue.runner.map fun r => (d, r)

namespace System

variable (s : System β) (q : Nat)

/-- The driver and the runner of a queue that an event starts: the queue has not started, and a
request to start it succeeds. -/
def startedWith? : Event β → Option (Nat × Runner)
  | .request (.start q' token) =>
      if q' = q ∧ (s.start q token).1.succeeds = true then (s.queues[q]?).bind Queue.ready? else none
  | _ => none

/-- What an event may do to a queue, which may not be there yet. -/
inductive Turn : Event β → Option (Queue β) → Option (Queue β) → Prop where
  | absent {e : Event β} : Turn e none none
  | added {settings : QueueSettings} {p : Nat} :
      Turn (.request (.addQueue settings)) none (some (.idle settings p))
  /-- The outline of the queue stays. -/
  | keeps {e : Event β} {queue queue' : Queue β} :
      (∀ token, e ≠ .request (.start q token)) → queue'.outline = queue.outline →
      Turn e (some queue) (some queue')
  | setsDriver {queue : Queue β} {d : Nat} : queue.started = false →
      Turn (.request (.setDriver q d)) (some queue) (some { queue with driver := some d })
  | setsRunner {queue : Queue β} {r : Option Runner} : queue.started = false →
      Turn (.request (.setRunner q r)) (some queue) (some { queue with runner := r })
  /-- A start that fails, or that comes too late. -/
  | stays {queue : Queue β} {token : Nat} :
      queue.started = true ∨ (∃ err, (s.start q token).1 = .done (.error err)) →
      Turn (.request (.start q token)) (some queue) (some queue)
  | starts {queue : Queue β} {d token c : Nat} {r : Runner} : queue.started = false →
      queue.driver = some d → queue.runner = some r → (s.start q token).1 = .call c →
      Turn (.request (.start q token)) (some queue) (some { queue with started := true })
  | launches {e : Event β} {queue : Queue β} {d token : Nat} : e.Launches s q d token →
      Turn e (some queue) (some (queue.launchLoop d token))
  | dispatches {queue : Queue β} {d token : Nat} :
      Turn (.request (.dispatch q token)) (some queue) (some (queue.launchLoop d token))
  | ends {queue : Queue β} {i : Nat} : i < queue.loops.length →
      Turn (.move (.loop q i .giveUp)) (some queue) (some (queue.endLoop i))

variable {s q} {s' : System β} {e : Event β} {queue : Queue β}

/-!
## Events
-/

theorem turn_of_outline (hstart : ∀ token, e ≠ .request (.start q token))
    (houtline : s'.outline = s.outline) : s.Turn q e s.queues[q]? s'.queues[q]? := by
  have hqueues : s'.queues.map Queue.outline = s.queues.map Queue.outline :=
    congrArg Prod.fst houtline
  have hat := congrArg (fun l : List (Queue β) => l[q]?) hqueues
  simp only [List.getElem?_map] at hat
  cases hqueue : s.queues[q]? with
  | none =>
      rw [hqueue] at hat
      rw [Option.map_eq_none_iff.mp hat]
      exact .absent
  | some queue =>
      rw [hqueue] at hat
      rcases Option.map_eq_some_iff.mp hat with ⟨queue', hqueue', hsame⟩
      rw [hqueue']
      exact .keeps hstart hsame

theorem turn_of_queues (hstart : ∀ token, e ≠ .request (.start q token))
    (hqueues : s'.queues = s.queues) : s.Turn q e s.queues[q]? s'.queues[q]? := by
  rw [hqueues]
  cases s.queues[q]? with
  | none => exact .absent
  | some queue => exact .keeps hstart rfl

theorem turn_of_modify (q' : Nat) {f : Queue β → Queue β}
    (hqueues : s'.queues = s.queues.modify q' f)
    (hother : q' ≠ q → ∀ token, e ≠ .request (.start q token))
    (hself : ∀ queue, q' = q → s.queues[q]? = some queue → s.Turn q e (some queue) (some (f queue))) :
    s.Turn q e s.queues[q]? s'.queues[q]? := by
  rw [hqueues, List.getElem?_modify]
  cases hqueue : s.queues[q]? with
  | none => exact .absent
  | some queue =>
      by_cases hq : q' = q
      · simp only [Option.map_eq_map, Option.map_some, if_pos hq]
        exact hself queue hq hqueue
      · simp only [Option.map_eq_map, Option.map_some, if_neg hq]
        exact .keeps (hother hq) rfl

theorem turn_of_setDriver (q' d : Nat) :
    s.Turn q (.request (.setDriver q' d)) s.queues[q]? (s.setDriver q' d).2.queues[q]? := by
  unfold setDriver
  split
  · rename_i queue hqueue
    split
    · exact turn_of_queues (by simp) rfl
    · rename_i hidle
      refine turn_of_modify q' rfl (by simp) ?_
      rintro queue' rfl hqueue'
      cases hqueue.symm.trans hqueue'
      exact .setsDriver (by simpa using hidle)
  · exact turn_of_queues (by simp) rfl

theorem turn_of_setRunner (q' : Nat) (r : Option Runner) :
    s.Turn q (.request (.setRunner q' r)) s.queues[q]? (s.setRunner q' r).2.queues[q]? := by
  unfold setRunner
  split
  · rename_i queue hqueue
    split
    · exact turn_of_queues (by simp) rfl
    · rename_i hidle
      refine turn_of_modify q' rfl (by simp) ?_
      rintro queue' rfl hqueue'
      cases hqueue.symm.trans hqueue'
      exact .setsRunner (by simpa using hidle)
  · exact turn_of_queues (by simp) rfl

theorem turn_of_start (q' token : Nat) :
    s.Turn q (.request (.start q' token)) s.queues[q]? (s.start q' token).2.queues[q]? := by
  cases hqueue' : s.queues[q']? with
  | none =>
      have hsame : s.start q' token = s.finished := by
        unfold System.start
        rw [hqueue']
      rw [hsame]
      by_cases hq : q' = q
      · subst hq
        show s.Turn q' _ s.queues[q']? s.queues[q']?
        rw [hqueue']
        exact .absent
      · exact turn_of_queues (by simpa using hq) rfl
  | some queue =>
      -- A start that changes no queue.
      have hstays : (s.start q' token).2.queues = s.queues →
          queue.started = true ∨ (∃ err, (s.start q' token).1 = .done (.error err)) →
          s.Turn q (.request (.start q' token)) s.queues[q]? (s.start q' token).2.queues[q]? := by
        intro hqueues hwhy
        by_cases hq : q' = q
        · subst hq
          rw [hqueues, hqueue']
          exact .stays hwhy
        · exact turn_of_queues (by simpa using hq) hqueues
      cases starting hqueue' token with
      | fails err s' hstart hqueues hpools _ hready =>
          rw [hstart] at hstays
          rw [hstart]
          exact hstays hqueues (Or.inr ⟨err, rfl⟩)
      | idles hstarted hstart =>
          rw [hstart] at hstays
          rw [hstart]
          exact hstays rfl (Or.inl hstarted)
      | succeeds d r s₁ s₂ hidle hdriver hrunner hopen hrun hstart =>
          have hanswer : (s.start q' token).1 = .call s₂.calls.length := congrArg Prod.fst hstart
          rw [congrArg Prod.snd hstart]
          have hqueues : (s₂.beginCall (.launch q' d token)).2.queues =
              s.queues.modify q' fun queue => { queue with started := true } :=
            (parts_of_started hopen hrun).1
          refine turn_of_modify q' hqueues (by intro hq; simpa using hq) ?_
          rintro queue' rfl hqueue''
          cases hqueue'.symm.trans hqueue''
          exact .starts hidle hdriver hrunner hanswer

theorem turn_of_dispatch (q' token : Nat) :
    s.Turn q (.request (.dispatch q' token)) s.queues[q]? (s.dispatch q' token).2.queues[q]? := by
  unfold dispatch
  split
  · exact turn_of_queues (by simp) rfl
  · rename_i d hdriver
    split
    · rename_i hopen
      exact turn_of_queues (by simp) (parts_of_viaDriver hopen).1
    · rename_i s₁ hopen
      have hqueues : (s₁.launchLoop q' d token).queues =
          s.queues.modify q' fun queue => queue.launchLoop d token := by
        show s₁.queues.modify q' _ = _
        rw [(parts_of_viaDriver hopen).1]
      refine turn_of_modify q' hqueues (by simp) ?_
      rintro queue rfl _
      exact .dispatches

variable [Body β]

theorem turn_of_addQueue (settings : QueueSettings) :
    s.Turn q (.request (.addQueue settings)) s.queues[q]?
      (s.perform (.addQueue settings)).2.queues[q]? := by
  show s.Turn q _ s.queues[q]? (s.queues ++ [Queue.idle settings s.pools.length])[q]?
  by_cases hlt : q < s.queues.length
  · rw [List.getElem?_append_left hlt, List.getElem?_eq_getElem hlt]
    exact .keeps (by simp) rfl
  · have hle := Nat.le_of_not_lt hlt
    rw [List.getElem?_append_right hle, List.getElem?_eq_none hle]
    cases hsub : q - s.queues.length with
    | zero => exact .added
    | succ n => exact .absent

/-- An event does one of these things to a queue. -/
theorem turn_of_handle (q : Nat) (hhandle : s.handle e = some s') :
    s.Turn q e s.queues[q]? s'.queues[q]? := by
  cases e with
  | tick =>
      refine turn_of_outline (by simp) ?_
      exact outline_handle (by simp) (by simp [Event.Launches]) (by simp) hhandle
  | files present =>
      refine turn_of_outline (by simp) ?_
      exact outline_handle (by simp) (by simp [Event.Launches]) (by simp) hhandle
  | move move =>
      by_cases hlaunch : ∃ q' d token, Event.Launches s (.move move) q' d token
      · rcases hlaunch with ⟨q', d, token, hlaunches⟩
        rcases handle_launches hlaunches hhandle with ⟨c, rfl⟩
        refine turn_of_modify q' rfl (by simp) ?_
        rintro queue rfl _
        exact .launches hlaunches
      have hkeeps : ∀ q' d token, ¬ Event.Launches s (.move move) q' d token :=
        fun q' d token hlaunches => hlaunch ⟨q', d, token, hlaunches⟩
      by_cases hend : ∃ q' i, move = .loop q' i .giveUp
      · rcases hend with ⟨q', i, rfl⟩
        have hstep : s.loopStep q' i .giveUp = some s' := hhandle
        unfold loopStep at hstep
        simp only [Option.bind_eq_bind, Option.bind_eq_some_iff] at hstep
        rcases hstep with ⟨queue, hqueue, l, hl, hstep⟩
        split at hstep <;> cases hstep
        refine turn_of_modify q' rfl (by simp) ?_
        rintro queue' rfl hqueue'
        cases hqueue.symm.trans hqueue'
        exact .ends (List.getElem?_eq_some_iff.mp hl).1
      · refine turn_of_outline (by simp) (outline_handle (by simp) hkeeps ?_ hhandle)
        intro q' i heq
        cases heq
        exact hend ⟨q', i, rfl⟩
  | request r =>
      by_cases hr : r.Shapes
      · cases hhandle
        cases r with
        | addPool size millis => exact turn_of_queues (by simp) rfl
        | addQueue settings => exact turn_of_addQueue settings
        | setDriver q' d => exact turn_of_setDriver q' d
        | setRunner q' r => exact turn_of_setRunner q' r
        | start q' token => exact turn_of_start q' token
        | dispatch q' token => exact turn_of_dispatch q' token
        | startPool p token jobs d =>
            refine turn_of_queues (by simp) ?_
            have hpool := (parts_startPool s p token (.jobs jobs d)).1
            unfold perform
            dsimp only
            split
            · rename_i hcall
              rw [hcall] at hpool
              exact hpool
            · rename_i hcall
              rw [hcall] at hpool
              exact hpool
        | _ => exact hr.elim
      · refine turn_of_outline ?_ (outline_handle ?_ (by simp [Event.Launches]) (by simp) hhandle)
        · rintro token heq
          cases heq
          exact hr trivial
        · intro r' heq
          cases heq
          exact hr

/-!
## Histories
-/

/-- The drivers and runners that a queue was started with, the latest first. -/
def launches (q : Nat) (past : List (System β × Event β)) : List (Nat × Runner) :=
  past.filterMap fun x => x.1.startedWith? q x.2

/-- A queue whose starts are `log`: one loop is alive while the queue dispatches and none else, and
the queue was started once, with the parts that it still has, or not at all. -/
structure Steady (log : List (Nat × Runner)) (queue : Queue β) : Prop where
  loops : queue.loops.length = if queue.dispatching then 1 else 0
  starts : (queue.started = false ∧ log = []) ∨
    ∃ d r, queue.started = true ∧ queue.driver = some d ∧ queue.runner = some r ∧ log = [(d, r)]

def SteadyAt (log : List (Nat × Runner)) : Option (Queue β) → Prop
  | some queue => Steady log queue
  | none => log = []

variable {log : List (Nat × Runner)}

omit [Body β] in
theorem Steady.idle (settings : QueueSettings) (p : Nat) :
    Steady [] (Queue.idle settings p : Queue β) := ⟨rfl, Or.inl ⟨rfl, rfl⟩⟩

omit [Body β] in
theorem Steady.not_started (h : Steady log queue) (hidle : queue.started = false) : log = [] := by
  rcases h.starts with ⟨-, hnone⟩ | ⟨d, r, hstarted, -⟩
  · exact hnone
  · rw [hidle] at hstarted
    cases hstarted

omit [Body β] in
theorem Steady.of_outline {queue' : Queue β} (h : Steady log queue)
    (houtline : queue'.outline = queue.outline) : Steady log queue' := by
  rcases Queue.setup_of_outline houtline with ⟨hdriver, hrunner, hstarted, hdispatching, hlength⟩
  constructor
  · rw [hlength, hdispatching]
    exact h.loops
  · rw [hstarted, hdriver, hrunner]
    exact h.starts

omit [Body β] in
theorem Steady.launchLoop (h : Steady log queue) (d token : Nat) :
    Steady log (queue.launchLoop d token) := by
  have hloops := h.loops
  unfold Queue.launchLoop
  split
  · exact h
  · rename_i hidle
    refine ⟨?_, h.starts⟩
    rw [if_neg hidle] at hloops
    rw [List.length_append, hloops]
    rfl

omit [Body β] in
theorem Steady.endLoop (h : Steady log queue) {i : Nat} (hi : i < queue.loops.length) :
    Steady log (queue.endLoop i) := by
  have hloops := h.loops
  refine ⟨?_, h.starts⟩
  show (queue.loops.eraseIdx i).length = 0
  rw [List.length_eraseIdx_of_lt hi]
  split at hloops <;> omega

omit [Body β] in
theorem startedWith?_eq_none (hstart : ∀ token, e ≠ .request (.start q token)) :
    s.startedWith? q e = none := by
  unfold startedWith?
  split
  · rename_i q' token
    apply if_neg
    rintro ⟨rfl, -⟩
    exact hstart token rfl
  · rfl

omit [Body β] in
theorem startedWith?_absent (hqueue : s.queues[q]? = none) : s.startedWith? q e = none := by
  unfold startedWith?
  split
  · rw [hqueue]
    exact ite_self _
  · rfl

omit [Body β] in
theorem startedWith?_start (hqueue : s.queues[q]? = some queue) (token : Nat) :
    s.startedWith? q (.request (.start q token)) =
      if (s.start q token).1.succeeds = true then queue.ready? else none := by
  unfold startedWith?
  rw [hqueue]
  simp

omit [Body β] in
theorem Turn.steady {x' : Option (Queue β)} (h : s.Turn q e s.queues[q]? x')
    (hsteady : SteadyAt log s.queues[q]?) :
    SteadyAt ((s.startedWith? q e).toList ++ log) x' := by
  generalize hx : s.queues[q]? = x at h hsteady
  cases h with
  | absent =>
      rw [startedWith?_absent hx]
      exact hsteady
  | added =>
      rw [startedWith?_absent hx]
      cases hsteady
      exact Steady.idle _ _
  | keeps hstart houtline =>
      rw [startedWith?_eq_none hstart]
      exact Steady.of_outline hsteady houtline
  | setsDriver hidle =>
      rw [startedWith?_eq_none (by simp)]
      exact ⟨hsteady.loops, Or.inl ⟨hidle, Steady.not_started hsteady hidle⟩⟩
  | setsRunner hidle =>
      rw [startedWith?_eq_none (by simp)]
      exact ⟨hsteady.loops, Or.inl ⟨hidle, Steady.not_started hsteady hidle⟩⟩
  | @stays queue token hwhy =>
      have hnone : (if (s.start q token).1.succeeds = true then queue.ready? else none) = none := by
        rcases hwhy with hstarted | ⟨err, hanswer⟩
        · unfold Queue.ready?
          rw [if_pos hstarted]
          exact ite_self _
        · rw [hanswer]
          rfl
      rw [startedWith?_start hx, hnone]
      exact hsteady
  | @starts queue d token c r hidle hdriver hrunner hanswer =>
      have hready : queue.ready? = some (d, r) := by
        unfold Queue.ready?
        rw [hidle, hdriver, hrunner]
        rfl
      have hnone : log = [] := Steady.not_started hsteady hidle
      rw [startedWith?_start hx, hanswer, hready, hnone]
      exact ⟨hsteady.loops, Or.inr ⟨d, r, rfl, hdriver, hrunner, rfl⟩⟩
  | launches hlaunches =>
      rw [startedWith?_eq_none (hlaunches.not_start q)]
      exact Steady.launchLoop hsteady _ _
  | dispatches =>
      rw [startedWith?_eq_none (by simp)]
      exact Steady.launchLoop hsteady _ _
  | ends hi =>
      rw [startedWith?_eq_none (by simp)]
      exact Steady.endLoop hsteady hi

theorem History.steady {clock : Nat} {past : List (System β × Event β)} (h : History clock past s)
    (q : Nat) : SteadyAt (launches q past) s.queues[q]? := by
  induction h with
  | empty => exact rfl
  | @event past s s' e _ hhandle ih =>
      have hlog : launches q ((s, e) :: past) = (s.startedWith? q e).toList ++ launches q past := by
        unfold launches
        rw [List.filterMap_cons]
        cases s.startedWith? q e <;> rfl
      rw [hlog]
      exact (turn_of_handle q hhandle).steady ih
  | clock t _ ih => exact ih

/-!
## Lifecycles
-/

omit [Body β] in
theorem Turn.of_started {x' : Option (Queue β)} (h : s.Turn q e (some queue) x')
    (hstarted : queue.started = true) : ∃ queue', x' = some queue' ∧ queue'.started = true ∧
      queue'.driver = queue.driver ∧ queue'.runner = queue.runner := by
  have hlaunched : ∀ d token, (queue.launchLoop d token).started = true ∧
      (queue.launchLoop d token).driver = queue.driver ∧
      (queue.launchLoop d token).runner = queue.runner := by
    intro d token
    unfold Queue.launchLoop
    split <;> exact ⟨hstarted, rfl, rfl⟩
  cases h with
  | keeps _ houtline =>
      rcases Queue.setup_of_outline houtline with ⟨hdriver, hrunner, hsame, -⟩
      exact ⟨_, rfl, hsame.trans hstarted, hdriver, hrunner⟩
  | setsDriver hidle => simp [hstarted] at hidle
  | setsRunner hidle => simp [hstarted] at hidle
  | stays _ => exact ⟨queue, rfl, hstarted, rfl, rfl⟩
  | starts hidle => simp [hstarted] at hidle
  | launches _ => exact ⟨_, rfl, hlaunched _ _⟩
  | dispatches => exact ⟨_, rfl, hlaunched _ _⟩
  | ends _ => exact ⟨_, rfl, hstarted, rfl, rfl⟩

omit [Body β] in
theorem Turn.becomes_started {queue' : Queue β} (h : s.Turn q e (some queue) (some queue'))
    (hidle : queue.started = false) (hstarted : queue'.started = true) :
    ∃ token c, e = .request (.start q token) ∧ (s.start q token).1 = .call c := by
  have hnot : ¬ queue.started = true := by simp [hidle]
  have hlaunched : ∀ d token, ¬ (queue.launchLoop d token).started = true := by
    intro d token
    unfold Queue.launchLoop
    split <;> exact hnot
  cases h with
  | keeps _ houtline => exact absurd ((Queue.setup_of_outline houtline).2.2.1 ▸ hstarted) hnot
  | setsDriver _ => exact absurd hstarted hnot
  | setsRunner _ => exact absurd hstarted hnot
  | stays _ => exact absurd hstarted hnot
  | @starts _ d token c r _ _ _ hanswer => exact ⟨token, c, rfl, hanswer⟩
  | launches _ => exact absurd hstarted (hlaunched _ _)
  | dispatches => exact absurd hstarted (hlaunched _ _)
  | ends _ => exact absurd hstarted hnot

/-!
## Launches that are called for
-/

/-- A call that launches a loop is for a queue that has started, with the driver of that queue. -/
def LaunchesOwn (s : System β) : Prop :=
  ∀ (c q d token : Nat), s.calls[c]? = some (.launch q d token) →
    ∃ queue, s.queues[q]? = some queue ∧ queue.started = true ∧ queue.driver = some d

theorem LaunchesOwn.handle (h : s.LaunchesOwn) (hhandle : s.handle e = some s') :
    s'.LaunchesOwn := by
  -- A queue that has started stays so, with its driver, in the calls that there were before.
  have hold : ∀ (c q d token : Nat), s.calls[c]? = some (.launch q d token) →
      ∃ queue, s'.queues[q]? = some queue ∧ queue.started = true ∧ queue.driver = some d := by
    intro c q d token hcall
    rcases h c q d token hcall with ⟨queue, hqueue, hstarted, hdriver⟩
    have hturn := turn_of_handle q hhandle
    rw [hqueue] at hturn
    rcases hturn.of_started hstarted with ⟨queue', hqueue', hstarted', hdriver', -⟩
    exact ⟨queue', hqueue', hstarted', hdriver'.trans hdriver⟩
  intro c q d token hcall
  have herrand : (Call.launch q d token : Call β).errand? = some q := rfl
  rcases errand_of_handle hhandle herrand hcall with hbefore | hfetch | hstart
  · exact hold c q d token hbefore
  · rcases hfetch with ⟨⟨token', heq⟩, -⟩
    cases heq
  · rcases hstart with ⟨d', token', queue, heq, hqueue, hdriver, hqueues⟩
    cases heq
    refine ⟨{ queue with started := true }, ?_, rfl, hdriver⟩
    rw [hqueues, List.getElem?_modify_eq, hqueue]
    rfl

theorem History.launchesOwn {clock : Nat} {past : List (System β × Event β)}
    (h : History clock past s) : s.LaunchesOwn := by
  induction h with
  | empty =>
      intro c q d token hcall
      cases hcall
  | event _ hhandle ih => exact ih.handle hhandle
  | clock t _ ih => exact ih

theorem setDriver_of_started (hqueue : s.queues[q]? = some queue) (hstarted : queue.started = true)
    (d : Nat) : s.perform (.setDriver q d) = (.done (.error .alreadyStarted), s) := by
  show s.setDriver q d = _
  unfold setDriver
  simp only [hqueue]
  exact if_pos hstarted

theorem setRunner_of_started (hqueue : s.queues[q]? = some queue) (hstarted : queue.started = true)
    (r : Option Runner) : s.perform (.setRunner q r) = (.done (.error .alreadyStarted), s) := by
  show s.setRunner q r = _
  unfold setRunner
  simp only [hqueue]
  exact if_pos hstarted

theorem setDriver_of_idle (hqueue : s.queues[q]? = some queue) (hidle : queue.started = false)
    (d : Nat) : (s.perform (.setDriver q d)).1 = .done (.ok ()) := by
  show (s.setDriver q d).1 = _
  unfold setDriver
  simp only [hqueue, hidle]
  rfl

theorem setRunner_of_idle (hqueue : s.queues[q]? = some queue) (hidle : queue.started = false)
    (r : Option Runner) : (s.perform (.setRunner q r)).1 = .done (.ok ()) := by
  show (s.setRunner q r).1 = _
  unfold setRunner
  simp only [hqueue, hidle]
  rfl

theorem callStep_launch {c d token : Nat} (hcall : s.calls[c]? = some (.launch q d token))
    (m : CallMove) (s' : System β) :
    s.handle (.move (.call c m)) = some s' ↔
      m = .proceed ∧ s' = (s.launchLoop q d token).endCall c .started := by
  show s.callStep c m = some s' ↔ _
  unfold callStep
  rw [hcall]
  cases m with
  | proceed =>
      show some ((s.launchLoop q d token).endCall c .started) = some s' ↔ _
      simp [eq_comm]
  | timeOut =>
      show none = some s' ↔ _
      simp
  | giveUp =>
      show none = some s' ↔ _
      simp

/-- Whatever has happened in a system, of each of its queues the following is so. One dispatch loop
of it is alive while it is marked as dispatching, and none else. It was started once, with the driver
and the runner that it has, or it has not started. When it has started, it refuses another driver or
runner, and to start it again does nothing. When it has not, its driver and its runner can be
replaced, and a start either fails and changes neither queues nor pools, or opens its driver, starts
its runner and becomes a call that launches its loop. Such a call comes to its end by one move, and by
no other: it launches a loop on the driver of the queue unless one is alive. Nothing but such a start
makes the queue one that has started, and nothing makes it one that has not. -/
theorem queue_starts_once {clock : Nat} {past : List (System β × Event β)} {s : System β}
    (h : History clock past s) {q : Nat} {queue : Queue β} (hqueue : s.queues[q]? = some queue) :
    queue.loops.length = (if queue.dispatching then 1 else 0) ∧
    ((queue.started = false ∧ launches q past = []) ∨
      ∃ d r, queue.started = true ∧ queue.driver = some d ∧ queue.runner = some r ∧
        launches q past = [(d, r)]) ∧
    (queue.started = true →
      (∀ d, s.perform (.setDriver q d) = (.done (.error .alreadyStarted), s)) ∧
      (∀ r, s.perform (.setRunner q r) = (.done (.error .alreadyStarted), s)) ∧
      ∀ token, s.perform (.start q token) = (.done (.ok ()), s)) ∧
    (queue.started = false →
      (∀ d, (s.perform (.setDriver q d)).1 = .done (.ok ())) ∧
      (∀ r, (s.perform (.setRunner q r)).1 = .done (.ok ())) ∧
      ∀ token,
        (∃ err s', s.perform (.start q token) = (.done (.error err), s') ∧
          s'.queues = s.queues ∧ s'.pools = s.pools) ∨
        ∃ d r s₁ s₂, queue.driver = some d ∧ queue.runner = some r ∧
          s.driverOpen d token = (.ok (), s₁) ∧
          (s₁.setStarted q true).startRunner r token q = (.ok (), s₂) ∧
          s.perform (.start q token) = s₂.beginCall (.launch q d token)) ∧
    (∀ c d token, s.calls[c]? = some (.launch q d token) →
      queue.started = true ∧ queue.driver = some d ∧
      ∀ m s', s.handle (.move (.call c m)) = some s' ↔
        m = .proceed ∧ s' = (s.launchLoop q d token).endCall c .started) ∧
    ∀ e s', s.handle e = some s' → ∃ queue', s'.queues[q]? = some queue' ∧
      (queue.started = true → queue'.started = true ∧ queue'.driver = queue.driver ∧
        queue'.runner = queue.runner) ∧
      (queue.started = false → queue'.started = true →
        ∃ token c, e = .request (.start q token) ∧
          (s.perform (.start q token)).1 = .call c) := by
  have hsteady : Steady (launches q past) queue := by
    have hat := h.steady q
    rw [hqueue] at hat
    exact hat
  refine ⟨hsteady.loops, hsteady.starts, ?_, ?_, ?_, ?_⟩
  · intro hstarted
    refine ⟨setDriver_of_started hqueue hstarted, setRunner_of_started hqueue hstarted, ?_⟩
    intro token
    cases starting hqueue token with
    | idles _ hstart => exact hstart
    | fails err s' hstart _ _ _ hready =>
        rcases hsteady.starts with ⟨hidle, -⟩ | ⟨d, r, -, hdriver, hrunner, -⟩
        · simp [hstarted] at hidle
        · rcases hready hstarted with hnone | hnone
          · simp [hdriver] at hnone
          · simp [hrunner] at hnone
    | succeeds d r s₁ s₂ hidle => simp [hstarted] at hidle
  · intro hidle
    refine ⟨setDriver_of_idle hqueue hidle, setRunner_of_idle hqueue hidle, ?_⟩
    intro token
    cases starting hqueue token with
    | fails err s' hstart hqueues hpools _ _ => exact Or.inl ⟨err, s', hstart, hqueues, hpools⟩
    | idles hstarted _ => simp [hidle] at hstarted
    | succeeds d r s₁ s₂ _ hdriver hrunner hopen hrun hstart =>
        exact Or.inr ⟨d, r, s₁, s₂, hdriver, hrunner, hopen, hrun, hstart⟩
  · intro c d token hcall
    rcases h.launchesOwn c q d token hcall with ⟨queue', hqueue', hstarted, hdriver⟩
    cases hqueue.symm.trans hqueue'
    exact ⟨hstarted, hdriver, callStep_launch hcall⟩
  · intro e s' hhandle
    have hturn := turn_of_handle q hhandle
    rw [hqueue] at hturn
    cases hqueue' : s'.queues[q]? with
    | none =>
        rw [hqueue'] at hturn
        cases hturn
    | some queue' =>
        rw [hqueue'] at hturn
        refine ⟨queue', rfl, ?_, hturn.becomes_started⟩
        intro hstarted
        rcases hturn.of_started hstarted with ⟨queue'', hsome, hkept⟩
        cases hsome
        exact hkept

/-- A queue with a runner that cannot be started stays as it was, and dispatches and starts once it
has another one; the start finds a loop, which ends when the token is cancelled that it was launched
under. -/
theorem queue_starts_once_after_broken_runner :
    let events : List (Event Work) := [
      .request (.addBackend (.inMemory .empty .oldestFirst .standard) ⟨"driver", 0, []⟩),
      .request (.addQueue .standard), .request (.setDriver 0 0),
      .request (.setRunner 0 (some .broken)), .request (.start 0 7),
      .request (.setRunner 0 (some (.pool 0))), .request (.dispatch 0 8), .request (.start 0 7),
      .move (.call 0 .proceed), .request (.cancel 8), .move (.loop 0 0 .giveUp)]
    ∃ past s queue, past.map Prod.snd = events.reverse ∧ History 0 past s ∧
      s.queues[0]? = some queue ∧ queue.started = true ∧ queue.loops.length = 0 ∧
      launches 0 past = [(0, .pool 0)] := by
  intro events
  have hrun : ∃ s, events.foldlM handle (.empty 0) = some s ∧ ∃ queue, s.queues[0]? = some queue ∧
      queue.started = true ∧ queue.driver = some 0 ∧ queue.runner = some (.pool 0) ∧
      queue.dispatching = false := ⟨_, rfl, _, rfl, rfl, rfl, rfl, rfl⟩
  rcases hrun with ⟨s, hevents, queue, hqueue, hstarted, hdriver, hrunner, hdispatching⟩
  rcases History.empty.events hevents with ⟨past, hpast, hhistory⟩
  rw [List.append_nil] at hhistory
  rcases queue_starts_once hhistory hqueue with ⟨hloops, hstarts, -⟩
  refine ⟨past, s, queue, hpast, hhistory, hqueue, hstarted, ?_, ?_⟩
  · rw [hloops, hdispatching]
    rfl
  · rcases hstarts with ⟨hidle, -⟩ | ⟨d, r, -, hd, hr, hlaunches⟩
    · simp [hstarted] at hidle
    · cases hdriver.symm.trans hd
      cases hrunner.symm.trans hr
      exact hlaunches

end System
end LeaseQueue
