import LeaseQueue.Proofs.Queue.Resting
import LeaseQueue.Proofs.Queue.Staffing
/-!
# Workers that poll on

A worker has one message to poll. It stands in the mailbox, or it is planned for a moment, or the
worker is handling it; whatever takes it from one of these places puts it into another one, until the
worker is told to stop or breaks down. So a worker that is not ending can move, or a moment will come
that it waits for.
-/

namespace LeaseQueue

variable {β : Type}

def Phase.polls : Phase β → Nat
  | .resting => 0
  | _ => 1

theorem Phase.polls_of_seeks {phase : Phase β} (h : phase.seeks = true) : phase.polls = 1 := by
  cases phase with
  | resting => cases h
  | _ => rfl

theorem Phase.polls_of_job? {phase : Phase β} (h : phase.job? ≠ none) : phase.polls = 1 := by
  cases phase with
  | resting => exact absurd rfl h
  | _ => rfl

theorem Phase.job?_of_seeks {phase : Phase β} (h : phase.seeks = true) : phase.job? = none := by
  cases phase with
  | asking => rfl
  | fetching => rfl
  | waiting deadline => rfl
  | _ => cases h

namespace Worker

/-- The messages to poll that a worker has: in its mailbox, planned, and being handled. -/
def polls (w : Worker β) : Nat := w.mailbox.count .poll + w.alarms.length + w.phase.polls

def isEnding (w : Worker β) : Bool := w.stopping || w.stopped

variable {w w' : Worker β} {o : Occasion} {why : Prop}

/-!
## What is told to a worker
-/

theorem polls_tell {m : Message} (hm : m ≠ .poll) : (w.tell m).polls = w.polls := by
  unfold tell
  split
  · rfl
  · unfold polls
    simp [List.count_append, hm]

theorem isEnding_of_stopped (hstopped : w.stopped = true) : w.isEnding = true := by
  unfold isEnding
  simp [hstopped]

theorem isEnding_tell (m : Message) : (w.tell m).isEnding = w.isEnding := by
  unfold tell
  split <;> rfl

theorem currentJob_tell (m : Message) : (w.tell m).currentJob = w.currentJob := by
  unfold tell
  split <;> rfl

theorem polls_tell_poll (w : Worker β) : (w.tell .poll).polls = w.polls + 1 ∨
    ((w.tell .poll).isEnding = true ∧ (w.tell .poll).polls = w.polls) := by
  unfold tell
  split
  · rename_i hstopped
    exact Or.inr ⟨isEnding_of_stopped hstopped, rfl⟩
  · refine Or.inl ?_
    unfold polls
    simp only [List.count_append, List.count_singleton_self]
    omega

theorem isEnding_crash : w.crash.isEnding = true := isEnding_of_stopped rfl

theorem polls_erase {t : Nat} (ht : t ∈ w.alarms) :
    { w with alarms := w.alarms.erase t }.polls + 1 = w.polls := by
  have hpos := List.length_pos_of_mem ht
  unfold polls
  rw [List.length_erase_of_mem ht]
  dsimp only
  omega

theorem polls_rest {m : Message} {rest : List Message} (hmailbox : w.mailbox = m :: rest)
    (hm : m ≠ .poll) : { w with mailbox := rest }.polls = w.polls := by
  unfold polls
  rw [hmailbox]
  simp [hm]

theorem mem_mailbox_tell {m m' : Message} (h : m' ∈ (w.tell m).mailbox) :
    m' ∈ w.mailbox ∨ m' = m := by
  unfold tell at h
  split at h
  · exact Or.inl h
  · rcases List.mem_append.mp h with hold | hnew
    · exact Or.inl hold
    · exact Or.inr (List.mem_singleton.mp hnew)

theorem polls_halt : w.halt.polls = w.polls := by
  unfold halt
  split <;> rfl

theorem isEnding_halt : w.halt.isEnding = true := by
  unfold halt
  split
  · rename_i hstopped
    exact isEnding_of_stopped hstopped
  · rfl

theorem currentJob_halt : w.halt.currentJob = w.currentJob := by
  unfold halt
  split <;> rfl

/-!
## Changes of a worker
-/

theorem Change.polls (h : w.Change o w') :
    w'.polls = w.polls ∨ (w'.isEnding = true ∧ w'.polls ≤ w.polls) := by
  cases h with
  | keeps => exact Or.inl rfl
  | told hm => exact Or.inl (polls_tell hm)
  | @rings t ht =>
      have hplanned := polls_erase ht
      rcases polls_tell_poll { w with alarms := w.alarms.erase t } with hmore | ⟨hending, hsame⟩
      · exact Or.inl (hmore.trans hplanned)
      · exact Or.inr ⟨hending, by omega⟩
  | halts => exact Or.inl polls_halt
  | stops => exact Or.inr ⟨by simp [isEnding, stop], Nat.zero_le _⟩
  | asks hphase hmailbox =>
      refine Or.inl ?_
      unfold Worker.polls goto
      rw [hphase, hmailbox]
      simp [Phase.polls]
      omega
  | heeds hphase hmailbox =>
      refine Or.inr ⟨isEnding_halt, ?_⟩
      rw [polls_halt]
      unfold Worker.polls
      rw [hmailbox]
      simp
  | answers hmailbox => exact Or.inl (polls_rest hmailbox nofun)
  | leaves hmailbox => exact Or.inl (polls_halt.trans (polls_rest hmailbox nofun))
  | waits deadline hphase =>
      refine Or.inl ?_
      unfold Worker.polls goto
      rw [Phase.polls_of_seeks hphase]
      rfl
  | fetches hphase =>
      refine Or.inl ?_
      unfold Worker.polls goto
      rw [Phase.polls_of_seeks hphase]
      rfl
  | rests moment hphase =>
      refine Or.inl ?_
      unfold Worker.polls sleepUntil
      rw [Phase.polls_of_seeks hphase, List.length_append]
      rfl
  | takesUp j hphase =>
      refine Or.inl ?_
      unfold Worker.polls takeUp
      rw [Phase.polls_of_seeks hphase]
      rfl
  | goesOn phase completed hbusy hsame =>
      refine Or.inl ?_
      have hbusy' : phase.job? ≠ none := hsame ▸ hbusy
      unfold Worker.polls
      rw [Phase.polls_of_job? hbusy, ← Phase.polls_of_job? hbusy']
  | finishes hbusy =>
      refine Or.inl ?_
      unfold Worker.polls finishJob
      rw [Phase.polls_of_job? hbusy, List.count_append]
      simp [Phase.polls]
      omega
  | crashes => exact Or.inr ⟨isEnding_crash, Nat.zero_le _⟩

theorem Change.isEnding (h : w.Change o w') (hending : w.isEnding = true) :
    w'.isEnding = true := by
  cases h with
  | told => exact (isEnding_tell _).trans hending
  | rings => exact (isEnding_tell _).trans hending
  | halts => exact isEnding_halt
  | stops => simp [Worker.isEnding, stop]
  | heeds => exact isEnding_halt
  | leaves => exact isEnding_halt
  | crashes => exact isEnding_crash
  | _ => exact hending

theorem Change.currentJob (h : w.Change o w') (hjob : w.currentJob = w.phase.job?) :
    w'.currentJob = w'.phase.job? := by
  cases h with
  | keeps => exact hjob
  | told =>
      rw [currentJob_tell, tell_phase]
      exact hjob
  | rings =>
      rw [currentJob_tell, tell_phase]
      exact hjob
  | halts =>
      rw [currentJob_halt, halt_phase]
      exact hjob
  | stops hphase => exact hjob.trans (by rw [hphase]; rfl)
  | asks hphase => exact hjob.trans (by rw [hphase]; rfl)
  | heeds =>
      rw [currentJob_halt, halt_phase]
      exact hjob
  | answers => exact hjob
  | leaves =>
      rw [currentJob_halt, halt_phase]
      exact hjob
  | waits deadline hphase => exact hjob.trans (Phase.job?_of_seeks hphase)
  | fetches hphase => exact hjob.trans (Phase.job?_of_seeks hphase)
  | rests moment hphase => exact hjob.trans (Phase.job?_of_seeks hphase)
  | takesUp => rfl
  | goesOn phase completed hbusy hsame => exact hjob.trans hsame.symm
  | finishes => rfl
  | crashes => rfl

def IsWarned (w : Worker β) : Prop := w.isEnding = true ∨ .shutdown ∈ w.mailbox

theorem IsWarned.of_tell {m : Message} (h : (w.tell m).IsWarned) : w.IsWarned ∨ m = .shutdown := by
  rcases h with hending | hmem
  · rw [isEnding_tell] at hending
    exact Or.inl (Or.inl hending)
  · rcases mem_mailbox_tell hmem with hold | hnew
    · exact Or.inl (Or.inr hold)
    · exact Or.inr hnew.symm

theorem IsWarned.of_rest {m : Message} {rest : List Message} (hmailbox : w.mailbox = m :: rest)
    (h : { w with mailbox := rest }.IsWarned) : w.IsWarned := by
  refine h.imp_right fun hmem => ?_
  rw [hmailbox]
  exact List.mem_cons_of_mem _ hmem

theorem Change.warned_cases (h : w.Change o w') (hwarned : w'.IsWarned) :
    w.IsWarned ∨ o.called ∨ o.dismissed ∨ o.broken := by
  cases h with
  | told hm hdismissed =>
      rcases hwarned.of_tell with hbefore | hshutdown
      · exact Or.inl hbefore
      · exact Or.inr (Or.inr (Or.inl (hdismissed hshutdown)))
  | rings ht =>
      rcases hwarned.of_tell with hbefore | hshutdown
      · exact Or.inl hbefore
      · cases hshutdown
  | halts hcalled => exact Or.inr (Or.inl hcalled)
  | stops hphase hstopping => exact Or.inl (Or.inl (by unfold Worker.isEnding; simp [hstopping]))
  | asks hphase hmailbox => exact Or.inl (.of_rest hmailbox hwarned)
  | heeds hphase hmailbox hcalled => exact Or.inr (Or.inl hcalled)
  | answers hmailbox => exact Or.inl (.of_rest hmailbox hwarned)
  | leaves hmailbox =>
      refine Or.inl (Or.inr ?_)
      rw [hmailbox]
      exact List.mem_cons_self
  | crashes _ hbroken => exact Or.inr (Or.inr (Or.inr hbroken))
  | finishes =>
      refine Or.inl (hwarned.imp_right fun hmem => ?_)
      rcases List.mem_append.mp hmem with hold | hnew
      · exact hold
      · cases List.mem_singleton.mp hnew
  | _ => exact Or.inl hwarned

/-- A worker has one message to poll at most, and just one until it is ending, for the reason given. -/
structure Polling (why : Prop) (w : Worker β) : Prop where
  atMost : w.polls ≤ 1
  one : w.isEnding = false → w.polls = 1
  job : w.currentJob = w.phase.job?
  warned : w.IsWarned → why

theorem Polling.fresh (why : Prop) : Polling why (.fresh : Worker β) where
  atMost := Nat.le_refl 1
  one := fun _ => rfl
  job := rfl
  warned := by
    rintro (hending | hmem)
    · cases hending
    · cases List.mem_singleton.mp hmem

theorem Polling.change {why' : Prop} (h : Polling why w) (hchange : w.Change o w')
    (hkept : why → why') (hcalled : o.called → why') (hdismissed : o.dismissed → why')
    (hbroken : o.broken → why') : Polling why' w' where
  atMost := by
    rcases hchange.polls with hsame | ⟨-, hle⟩
    · exact hsame ▸ h.atMost
    · exact Nat.le_trans hle h.atMost
  one := by
    intro hgoing
    rcases hchange.polls with hsame | ⟨hending, -⟩
    · rw [hsame]
      apply h.one
      rw [Bool.eq_false_iff]
      intro hended
      simp [hchange.isEnding hended] at hgoing
    · simp [hending] at hgoing
  job := hchange.currentJob h.job
  warned := by
    intro hwarned
    rcases hchange.warned_cases hwarned with hbefore | hnow | hnow | hnow
    · exact hkept (h.warned hbefore)
    · exact hcalled hnow
    · exact hdismissed hnow
    · exact hbroken hnow

end Worker

namespace System

variable {s s' : System β} {e : Event β} {p i : Nat} {pool : Pool β} {w : Worker β}
variable {past : List (System β × Event β)}

/-!
## Workers that can move
-/

def HasSource (s : System β) (pool : Pool β) : Prop :=
  ∃ source, pool.source = some source ∧ ∀ q, source.queue? = some q → q < s.queues.length

theorem askSource_ne_none (hsource : s.HasSource pool) : s.askSource p i pool ≠ none := by
  rcases hsource with ⟨source, hsource, hqueue⟩
  unfold askSource
  rw [hsource]
  cases source with
  | jobs left d => cases left <;> simp
  | queue q => simp [List.getElem?_eq_getElem (hqueue q rfl)]

theorem handleMessage_ne_none (hgoing : w.isEnding = false) (hmailbox : w.mailbox ≠ []) :
    s.handleMessage p i pool w ≠ none := by
  unfold Worker.isEnding at hgoing
  rcases Bool.or_eq_false_iff.mp hgoing with ⟨hstopping, hstopped⟩
  unfold handleMessage
  rw [hstopping, hstopped]
  cases hcase : w.mailbox with
  | nil => exact absurd hcase hmailbox
  | cons m rest => cases m <;> simp

variable [Body β]

theorem canMove_alarm (hpool : s.pools[p]? = some pool) (hworker : pool.workers[i]? = some w)
    {t : Nat} (halarms : w.alarms = [t]) (hdue : t ≤ s.clock) : s.canMove (.alarm p i) = true := by
  have hring : s.ringAlarm p i ≠ none := by
    unfold ringAlarm withoutDue
    simp [hpool, hworker, halarms, hdue]
  unfold canMove
  rw [Option.isSome_iff_ne_none]
  intro hnone
  exact hring (List.findSome?_eq_none_iff.mp hnone (.alarm p i) List.mem_cons_self)

/-- A worker that has a message to poll and was not told to stop can move, or the message can reach it,
or it waits for a moment to come. -/
theorem moves_or_waits (hpool : s.pools[p]? = some pool) (hworker : pool.workers[i]? = some w)
    (hsource : s.HasSource pool) (hgoing : w.isEnding = false) (hone : w.polls = 1) :
    s.canMove (.worker p i) = true ∨ s.canMove (.alarm p i) = true ∨
      ∃ t ∈ w.deadlines, s.clock < t := by
  have hmove : ∀ move, s.workerStep p i move ≠ none → s.canMove (.worker p i) = true := by
    intro move hstep
    unfold canMove
    rw [Option.isSome_iff_ne_none]
    exact fun hnone => hstep (workerStep_of_advance hnone move)
  have hwait : ∀ t ∈ w.deadlines, ∀ move, (t ≤ s.clock → s.workerStep p i move ≠ none) →
      s.canMove (.worker p i) = true ∨ s.canMove (.alarm p i) = true ∨
        ∃ t ∈ w.deadlines, s.clock < t := by
    intro t ht move hstep
    rcases Nat.lt_or_ge s.clock t with hfuture | hdue
    · exact Or.inr (Or.inr ⟨t, ht, hfuture⟩)
    · exact Or.inl (hmove move (hstep hdue))
  cases hphase : w.phase with
  | resting =>
      -- The message to poll is in the mailbox, or it is planned.
      by_cases hmailbox : w.mailbox = []
      · have hlength : w.alarms.length = 1 := by
          unfold Worker.polls at hone
          rw [hmailbox, hphase] at hone
          simpa [Phase.polls] using hone
        rcases List.length_eq_one_iff.mp hlength with ⟨t, halarms⟩
        rcases Nat.lt_or_ge s.clock t with hfuture | hdue
        · exact Or.inr (Or.inr ⟨t, by simp [Worker.deadlines, halarms], hfuture⟩)
        · exact Or.inr (Or.inl (canMove_alarm hpool hworker halarms hdue))
      · refine Or.inl (hmove .handle ?_)
        have hhandle : s.handleMessage p i pool w ≠ none := handleMessage_ne_none hgoing hmailbox
        simpa [workerStep, hpool, hworker, hphase] using hhandle
  | asking =>
      refine Or.inl (hmove .proceed ?_)
      have hask : s.askSource p i pool ≠ none := askSource_ne_none hsource
      simpa [workerStep, hpool, hworker, hphase] using hask
  | waiting deadline =>
      refine hwait deadline (by simp [Worker.deadlines, hphase]) .timeOut fun hdue => ?_
      simp [workerStep, hpool, hworker, hphase, hdue]
  | running claim j endsAt renewAt =>
      refine hwait endsAt (by simp [Worker.deadlines, hphase]) .finish fun hdue => ?_
      simp [workerStep, hpool, hworker, hphase, hdue]
  | _ => exact Or.inl (hmove .proceed (by simp [workerStep, hpool, hworker, hphase]))

/-!
## Histories
-/

omit [Body β] in
theorem HasSource.of_source {pool' : Pool β} (h : s.HasSource pool)
    (hsource : pool'.source.map Source.queue? = pool.source.map Source.queue?)
    (hqueues : s.queues.length ≤ s'.queues.length) : s'.HasSource pool' := by
  rcases h with ⟨source, hsome, hqueue⟩
  rw [hsome] at hsource
  rcases Option.map_eq_some_iff.mp hsource with ⟨source', hsome', hsame⟩
  refine ⟨source', hsome', fun q hq => Nat.lt_of_lt_of_le ?_ hqueues⟩
  exact hqueue q (hsame ▸ hq)

theorem queues_length_le (h : s.handle e = some s') : s.queues.length ≤ s'.queues.length := by
  apply Nat.le_of_not_lt
  intro hlt
  have hturn := turn_of_handle s'.queues.length h
  rw [List.getElem?_eq_getElem hlt, List.getElem?_eq_none (Nat.le_refl _)] at hturn
  cases hturn

/-- There was an event when the token was cancelled, or a request to shut the pool down. -/
def CalledOff (past : List (System β × Event β)) (p token : Nat) : Prop :=
  ∃ x ∈ past, x.1.isCancelled token = true ∨ x.2 = .request (.shutdown p)

/-- There was an event in which a worker broke down, since a change of a lock broke off. -/
def BrokeDown (past : List (System β × Event β)) (p i : Nat) : Prop :=
  ∃ x ∈ past, x.1.BreaksDown p i x.2

/-- A pool has as many workers as it is to have once it has started, and a source for them. All of them
poll, and none was warned to stop unless they were called off or it broke down. -/
structure Staffed (past : List (System β × Event β)) (s : System β) (p : Nat) (pool : Pool β) :
    Prop where
  size : pool.started = true → pool.workers.length = pool.size
  source : pool.started = true → s.HasSource pool
  polling : ∀ (i : Nat) w, pool.workers[i]? = some w →
    w.Polling (CalledOff past p pool.token ∨ BrokeDown past p i)

theorem Staffed.handle (h : ∀ pool, s.pools[p]? = some pool → Staffed past s p pool)
    (hhandle : s.handle e = some s') (hpool : s'.pools[p]? = some pool) :
    Staffed ((s, e) :: past) s' p pool := by
  have hqueues := queues_length_le hhandle
  have hshift := shifts_handle hhandle p
  generalize hbefore : s.pools[p]? = before at hshift
  rw [hpool] at hshift
  cases hshift with
  | added size millis =>
      refine ⟨fun hstarted => ?_, fun hstarted => ?_, fun i w hw => ?_⟩
      · cases hstarted
      · cases hstarted
      · cases hw
  | @works pool₀ workers source watching hlength hworkers hsource =>
      have hstaffed := h pool₀ hbefore
      refine ⟨?_, ?_, ?_⟩
      · intro hstarted
        exact hlength.trans (hstaffed.size hstarted)
      · intro hstarted
        exact (hstaffed.source hstarted).of_source hsource hqueues
      · intro i w' hw'
        have hlt : i < pool₀.workers.length := hlength ▸ (List.getElem?_eq_some_iff.mp hw').1
        have hw := List.getElem?_eq_getElem hlt
        refine (hstaffed.polling i _ hw).change (hworkers i _ w' hw hw') ?_ ?_ ?_ ?_
        · rintro (⟨x, hx, hwhy⟩ | ⟨x, hx, hwhy⟩)
          · exact Or.inl ⟨x, List.mem_cons_of_mem _ hx, hwhy⟩
          · exact Or.inr ⟨x, List.mem_cons_of_mem _ hx, hwhy⟩
        · exact fun hcancelled => Or.inl ⟨(s, e), List.mem_cons_self, Or.inl hcancelled⟩
        · exact fun hshutdown => Or.inl ⟨(s, e), List.mem_cons_self, Or.inr hshutdown⟩
        · exact fun hbroken => Or.inr ⟨(s, e), List.mem_cons_self, hbroken⟩
  | @starts pool₀ token source hidle hsource =>
      refine ⟨fun _ => List.length_replicate, fun _ => ⟨source, rfl, ?_⟩, ?_⟩
      · exact fun q hq => Nat.lt_of_lt_of_le (hsource q hq) hqueues
      · intro i w hw
        rw [List.eq_of_mem_replicate (List.mem_of_getElem? hw)]
        exact .fresh _

theorem History.staffed {clock : Nat} (h : History clock past s)
    (hpool : s.pools[p]? = some pool) : Staffed past s p pool := by
  induction h generalizing pool with
  | empty => cases hpool
  | event _ hhandle ih => exact Staffed.handle (fun _ => ih) hhandle hpool
  | clock t _ ih =>
      have hstaffed := ih hpool
      exact ⟨hstaffed.size, hstaffed.source, hstaffed.polling⟩

/-- Whatever has happened in a system, a pool that has started has all its workers. Each of them has
one message to poll until it is ending, and no second one ever. Its current job is the one that it was
given and is not done with, and there is none when it is at no job. It is ending only when its token was
cancelled or its pool was shut down, or when it broke down on a lock; until then it can move, or the
message can reach it, or it waits for a moment to come. -/
theorem workers_poll_on {clock : Nat} {past : List (System β × Event β)} {s : System β}
    (h : History clock past s) {p : Nat} {pool : Pool β} (hpool : s.pools[p]? = some pool)
    (hstarted : pool.started = true) :
    pool.workers.length = pool.size ∧
    ∀ i w, pool.workers[i]? = some w →
      w.polls ≤ 1 ∧
      w.currentJob = w.phase.job? ∧
      (w.isEnding = true → CalledOff past p pool.token ∨ BrokeDown past p i) ∧
      (w.isEnding = false → w.polls = 1 ∧
        (s.canMove (.worker p i) = true ∨ s.canMove (.alarm p i) = true ∨
          ∃ t ∈ w.deadlines, s.clock < t)) := by
  have hstaffed := h.staffed hpool
  refine ⟨hstaffed.size hstarted, fun i w hworker => ?_⟩
  have hpolling := hstaffed.polling i w hworker
  refine ⟨hpolling.atMost, hpolling.job, fun hending => hpolling.warned (Or.inl hending), ?_⟩
  intro hgoing
  have hone := hpolling.one hgoing
  exact ⟨hone, moves_or_waits hpool hworker (hstaffed.source hstarted) hgoing hone⟩

/-- A pool of two is given one job and is shut down. The first worker is still at the job, with the
requests in its mailbox; the second one, which has found none, is told to stop. -/
theorem workers_poll_on_of_shutdown :
    let events : List (Event Work) := [.request (.addPool 2 100),
      .request (.startPool 0 7 [Backend.sampleJob "job"] none),
      .move (.worker 0 0 .handle), .move (.worker 0 0 .proceed),
      .move (.worker 0 1 .handle), .move (.worker 0 1 .proceed),
      .request (.countIdle 0), .move (.call 0 .proceed), .request (.shutdown 0),
      .move (.worker 0 1 .handle)]
    ∃ past s pool w w', past.map Prod.snd = events.reverse ∧ History 0 past s ∧
      s.pools[0]? = some pool ∧ pool.workers = [w, w'] ∧
      w.isEnding = false ∧ w.mailbox = [.isIdle 0, .shutdown] ∧ w.polls = 1 ∧
      w.currentJob = some "job" ∧
      w'.isEnding = true ∧ w'.polls ≤ 1 ∧ w'.currentJob = none ∧
      (CalledOff past 0 7 ∨ BrokeDown past 0 1) := by
  intro events
  have hrun : ∃ s, events.foldlM handle (.empty 0) = some s ∧ ∃ pool w w',
      s.pools[0]? = some pool ∧ pool.started = true ∧ pool.token = 7 ∧ pool.workers = [w, w'] ∧
      w.isEnding = false ∧ w.mailbox = [.isIdle 0, .shutdown] ∧ w.phase.job? = some "job" ∧
      w'.isEnding = true ∧ w'.phase.job? = none :=
    ⟨_, rfl, _, _, _, rfl, rfl, rfl, rfl, rfl, rfl, rfl, rfl, rfl⟩
  rcases hrun with ⟨s, hevents, pool, w, w', hpool, hstarted, htoken, hworkers, hgoing, hmailbox, hjob,
    hending, hjob'⟩
  rcases History.empty.events hevents with ⟨past, hpast, hhistory⟩
  rw [List.append_nil] at hhistory
  rcases workers_poll_on hhistory hpool hstarted with ⟨-, hall⟩
  rcases hall 0 w (by rw [hworkers]; rfl) with ⟨-, hcurrent, -, hone⟩
  rcases hall 1 w' (by rw [hworkers]; rfl) with ⟨hatMost, hcurrent', hwhy, -⟩
  exact ⟨past, s, pool, w, w', hpast, hhistory, hpool, hworkers, hgoing, hmailbox, (hone hgoing).1,
    hcurrent.trans hjob, hending, hatMost, hcurrent'.trans hjob', htoken ▸ hwhy hending⟩

end System
end LeaseQueue
