import LeaseQueue.Proofs.Queue.Bystanders
/-!
# Inventories

The queues of a system with all they hold, but for those who stand in line, and which pools have
workers: that is the inventory of a system. Only clients change it, and moves that put a job into a
buffer or take one out. All others only change what the mover itself is at, and pass on messages.
-/

namespace LeaseQueue

variable {β : Type}

def Queue.unattended (queue : Queue β) : Queue β := { queue with waiters := [] }

def Move.mover : Move → Option Waiter
  | .worker p i _ => some (.worker p i)
  | .call c _ => some (.call c)
  | _ => none

def Event.mover : Event β → Option Waiter
  | .move m => m.mover
  | _ => none

/-- What a call has counted so far of the jobs of a backend, if it is in the middle of a count. -/
def Call.count? : Call β → Option (Nat × Listing × Tally)
  | .waitAll _ _ _ _ (.counting k l t) => some (k, l, t)
  | _ => none

/-- The queue that a call runs an errand for: it launches the dispatch loop, or asks the driver. -/
def Call.errand? : Call β → Option Nat
  | .launch q _ _ | .fetch q _ => some q
  | _ => none

/-- The call may launch a dispatch loop, or take a job out of a buffer. -/
def Call.Stirs : Call β → Prop
  | .launch .. | .next .. => True
  | _ => False

def Call.IsFresh (call : Call β) : Prop := call.outcome? = none ∧ call.count? = none

namespace System

def Loopless (s : System β) (q : Nat) : Prop :=
  ∀ queue, s.queues[q]? = some queue → queue.dispatching = false

/-- Changes that touch no inventory, and nobody's business but the mover's, except that workers are
told something, calls are told the answer, and new calls begin. -/
inductive Touches (mover : Option Waiter) : System β → System β → Prop where
  | refl (s : System β) : Touches mover s s
  | trans {s s' s'' : System β} :
      Touches mover s s' → Touches mover s' s'' → Touches mover s s''
  | outside {s s' : System β} : s'.queues = s.queues → s'.pools = s.pools → s'.calls = s.calls →
      Touches mover s s'
  | line (s : System β) (q : Nat) {f : Queue β → Queue β} :
      (∀ queue, (f queue).unattended = queue.unattended) → Touches mover s (s.modifyQueue q f)
  | pool (s : System β) (p : Nat) {f : Pool β → Pool β} :
      (∀ pool, (f pool).started = pool.started ∧
        (f pool).workers.map Worker.phase = pool.workers.map Worker.phase) →
      Touches mover s (s.modifyPool p f)
  | worker (s : System β) (p i : Nat) (f : Worker β → Worker β) : mover = some (.worker p i) →
      Touches mover s (s.modifyWorker p i f)
  | call (s : System β) (c : Nat) (call : Call β) : call.errand? = none →
      mover = some (.call c) ∨ call.IsFresh → Touches mover s (s.setCall c call)
  | begins (s : System β) (call : Call β) :
      (∀ q, call.errand? = some q → (∃ token, call = .fetch q token) ∧ s.Loopless q) →
      call.IsFresh → Touches mover s { s with calls := s.calls ++ [call] }

variable {s s' s'' : System β} {mover : Option Waiter} {p i q c : Nat}

/-!
## Single changes
-/

theorem exists_of_viaDriver {α : Type} {k : Nat} {call : DriverCall} {failed a : α}
    {f : Backend β → α × Backend β} (h : s.viaDriver k call failed f = (a, s')) :
    ∃ drivers backends, s' = { s with drivers := drivers, backends := backends } := by
  unfold viaDriver at h
  split at h
  · cases h
    exact ⟨s.drivers, s.backends, rfl⟩
  · dsimp only at h
    split at h
    · cases h
      exact ⟨_, s.backends, rfl⟩
    · split at h <;> cases h <;> exact ⟨_, _, rfl⟩

theorem parts_of_viaDriver {α : Type} {k : Nat} {call : DriverCall} {failed a : α}
    {f : Backend β → α × Backend β} (h : s.viaDriver k call failed f = (a, s')) :
    s'.queues = s.queues ∧ s'.pools = s.pools := by
  rcases exists_of_viaDriver h with ⟨drivers, backends, rfl⟩
  exact ⟨rfl, rfl⟩

theorem calls_of_viaDriver {α : Type} {k : Nat} {call : DriverCall} {failed a : α}
    {f : Backend β → α × Backend β} (h : s.viaDriver k call failed f = (a, s')) :
    s'.calls = s.calls := by
  rcases exists_of_viaDriver h with ⟨drivers, backends, rfl⟩
  rfl

theorem touches_of_viaDriver {α : Type} {k : Nat} {call : DriverCall} {failed a : α}
    {f : Backend β → α × Backend β} (h : s.viaDriver k call failed f = (a, s')) :
    Touches mover s s' := by
  rcases exists_of_viaDriver h with ⟨drivers, backends, rfl⟩
  exact .outside rfl rfl rfl

theorem touches_viaDriver {α : Type} (s : System β) (k : Nat) (call : DriverCall) (failed : α)
    (f : Backend β → α × Backend β) : Touches mover s (s.viaDriver k call failed f).2 :=
  touches_of_viaDriver rfl

theorem touches_tell (s : System β) (p i : Nat) {f : Worker β → Worker β}
    (hf : ∀ w, (f w).phase = w.phase) : Touches mover s (s.modifyWorker p i f) := by
  apply Touches.pool s p
  intro pool
  exact ⟨rfl, map_modify_of_eq fun w _ => hf w⟩

theorem touches_tellAll (s : System β) (p : Nat) (watching : Bool → Bool)
    {f : Worker β → Worker β} (hf : ∀ w, (f w).phase = w.phase) :
    Touches mover s (s.modifyPool p fun pool =>
      { pool with workers := pool.workers.map f, watching := watching pool.watching }) := by
  apply Touches.pool s p
  intro pool
  refine ⟨rfl, ?_⟩
  show (pool.workers.map f).map Worker.phase = _
  rw [List.map_map]
  exact List.map_congr_left fun w _ => hf w

theorem touches_enterLine (s : System β) (q : Nat) (w : Waiter) :
    Touches mover s (s.modifyQueue q fun queue => queue.enterLine w) := .line s q fun _ => rfl

theorem Touches.turn (h : Touches (some (.worker p i)) s s') (f : Worker β → Worker β) :
    Touches (some (.worker p i)) s (s'.modifyWorker p i f) := h.trans (.worker s' p i f rfl)

theorem Touches.settle (h : Touches (some (.call c)) s s') {call : Call β}
    (hcall : call.errand? = none) : Touches (some (.call c)) s (s'.setCall c call) :=
  h.trans (.call s' c call hcall (Or.inl rfl))

theorem Touches.leave (h : Touches mover s s') (q : Nat) (w : Waiter) :
    Touches mover s (s'.modifyQueue q fun queue => queue.leaveLine w) :=
  h.trans (.line s' q fun _ => rfl)

/-!
## Moves of workers
-/

theorem touches_turn (s : System β) (p i : Nat) (f : Worker β → Worker β) :
    Touches (some (.worker p i)) s (s.modifyWorker p i f) := .worker s p i f rfl

theorem touches_handleMessage {pool : Pool β} {w : Worker β}
    (h : s.handleMessage p i pool w = some s') : Touches (some (.worker p i)) s s' := by
  unfold handleMessage at h
  split at h
  · cases h
  · split at h
    · cases h
      exact touches_turn s p i _
    · split at h
      · cases h
      · dsimp only at h
        split at h <;> cases h
        · exact (touches_turn s p i _).turn _
        · unfold answerIdle
          split
          · split
            · exact (touches_turn s p i _).trans (.call _ _ _ rfl (Or.inr ⟨rfl, rfl⟩))
            · exact touches_turn s p i _
          · exact touches_turn s p i _
        · exact (touches_turn s p i _).turn _

theorem touches_askSource {pool : Pool β} (h : s.askSource p i pool = some s') :
    Touches (some (.worker p i)) s s' := by
  unfold askSource at h
  split at h
  · cases h
  · cases h
    exact touches_turn s p i _
  · rename_i j left k _
    cases h
    have htaken : Touches (some (.worker p i)) s
        (s.modifyPool p fun pool => { pool with source := some (.jobs left k) }) :=
      .pool s p fun _ => ⟨rfl, rfl⟩
    exact htaken.turn _
  · simp only [Option.bind_eq_bind, Option.bind_eq_some_iff] at h
    rcases h with ⟨queue, -, h⟩
    cases h
    unfold askQueue
    split
    · exact (touches_enterLine s _ _).turn _
    · exact touches_turn s p i _

theorem touches_fetchJob (s : System β) (p i : Nat) (pool : Pool β) :
    Touches (some (.worker p i)) s (s.fetchJob p i pool) := by
  unfold fetchJob restWorker
  split
  · exact touches_turn s p i _
  · split
    · rename_i hcall
      exact (touches_of_viaDriver hcall).turn _
    · rename_i hcall
      exact (touches_of_viaDriver hcall).turn _

theorem touches_stopWaiting (s : System β) (p i : Nat) (pool : Pool β) :
    Touches (some (.worker p i)) s (s.stopWaiting p i pool) := by
  unfold stopWaiting restWorker
  dsimp only
  split
  · exact ((Touches.refl s).leave _ _).turn _
  · exact touches_turn s p i _

theorem touches_claimCandidate [Body β] (s : System β) (p i : Nat) (pool : Pool β)
    (candidate : Job β) : Touches (some (.worker p i)) s (s.claimCandidate p i pool candidate) := by
  unfold claimCandidate
  split
  · exact touches_turn s p i _
  · split
    · exact touches_turn s p i _
    · dsimp only
      split
      · rename_i hcall
        exact (touches_of_viaDriver hcall).turn _
      · rename_i hcall
        exact (touches_of_viaDriver hcall).turn _
      · rename_i hcall
        exact (touches_of_viaDriver hcall).turn _

theorem touches_loadJob (s : System β) (p i : Nat) (pool : Pool β) (claim : Claim) :
    Touches (some (.worker p i)) s (s.loadJob p i pool claim) := by
  unfold loadJob
  split
  · rename_i hcall
    split
    · exact (touches_of_viaDriver hcall).turn _
    · exact (touches_of_viaDriver hcall).turn _
  · rename_i hcall
    exact (touches_of_viaDriver hcall).turn _

theorem touches_checkDependency [Body β] (s : System β) (p i : Nat) (pool : Pool β) (claim : Claim)
    (j : Job β) (left : List String) (known : List (String × Option Bool)) :
    Touches (some (.worker p i)) s (s.checkDependency p i pool claim j left known) := by
  unfold checkDependency
  cases left with
  | cons e left =>
      have hget : Touches (some (.worker p i)) s (s.driverGet claim.driver pool.token e).2 :=
        touches_viaDriver s _ _ _ _
      exact hget.turn _
  | nil =>
      dsimp only
      split
      · apply Touches.turn
        exact .outside rfl rfl rfl
      · exact touches_turn s p i _
      · exact touches_turn s p i _
      · exact touches_turn s p i _

theorem touches_renewLock [Body β] (s : System β) (p i : Nat) (pool : Pool β) (claim : Claim)
    (j : Job β) (endsAt : Nat) :
    Touches (some (.worker p i)) s (s.renewLock p i pool claim j endsAt) := by
  unfold renewLock
  split
  · rename_i hcall
    exact (touches_of_viaDriver hcall).turn _
  · rename_i hcall
    exact (touches_of_viaDriver hcall).turn _
  · rename_i hcall
    exact (touches_of_viaDriver hcall).turn _

theorem touches_storeJob [Body β] (s : System β) (p i : Nat) (pool : Pool β) (claim : Claim)
    (j : Job β) (counts : Bool) :
    Touches (some (.worker p i)) s (s.storeJob p i pool claim j counts) := by
  unfold storeJob
  split
  · rename_i hcall
    exact (touches_of_viaDriver hcall).turn _
  · rename_i hcall
    exact (touches_of_viaDriver hcall).turn _

theorem touches_releaseJob (s : System β) (p i : Nat) (pool : Pool β) (claim : Claim) :
    Touches (some (.worker p i)) s (s.releaseJob p i pool claim) := by
  unfold releaseJob
  split
  · rename_i hcall
    exact (touches_of_viaDriver hcall).turn _
  · rename_i hcall
    exact (touches_of_viaDriver hcall).turn _

theorem touches_workerStep [Body β] {move : WorkerMove} (hmove : move ≠ .take)
    (h : s.workerStep p i move = some s') : Touches (some (.worker p i)) s s' := by
  unfold workerStep at h
  simp only [Option.bind_eq_bind, Option.bind_eq_some_iff] at h
  rcases h with ⟨pool, -, w, -, h⟩
  -- The cases are the moves in the order of their phases; no other move can be made.
  split at h
  · exact touches_handleMessage h
  · exact touches_askSource h
  · split at h <;> cases h
    exact touches_turn s p i _
  · cases h
    exact touches_fetchJob s p i pool
  · split at h <;> cases h
    exact touches_turn s p i _
  · exact absurd rfl hmove
  · split at h <;> cases h
    exact touches_stopWaiting s p i pool
  · split at h <;> cases h
    exact touches_stopWaiting s p i pool
  · cases h
    exact touches_claimCandidate s p i pool _
  · cases h
    exact touches_loadJob s p i pool _
  · cases h
    exact touches_checkDependency s p i pool _ _ _ _
  · split at h <;> cases h
    exact touches_turn s p i _
  · split at h <;> cases h
    exact touches_renewLock s p i pool _ _ _
  · split at h <;> cases h
    exact touches_turn s p i _
  · cases h
    exact touches_storeJob s p i pool _ _ _
  · cases h
    exact touches_releaseJob s p i pool _
  · cases h

/-!
## Moves of calls and keepers
-/

theorem touches_ringAlarm (h : s.ringAlarm p i = some s') : Touches mover s s' := by
  unfold ringAlarm at h
  simp only [Option.bind_eq_bind, Option.bind_eq_some_iff] at h
  rcases h with ⟨pool, -, w, -, alarms, -, h⟩
  cases h
  exact touches_tell s p i fun w => Worker.tell_phase { w with alarms := alarms } .poll

theorem touches_watchPool (h : s.watchPool p = some s') : Touches mover s s' := by
  unfold watchPool at h
  simp only [Option.bind_eq_bind, Option.bind_eq_some_iff] at h
  rcases h with ⟨pool, -, h⟩
  split at h <;> cases h
  exact touches_tellAll s p (fun _ => false) Worker.halt_phase

theorem touches_settle (s : System β) (c : Nat) {call : Call β} (hcall : call.errand? = none) :
    Touches (some (.call c)) s (s.setCall c call) := .call s c call hcall (Or.inl rfl)

theorem touches_leaveForCall (s : System β) (c q : Nat) :
    Touches (some (.call c)) s (s.leaveForCall c q) :=
  ((Touches.refl s).leave q (.call c)).settle rfl

theorem touches_lookAtJob (s : System β) (c q token : Nat) (id : String) (interval : Nat)
    (limit : Option Nat) :
    Touches (some (.call c)) s (s.lookAtJob c q token id interval limit) := by
  unfold lookAtJob endCall
  split
  · exact touches_settle s c rfl
  · split
    rename_i j s₁ hlook
    have hlooked : Touches (some (.call c)) s s₁ := by
      split at hlook
      · cases hlook
        exact .refl s
      · exact touches_of_viaDriver hlook
    dsimp only
    split
    · split
      · exact hlooked.settle rfl
      · exact hlooked.settle rfl
    · exact hlooked.settle rfl

theorem touches_countIdle {n : Nat} {asked : Option Nat} {answer : Option Bool}
    (h : s.countIdle c p i n asked answer = some s') : Touches (some (.call c)) s s' := by
  unfold countIdle at h
  simp only [Option.bind_eq_bind, Option.bind_eq_some_iff] at h
  rcases h with ⟨pool, -, h⟩
  split at h
  · cases h
    exact touches_settle s c rfl
  · split at h
    · cases h
      exact touches_settle s c rfl
    · split at h <;> cases h
      · exact touches_settle s c rfl
      · have htold : Touches (some (.call c)) s (s.tell p i (.isIdle c)) :=
          touches_tell s p i fun w => w.tell_phase _
        exact htold.settle rfl
    · split at h <;> cases h
      exact touches_settle s c rfl

theorem touches_fetchForCall (s : System β) (c q token : Nat) :
    Touches (some (.call c)) s (s.fetchForCall c q token) := by
  unfold fetchForCall
  split
  · exact touches_settle s c rfl
  · exact (touches_viaDriver s _ _ _ _).settle rfl

theorem touches_proceedCall {call : Call β} (hcall : ¬ call.Stirs)
    (h : s.proceedCall c call = some s') : Touches (some (.call c)) s s' := by
  cases call with
  | launch q k token => exact absurd trivial hcall
  | next q token deadline => exact absurd trivial hcall
  | fetch q token =>
      cases h
      exact touches_fetchForCall s c q token
  | idle p i n asked answer => exact touches_countIdle h
  | sleep deadline =>
      unfold proceedCall at h
      dsimp only at h
      split at h <;> cases h
      exact touches_settle s c rfl
  | waitAll q token interval limit stage =>
      unfold proceedCall at h
      dsimp only at h
      split at h
      · cases h
        split <;> exact touches_settle s c rfl
      · cases h
        split <;> exact touches_settle s c rfl
      · split at h <;> cases h
        exact touches_settle s c rfl
  | waitJob q token id interval limit stage =>
      unfold proceedCall at h
      dsimp only at h
      split at h
      · split at h <;> cases h
        exact touches_settle s c rfl
      · cases h
        exact touches_lookAtJob s c q token id interval limit
  | _ => cases h

theorem touches_timeOutCall {call : Call β} (h : s.timeOutCall c call = some s') :
    Touches (some (.call c)) s s' := by
  unfold timeOutCall at h
  split at h
  · split at h <;> cases h
    exact touches_leaveForCall s c _
  · split at h <;> cases h
    exact touches_settle s c rfl
  · split at h <;> cases h
    exact touches_settle s c rfl
  · split at h <;> cases h
    exact touches_settle s c rfl
  · cases h

theorem touches_giveUpCall {call : Call β} (h : s.giveUpCall c call = some s') :
    Touches (some (.call c)) s s' := by
  unfold giveUpCall at h
  split at h
  · split at h <;> cases h
    exact touches_leaveForCall s c _
  · split at h <;> cases h
    exact touches_settle s c rfl
  · split at h <;> cases h
    exact touches_settle s c rfl
  · cases h

theorem touches_callStep {move : CallMove}
    (hmove : move = .proceed → ∀ call, s.calls[c]? = some call → ¬ call.Stirs)
    (h : s.callStep c move = some s') : Touches (some (.call c)) s s' := by
  unfold callStep at h
  simp only [Option.bind_eq_bind, Option.bind_eq_some_iff] at h
  rcases h with ⟨call, hcall, h⟩
  cases move with
  | timeOut => exact touches_timeOutCall h
  | giveUp => exact touches_giveUpCall h
  | proceed => exact touches_proceedCall (hmove rfl call hcall) h

end System

/-!
## Requests
-/

def Request.Shapes : Request β → Prop
  | .addPool .. | .addQueue .. | .setDriver .. | .setRunner .. | .start .. | .dispatch ..
  | .startPool .. => True
  | _ => False

namespace System

variable {s s' : System β} {mover : Option Waiter}

theorem touches_stored {r : Except StoreError Unit × System β} (h : Touches mover s r.2) :
    Touches mover s (stored r).2 := by
  rw [stored_snd]
  exact h

theorem touches_turned {r : LockChange StoreError Unit × System β} (h : Touches mover s r.2) :
    Touches mover s (turned r).2 := by
  rw [turned_snd]
  exact h

theorem touches_perform [Body β] {r : Request β} (hr : ¬ r.Shapes) :
    Touches mover s (s.perform r).2 := by
  cases r with
  | addPool size millis => exact absurd trivial hr
  | addQueue settings => exact absurd trivial hr
  | setDriver q d => exact absurd trivial hr
  | setRunner q r => exact absurd trivial hr
  | start q token => exact absurd trivial hr
  | dispatch q token => exact absurd trivial hr
  | startPool p token jobs d => exact absurd trivial hr
  | addBackend b d => exact .outside rfl rfl rfl
  | addDriver d => exact .outside rfl rfl rfl
  | put q token j =>
      unfold perform
      dsimp only
      split
      · exact .refl s
      · exact touches_stored (touches_viaDriver s _ _ _ _)
  | get q token id =>
      unfold perform
      dsimp only
      split
      · exact .refl s
      · exact touches_viaDriver s _ _ _ _
  | tally q token =>
      unfold perform
      dsimp only
      split <;> exact .refl s
  | infos q token =>
      unfold perform
      dsimp only
      split <;> exact .refl s
  | shutdown p => exact touches_tellAll s p id fun w => w.tell_phase _
  | cancel token => exact .outside rfl rfl rfl
  | openDriver k token => exact touches_stored (touches_viaDriver s _ _ _ _)
  | closeDriver k =>
      show Touches mover s (s.driverClose k)
      unfold driverClose
      split
      · exact .refl s
      · exact .outside rfl rfl rfl
  | saveVia k token j => exact touches_stored (touches_viaDriver s _ _ _ _)
  | getVia k token id =>
      show Touches mover s (s.driverGet k token id).2
      exact touches_viaDriver s _ _ _ _
  | nextVia k token =>
      show Touches mover s (s.driverNext k token).2
      exact touches_viaDriver s _ _ _ _
  | lockVia k token id owner => exact touches_turned (touches_viaDriver s _ _ _ _)
  | unlockVia k token id owner => exact touches_turned (touches_viaDriver s _ _ _ _)
  | tallyVia k token => exact .refl s
  | next q token =>
      show Touches mover s (s.beginNext q token).2
      unfold beginNext
      split
      · exact .refl s
      · rename_i queue hqueue
        split
        · exact (touches_enterLine s q _).trans (.begins _ _ nofun ⟨rfl, rfl⟩)
        · rename_i hidle
          refine .begins s _ ?_ ⟨rfl, rfl⟩
          rintro q' heq
          cases heq
          refine ⟨⟨token, rfl⟩, fun queue' hqueue' => ?_⟩
          cases hqueue.symm.trans hqueue'
          simpa using hidle
  | sleep millis => exact .begins s _ nofun ⟨rfl, rfl⟩
  | countIdle p => exact .begins s _ nofun ⟨rfl, rfl⟩
  | waitAll q token interval limit => exact .begins s _ nofun ⟨rfl, rfl⟩
  | waitJob q token id interval limit => exact .begins s _ nofun ⟨rfl, rfl⟩

end System

/-!
## Events
-/

/-- What may put a job into a buffer or take one out, and what sets up, starts or launches
something. -/
def Event.Stirs (s : System β) : Event β → Prop
  | .request r => r.Shapes
  | .tick => False
  | .files _ => False
  | .move (.worker _ _ m) => m = .take
  | .move (.alarm _ _) => False
  | .move (.watch _) => False
  | .move (.loop _ _ _) => True
  | .move (.call c m) => m = .proceed ∧ ∃ call, s.calls[c]? = some call ∧ call.Stirs

namespace System

variable {s s' : System β} {mover : Option Waiter}

theorem touches_handle [Body β] {e : Event β} (hstirs : ¬ e.Stirs s) (h : s.handle e = some s') :
    Touches e.mover s s' := by
  cases e with
  | request r =>
      cases h
      exact touches_perform hstirs
  | tick =>
      have htick : s.tick = some s' := h
      unfold tick at htick
      split at htick
      · rcases Option.map_eq_some_iff.mp htick with ⟨t, -, rfl⟩
        exact .outside rfl rfl rfl
      · cases htick
  | files present =>
      cases h
      exact .outside rfl rfl rfl
  | move move =>
      cases move with
      | worker p i m => exact touches_workerStep hstirs h
      | alarm p i => exact touches_ringAlarm h
      | watch p => exact touches_watchPool h
      | loop q i m => exact absurd trivial hstirs
      | call c m =>
          refine touches_callStep ?_ h
          intro hm call hcall hstirring
          exact hstirs ⟨hm, call, hcall, hstirring⟩

/-- The queues without those who stand in line, and of each pool whether it has started and the number
of its workers. -/
def inventory (s : System β) : List (Queue β) × List (Bool × Nat) :=
  (s.queues.map Queue.unattended, s.pools.map fun pool => (pool.started, pool.workers.length))

theorem inventory_modifyPool (s : System β) (p : Nat) {f : Pool β → Pool β}
    (hf : ∀ pool, (f pool).started = pool.started ∧ (f pool).workers.length = pool.workers.length) :
    (s.modifyPool p f).inventory = s.inventory := by
  unfold inventory modifyPool
  rw [map_modify_of_eq fun pool _ => Prod.ext_iff.mpr (hf pool)]

theorem Touches.inventory (h : Touches mover s s') : s'.inventory = s.inventory := by
  induction h with
  | refl => rfl
  | trans _ _ ih ih' => exact ih'.trans ih
  | outside hqueues hpools _ =>
      unfold System.inventory
      rw [hqueues, hpools]
  | line s q hf =>
      unfold System.inventory modifyQueue
      rw [map_modify_of_eq fun queue _ => hf queue]
  | pool s p hf =>
      apply inventory_modifyPool s p
      intro pool
      have hlength := congrArg List.length (hf pool).2
      rw [List.length_map, List.length_map] at hlength
      exact ⟨(hf pool).1, hlength⟩
  | worker s p i f _ =>
      exact inventory_modifyPool s p fun pool => ⟨rfl, List.length_modify _ _ _⟩
  | call => rfl
  | begins => rfl

theorem Loopless.of_inventory {q : Nat} (h : s'.Loopless q) (hsame : s'.inventory = s.inventory) :
    s.Loopless q := by
  intro queue hqueue
  have hqueues : s'.queues.map Queue.unattended = s.queues.map Queue.unattended :=
    (Prod.ext_iff.mp hsame).1
  have hat := congrArg (fun l : List (Queue β) => l[q]?) hqueues
  simp only [List.getElem?_map, hqueue] at hat
  rcases Option.map_eq_some_iff.mp hat with ⟨queue', hqueue', hsame'⟩
  exact (congrArg Queue.dispatching hsame').symm.trans (h queue' hqueue')

end System
end LeaseQueue
