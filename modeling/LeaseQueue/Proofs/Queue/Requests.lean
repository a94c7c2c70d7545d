import LeaseQueue.Queue.Request
import LeaseQueue.Proofs.Queue.Placing
import LeaseQueue.Proofs.Queue.Rewiring
/-!
# Requests as steps of a crew

What a client may ask where each queue works over the one store, through a
driver and with a pool of its own, and where owner names of workers are left to
the workers. Such a request is a step of the crew, or it cancels a token.
-/

namespace LeaseQueue

variable {β : Type}

namespace Request

def saved? : Request β → Option (Job β)
  | .put _ _ j => some j
  | .saveVia _ _ j => some j
  | _ => none

def Cancels : Request β → Prop
  | .cancel _ => True
  | _ => False

/-- A request that keeps to the rules: there is one backend, drivers have names of their own, a queue
gets a driver of its own and starts a pool of its own whose workers have owner names in `owners`, and
nothing is saved, locked or unlocked under such a name. -/
def Orderly (owners : String → Prop) (s : System β) : Request β → Prop
  | .addBackend _ _ => False
  | .addDriver driver =>
      driver.backend = 0 ∧ driver.outages = [] ∧
        ∀ driver' ∈ s.drivers, driver'.name ≠ driver.name
  | .setDriver q d => d < s.drivers.length ∧ ∀ q', q' ≠ q → s.queueDriver q' ≠ some d
  | .start q _ =>
      ∀ queue d p pool, s.queues[q]? = some queue → queue.started = false →
        queue.driver = some d → queue.runner = some (.pool p) → s.pools[p]? = some pool →
        pool.started = false ∧ ∀ i, i < pool.size → owners (ownerName (s.driverName d) i)
  | .startPool _ _ _ _ => False
  | .put _ _ j => ¬ owners j.status.owner
  | .saveVia _ _ j => ¬ owners j.status.owner
  | .lockVia _ _ _ owner => ¬ owners owner
  | .unlockVia _ _ _ owner => ¬ owners owner
  | _ => True

theorem orderly_start {owners : String → Prop} {s : System β} {q d p : Nat} {queue : Queue β}
    {pool : Pool β} (token : Nat) (hqueue : s.queues[q]? = some queue)
    (hdriver : queue.driver = some d) (hrunner : queue.runner = some (.pool p))
    (hpool : s.pools[p]? = some pool) (hidle : pool.started = false)
    (hnames : ∀ i, i < pool.size → owners (ownerName (s.driverName d) i)) :
    (start q token : Request β).Orderly owners s := by
  intro queue' d' p' pool' hqueue' _ hdriver' hrunner' hpool'
  rw [hqueue] at hqueue'
  cases hqueue'
  rw [hdriver] at hdriver'
  cases hdriver'
  rw [hrunner] at hrunner'
  cases hrunner'
  rw [hpool] at hpool'
  cases hpool'
  exact ⟨hidle, hnames⟩

end Request

namespace System

variable {b : Backend β} {d : Discipline} {owners : String → Prop}
variable {s s' : System β} {m : Memory}

/-!
## Requests that change the wiring
-/

section

variable [Body β]

theorem Placed.advances_of_rewiring (h : Placed b d owners s m) {saved : Option (Job β)}
    (hsound : s'.wiring.Sound owners) (hextends : s.wiring.Extends s'.wiring)
    (hclock : s'.clock = s.clock) (hcancelled : s'.cancelled = s.cancelled)
    (hbackends : s'.backends = s.backends) (hruns : s'.runs = s.runs)
    (hphases : ∀ p i, s'.phaseAt p i = s.phaseAt p i ∨
      (s.claimAt p i = none ∧ s'.claimAt p i = none)) :
    Advances b d owners saved s s' m := by
  have hplaced : Placed b d owners s' m := by
    refine ⟨hsound, hbackends.trans h.backends, ?_⟩
    intro p i claim hclaim
    rcases hphases p i with hsame | ⟨-, hnone⟩
    · refine Nat.lt_of_lt_of_le (h.claims p i claim ?_) hextends.drivers
      unfold claimAt at *
      rw [← hsame]
      exact hclaim
    · rw [hnone] at hclaim
      cases hclaim
  have heases : (s.crew m).Eases (s'.crew m) := by
    refine ⟨hclock, hruns, hphases, ?_⟩
    intro p i hpresent
    rcases staff_of_phaseAt hpresent with ⟨staff, hstaff, hi⟩
    show s'.ownerAt p i = s.ownerAt p i
    rw [← wiring_ownerAt, ← wiring_ownerAt]
    exact hextends.ownerAt_eq h.wiring hstaff hi
  have hspares : ∀ o, owners o → (Operation.tally : Operation β).Spares o := fun _ _ => trivial
  exact ⟨m, hplaced, hcancelled, .ease .tally heases hspares (fun _ hop => nomatch hop)
    (.none .tally m)⟩

omit [Body β] in
theorem phaseAt_addPool (s : System β) (size millis : Nat) (p i : Nat) :
    ({ s with pools := s.pools ++ [.idle size millis] } : System β).phaseAt p i =
      s.phaseAt p i := by
  unfold phaseAt workerAt
  by_cases hp : p < s.pools.length
  · rw [List.getElem?_append_left hp]
  · have hnone : s.pools[p]? = none := List.getElem?_eq_none (Nat.le_of_not_lt hp)
    rw [hnone]
    cases hnew : (s.pools ++ [.idle size millis])[p]? with
    | none => rfl
    | some pool =>
        rcases getElem?_concat_cases hnew with hold | ⟨-, rfl⟩
        · rw [hnone] at hold
          cases hold
        · rfl

omit [Body β] in
theorem wiring_addPool (s : System β) (size millis : Nat) :
    ({ s with pools := s.pools ++ [.idle size millis] } : System β).wiring =
      s.wiring.addPool := by
  simp [wiring, Wiring.addPool, Pool.staff, Pool.idle]

omit [Body β] in
theorem wiring_addQueue (s : System β) (settings : QueueSettings) (p : Nat) :
    ({ s with queues := s.queues ++ [.idle settings p] } : System β).wiring =
      s.wiring.addQueue := by
  simp [wiring, Wiring.addQueue, Queue.post, Queue.idle]

theorem Placed.advances_addPool (h : Placed b d owners s m) {saved : Option (Job β)}
    (size millis : Nat) :
    Advances b d owners saved s { s with pools := s.pools ++ [.idle size millis] } m := by
  refine h.advances_of_rewiring ?_ ?_ rfl rfl rfl rfl ?_
  · rw [wiring_addPool]
    exact h.wiring.addPool
  · rw [wiring_addPool]
    exact s.wiring.extends_addPool
  · intro p i
    exact Or.inl (phaseAt_addPool s size millis p i)

theorem Placed.advances_addQueue (h : Placed b d owners s m) {saved : Option (Job β)}
    (settings : QueueSettings) :
    Advances b d owners saved s
      { s with
        pools := s.pools ++ [.idle settings.workers settings.effectivePollMillis]
        queues := s.queues ++ [.idle settings s.pools.length] } m := by
  have hwiring := wiring_addQueue
    { s with pools := s.pools ++ [.idle settings.workers settings.effectivePollMillis] }
    settings s.pools.length
  rw [wiring_addPool] at hwiring
  refine h.advances_of_rewiring ?_ ?_ rfl rfl rfl rfl ?_
  · rw [hwiring]
    exact h.wiring.addPool.addQueue
  · rw [hwiring]
    exact s.wiring.extends_addPool.trans s.wiring.addPool.extends_addQueue
  · intro p i
    exact Or.inl (phaseAt_addPool s settings.workers settings.effectivePollMillis p i)

theorem Placed.advances_addDriver (h : Placed b d owners s m) {saved : Option (Job β)}
    {driver : Driver} (hbackend : driver.backend = 0) (houtages : driver.outages = [])
    (hfresh : ∀ driver' ∈ s.drivers, driver'.name ≠ driver.name) :
    Advances b d owners saved s { s with drivers := s.drivers ++ [driver] } m := by
  refine h.advances_of_rewiring ?_ ?_ rfl rfl rfl rfl ?_
  · exact h.wiring.addDriver hbackend houtages hfresh
  · exact s.wiring.extends_addDriver driver
  · intro p i
    exact Or.inl rfl

theorem Placed.advances_setDriver (h : Placed b d owners s m) {saved : Option (Job β)}
    {q k : Nat} (hk : k < s.drivers.length) (hfree : ∀ q', q' ≠ q → s.queueDriver q' ≠ some k) :
    Advances b d owners saved s (s.setDriver q k).2 m := by
  unfold setDriver
  cases hqueue : s.queues[q]? with
  | none => exact h.advances_of_eases (.refl s)
  | some queue =>
      dsimp only
      split
      · exact h.advances_of_eases (.refl s)
      · rename_i hstarted
        have hopen : queue.started = false := by simpa using hstarted
        have hidle : s.wiring.queues[q]? = some (queue.driver, false) := by
          rw [wiring_queues hqueue, Queue.post, hopen]
        have hwiring : (s.modifyQueue q fun queue => { queue with driver := some k }).wiring =
            s.wiring.setDriver q k := by
          unfold System.wiring modifyQueue Wiring.setDriver
          rw [map_modify_eq_set hqueue, Queue.post, hopen]
        refine h.advances_of_rewiring ?_ ?_ rfl rfl rfl rfl ?_
        · apply hwiring ▸ h.wiring.setDriver hidle hk
          intro q' hne
          rw [wiring_queueDriver]
          exact hfree q' hne
        · exact hwiring ▸ Wiring.extends_setDriver hidle k
        · intro p i
          exact Or.inl rfl

theorem Placed.advances_setRunner (h : Placed b d owners s m) {saved : Option (Job β)} (q : Nat)
    (r : Option Runner) : Advances b d owners saved s (s.setRunner q r).2 m := by
  unfold setRunner
  split
  · split
    · exact h.advances_of_eases (.refl s)
    · exact h.advances_of_eases (eases_modifyQueue s q _ fun _ => rfl)
  · exact h.advances_of_eases (.refl s)

/-!
## Start of a queue
-/

omit [Body β] in
theorem eases_setStarted_back {q : Nat} {queue : Queue β} (hqueue : s.queues[q]? = some queue)
    (hstarted : queue.started = false) : s.Eases ((s.setStarted q true).setStarted q false) := by
  have hboth : (s.setStarted q true).setStarted q false =
      s.modifyQueue q fun queue => { queue with started := false } := by
    unfold setStarted modifyQueue
    simp only [List.modify_modify_eq]
    rfl
  rw [hboth]
  apply eases_modifyQueue_of_eq
  intro queue' hqueue'
  rw [hqueue] at hqueue'
  cases hqueue'
  rw [Queue.post, Queue.post, hstarted]

omit [Body β] in
theorem phaseAt_start {p token q : Nat} {pool : Pool β} (hpool : s.pools[p]? = some pool)
    (hempty : pool.workers = []) (p' i : Nat) :
    ((s.setStarted q true).modifyPool p fun pool => pool.start token (.queue q)).phaseAt p' i =
      s.phaseAt p' i ∨
    (s.claimAt p' i = none ∧
      ((s.setStarted q true).modifyPool p fun pool =>
        pool.start token (.queue q)).claimAt p' i = none) := by
  unfold claimAt phaseAt
  rw [workerAt_modifyPool]
  by_cases hp : p' = p
  · apply Or.inr
    have hnone : s.workerAt p i = none := by
      unfold workerAt
      rw [hpool, Option.bind_some, hempty]
      rfl
    have hpool' : (s.setStarted q true).pools[p]? = some pool := hpool
    rw [if_pos hp, hp, hnone, hpool', Option.bind_some]
    refine ⟨rfl, ?_⟩
    show (Option.map Worker.phase (List.replicate pool.size Worker.fresh)[i]?).bind _ = none
    rw [List.getElem?_replicate]
    split <;> rfl
  · rw [if_neg hp]
    exact Or.inl rfl

theorem Placed.advances_start_pool (h : Placed b d owners s m) {saved : Option (Job β)}
    {q k p : Nat} {queue : Queue β} {pool : Pool β} (hqueue : s.queues[q]? = some queue)
    (hdriver : queue.driver = some k) (hstarted : queue.started = false)
    (hpool : s.pools[p]? = some pool) (hidle : pool.started = false)
    (hnames : ∀ i, i < pool.size → owners (ownerName (s.driverName k) i)) (token : Nat) :
    Advances b d owners saved s
      (((s.setStarted q true).modifyPool p fun pool =>
        pool.start token (.queue q)).beginCall (.launch q k token)).2 m := by
  have hpost : s.wiring.queues[q]? = some (some k, false) := by
    rw [wiring_queues hqueue, Queue.post, hdriver, hstarted]
  have hstaff : pool.staff = ⟨false, none, 0⟩ := by
    rcases h.wiring.staffs p _ (wiring_pools hpool) with hstaff | ⟨q', k', hworks⟩
    · exact hstaff
    · have hworking : pool.started = true := hworks.started
      rw [hidle] at hworking
      cases hworking
  have hstaff' : s.wiring.pools[p]? = some ⟨false, none, 0⟩ := by rw [wiring_pools hpool, hstaff]
  have hempty : pool.workers = [] := List.eq_nil_of_length_eq_zero (congrArg Staff.size hstaff)
  have hwiring : ((s.setStarted q true).modifyPool p fun pool =>
      pool.start token (.queue q)).wiring = s.wiring.start q k p pool.size := by
    unfold System.wiring modifyPool setStarted modifyQueue Wiring.start
    dsimp only
    rw [map_modify_eq_set hqueue, map_modify_eq_set hpool]
    simp [Queue.post, hdriver, Pool.staff, Pool.start]
  refine h.advances_of_rewiring ?_ ?_ rfl rfl rfl rfl (phaseAt_start hpool hempty)
  · show System.wiring ((s.setStarted q true).modifyPool p _) |>.Sound owners
    rw [hwiring]
    exact h.wiring.start hpost hstaff' hnames
  · show s.wiring.Extends (System.wiring ((s.setStarted q true).modifyPool p _))
    rw [hwiring]
    exact Wiring.extends_start hpost hstaff' pool.size

theorem Placed.advances_startRunner (h : Placed b d owners s m) {saved : Option (Job β)}
    {q k : Nat} {queue : Queue β} {r : Runner} (hqueue : s.queues[q]? = some queue)
    (hdriver : queue.driver = some k) (hstarted : queue.started = false)
    (hsize : s.runnerSize r ≠ 0)
    (hpools : ∀ p pool, r = .pool p → s.pools[p]? = some pool →
      pool.started = false ∧ ∀ i, i < pool.size → owners (ownerName (s.driverName k) i))
    (token : Nat) :
    Advances b d owners saved s
      (match (s.setStarted q true).startRunner r token q with
        | (.error e, s) => (s.setStarted q false).failing (.runner e)
        | (.ok _, s) => s.beginCall (.launch q k token)).2 m := by
  cases r with
  | broken => exact h.advances_of_eases (eases_setStarted_back hqueue hstarted)
  | pool p =>
      cases hpool : s.pools[p]? with
      | none => simp [runnerSize, hpool] at hsize
      | some pool =>
          rcases hpools p pool rfl hpool with ⟨hidle, hnames⟩
          have hpool' : (s.setStarted q true).pools[p]? = some pool := hpool
          have hpositive : pool.size ≠ 0 := by simpa [runnerSize, hpool] using hsize
          simp only [startRunner, startPool, hpool', if_neg hpositive, hidle]
          exact h.advances_start_pool hqueue hdriver hstarted hpool hidle hnames token

theorem Placed.advances_start (h : Placed b d owners s m) {saved : Option (Job β)} {q token : Nat}
    (horderly : (Request.start q token : Request β).Orderly owners s) :
    Advances b d owners saved s (s.start q token).2 m := by
  have hsame : Advances b d owners saved s s m := h.advances_of_eases (.refl s)
  unfold System.start
  split
  · exact hsame
  · rename_i queue hqueue
    split
    · exact hsame
    · exact hsame
    · rename_i k r hdriver hrunner
      split
      · exact hsame
      · rename_i hstarted
        have hopen : queue.started = false := by simpa using hstarted
        split
        · exact hsame
        · rename_i hsize
          have hsnd := h.driverOpen_snd k token
          rcases hcall : s.driverOpen k token with ⟨answer, s₁⟩
          rw [hcall] at hsnd
          subst hsnd
          cases answer with
          | error e => exact hsame
          | ok _ =>
              refine h.advances_startRunner hqueue hdriver hopen hsize ?_ token
              intro p pool hr hpool
              exact horderly queue k p pool hqueue hopen hdriver (hr ▸ hrunner) hpool

/-!
## All requests
-/

omit [Body β] in
theorem stored_snd (r : Except StoreError Unit × System β) : (stored r).2 = r.2 := by
  rcases r with ⟨- | -, s⟩ <;> rfl

omit [Body β] in
theorem turned_snd (r : LockChange StoreError Unit × System β) : (turned r).2 = r.2 := by
  rcases r with ⟨- | - | -, s⟩ <;> rfl

theorem Placed.advances_driverSave (h : Placed b d owners s m) (k token : Nat) {j : Job β}
    (hj : ¬ owners j.status.owner) :
    Advances b d owners (some j) s (s.driverSave k token j).2 m := by
  rcases h.driverSave_cases k token j with ⟨m', hchange, hsnd⟩
  rw [hsnd]
  refine h.advances ?_ ?_ hchange (.refl _)
  · intro o ho heq
    exact hj (heq ▸ ho)
  · intro j' hop
    cases hop
    rfl

theorem Placed.advances_driverNext (h : Placed b d owners s m) {saved : Option (Job β)}
    (k token : Nat) : Advances b d owners saved s (s.driverNext k token).2 m := by
  rcases h.driverNext_cases k token with ⟨m', hchange, hsnd⟩
  have hspares : ∀ o, owners o → (Operation.next : Operation β).Spares o := fun _ _ => trivial
  rw [hsnd]
  exact h.advances hspares (fun _ hop => nomatch hop) hchange (.refl _)

theorem Placed.advances_driverLock (h : Placed b d owners s m) {saved : Option (Job β)}
    (k token : Nat) (id : String) {owner : String} (howner : ¬ owners owner) :
    Advances b d owners saved s (s.driverLock k token id owner).2 m := by
  rcases h.driverLock_cases k token id owner with ⟨m', hchange, hsnd⟩
  have hspares : ∀ o, owners o → (Operation.lock id owner : Operation β).Spares o := by
    intro o ho heq
    exact howner (heq ▸ ho)
  rw [hsnd]
  exact h.advances hspares (fun _ hop => nomatch hop) hchange (.refl _)

theorem Placed.advances_driverUnlock (h : Placed b d owners s m) {saved : Option (Job β)}
    (k token : Nat) (id : String) {owner : String} (howner : ¬ owners owner) :
    Advances b d owners saved s (s.driverUnlock k token id owner).2 m := by
  rcases h.driverUnlock_cases k token id owner with ⟨m', hchange, hsnd⟩
  have hspares : ∀ o, owners o → (Operation.unlock id owner : Operation β).Spares o := by
    intro o ho heq
    exact howner (heq ▸ ho)
  rw [hsnd]
  exact h.advances hspares (fun _ hop => nomatch hop) hchange (.refl _)

theorem Placed.advances_dispatch (h : Placed b d owners s m) {saved : Option (Job β)}
    (q token : Nat) : Advances b d owners saved s (s.dispatch q token).2 m := by
  unfold dispatch
  cases s.queueDriver q with
  | none => exact h.advances_of_eases (.refl s)
  | some k =>
      have hsnd := h.driverOpen_snd k token
      rcases hcall : s.driverOpen k token with ⟨answer, s₁⟩
      rw [hcall] at hsnd
      subst hsnd
      simp only [hcall]
      cases answer with
      | error e => exact h.advances_of_eases (.refl s₁)
      | ok _ => exact h.advances_of_eases (eases_launchLoop s₁ q k token)

omit [Body β] in
theorem Placed.driverClose_eq (h : Placed b d owners s m) (k : Nat) : s.driverClose k = s := by
  unfold driverClose
  split
  · rfl
  · rename_i driver hdriver
    have hclosed : s.backends.modify driver.backend Backend.close = s.backends := by
      rw [(h.wiring.drivers driver (List.mem_of_getElem? hdriver)).1, h.backends]
      rfl
    rw [hclosed]

theorem Placed.advances_beginNext (h : Placed b d owners s m) {saved : Option (Job β)}
    (q token : Nat) : Advances b d owners saved s (s.beginNext q token).2 m := by
  have hsame : Advances b d owners saved s s m := h.advances_of_eases (.refl s)
  unfold beginNext
  split
  · exact hsame
  · split
    · refine h.advances_of_eases ((eases_modifyQueue s q _ ?_).trans (eases_calls _ _))
      intro queue
      rfl
    · exact h.advances_of_eases (eases_calls s _)

theorem Placed.advances_shutdown (h : Placed b d owners s m) {saved : Option (Job β)} (p : Nat) :
    Advances b d owners saved s (s.perform (.shutdown p)).2 m := by
  refine h.advances_of_eases (eases_modifyPool s p _ ?_ ?_)
  · intro pool
    simp [Pool.staff]
  · intro pool i
    rw [List.getElem?_map]
    cases pool.workers[i]? with
    | none => rfl
    | some w => exact congrArg some (w.tell_phase .shutdown)

/-- A request that keeps to the rules is a step of the crew, or it cancels a token. -/
theorem Placed.advances_perform (h : Placed b d owners s m) {r : Request β}
    (horderly : r.Orderly owners s) (hr : ¬ r.Cancels) :
    Advances b d owners r.saved? s (s.perform r).2 m := by
  have hsame : ∀ {saved : Option (Job β)}, Advances b d owners saved s s m :=
    h.advances_of_eases (.refl s)
  have hcall : ∀ {saved : Option (Job β)} call, Advances b d owners saved s (s.beginCall call).2 m :=
    fun call => h.advances_of_eases (eases_calls s _)
  cases r with
  | addBackend b' driver => exact horderly.elim
  | addDriver driver =>
      rcases horderly with ⟨hbackend, houtages, hfresh⟩
      exact h.advances_addDriver hbackend houtages hfresh
  | addPool size millis => exact h.advances_addPool size millis
  | addQueue settings => exact h.advances_addQueue settings
  | setDriver q k => exact h.advances_setDriver horderly.1 horderly.2
  | setRunner q runner => exact h.advances_setRunner q runner
  | start q token => exact h.advances_start horderly
  | dispatch q token => exact h.advances_dispatch q token
  | put q token j =>
      unfold perform
      dsimp only
      cases s.queueDriver q with
      | none => exact hsame
      | some k =>
          dsimp only
          rw [stored_snd]
          exact h.advances_driverSave k token horderly
  | get q token id =>
      unfold perform
      dsimp only
      cases s.queueDriver q with
      | none => exact hsame
      | some k =>
          show Advances b d owners none s (s.driverGet k token id).2 m
          rw [h.driverGet_snd]
          exact hsame
  | tally q token =>
      unfold perform
      dsimp only
      cases s.queueDriver q <;> exact hsame
  | infos q token =>
      unfold perform
      dsimp only
      cases s.queueDriver q <;> exact hsame
  | startPool p token jobs driver => exact horderly.elim
  | shutdown p => exact h.advances_shutdown p
  | cancel token => exact absurd trivial hr
  | openDriver k token =>
      show Advances b d owners none s (stored (s.driverOpen k token)).2 m
      rw [stored_snd, h.driverOpen_snd]
      exact hsame
  | closeDriver k =>
      show Advances b d owners none s (s.driverClose k) m
      rw [h.driverClose_eq]
      exact hsame
  | saveVia k token j =>
      show Advances b d owners (some j) s (stored (s.driverSave k token j)).2 m
      rw [stored_snd]
      exact h.advances_driverSave k token horderly
  | getVia k token id =>
      show Advances b d owners none s (s.driverGet k token id).2 m
      rw [h.driverGet_snd]
      exact hsame
  | nextVia k token => exact h.advances_driverNext k token
  | lockVia k token id owner =>
      show Advances b d owners none s (turned (s.driverLock k token id owner)).2 m
      rw [turned_snd]
      exact h.advances_driverLock k token id horderly
  | unlockVia k token id owner =>
      show Advances b d owners none s (turned (s.driverUnlock k token id owner)).2 m
      rw [turned_snd]
      exact h.advances_driverUnlock k token id horderly
  | tallyVia k token => exact hsame
  | next q token => exact h.advances_beginNext q token
  | sleep millis => exact hcall _
  | countIdle p => exact hcall _
  | waitAll q token interval limit => exact hcall _
  | waitJob q token id interval limit => exact hcall _

end

end System

end LeaseQueue
