import LeaseQueue.Proofs.Queue.Reaching
import LeaseQueue.Proofs.Queue.Wiring
/-!
# Systems as crews

A system whose drivers all work on one store in memory is a crew. Most of what
goes on in it eases the crew: messages, lines, calls and workers that are at no
job.
-/

namespace LeaseQueue

variable {β : Type}

namespace Worker

theorem tell_phase (w : Worker β) (m : Message) : (w.tell m).phase = w.phase := by
  unfold tell
  split <;> rfl

theorem halt_phase (w : Worker β) : w.halt.phase = w.phase := by
  unfold halt
  split <;> rfl

end Worker

def Pool.staff (pool : Pool β) : Staff β := ⟨pool.started, pool.source, pool.workers.length⟩

def Queue.post (queue : Queue β) : Option Nat × Bool := (queue.driver, queue.started)

namespace System

def wiring (s : System β) : Wiring β :=
  ⟨s.drivers, s.queues.map Queue.post, s.pools.map Pool.staff⟩

def workerAt (s : System β) (p i : Nat) : Option (Worker β) :=
  (s.pools[p]?).bind fun pool => pool.workers[i]?

def phaseAt (s : System β) (p i : Nat) : Option (Phase β) := (s.workerAt p i).map Worker.phase

def ownerAt (s : System β) (p i : Nat) : String :=
  match (s.pools[p]?).bind fun pool => s.sourceDriver pool.source with
  | some d => ownerName (s.driverName d) i
  | none => ""

def claimAt (s : System β) (p i : Nat) : Option Claim := (s.phaseAt p i).bind Phase.claim?

def crew (s : System β) (m : Memory) : Crew β :=
  ⟨s.clock, s.cancelled, m, s.ownerAt, s.phaseAt, s.runs⟩

theorem phaseAt_eq {s : System β} {p i : Nat} {w : Worker β} (hw : s.workerAt p i = some w) :
    s.phaseAt p i = some w.phase := congrArg (Option.map Worker.phase) hw

theorem claimAt_eq {s : System β} {p i : Nat} {phase : Phase β}
    (hphase : s.phaseAt p i = some phase) : s.claimAt p i = phase.claim? :=
  congrArg (fun o => o.bind Phase.claim?) hphase

theorem wiring_queues {s : System β} {q : Nat} {queue : Queue β} (hqueue : s.queues[q]? = some queue) :
    s.wiring.queues[q]? = some queue.post := by
  show (s.queues.map Queue.post)[q]? = _
  rw [List.getElem?_map, hqueue]
  rfl

theorem wiring_pools {s : System β} {p : Nat} {pool : Pool β} (hpool : s.pools[p]? = some pool) :
    s.wiring.pools[p]? = some pool.staff := by
  show (s.pools.map Pool.staff)[p]? = _
  rw [List.getElem?_map, hpool]
  rfl

theorem wiring_queueDriver (s : System β) (q : Nat) :
    s.wiring.queueDriver q = s.queueDriver q := by
  unfold Wiring.queueDriver wiring queueDriver
  rw [List.getElem?_map]
  cases s.queues[q]? <;> rfl

theorem wiring_sourceDriver (s : System β) (source : Option (Source β)) :
    s.wiring.sourceDriver source = s.sourceDriver source := by
  rcases source with - | ⟨q⟩ | ⟨left, d⟩
  · rfl
  · exact wiring_queueDriver s q
  · rfl

theorem wiring_ownerAt (s : System β) (p i : Nat) : s.wiring.ownerAt p i = s.ownerAt p i := by
  unfold Wiring.ownerAt ownerAt
  have hpool : s.wiring.pools[p]? = (s.pools[p]?).map Pool.staff := List.getElem?_map
  rw [hpool]
  cases s.pools[p]? with
  | none => rfl
  | some pool =>
      rw [Option.map_some, Option.bind_some, Option.bind_some]
      show (match s.wiring.sourceDriver pool.source with
        | some d => ownerName (s.driverName d) i
        | none => "") = _
      rw [wiring_sourceDriver]

theorem ownerAt_of_wiring_eq {s s' : System β} (h : s'.wiring = s.wiring) :
    s'.ownerAt = s.ownerAt := by
  funext p i
  rw [← wiring_ownerAt, ← wiring_ownerAt, h]

theorem staff_of_phaseAt {s : System β} {p i : Nat} (h : s.phaseAt p i ≠ none) :
    ∃ staff, s.wiring.pools[p]? = some staff ∧ i < staff.size := by
  unfold phaseAt workerAt at h
  have hpool : s.wiring.pools[p]? = (s.pools[p]?).map Pool.staff := List.getElem?_map
  rw [hpool]
  cases hp : s.pools[p]? with
  | none => simp [hp] at h
  | some pool =>
      rw [hp, Option.bind_some] at h
      refine ⟨pool.staff, rfl, ?_⟩
      by_cases hi : i < pool.workers.length
      · exact hi
      · rw [List.getElem?_eq_none (Nat.le_of_not_lt hi)] at h
        exact absurd rfl h

theorem named_of_wiring {owners : String → Prop} {s : System β} (h : s.wiring.Sound owners)
    (m : Memory) : (s.crew m).Named owners := by
  constructor
  · intro p i hpresent
    rcases staff_of_phaseAt hpresent with ⟨staff, hstaff, hi⟩
    rcases h.worksFor hstaff hi with ⟨q, d, hworks⟩
    have howner : s.ownerAt p i = ownerName (s.wiring.driverName d) i := by
      rw [← wiring_ownerAt, hworks.ownerAt hstaff]
    show owners (s.ownerAt p i) ∧ s.ownerAt p i ≠ ""
    rw [howner]
    exact ⟨hworks.names i hi, ownerName_ne_empty _ _⟩
  · intro p i p' i' hpresent hpresent' howner
    rcases staff_of_phaseAt hpresent with ⟨staff, hstaff, hi⟩
    rcases staff_of_phaseAt hpresent' with ⟨staff', hstaff', hi'⟩
    have howner' : s.ownerAt p i = s.ownerAt p' i' := howner
    rw [← wiring_ownerAt, ← wiring_ownerAt] at howner'
    exact h.ownerAt_inj hstaff hstaff' hi hi' howner'

/-!
## Changes that ease the crew
-/

/-- A change that touches neither store nor wiring, nor any worker that is at a job. -/
structure Eases (s s' : System β) : Prop where
  clock : s'.clock = s.clock
  cancelled : s'.cancelled = s.cancelled
  backends : s'.backends = s.backends
  wiring : s'.wiring = s.wiring
  runs : s'.runs = s.runs
  phases : ∀ p i, s'.phaseAt p i = s.phaseAt p i ∨ (s.claimAt p i = none ∧ s'.claimAt p i = none)

theorem Eases.refl (s : System β) : s.Eases s :=
  ⟨rfl, rfl, rfl, rfl, rfl, fun _ _ => Or.inl rfl⟩

theorem Eases.trans {s s' s'' : System β} (h : s.Eases s') (h' : s'.Eases s'') :
    s.Eases s'' := by
  refine ⟨h'.clock.trans h.clock, h'.cancelled.trans h.cancelled, h'.backends.trans h.backends,
    h'.wiring.trans h.wiring, h'.runs.trans h.runs, ?_⟩
  intro p i
  rcases h'.phases p i with hsame' | ⟨hnone, hnone'⟩
  · rcases h.phases p i with hsame | ⟨hnone, hnone'⟩
    · exact Or.inl (hsame'.trans hsame)
    · refine Or.inr ⟨hnone, ?_⟩
      unfold claimAt at *
      rw [hsame', hnone']
  · rcases h.phases p i with hsame | ⟨hnone₀, -⟩
    · refine Or.inr ⟨?_, hnone'⟩
      unfold claimAt at *
      rw [← hsame, hnone]
    · exact Or.inr ⟨hnone₀, hnone'⟩

theorem Eases.crew {s s' : System β} (h : s.Eases s') (m m' : Memory) :
    (s.crew m).Eases (s'.crew m') where
  clock := h.clock
  runs := h.runs
  phases := h.phases
  owners := by
    intro p i _
    exact congrFun (congrFun (ownerAt_of_wiring_eq h.wiring) p) i

theorem map_modify_eq_set {α γ : Type} {l : List α} {i : Nat} {a : α} (ha : l[i]? = some a)
    (f : α → α) (g : α → γ) : (l.modify i f).map g = (l.map g).set i (g (f a)) := by
  refine List.ext_getElem? ?_
  intro j
  rw [List.getElem?_map, List.getElem?_modify]
  by_cases hi : i = j
  · subst hi
    have hlt : i < (l.map g).length := by
      rw [List.length_map]
      exact (List.getElem?_eq_some_iff.mp ha).1
    rw [List.getElem?_set_self hlt, ha]
    simp
  · rw [List.getElem?_set_ne hi, List.getElem?_map]
    simp [hi]

theorem map_modify_of_eq {α γ : Type} {f : α → α} {g : α → γ} {l : List α} {i : Nat}
    (h : ∀ a, l[i]? = some a → g (f a) = g a) : (l.modify i f).map g = l.map g := by
  cases ha : l[i]? with
  | none => rw [List.modify_eq_self (List.getElem?_eq_none_iff.mp ha)]
  | some a =>
      have hmap : (l.map g)[i]? = some (g a) := by rw [List.getElem?_map, ha, Option.map_some]
      rcases List.getElem?_eq_some_iff.mp hmap with ⟨hi, heq⟩
      rw [map_modify_eq_set ha, h a ha, ← heq]
      exact List.set_getElem_self hi

theorem workerAt_modifyPool (s : System β) (p p' i : Nat) (f : Pool β → Pool β) :
    (s.modifyPool p f).workerAt p' i =
      if p' = p then (s.pools[p]?).bind fun pool => (f pool).workers[i]?
      else s.workerAt p' i := by
  unfold workerAt
  show ((s.pools.modify p f)[p']?).bind _ = _
  rw [List.getElem?_modify]
  by_cases hp : p' = p
  · rw [hp]
    cases s.pools[p]? <;> simp
  · have hp' : ¬ p = p' := fun h => hp h.symm
    cases s.pools[p']? <;> simp [hp, hp']

theorem workerAt_modifyWorker (s : System β) (p p' i i' : Nat) (f : Worker β → Worker β) :
    (s.modifyWorker p i f).workerAt p' i' =
      if p' = p ∧ i' = i then (s.workerAt p i).map f else s.workerAt p' i' := by
  unfold modifyWorker
  rw [workerAt_modifyPool]
  unfold workerAt Pool.modify
  by_cases hp : p' = p
  · rw [hp]
    cases s.pools[p]? with
    | none => simp
    | some pool =>
        by_cases hi : i' = i
        · rw [hi]
          cases h : pool.workers[i]? <;> simp [h]
        · have hi' : ¬ i = i' := fun h => hi h.symm
          cases h : pool.workers[i']? <;> simp [h, hi, hi']
  · simp [hp]

theorem phaseAt_modifyWorker_self {s : System β} {p i : Nat} {w : Worker β}
    (hw : s.workerAt p i = some w) (f : Worker β → Worker β) :
    (s.modifyWorker p i f).phaseAt p i = some (f w).phase := by
  unfold phaseAt
  rw [workerAt_modifyWorker, if_pos ⟨rfl, rfl⟩, hw]
  rfl

theorem phaseAt_modifyWorker_other (s : System β) {p p' i i' : Nat}
    (hne : ¬ (p' = p ∧ i' = i)) (f : Worker β → Worker β) :
    (s.modifyWorker p i f).phaseAt p' i' = s.phaseAt p' i' := by
  unfold phaseAt
  rw [workerAt_modifyWorker, if_neg hne]

theorem wiring_modifyPool (s : System β) (p : Nat) {f : Pool β → Pool β}
    (hf : ∀ pool, (f pool).staff = pool.staff) : (s.modifyPool p f).wiring = s.wiring := by
  unfold wiring modifyPool
  rw [map_modify_of_eq fun pool _ => hf pool]

theorem wiring_modifyWorker (s : System β) (p i : Nat) (f : Worker β → Worker β) :
    (s.modifyWorker p i f).wiring = s.wiring := by
  apply wiring_modifyPool s p
  intro pool
  simp [Pool.staff, Pool.modify]

/-- A worker that is at no job turns to something else, or does not change its phase. -/
theorem eases_modifyWorker (s : System β) (p i : Nat) (f : Worker β → Worker β)
    (hf : ∀ w, s.workerAt p i = some w → (f w).phase = w.phase ∨
      (w.phase.claim? = none ∧ (f w).phase.claim? = none)) : s.Eases (s.modifyWorker p i f) := by
  refine ⟨rfl, rfl, rfl, wiring_modifyWorker s p i f, rfl, ?_⟩
  intro p' i'
  by_cases hsame : p' = p ∧ i' = i
  · rw [hsame.1, hsame.2]
    cases hw : s.workerAt p i with
    | none =>
        apply Or.inl
        unfold phaseAt
        rw [workerAt_modifyWorker, if_pos ⟨rfl, rfl⟩, hw]
        rfl
    | some w =>
        unfold claimAt
        rw [phaseAt_modifyWorker_self hw, phaseAt_eq hw]
        rcases hf w hw with heq | hnone
        · exact Or.inl (by rw [heq])
        · exact Or.inr hnone
  · exact Or.inl (phaseAt_modifyWorker_other s hsame f)

theorem eases_modifyPool (s : System β) (p : Nat) (f : Pool β → Pool β)
    (hstaff : ∀ pool, (f pool).staff = pool.staff)
    (hphases : ∀ pool (i : Nat),
      ((f pool).workers[i]?).map Worker.phase = (pool.workers[i]?).map Worker.phase) :
    s.Eases (s.modifyPool p f) := by
  refine ⟨rfl, rfl, rfl, wiring_modifyPool s p hstaff, rfl, ?_⟩
  intro p' i
  apply Or.inl
  unfold phaseAt
  rw [workerAt_modifyPool]
  by_cases hp : p' = p
  · rw [if_pos hp, hp]
    unfold workerAt
    cases s.pools[p]? with
    | none => rfl
    | some pool => exact hphases pool i
  · rw [if_neg hp]

theorem eases_modifyQueue_of_eq {s : System β} {q : Nat} {f : Queue β → Queue β}
    (hf : ∀ queue, s.queues[q]? = some queue → (f queue).post = queue.post) :
    s.Eases (s.modifyQueue q f) := by
  refine ⟨rfl, rfl, rfl, ?_, rfl, fun _ _ => Or.inl rfl⟩
  unfold wiring modifyQueue
  rw [map_modify_of_eq hf]

theorem eases_modifyQueue (s : System β) (q : Nat) (f : Queue β → Queue β)
    (hf : ∀ queue, (f queue).post = queue.post) : s.Eases (s.modifyQueue q f) :=
  eases_modifyQueue_of_eq fun queue _ => hf queue

theorem eases_launchLoop (s : System β) (q k token : Nat) : s.Eases (s.launchLoop q k token) := by
  apply eases_modifyQueue s q _
  intro queue
  unfold Queue.launchLoop
  split <;> rfl

theorem eases_calls (s : System β) (calls : List (Call β)) :
    s.Eases { s with calls := calls } :=
  ⟨rfl, rfl, rfl, rfl, rfl, fun _ _ => Or.inl rfl⟩

theorem eases_tell (s : System β) (p i : Nat) (m : Message) : s.Eases (s.tell p i m) := by
  apply eases_modifyWorker s p i _
  intro w _
  exact Or.inl (w.tell_phase m)

/-!
## Calls of drivers
-/

variable (b : Backend β) (d : Discipline) (owners : String → Prop)

/-- A well wired system over one store in memory. -/
structure Placed (s : System β) (m : Memory) : Prop where
  wiring : s.wiring.Sound owners
  backends : s.backends = [b.onMemory d m]
  claims : ∀ p i claim, s.claimAt p i = some claim → claim.driver < s.drivers.length

def withStore (s : System β) (m : Memory) : System β := { s with backends := [b.onMemory d m] }

variable {b d owners} {s s' : System β} {m m' : Memory}

theorem Placed.withStore_self (h : Placed b d owners s m) : withStore b d s m = s := by
  unfold withStore
  rw [← h.backends]

theorem Placed.reaches (h : Placed b d owners s m) {k : Nat} (hk : k < s.drivers.length) :
    s.Reaches k 0 b d m := by
  rcases h.wiring.drivers _ (List.getElem_mem hk) with ⟨hbackend, houtages⟩
  refine ⟨⟨s.drivers[k], List.getElem?_eq_getElem hk, hbackend, houtages⟩, ?_⟩
  rw [h.backends]
  rfl

theorem Placed.viaDriver_eq {α : Type} (h : Placed b d owners s m) {k : Nat}
    (hk : k < s.drivers.length) (call : DriverCall) (failed : α)
    (f : Backend β → α × Backend β) :
    s.viaDriver k call failed f = ((f (b.onMemory d m)).1,
      { s with backends := [(f (b.onMemory d m)).2] }) := by
  rw [(h.reaches hk).viaDriver_eq, h.backends]
  rfl

variable (b d) in
def settleOn (s : System β) : Except StoreError Memory → Except StoreError Unit × System β
  | .ok m' => (.ok (), withStore b d s m')
  | .error e => (.error e, s)

theorem Placed.viaDriver_settle (h : Placed b d owners s m) {k : Nat}
    (hk : k < s.drivers.length) {call : DriverCall} {failed : Except StoreError Unit}
    {f : Backend β → Except StoreError (Backend β)} {r : Except StoreError Memory}
    (hf : f (b.onMemory d m) = r >>= fun m' => pure (b.onMemory d m')) :
    s.viaDriver k call failed (fun b => settle b (f b)) = settleOn b d s r := by
  rw [h.viaDriver_eq hk, hf]
  cases r with
  | ok m' => rfl
  | error e => exact congrArg (Prod.mk (Except.error e)) h.withStore_self

variable (b d) in
def settleLockOn (s : System β) : LockChange StoreError Memory → LockChange StoreError Unit × System β
  | .made m' => (.made (), withStore b d s m')
  | .refused e => (.refused e, s)
  | .broken m' => (.broken (), withStore b d s m')

theorem Placed.viaDriver_settleLock (h : Placed b d owners s m) {k : Nat}
    (hk : k < s.drivers.length) {call : DriverCall} {failed : LockChange StoreError Unit}
    {f : Backend β → LockChange StoreError (Backend β)} {r : LockChange StoreError Memory}
    (hf : f (b.onMemory d m) = r.map (b.onMemory d)) :
    s.viaDriver k call failed (fun b => settleLock b (f b)) = settleLockOn b d s r := by
  rw [h.viaDriver_eq hk, hf]
  cases r with
  | made m' => rfl
  | refused e => exact congrArg (Prod.mk (LockChange.refused e)) h.withStore_self
  | broken m' => rfl

theorem viaDriver_missing {α : Type} {k : Nat} (hk : s.drivers.length ≤ k) (call : DriverCall)
    (failed : α) (f : Backend β → α × Backend β) :
    s.viaDriver k call failed f = (failed, s) := by
  unfold viaDriver
  rw [List.getElem?_eq_none hk]

theorem Placed.lockTimeout_eq (h : Placed b d owners s m) {k : Nat} (hk : k < s.drivers.length) :
    s.lockTimeout k = b.lease.lockTimeout := by
  have hdriver := List.getElem?_eq_getElem hk
  rcases h.wiring.drivers _ (List.getElem_mem hk) with ⟨hbackend, -⟩
  unfold lockTimeout backendOf?
  rw [hdriver]
  simp only [Option.bind_eq_bind, Option.bind_some, hbackend, h.backends]
  rfl

theorem Placed.driverLock_eq (h : Placed b d owners s m) {k : Nat} (hk : k < s.drivers.length)
    (token : Nat) (id owner : String) :
    s.driverLock k token id owner =
      settleLockOn b d s (m.lock id owner s.now b.lease.lockTimeout) :=
  h.viaDriver_settleLock hk rfl

theorem Placed.driverGet_eq (h : Placed b d owners s m) {k : Nat} (hk : k < s.drivers.length)
    (token : Nat) (id : String) :
    s.driverGet k token id =
      (((m.lookup? id).map Entry.record).bind b.registry.build?, s) := by
  unfold driverGet
  rw [h.viaDriver_eq hk]
  exact congrArg (Prod.mk _) h.withStore_self

variable [Body β]

theorem Placed.exists_change {α : Type} (h : Placed b d owners s m) (k : Nat)
    {call : DriverCall} {failed : α} {f : Backend β → α × Backend β} (op : Operation β)
    (cancelled : Bool)
    (hf : (f (b.onMemory d m)).2 = (b.onMemory d m).after ⟨op, cancelled, s.reading⟩) :
    ∃ m', Memory.Change b.lease s.reading op m m' ∧
      (s.viaDriver k call failed f).2 = withStore b d s m' := by
  by_cases hk : k < s.drivers.length
  · rcases b.exists_change d m ⟨op, cancelled, s.reading⟩ with ⟨m', hafter, hchange⟩
    refine ⟨m', hchange, ?_⟩
    rw [h.viaDriver_eq hk, hf, hafter]
    rfl
  · refine ⟨m, .none op m, ?_⟩
    rw [viaDriver_missing (Nat.le_of_not_lt hk), h.withStore_self]

omit [Body β] in
theorem settle_snd (b : Backend β) (r : Except StoreError (Backend β)) :
    (System.settle b r).2 = (b.settle r).2 := by
  cases r <;> rfl

omit [Body β] in
theorem settleLock_snd (b : Backend β) (r : LockChange StoreError (Backend β)) :
    (System.settleLock b r).2 = (b.settleLock r).2 := by
  cases r <;> rfl

theorem Placed.driverNext_cases (h : Placed b d owners s m) (k token : Nat) :
    ∃ m', Memory.Change b.lease s.reading (.next : Operation β) m m' ∧
      (s.driverNext k token).2 = withStore b d s m' :=
  h.exists_change k .next (s.isCancelled token) rfl

omit [Body β] in
theorem Placed.driverGet_snd (h : Placed b d owners s m) (k token : Nat) (id : String) :
    (s.driverGet k token id).2 = s := by
  by_cases hk : k < s.drivers.length
  · unfold driverGet
    rw [h.viaDriver_eq hk]
    exact h.withStore_self
  · unfold driverGet
    rw [viaDriver_missing (Nat.le_of_not_lt hk)]

theorem Placed.driverSave_cases (h : Placed b d owners s m) (k token : Nat) (j : Job β) :
    ∃ m', Memory.Change b.lease s.reading (.save j) m m' ∧
      (s.driverSave k token j).2 = withStore b d s m' :=
  h.exists_change k (.save j) (s.isCancelled token) (settle_snd _ _)

theorem Placed.driverLock_cases (h : Placed b d owners s m) (k token : Nat) (id owner : String) :
    ∃ m', Memory.Change b.lease s.reading (.lock id owner : Operation β) m m' ∧
      (s.driverLock k token id owner).2 = withStore b d s m' :=
  h.exists_change k (.lock id owner) (s.isCancelled token) (settleLock_snd _ _)

theorem Placed.driverUnlock_cases (h : Placed b d owners s m) (k token : Nat)
    (id owner : String) :
    ∃ m', Memory.Change b.lease s.reading (.unlock id owner : Operation β) m m' ∧
      (s.driverUnlock k token id owner).2 = withStore b d s m' :=
  h.exists_change k (.unlock id owner) (s.isCancelled token) (settleLock_snd _ _)

omit [Body β] in
theorem Placed.driverOpen_snd (h : Placed b d owners s m) (k token : Nat) :
    (s.driverOpen k token).2 = s := by
  by_cases hk : k < s.drivers.length
  · unfold driverOpen
    rw [h.viaDriver_eq hk]
    exact h.withStore_self
  · unfold driverOpen
    rw [viaDriver_missing (Nat.le_of_not_lt hk)]

theorem Placed.driverSave_eq (h : Placed b d owners s m) {k : Nat} (hk : k < s.drivers.length)
    (token : Nat) {j : Job β} {r : Record} (hj : j.toRecord = .ok r) :
    s.driverSave k token j = settleOn b d s (m.save r s.now b.lease.lockTimeout) := by
  apply h.viaDriver_settle hk
  unfold Backend.save
  rw [hj]
  rfl

theorem Placed.driverSave_unwritable (h : Placed b d owners s m) {k : Nat}
    (hk : k < s.drivers.length) (token : Nat) {j : Job β} {reason : String}
    (hj : j.toRecord = .error reason) :
    s.driverSave k token j = settleOn b d s (.error (.unwritable reason)) := by
  apply h.viaDriver_settle hk
  unfold Backend.save
  rw [hj]
  rfl

/-!
## Steps of the system as steps of the crew
-/

variable (b d owners) in
/-- Something happens to a placed system that is a step of its crew; no token is cancelled. -/
def Advances (saved : Option (Job β)) (s s' : System β) (m : Memory) : Prop :=
  ∃ m', Placed b d owners s' m' ∧ s'.cancelled = s.cancelled ∧
    Crew.Step b.registry b.lease owners saved (s.crew m) (s'.crew m')

omit [Body β] in
theorem Placed.of_eases (h : Placed b d owners s m) (heases : s.Eases s') :
    Placed b d owners s' m := by
  have hdrivers : s'.drivers = s.drivers := congrArg Wiring.drivers heases.wiring
  refine ⟨heases.wiring ▸ h.wiring, heases.backends.trans h.backends, ?_⟩
  intro p i claim hclaim
  rw [hdrivers]
  rcases heases.phases p i with hsame | ⟨-, hnone⟩
  · apply h.claims p i claim
    unfold claimAt at *
    rw [← hsame]
    exact hclaim
  · rw [hnone] at hclaim
    cases hclaim

omit [Body β] in
theorem Placed.withStore (h : Placed b d owners s m) (m' : Memory) :
    Placed b d owners (withStore b d s m') m' :=
  ⟨h.wiring, rfl, h.claims⟩

/-- An operation that no worker makes for itself, and what comes of it. -/
theorem Placed.advances (h : Placed b d owners s m) {saved : Option (Job β)} {op : Operation β}
    (hspares : ∀ o, owners o → op.Spares o) (hsaved : ∀ j, op = .save j → saved = some j)
    (hchange : Memory.Change b.lease s.reading op m m')
    (heases : (System.withStore b d s m').Eases s') : Advances b d owners saved s s' m := by
  refine ⟨m', (h.withStore m').of_eases heases, heases.cancelled, .ease op ?_ hspares hsaved hchange⟩
  exact heases.crew m m'

theorem Placed.advances_of_eases (h : Placed b d owners s m) {saved : Option (Job β)}
    (heases : s.Eases s') : Advances b d owners saved s s' m := by
  have hspares : ∀ o, owners o → (Operation.tally : Operation β).Spares o := fun _ _ => trivial
  refine h.advances hspares (fun _ hop => nomatch hop) (.none .tally m) ?_
  rw [h.withStore_self]
  exact heases

theorem Placed.advances_of_attempt (h : Placed b d owners s m) {saved : Option (Job β)}
    {p i : Nat} {w : Worker β} {phase phase' : Phase β} {begun : List (Run β)}
    {f : Worker β → Worker β} (hw : s.workerAt p i = some w) (hphase : w.phase = phase)
    (hturn : Turn b.registry b.lease s.cancelled s.clock (s.ownerAt p i) m phase m' phase' begun)
    (hclaim : ∀ claim, phase'.claim? = some claim → claim.driver < s.drivers.length)
    (hf : (f w).phase = phase') :
    Advances b d owners saved s
      ({ System.withStore b d s m' with runs := s.runs ++ begun }.modifyWorker p i f) m := by
  have hw' : ({ System.withStore b d s m' with runs := s.runs ++ begun } : System β).workerAt p i =
      some w := hw
  have hafter := phaseAt_modifyWorker_self hw' f
  have hwiring := wiring_modifyWorker
    { System.withStore b d s m' with runs := s.runs ++ begun } p i f
  have hbefore : s.phaseAt p i = some phase := by
    rw [phaseAt_eq hw, hphase]
  rw [hf] at hafter
  refine ⟨m', ⟨hwiring ▸ h.wiring, rfl, ?_⟩, rfl, .turn p i phase phase' begun ?_ rfl hturn⟩
  · intro p' i' claim hclaim'
    show claim.driver < s.drivers.length
    unfold claimAt at hclaim'
    by_cases hsame : p' = p ∧ i' = i
    · rw [hsame.1, hsame.2, hafter] at hclaim'
      exact hclaim claim hclaim'
    · rw [phaseAt_modifyWorker_other _ hsame] at hclaim'
      exact h.claims p' i' claim hclaim'
  · exact {
      clock := rfl
      before := hbefore
      after := hafter
      others := fun p' i' hne => phaseAt_modifyWorker_other _ hne f
      owners := ownerAt_of_wiring_eq hwiring }

theorem Placed.advances_of_turn (h : Placed b d owners s m) {saved : Option (Job β)}
    {p i : Nat} {w : Worker β} {phase phase' : Phase β} {f : Worker β → Worker β}
    (hw : s.workerAt p i = some w) (hphase : w.phase = phase)
    (hturn : Turn b.registry b.lease s.cancelled s.clock (s.ownerAt p i) m phase m' phase' [])
    (hclaim : ∀ claim, phase'.claim? = some claim → claim.driver < s.drivers.length)
    (hf : (f w).phase = phase') :
    Advances b d owners saved s ((System.withStore b d s m').modifyWorker p i f) m := by
  have hadvances : Advances b d owners saved s _ m :=
    h.advances_of_attempt hw hphase hturn hclaim hf
  rw [List.append_nil] at hadvances
  exact hadvances

theorem Placed.advances_of_quiet_turn (h : Placed b d owners s m) {saved : Option (Job β)}
    {p i : Nat} {w : Worker β} {phase phase' : Phase β} {f : Worker β → Worker β}
    (hw : s.workerAt p i = some w) (hphase : w.phase = phase)
    (hturn : Turn b.registry b.lease s.cancelled s.clock (s.ownerAt p i) m phase m phase' [])
    (hclaim : ∀ claim, phase'.claim? = some claim → claim.driver < s.drivers.length)
    (hf : (f w).phase = phase') :
    Advances b d owners saved s (s.modifyWorker p i f) m := by
  have hadvances : Advances b d owners saved s _ m := h.advances_of_turn hw hphase hturn hclaim hf
  rw [h.withStore_self] at hadvances
  exact hadvances

end System

end LeaseQueue
