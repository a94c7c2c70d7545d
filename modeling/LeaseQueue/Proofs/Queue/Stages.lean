import LeaseQueue.Proofs.Queue.Bystanders
import LeaseQueue.Proofs.Queue.Endings
/-!
# Stages of the work on a job

A worker that has locked a job goes from stage to stage: each of its moves leads to
a later one, or renews the lock. What is stored meanwhile is the record as it was,
under the worker's lock, until the result is stored.
-/

namespace LeaseQueue

variable {β : Type}

namespace System

variable [Body β]

/-- A worker goes on with a job until it rests. Meanwhile anything may happen but a change of the
stored record by others. -/
inductive Attends (p i n : Nat) (id : String) : System β → List (Act β) → System β → Prop where
  | rests {s : System β} : s.phaseAt p i = some .resting → Attends p i n id s [] s
  | moves {s s₁ s' : System β} {move : WorkerMove} {acts : List (Act β)} :
      s.phaseAt p i ≠ some .resting → s.workerStep p i move = some s₁ →
      Attends p i n id s₁ acts s' → Attends p i n id s (.between s move s₁ :: acts) s'
  | waits {s s₁ s' : System β} {e : Event β} {acts : List (Act β)} :
      s.phaseAt p i ≠ some .resting → (∀ move, e ≠ .move (.worker p i move)) →
      s.handle e = some s₁ → s₁.recordIn n id = s.recordIn n id →
      Attends p i n id s₁ acts s' → Attends p i n id s acts s'

/-- How far a worker is with a job: the moves it has made, what it is about to do, and the record
that is stored then. -/
inductive Stage (registry : Registry β) (n : Nat) (claim : Claim) (r₀ : Record) :
    List (Act β) → Phase β → Record → Prop where
  | loading {acts : List (Act β)} {count : UInt64} {t : Timestamp} :
      acts = [] → Stage registry n claim r₀ acts (.loading claim) (r₀.leased claim.owner count t)
  | checking {acts : List (Act β)} {j₀ : Job β} {asked left : List String}
      {known : List (String × Option Bool)} {count count' : UInt64} {t t' : Timestamp} :
      Quiet acts → acts.length = asked.length + 1 → registry.build? r₀ = some j₀ →
      asked ++ left = j₀.base.dependency.waitsFor → Consulted registry n acts asked known →
      Stage registry n claim r₀ acts (.checking claim (j₀.leased claim.owner count' t') left known)
        (r₀.leased claim.owner count t)
  | running {acts : List (Act β)} {j₀ : Job β} {run : Run β} {endsAt renewAt : Nat}
      {count : UInt64} {t : Timestamp} :
      Began registry n claim.owner r₀ acts j₀ run → endings acts = [] →
      (∀ a ∈ acts, a.move ≠ .giveUp) →
      Stage registry n claim r₀ acts (.running claim run.job endsAt renewAt)
        (r₀.leased claim.owner count t)
  | storing {acts : List (Act β)} {e : Ending} {j : Job β} {r : Record} {counts : Bool}
      {count : UInt64} {t : Timestamp} :
      j.toRecord = .ok r → r.status.inProgress = true → r.status.owner = claim.owner →
      Result registry n claim.owner r₀ acts e r → e.Releases →
      Stage registry n claim r₀ acts (.storing claim j counts) (r₀.leased claim.owner count t)
  | releasing {acts : List (Act β)} {e : Ending} {r : Record} :
      r.status.inProgress = true → r.status.owner = claim.owner →
      Result registry n claim.owner r₀ acts e r → e.Releases →
      Stage registry n claim r₀ acts (.releasing claim) r
  | resting {acts : List (Act β)} {e : Ending} {r : Record} :
      Result registry n claim.owner r₀ acts e r → e.Locks claim.owner r.status →
      Stage registry n claim r₀ acts .resting r

variable (p i n : Nat) (b : Backend β) (d : Discipline) (claim : Claim) (r₀ : Record)

/-- A job that was stored unfinished, and what is made of it can be written. -/
structure Workable : Prop where
  completed : r₀.status.completed = false
  failed : r₀.status.failed = false
  id : r₀.id = claim.id
  owner : claim.owner ≠ ""
  writable : ∀ j, b.registry.build? r₀ = some j → (∃ v, Body.payload j.body = .ok v) ∧
    ∃ v, Body.payload (Body.attempt j.body).body = .ok v

structure AtWork (s : System β) (acts : List (Act β)) (m : Memory) (phase : Phase β) (r : Record) :
    Prop where
  started : s.HasStarted p
  doing : s.phaseAt p i = some phase
  reaches : s.Reaches claim.driver n b d m
  indexed : m.Indexed
  stored : ∃ e, m.lookup? claim.id = some e ∧ e.record = r
  stage : Stage b.registry n claim r₀ acts phase r

def Working (s : System β) (acts : List (Act β)) : Prop :=
  ∃ m phase r, AtWork p i n b d claim r₀ s acts m phase r

variable {p i n b d claim r₀} {s s' : System β} {acts : List (Act β)} {m m' : Memory}
variable {phase phase' : Phase β} {r r' : Record} {w : Worker β}

omit [Body β] in
theorem hasStarted_modifyWorker (hstarted : s.HasStarted p) (p' i' : Nat)
    (f : Worker β → Worker β) : (s.modifyWorker p' i' f).HasStarted p := by
  rcases hstarted with ⟨pool, hpool, hstarted⟩
  unfold HasStarted modifyWorker modifyPool
  dsimp only
  rw [List.getElem?_modify, hpool]
  by_cases hp : p' = p
  · exact ⟨pool.modify i' f, by simp [hp], hstarted⟩
  · exact ⟨pool, by simp [hp], hstarted⟩

/-- A worker makes a move that changes the store and the log of attempts as is said. -/
theorem AtWork.act (h : AtWork p i n b d claim r₀ s acts m phase r)
    (hw : s.workerAt p i = some w) {move : WorkerMove} {begun : List (Run β)}
    {f : Worker β → Worker β} (hphase : (f w).phase = phase') (hindexed : m'.Indexed)
    (hstored : ∃ e, m'.lookup? claim.id = some e ∧ e.record = r')
    (hstage : Stage b.registry n claim r₀ (acts ++ [⟨s, move, begun⟩]) phase' r')
    (hs' : s' = { s.putStore n b d m' with runs := s.runs ++ begun }.modifyWorker p i f) :
    Working p i n b d claim r₀ s' (acts ++ [.between s move s']) := by
  have hbegun : (Act.between s move s') = ⟨s, move, begun⟩ := by
    unfold Act.between
    rw [hs']
    exact congrArg (Act.mk s move) List.drop_left
  have hstarted : ({ s.putStore n b d m' with runs := s.runs ++ begun } : System β).HasStarted p :=
    h.started
  have hw' : ({ s.putStore n b d m' with runs := s.runs ++ begun } : System β).workerAt p i =
      some w := hw
  rw [hbegun, hs']
  refine ⟨m', phase', r', ?_, ?_, ?_, hindexed, hstored, hstage⟩
  · exact hasStarted_modifyWorker hstarted p i f
  · rw [phaseAt_modifyWorker_self hw', hphase]
  · exact ⟨h.reaches.driver, (h.reaches.putStore m').store⟩

theorem AtWork.quietly (h : AtWork p i n b d claim r₀ s acts m phase r)
    (hw : s.workerAt p i = some w) {move : WorkerMove} {f : Worker β → Worker β}
    (hphase : (f w).phase = phase')
    (hstage : Stage b.registry n claim r₀ (acts ++ [⟨s, move, []⟩]) phase' r) :
    Working p i n b d claim r₀ (s.modifyWorker p i f)
      (acts ++ [.between s move (s.modifyWorker p i f)]) := by
  apply h.act hw hphase h.indexed h.stored hstage
  rw [h.reaches.putStore_self, List.append_nil]

theorem AtWork.stores (h : AtWork p i n b d claim r₀ s acts m phase r)
    (hw : s.workerAt p i = some w) {move : WorkerMove} {f : Worker β → Worker β} {e : Entry}
    (he : m.lookup? claim.id = some e) (hid : r'.id = claim.id) (hphase : (f w).phase = phase')
    (hstage : Stage b.registry n claim r₀ (acts ++ [⟨s, move, []⟩]) phase' r')
    (hs' : s' = (s.putStore n b d
      (m.replace claim.id { e with record := r' })).modifyWorker p i f) :
    Working p i n b d claim r₀ s' (acts ++ [.between s move s']) := by
  have hindexed : (m.replace claim.id { e with record := r' }).Indexed :=
    h.indexed.replace he rfl hid
  have hstored : (m.replace claim.id { e with record := r' }).lookup? claim.id =
      some { e with record := r' } := by
    rw [Memory.lookup?_replace, if_pos rfl]
  apply h.act hw hphase hindexed ⟨_, hstored, rfl⟩ hstage
  rw [hs', List.append_nil]
  rfl

/-!
## The moves of a worker at a job
-/

omit [Body β] in
theorem build?_leased (registry : Registry β) (r₀ : Record) (owner : String) (count : UInt64)
    (t : Timestamp) :
    registry.build? (r₀.leased owner count t) =
      (registry.build? r₀).map fun j => j.leased owner count t := by
  unfold Record.leased
  rw [Registry.build?_withStatus]
  cases hbuild : registry.build? r₀ with
  | none => rfl
  | some j =>
      have hstatus : j.status = r₀.status := congrArg Base.status (Registry.build?_base hbuild)
      show some (j.withStatus _) = some (j.withStatus _)
      rw [← hstatus]

theorem Workable.isOpen (h : Workable b claim r₀) {j₀ : Job β}
    (hbuilt : b.registry.build? r₀ = some j₀) :
    j₀.status.completed = false ∧ j₀.status.failed = false := by
  have hstatus : j₀.status = r₀.status := congrArg Base.status (Registry.build?_base hbuilt)
  rw [hstatus]
  exact ⟨h.completed, h.failed⟩

theorem Workable.heldAt (h : Workable b claim r₀) {e : Entry} {count : UInt64} {t : Timestamp}
    (he : m.lookup? claim.id = some e) (hrecord : e.record = r₀.leased claim.owner count t) :
    m.HeldAt claim.id claim.owner t := by
  refine ⟨e, he, ?_⟩
  rw [hrecord]
  exact ⟨rfl, rfl, rfl, h.completed, h.failed⟩

theorem AtWork.recordIn_eq (h : AtWork p i n b d claim r₀ s acts m phase r) :
    s.recordIn n claim.id = some r := by
  rcases h.stored with ⟨e, he, rfl⟩
  rw [h.reaches.recordIn_eq, he, Option.map_some]

theorem AtWork.giveBack {count : UInt64} {t : Timestamp}
    (h : AtWork p i n b d claim r₀ s acts m phase (r₀.leased claim.owner count t))
    (hjob : Workable b claim r₀) (hw : s.workerAt p i = some w) (hquiet : Quiet acts)
    (hwaits : ∀ j₀, b.registry.build? r₀ = some j₀ →
      Finds b.registry n (acts ++ [⟨s, .proceed, []⟩]) j₀ .blocked ∨
        Finds b.registry n (acts ++ [⟨s, .proceed, []⟩]) j₀ .unresolved) :
    Working p i n b d claim r₀ (s.modifyWorker p i fun w => w.goto (.releasing claim))
      (acts ++ [.between s .proceed
        (s.modifyWorker p i fun w => w.goto (.releasing claim))]) := by
  have hquiet' : Quiet (acts ++ [⟨s, .proceed, []⟩]) := hquiet.append rfl rfl
  have hwaited : Result b.registry n claim.owner r₀ (acts ++ [⟨s, .proceed, []⟩]) .waited
      (r₀.leased claim.owner count t) :=
    .waited hwaits hquiet'.begun rfl hjob.completed hjob.failed
  exact h.quietly hw rfl (.releasing rfl rfl hwaited trivial)

theorem AtWork.loadJob (h : AtWork p i n b d claim r₀ s acts m (.loading claim) r)
    (hjob : Workable b claim r₀) (hw : s.workerAt p i = some w) (pool : Pool β) :
    Working p i n b d claim r₀ (s.loadJob p i pool claim)
      (acts ++ [.between s .proceed (s.loadJob p i pool claim)]) := by
  have hrecord := h.recordIn_eq
  rw [h.reaches.recordIn_eq] at hrecord
  have hstage := h.stage
  cases hstage with
  | @loading count t hnil =>
  subst hnil
  have hquiet : Quiet ([] : List (Act β)) := ⟨rfl, rfl, nofun⟩
  unfold System.loadJob
  rw [h.reaches.driverGet_eq, hrecord, Option.bind_some, build?_leased]
  cases hbuild : b.registry.build? r₀ with
  | none =>
      apply h.giveBack hjob hw hquiet
      intro j₀ hbuilt
      rw [hbuild] at hbuilt
      cases hbuilt
  | some j =>
      rcases hjob.isOpen hbuild with ⟨hcompleted, hfailed⟩
      have hopen : (j.leased claim.owner count t).status.isFinished = false := by
        show (j.status.completed || j.status.failed) = false
        rw [hcompleted, hfailed]
        rfl
      have hconsulted : Consulted b.registry n ([] ++ [⟨s, .proceed, []⟩]) [] [] :=
        ⟨rfl, fun x hx => nomatch hx⟩
      dsimp only [Option.map_some]
      rw [hopen]
      exact h.quietly hw rfl
        (.checking (hquiet.append rfl rfl) rfl hbuild (List.nil_append _) hconsulted)

theorem AtWork.lookUp {j : Job β} {id : String} {left : List String}
    {known : List (String × Option Bool)}
    (h : AtWork p i n b d claim r₀ s acts m (.checking claim j (id :: left) known) r)
    (hw : s.workerAt p i = some w) (pool : Pool β) :
    Working p i n b d claim r₀ (s.checkDependency p i pool claim j (id :: left) known)
      (acts ++ [.between s .proceed
        (s.checkDependency p i pool claim j (id :: left) known)]) := by
  have hstage := h.stage
  cases hstage with
  | @checking j₀ asked _ _ count count' t t' hquiet hlength hbuilt hasked hconsulted =>
  have hlength' : (acts ++ [(⟨s, .proceed, []⟩ : Act β)]).length = (asked ++ [id]).length + 1 := by
    simp [hlength]
  unfold System.checkDependency
  dsimp only
  rw [h.reaches.driverGet_eq, ← h.reaches.recordIn_eq]
  refine h.quietly hw rfl (.checking (hquiet.append rfl rfl) hlength' hbuilt
    ((List.append_assoc asked [id] left).trans hasked) ?_)
  constructor
  · simp [hconsulted.ids]
  · intro x hx
    rcases List.mem_cons.mp hx with rfl | hx
    · exact ⟨_, List.mem_append_right _ List.mem_cons_self, rfl⟩
    · exact (hconsulted.append _).answers x hx

theorem AtWork.beginAttempt {j₀ : Job β} {count count' : UInt64} {t t' : Timestamp}
    (h : AtWork p i n b d claim r₀ s acts m phase (r₀.leased claim.owner count t))
    (hw : s.workerAt p i = some w) (hquiet : Quiet acts)
    (hbuilt : b.registry.build? r₀ = some j₀)
    (hready : ∀ begun, Finds b.registry n (acts ++ [⟨s, .proceed, begun⟩]) j₀ .ready) :
    Working p i n b d claim r₀ (s.beginAttempt p i claim (j₀.leased claim.owner count' t'))
      (acts ++ [.between s .proceed
        (s.beginAttempt p i claim (j₀.leased claim.owner count' t'))]) := by
  let run : Run β := ⟨claim.owner, (j₀.leased claim.owner count' t').begun s.now, s.clock⟩
  have honce : attempts (acts ++ [⟨s, .proceed, [run]⟩]) = [run] := by
    rw [attempts_append, hquiet.begun]
    rfl
  have hnone : endings (acts ++ [⟨s, .proceed, [run]⟩]) = [] :=
    (endings_append_of_ne (a := ⟨s, .proceed, [run]⟩) acts nofun).trans hquiet.ended
  have hbegan : Began b.registry n claim.owner r₀ (acts ++ [⟨s, .proceed, [run]⟩]) j₀ run :=
    ⟨hbuilt, hready _, honce, rfl, count', t', rfl⟩
  unfold System.beginAttempt
  apply h.act (f := fun w => w.goto (.running claim run.job _ _)) hw rfl h.indexed h.stored
    (.running hbegan hnone (kept_append hquiet.kept nofun))
  rw [h.reaches.putStore_self]

theorem AtWork.passJob {j₀ : Job β} {count count' : UInt64} {t t' : Timestamp}
    (h : AtWork p i n b d claim r₀ s acts m phase (r₀.leased claim.owner count t))
    (hjob : Workable b claim r₀) (hw : s.workerAt p i = some w) (hquiet : Quiet acts)
    (hbuilt : b.registry.build? r₀ = some j₀)
    (hpasses : Finds b.registry n (acts ++ [⟨s, .proceed, []⟩]) j₀ .passed) :
    Working p i n b d claim r₀
      (s.modifyWorker p i fun w =>
        w.goto (.storing claim (j₀.leased claim.owner count' t').passed false))
      (acts ++ [.between s .proceed
        (s.modifyWorker p i fun w =>
          w.goto (.storing claim (j₀.leased claim.owner count' t').passed false))]) := by
  rcases (hjob.writable j₀ hbuilt).1 with ⟨v, hv⟩
  have hrecord : (j₀.leased claim.owner count' t').passed.toRecord = .ok ⟨_, v⟩ :=
    Job.toRecord_of_payload hv
  have hquiet' : Quiet (acts ++ [⟨s, .proceed, []⟩]) := hquiet.append rfl rfl
  have hpassed : Result b.registry n claim.owner r₀ (acts ++ [⟨s, .proceed, []⟩]) .passed
      ⟨(j₀.leased claim.owner count' t').passed.base, v⟩ := by
    refine .passed hbuilt hpasses hquiet'.begun hv ?_ rfl (hjob.isOpen hbuilt).2
    rw [← Registry.build?_base hbuilt]
    rfl
  exact h.quietly hw rfl (.storing hrecord rfl rfl hpassed trivial)

theorem AtWork.decide {j : Job β} {known : List (String × Option Bool)}
    (h : AtWork p i n b d claim r₀ s acts m (.checking claim j [] known) r)
    (hjob : Workable b claim r₀) (hw : s.workerAt p i = some w) (pool : Pool β) :
    Working p i n b d claim r₀ (s.checkDependency p i pool claim j [] known)
      (acts ++ [.between s .proceed (s.checkDependency p i pool claim j [] known)]) := by
  have hstage := h.stage
  cases hstage with
  | @checking j₀ asked _ _ count count' t t' hquiet hlength hbuilt hasked hconsulted =>
  rw [List.append_nil] at hasked
  have hfinds : ∀ {readiness}, j₀.base.dependency.state s.files
      (fun e => (known.lookup e).join) = readiness →
      ∀ begun, Finds b.registry n (acts ++ [⟨s, .proceed, begun⟩]) j₀ readiness := by
    intro readiness hstate begun
    refine ⟨known, ⟨s, .proceed, begun⟩, hasked ▸ hconsulted.append _, ?_, hstate⟩
    rw [← hasked, ← hlength, List.getElem?_concat_length]
  unfold System.checkDependency
  dsimp only
  split <;> rename_i hstate
  · exact h.beginAttempt hw hquiet hbuilt (hfinds hstate)
  · exact h.passJob hjob hw hquiet hbuilt (hfinds hstate [])
  · apply h.giveBack hjob hw hquiet
    intro j' hbuilt'
    rw [hbuilt] at hbuilt'
    cases hbuilt'
    exact Or.inl (hfinds hstate _)
  · apply h.giveBack hjob hw hquiet
    intro j' hbuilt'
    rw [hbuilt] at hbuilt'
    cases hbuilt'
    exact Or.inr (hfinds hstate _)

theorem AtWork.endAttempt {j : Job β} {endsAt renewAt : Nat}
    (h : AtWork p i n b d claim r₀ s acts m (.running claim j endsAt renewAt) r)
    (hjob : Workable b claim r₀) (hw : s.workerAt p i = some w) :
    Working p i n b d claim r₀ (s.endAttempt p i claim j)
      (acts ++ [.between s .finish (s.endAttempt p i claim j)]) := by
  have hstage := h.stage
  cases hstage with
  | @running j₀ run _ _ count t hbegan hendings hkept =>
  rcases hbegan.job with ⟨count', t', hrun⟩
  have hbase := Registry.build?_base hbegan.built
  have hbody : run.job.body = j₀.body := by rw [hrun]; rfl
  have herror : run.job.base.error = none := by rw [hrun]; rfl
  rcases (hjob.writable j₀ hbegan.built).2 with ⟨v, hv⟩
  have hended := Job.attempted_ended_eq herror s.now
  rw [hbody] at hended
  have hrecord : (run.job.attempted.ended s.now).toRecord =
      .ok ⟨(run.job.attempted.ended s.now).base, v⟩ := by
    apply Job.toRecord_of_payload
    rw [hended]
    exact hv
  have hmoment : endings (acts ++ [⟨s, .finish, []⟩]) = [s.now] := by
    rw [endings_append, hendings]
    rfl
  have hran : Result b.registry n claim.owner r₀ (acts ++ [⟨s, .finish, []⟩]) .ran
      ⟨(run.job.attempted.ended s.now).base, v⟩ := by
    refine .ran (hbegan.append rfl) hmoment hv ?_ ?_ ?_
    · rw [hended, hrun, ← hbase]
      rfl
    · rw [hended, hrun]
      show (j₀.status.completed || _) = _
      rw [(hjob.isOpen hbegan.built).1, Bool.false_or]
    · rw [hended, hrun]
      show (j₀.status.failed || _) = _
      rw [(hjob.isOpen hbegan.built).2, Bool.false_or]
  have hbusy : (run.job.attempted.ended s.now).status.inProgress = true := by
    rw [hended, hrun]
    rfl
  have howner : (run.job.attempted.ended s.now).status.owner = claim.owner := by
    rw [hended, hrun]
    rfl
  exact h.quietly hw rfl (.storing hrecord hbusy howner hran trivial)

theorem AtWork.renewLock {j : Job β} {endsAt renewAt : Nat}
    (h : AtWork p i n b d claim r₀ s acts m (.running claim j endsAt renewAt) r)
    (hjob : Workable b claim r₀) (hw : s.workerAt p i = some w) (pool : Pool β) :
    Working p i n b d claim r₀ (s.renewLock p i pool claim j endsAt)
      (acts ++ [.between s .renew (s.renewLock p i pool claim j endsAt)]) := by
  rcases h.stored with ⟨e, he, hrecord⟩
  have hstage := h.stage
  cases hstage with
  | @running j₀ run _ _ count t hbegan hendings hkept =>
  have hheld := hjob.heldAt he hrecord
  have hnone : endings (acts ++ [⟨s, .renew, []⟩]) = [] :=
    (endings_append_of_ne (a := ⟨s, .renew, []⟩) acts nofun).trans hendings
  have hkept' := kept_append (a := ⟨s, .renew, []⟩) hkept nofun
  unfold System.renewLock
  rw [h.reaches.driverLock_eq]
  cases hlock : m.lock claim.id claim.owner s.now b.lease.lockTimeout with
  -- The worker's own lock is not refused, also when its lease has run out.
  | refused err => exact absurd hlock (hheld.lock_ne_refused s.now b.lease.lockTimeout err)
  | made m' =>
      rcases Memory.lock_cases hlock with ⟨e', status, he', hs, rfl⟩
      rw [he] at he'
      cases he'
      have hrenewed : e.record.withStatus status = r₀.leased claim.owner (count + 1) s.now := by
        rcases Status.lock_cases hs with ⟨-, -, -, -, rfl⟩
        rw [hrecord]
        rfl
      have hstage : ∀ renewAt, Stage b.registry n claim r₀ (acts ++ [⟨s, .renew, []⟩])
          (.running claim run.job endsAt renewAt) (e.record.withStatus status) := by
        intro renewAt
        rw [hrenewed]
        exact .running (hbegan.append rfl) hnone hkept'
      have hid : (e.record.withStatus status).id = claim.id := h.indexed.record_id he
      exact h.stores (f := fun w => w.goto (.running claim run.job endsAt _)) hw he hid rfl
        (hstage _) rfl
  | broken m' =>
      rcases Memory.lock_broken_cases hlock with ⟨e', status, he', hs, rfl⟩
      rw [he] at he'
      cases he'
      rcases Status.lock_broken_cases hs with ⟨-, -, -, hlast, hstatus⟩
      have hsame : e.record.withStatus status = r₀.leased claim.owner count t := by
        rw [hstatus, hrecord]
        rfl
      have hbroken : Result b.registry n claim.owner r₀ (acts ++ [⟨s, .renew, []⟩]) .broken
          (e.record.withStatus status) := by
        rw [hsame]
        rw [hrecord] at hlast
        exact .broken (hbegan.append rfl) hnone hkept' rfl hjob.completed hjob.failed hlast
      have hlocks : Ending.broken.Locks claim.owner (e.record.withStatus status).status := by
        rw [hsame]
        exact ⟨rfl, rfl⟩
      have hid : (e.record.withStatus status).id = claim.id := h.indexed.record_id he
      exact h.stores hw he hid rfl (.resting hbroken hlocks) rfl

theorem AtWork.giveUp {j : Job β} {endsAt renewAt : Nat}
    (h : AtWork p i n b d claim r₀ s acts m (.running claim j endsAt renewAt) r)
    (hjob : Workable b claim r₀) (hw : s.workerAt p i = some w) :
    Working p i n b d claim r₀ (s.modifyWorker p i Worker.finishJob)
      (acts ++ [.between s .giveUp (s.modifyWorker p i Worker.finishJob)]) := by
  have hstage := h.stage
  cases hstage with
  | @running j₀ run _ _ count t hbegan hendings hkept =>
  have hnone : endings (acts ++ [⟨s, .giveUp, []⟩]) = [] :=
    (endings_append_of_ne (a := ⟨s, .giveUp, []⟩) acts nofun).trans hendings
  have hmem : (⟨s, .giveUp, []⟩ : Act β) ∈ acts ++ [⟨s, .giveUp, []⟩] :=
    List.mem_append_right _ List.mem_cons_self
  have hgivenUp : Result b.registry n claim.owner r₀ (acts ++ [⟨s, .giveUp, []⟩]) .calledOff
      (r₀.leased claim.owner count t) :=
    .calledOff (hbegan.append rfl) hnone ⟨_, hmem, rfl⟩ rfl hjob.completed hjob.failed
  exact h.quietly hw rfl (.resting hgivenUp ⟨rfl, rfl⟩)

theorem AtWork.storeJob {j : Job β} {counts : Bool}
    (h : AtWork p i n b d claim r₀ s acts m (.storing claim j counts) r)
    (hjob : Workable b claim r₀) (hw : s.workerAt p i = some w) (pool : Pool β) :
    Working p i n b d claim r₀ (s.storeJob p i pool claim j counts)
      (acts ++ [.between s .proceed (s.storeJob p i pool claim j counts)]) := by
  rcases h.stored with ⟨e, he, hrecord⟩
  have hstage := h.stage
  cases hstage with
  | @storing ending _ r' _ count t hr' hbusy howner hresult hending =>
  have hid : r'.id = claim.id := hresult.id_eq.trans hjob.id
  -- Renewals have moved the count of the lock past that of the copy; the holder may save all the same.
  rcases (hjob.heldAt he hrecord).exists_save hjob.owner hid howner s.now
    b.lease.lockTimeout with ⟨m', hsave⟩
  have hm' : m' = m.replace claim.id
      { e with record := r'.withStatus (e.record.status.merge r'.status) } := by
    rcases Memory.save_cases hsave with ⟨e', he', -, hm'⟩ | ⟨hnone, -⟩
    · rw [hid, he] at he'
      cases he'
      rw [hm', hid]
    · rw [hid, he] at hnone
      cases hnone
  have hstored : Result b.registry n claim.owner r₀ (acts ++ [⟨s, .proceed, []⟩]) ending
      (r'.withStatus (e.record.status.merge r'.status)) :=
    (hresult.append (a := ⟨s, .proceed, []⟩) hending rfl nofun).relock hending rfl rfl
  have hid' : (r'.withStatus (e.record.status.merge r'.status)).id = claim.id := hid
  have hstage : Stage b.registry n claim r₀ (acts ++ [⟨s, .proceed, []⟩]) (.releasing claim)
      (r'.withStatus (e.record.status.merge r'.status)) :=
    .releasing hbusy howner hstored hending
  unfold System.storeJob
  rw [h.reaches.driverSave_eq pool.token hr', hsave, hm']
  exact h.stores hw he hid' rfl hstage rfl

theorem AtWork.releaseJob (h : AtWork p i n b d claim r₀ s acts m (.releasing claim) r)
    (hw : s.workerAt p i = some w) (pool : Pool β) :
    Working p i n b d claim r₀ (s.releaseJob p i pool claim)
      (acts ++ [.between s .proceed (s.releaseJob p i pool claim)]) := by
  rcases h.stored with ⟨e, he, hrecord⟩
  have hstage := h.stage
  cases hstage with
  | @releasing ending _ hbusy howner hresult hending =>
  subst hrecord
  have hreleased : ∀ (f : Worker β → Worker β) (status : Status), (f w).phase = .resting →
      status.completed = e.record.status.completed → status.failed = e.record.status.failed →
      status.inProgress = false → status.owner = "" →
      s.releaseJob p i pool claim = (s.putStore n b d (m.replace claim.id
        { e with record := e.record.withStatus status })).modifyWorker p i f →
      Working p i n b d claim r₀ (s.releaseJob p i pool claim)
        (acts ++ [.between s .proceed (s.releaseJob p i pool claim)]) := by
    intro f status hf hcompleted hfailed hfree howner' hs'
    have hstored : Result b.registry n claim.owner r₀ (acts ++ [⟨s, .proceed, []⟩]) ending
        (e.record.withStatus status) :=
      (hresult.append (a := ⟨s, .proceed, []⟩) hending rfl nofun).relock hending hcompleted hfailed
    have hid : (e.record.withStatus status).id = claim.id := h.indexed.record_id he
    exact h.stores hw he hid hf (.resting hstored (hending.locks hfree howner')) hs'
  let free : Status := { e.record.status with inProgress := false, owner := "" }
  have hunlock : m.unlock claim.id claim.owner s.now =
      ((free.counted s.now).mapRefusal .lock).map (m.setStatus claim.id e) := by
    unfold Memory.unlock
    rw [he]
    dsimp only
    rw [Status.unlock_of_holder hbusy howner]
  -- At the end of the count the worker breaks down, but by then the lock is released.
  rcases Status.counted_cases free s.now with ⟨-, hmade⟩ | ⟨-, hbroken⟩
  · rw [hmade] at hunlock
    apply hreleased Worker.finishJob
      { free with modCount := free.modCount + 1, modTime := some s.now } rfl rfl rfl rfl rfl
    unfold System.releaseJob
    rw [h.reaches.driverUnlock_eq, hunlock]
    rfl
  · rw [hbroken] at hunlock
    apply hreleased Worker.crash free rfl rfl rfl rfl rfl
    unfold System.releaseJob
    rw [h.reaches.driverUnlock_eq, hunlock]
    rfl

theorem AtWork.workerStep (h : AtWork p i n b d claim r₀ s acts m phase r)
    (hjob : Workable b claim r₀) (hbusy : phase ≠ .resting) {move : WorkerMove}
    (hstep : s.workerStep p i move = some s') :
    Working p i n b d claim r₀ s' (acts ++ [.between s move s']) := by
  unfold System.workerStep at hstep
  simp only [Option.bind_eq_bind, Option.bind_eq_some_iff] at hstep
  rcases hstep with ⟨pool, hpool, w, hworker, hstep⟩
  have hw := workerAt_eq hpool hworker
  have hphase : w.phase = phase := Option.some.inj ((phaseAt_eq hw).symm.trans h.doing)
  rw [hphase] at hstep
  -- The stage says in which phase the worker is; most moves are none of that phase.
  have hclaims := h.stage
  cases hclaims with
  | resting hresult hlocks => exact absurd rfl hbusy
  | loading hnil =>
      cases move with
      | proceed =>
          cases hstep
          exact h.loadJob hjob hw pool
      | _ => cases hstep
  | @checking j₀ asked left known _ _ _ _ hquiet hlength hbuilt hasked hconsulted =>
      cases move with
      | proceed =>
          cases hstep
          cases left with
          | nil => exact h.decide hjob hw pool
          | cons id left => exact h.lookUp hw pool
      | _ => cases hstep
  | running hbegan hendings hkept =>
      cases move with
      | finish =>
          dsimp only at hstep
          split at hstep
          · cases hstep
            exact h.endAttempt hjob hw
          · cases hstep
      | renew =>
          dsimp only at hstep
          split at hstep
          · cases hstep
            exact h.renewLock hjob hw pool
          · cases hstep
      | giveUp =>
          dsimp only at hstep
          split at hstep
          · cases hstep
            exact h.giveUp hjob hw
          · cases hstep
      | _ => cases hstep
  | storing hr hprogress howner hresult hending =>
      cases move with
      | proceed =>
          cases hstep
          exact h.storeJob hjob hw pool
      | _ => cases hstep
  | releasing hprogress howner hresult hending =>
      cases move with
      | proceed =>
          cases hstep
          exact h.releaseJob hw pool
      | _ => cases hstep

end System

end LeaseQueue
