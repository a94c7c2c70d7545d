import Mathlib.Logic.ExistsUnique
import LeaseQueue.Proofs.Queue.Stages
/-!
# Attempts are all or nothing

While nobody else changes the stored record of a job, a worker that takes it up as
a candidate comes to rest in exactly one of five ways: there is no record of half
an attempt, and none of an attempt that was called off. The one exception is a lock
whose count is at its end, on which the worker breaks down half-way.
-/

namespace LeaseQueue
namespace System

variable {β : Type} [Body β] {p i n : Nat} {b : Backend β} {d : Discipline} {claim : Claim}
variable {r₀ r : Record} {s s' : System β} {acts : List (Act β)} {m m' : Memory}
variable {phase : Phase β} {w : Worker β}

omit [Body β] in
theorem Reaches.of_frames {k : Nat} (h : s.Reaches k n b d m) (hm : m.Indexed)
    (hframes : s.Frames p i s') : ∃ m', s'.Reaches k n b d m' ∧ m'.Indexed := by
  rcases h.driver with ⟨driver, hdriver, hplace, houtages⟩
  rcases hframes.stores n b d m h.store hm with ⟨m', hstore, hm', -⟩
  exact ⟨m', ⟨⟨driver, hframes.drivers k driver hdriver houtages, hplace, houtages⟩, hstore⟩, hm'⟩

theorem AtWork.handle (h : AtWork p i n b d claim r₀ s acts m phase r) (hbusy : phase ≠ .resting)
    {e : Event β} (hothers : ∀ move, e ≠ .move (.worker p i move)) (hhandle : s.handle e = some s')
    (hrecord : s'.recordIn n claim.id = s.recordIn n claim.id) :
    Working p i n b d claim r₀ s' acts := by
  have hframes : s.Frames p i s' := frames_handle hothers hhandle
  rcases h.reaches.of_frames h.indexed hframes with ⟨m', hreaches, hindexed⟩
  have hclaim : s.claimAt p i ≠ none := by
    rw [claimAt_eq h.doing]
    have hstage := h.stage
    cases hstage with
    | resting hresult hlocks => exact absurd rfl hbusy
    | _ => exact Option.some_ne_none _
  rw [h.recordIn_eq, hreaches.recordIn_eq] at hrecord
  refine ⟨m', phase, r, hframes.started h.started, ?_, hreaches, hindexed, ?_, h.stage⟩
  · exact (hframes.phase h.started hclaim).trans h.doing
  · exact Option.map_eq_some_iff.mp hrecord

/-- From whatever stage a worker goes on, it comes to rest with a result. -/
theorem Working.attends (h : Working p i n b d claim r₀ s acts) (hjob : Workable b claim r₀)
    {more : List (Act β)} (hattends : Attends p i n claim.id s more s') :
    ∃ e r, s'.recordIn n claim.id = some r ∧ e.Locks claim.owner r.status ∧
      Result b.registry n claim.owner r₀ (acts ++ more) e r := by
  -- The stage carries the induction: a move of the worker leads to the next one, and what others do
  -- leaves the worker where it is.
  induction hattends generalizing acts with
  | @rests s hrest =>
      rcases h with ⟨m, phase, r, hwork⟩
      have hphase := hwork.doing
      rw [hrest] at hphase
      cases hphase
      have hstage := hwork.stage
      cases hstage with
      | @resting e _ hresult hlocks =>
      rw [List.append_nil]
      exact ⟨e, r, hwork.recordIn_eq, hlocks, hresult⟩
  | @moves s s₁ s' move rest hbusy hstep hrest ih =>
      rcases h with ⟨m, phase, r, hwork⟩
      have hphase : phase ≠ .resting := by
        rintro rfl
        exact hbusy hwork.doing
      have hnext := ih (hwork.workerStep hjob hphase hstep)
      rw [List.append_assoc] at hnext
      exact hnext
  | @waits s s₁ s' e more hbusy hothers hhandle hrecord hrest ih =>
      rcases h with ⟨m, phase, r, hwork⟩
      have hphase : phase ≠ .resting := by
        rintro rfl
        exact hbusy hwork.doing
      exact ih (hwork.handle hphase hothers hhandle hrecord)

theorem Attends.of_resting {id : String} (h : Attends p i n id s acts s')
    (hrest : s.phaseAt p i = some .resting) : acts = [] ∧ s' = s := by
  cases h with
  | rests hphase => exact ⟨rfl, rfl⟩
  | moves hbusy hstep hmore => exact absurd hrest hbusy
  | waits hbusy hothers hhandle hrecord hmore => exact absurd hrest hbusy

omit [Body β] in
theorem refused_of_lock {k : Nat} (hreaches : s.Reaches k n b d m) {id owner : String}
    {timeout : Nat} {err : StoreError} (hlock : m.lock id owner s.now timeout = .refused err) :
    s.recordIn n id = none ∨
      ∃ r, s.recordIn n id = some r ∧ r.status.canLock owner s.now timeout = false := by
  rw [hreaches.recordIn_eq]
  cases he : m.lookup? id with
  | none => exact Or.inl rfl
  | some e =>
      refine Or.inr ⟨e.record, rfl, ?_⟩
      cases hcan : e.record.status.canLock owner s.now timeout with
      | false => rfl
      | true =>
          unfold Memory.lock at hlock
          rw [he] at hlock
          dsimp only at hlock
          rw [Status.lock_of_canLock hcan] at hlock
          rcases Status.counted_cases { e.record.status with inProgress := true, owner := owner }
            s.now with ⟨-, hmade⟩ | ⟨-, hbroken⟩
          · rw [hmade] at hlock
            cases hlock
          · rw [hbroken] at hlock
            cases hlock

omit [Body β] in
theorem leased_of_lock (hm : m.Indexed) {id owner : String} {now : Timestamp} {timeout : Nat}
    (hlock : m.lock id owner now timeout = .made m') :
    ∃ e, m.lookup? id = some e ∧ e.record.status.completed = false ∧
      e.record.status.failed = false ∧ m'.Indexed ∧ (m'.lookup? id).map Entry.record =
        some (e.record.leased owner (e.record.status.modCount + 1) now) := by
  rcases Memory.lock_cases hlock with ⟨e, status, he, hs, rfl⟩
  rcases Status.lock_cases hs with ⟨hcompleted, hfailed, -, -, rfl⟩
  have hid : (e.record.leased owner (e.record.status.modCount + 1) now).id = id := hm.record_id he
  refine ⟨e, he, hcompleted, hfailed, hm.replace he rfl hid, ?_⟩
  rw [Memory.lookup?_replace, if_pos rfl]
  rfl

theorem working_of_lock (hreaches : s.Reaches claim.driver n b d m) (hm : m.Indexed)
    (hstarted : s.HasStarted p) (hw : s.workerAt p i = some w) (hr₀ : s.recordIn n claim.id = some r₀)
    {f : Worker β → Worker β} (hf : (f w).phase = .loading claim)
    (hlock : m.lock claim.id claim.owner s.now b.lease.lockTimeout = .made m') :
    Working p i n b d claim r₀ ((s.putStore n b d m').modifyWorker p i f) [] := by
  rcases leased_of_lock hm hlock with ⟨e, he, -, -, hm', hlocked⟩
  rw [hreaches.recordIn_eq, he] at hr₀
  cases hr₀
  have hw' : (s.putStore n b d m').workerAt p i = some w := hw
  refine ⟨m', .loading claim, _, ?_, ?_, ?_, hm', Option.map_eq_some_iff.mp hlocked,
    .loading rfl⟩
  · exact hasStarted_modifyWorker hstarted p i f
  · rw [phaseAt_modifyWorker_self hw', hf]
  · exact ⟨hreaches.driver, (hreaches.putStore _).store⟩

variable {k : Nat} {candidate : Job β} {owner : String}

theorem Attends.untouched {timeout : Nat} (registry : Registry β)
    (h : Attends p i n candidate.id (s.modifyWorker p i Worker.finishJob) acts s')
    (hw : s.workerAt p i = some w)
    (hwhy : candidate.status.isFinished = true ∨ s.recordIn n candidate.id = none ∨
      ∃ r, s.recordIn n candidate.id = some r ∧ r.status.canLock owner s.now timeout = false) :
    Ends registry n owner acts timeout candidate s .untouched (s'.recordIn n candidate.id) := by
  have hrest : (s.modifyWorker p i Worker.finishJob).phaseAt p i = some .resting :=
    phaseAt_modifyWorker_self hw _
  rcases h.of_resting hrest with ⟨hnil, rfl⟩
  exact .untouched hwhy hnil

theorem Attends.settled {f : Worker β → Worker β} (hreaches : s.Reaches k n b d m)
    (hm : m.Indexed) (hstarted : s.HasStarted p) (hw : s.workerAt p i = some w)
    (hopen : candidate.status.isFinished = false) (howner : owner ≠ "")
    (hlock : m.lock candidate.id owner s.now b.lease.lockTimeout = .made m')
    (hwritable : ∀ r j, s.recordIn n candidate.id = some r → b.registry.build? r = some j →
      (∃ v, Body.payload j.body = .ok v) ∧ ∃ v, Body.payload (Body.attempt j.body).body = .ok v)
    (hf : (f w).phase = .loading ⟨candidate.id, k, owner⟩)
    (h : Attends p i n candidate.id ((s.putStore n b d m').modifyWorker p i f) acts s') :
    ∃ e, Ends b.registry n owner acts b.lease.lockTimeout candidate s e
      (s'.recordIn n candidate.id) := by
  rcases Memory.lock_cases hlock with ⟨entry, status, hentry, hs, -⟩
  rcases Status.lock_cases hs with ⟨hcompleted, hfailed, hcan, hroom, -⟩
  have hr₀ : s.recordIn n candidate.id = some entry.record := by
    rw [hreaches.recordIn_eq, hentry]
    rfl
  have hjob : Workable b ⟨candidate.id, k, owner⟩ entry.record :=
    ⟨hcompleted, hfailed, hm.record_id hentry, howner, fun j => hwritable entry.record j hr₀⟩
  have hworking := working_of_lock hreaches hm hstarted hw hr₀ hf hlock
  rcases hworking.attends hjob h with ⟨e, r, hr, hlocks, hresult⟩
  rw [hr]
  exact ⟨e, .settled hopen hr₀ hcan hroom hresult hlocks⟩

theorem Attends.broken (h : Attends p i n candidate.id
      ((s.putStore n b d m').modifyWorker p i Worker.crash) acts s')
    (hreaches : s.Reaches k n b d m) (hw : s.workerAt p i = some w)
    (hopen : candidate.status.isFinished = false)
    (hlock : m.lock candidate.id owner s.now b.lease.lockTimeout = .broken m') :
    Ends b.registry n owner acts b.lease.lockTimeout candidate s .broken
      (s'.recordIn n candidate.id) := by
  rcases Memory.lock_broken_cases hlock with ⟨entry, status, hentry, hs, rfl⟩
  rcases Status.lock_broken_cases hs with ⟨-, -, hcan, hlast, rfl⟩
  have hw' : (s.putStore n b d (m.replace candidate.id { entry with
      record := entry.record.withStatus { entry.record.status with
        inProgress := true, owner := owner } })).workerAt p i = some w := hw
  rcases h.of_resting (phaseAt_modifyWorker_self hw' _) with ⟨hnil, rfl⟩
  have hr₀ : s.recordIn n candidate.id = some entry.record := by
    rw [hreaches.recordIn_eq, hentry]
    rfl
  have hstored : (s.putStore n b d (m.replace candidate.id { entry with
      record := entry.record.withStatus { entry.record.status with
        inProgress := true, owner := owner } })).recordIn n candidate.id =
      some (entry.record.withStatus { entry.record.status with
        inProgress := true, owner := owner }) := by
    rw [(hreaches.putStore _).recordIn_eq, Memory.lookup?_replace, if_pos rfl]
    rfl
  show Ends b.registry n owner acts b.lease.lockTimeout candidate s .broken
    (System.recordIn (s.putStore n b d _) n candidate.id)
  rw [hstored]
  exact .broken hopen hr₀ hcan hlast hnil

/-- While nobody else changes the stored record, the work on a candidate ends in exactly one of five
ways. The job is not taken up, and its record stays; or one attempt ran to its end, and all that it
left is stored; or the work was done already; or the job has to wait; or the one attempt was called
off. In the last two cases nothing but the lock has changed, and only an attempt that was called off
leaves the job locked. There is a sixth way only if the count is at its end when the lock is taken or
renewed: then the worker breaks down and leaves the job locked. -/
theorem attempt_all_or_nothing {registry : Registry β} {lease : LeaseSettings} {s₀ s₁ : System β}
    {pool : Pool β} {driver : Driver} (hpool : s₀.pools[p]? = some pool)
    (hstarted : pool.started = true) (hphase : s₀.phaseAt p i = some (.claiming candidate))
    (hsource : s₀.sourceDriver pool.source = some k) (hdriver : s₀.drivers[k]? = some driver)
    (houtages : driver.outages = []) (hbackend : s₀.backends[driver.backend]? = some b)
    (hb : Backend.Reachable registry d lease b)
    (hwritable : ∀ r j, s₀.recordIn driver.backend candidate.id = some r →
      registry.build? r = some j → (∃ v, Body.payload j.body = .ok v) ∧
        ∃ v, Body.payload (Body.attempt j.body).body = .ok v)
    (hclaim : s₀.workerStep p i .proceed = some s₁)
    (hattends : Attends p i driver.backend candidate.id s₁ acts s) :
    ∃! e, Ends registry driver.backend (ownerName driver.name i) acts lease.lockTimeout candidate
      s₀ e (s.recordIn driver.backend candidate.id) := by
  rcases hb.exists_memory with ⟨m, rfl, hm⟩
  have hreaches : s₀.Reaches k driver.backend _ d m := ⟨⟨driver, hdriver, rfl, houtages⟩, hbackend⟩
  rcases Option.map_eq_some_iff.mp hphase with ⟨w, hw, hphase⟩
  have hstep : s₀.claimCandidate p i pool candidate = s₁ := by
    rcases exists_pool_of_workerAt hw with ⟨pool', hpool', hworker⟩
    rw [hpool] at hpool'
    cases hpool'
    unfold System.workerStep at hclaim
    simp only [hpool, hworker, hphase, Option.bind_eq_bind, Option.bind_some] at hclaim
    exact Option.some.inj hclaim
  have hname : s₀.driverName k = driver.name := by
    unfold driverName
    rw [hdriver]
  refine existsUnique_of_exists_of_unique ?_ fun e e' h h' => h.ending_unique h'
  subst hstep
  unfold System.claimCandidate at hattends
  rw [hsource] at hattends
  simp only [hname] at hattends
  split at hattends
  · rename_i hfinished
    exact ⟨.untouched, hattends.untouched registry hw (Or.inl hfinished)⟩
  · rename_i hopen
    rw [hreaches.driverLock_eq] at hattends
    cases hlock : m.lock candidate.id (ownerName driver.name i) s₀.now
        (Backend.inMemory registry d lease).lease.lockTimeout with
    | refused err =>
        rw [hlock] at hattends
        exact ⟨.untouched, hattends.untouched registry hw (Or.inr (refused_of_lock hreaches hlock))⟩
    | broken m' =>
        rw [hlock] at hattends
        exact ⟨.broken, Attends.broken hattends hreaches hw (by simpa using hopen) hlock⟩
    | made m' =>
        rw [hlock] at hattends
        exact Attends.settled hreaches hm ⟨pool, hpool, hstarted⟩ hw (by simpa using hopen)
          (ownerName_ne_empty driver.name i) hlock hwritable rfl hattends

def isResting (s : System β) (p i : Nat) : Bool :=
  match s.phaseAt p i with
  | some .resting => true
  | _ => false

/-- What a worker comes to that makes the moves in turn, while time passes where none is given. -/
def attend (p i : Nat) (s : System β) : List (Option WorkerMove) → Option (List (Act β) × System β)
  | [] => if s.isResting p i then some ([], s) else none
  | none :: rest =>
      if s.isResting p i then none
      else do
        let s₁ ← s.tick
        attend p i s₁ rest
  | some move :: rest =>
      if s.isResting p i then none
      else do
        let s₁ ← s.workerStep p i move
        let (acts, s') ← attend p i s₁ rest
        return (.between s move s₁ :: acts, s')

omit [Body β] in
theorem isResting_iff : s.isResting p i = true ↔ s.phaseAt p i = some .resting := by
  unfold isResting
  split
  · rename_i hrest
    simp [hrest]
  · rename_i hbusy
    exact ⟨nofun, fun hrest => absurd hrest hbusy⟩

theorem attends_of_attend {id : String} {moves : List (Option WorkerMove)}
    (h : attend p i s moves = some (acts, s')) : Attends p i n id s acts s' := by
  induction moves generalizing s acts with
  | nil =>
      unfold attend at h
      split at h
      · rename_i hrest
        cases h
        exact .rests (isResting_iff.mp hrest)
      · cases h
  | cons next rest ih =>
      have hbusy : s.isResting p i ≠ true → s.phaseAt p i ≠ some .resting :=
        fun hbusy hrest => hbusy (isResting_iff.mpr hrest)
      cases next with
      | none =>
          unfold attend at h
          split at h
          · cases h
          · rename_i hstill
            rcases Option.bind_eq_some_iff.mp h with ⟨s₁, htick, hrest⟩
            refine .waits (e := .tick) (hbusy hstill) nofun htick ?_ (ih hrest)
            unfold tick at htick
            split at htick
            · rcases Option.map_eq_some_iff.mp htick with ⟨t, -, rfl⟩
              rfl
            · cases htick
      | some move =>
          unfold attend at h
          split at h
          · cases h
          · rename_i hstill
            rcases Option.bind_eq_some_iff.mp h with ⟨s₁, hstep, h⟩
            rcases Option.bind_eq_some_iff.mp h with ⟨⟨acts', s₂⟩, hrest, heq⟩
            cases heq
            exact .moves (hbusy hstill) hstep (ih hrest)

/-- An attempt of 700 milliseconds records two errors; the lock is renewed after half a second. -/
theorem attempt_all_or_nothing_of_errors :
    let registry : Registry Work :=
      Registry.empty.register "sample" 0 fun _ => some (.drill ⟨700, true, ["second"]⟩)
    let b : Backend Work := (Backend.inMemory registry .byPriority ⟨1, 0⟩).run
      [⟨.save (Backend.sampleJob "job"), false, .ofNanos 0⟩]
    let idle : System Work := ((empty 0).perform (.addBackend b ⟨"one", 0, []⟩)).2
    let started : System Work :=
      ((idle.perform (.addPool 1 600)).2.perform (.startPool 0 0 [] (some 0))).2
    let s₀ : System Work := started.modifyWorker 0 0 fun w => w.takeUp (Backend.sampleJob "job")
    ∃ s₁ acts s, s₀.workerStep 0 0 .proceed = some s₁ ∧ Attends 0 0 0 "job" s₁ acts s ∧
      (∃! e, Ends registry 0 "one/worker-0" acts 1000000000 (Backend.sampleJob "job") s₀ e
        (s.recordIn 0 "job")) ∧
      (s.recordIn 0 "job").map (fun r => r.base.error) = some (some "mock failure; second") := by
  intro registry b idle started s₀
  have hwork : ((s₀.workerStep 0 0 .proceed).any fun s₁ =>
      (attend 0 0 s₁ [some .proceed, some .proceed, none, some .renew, none, some .finish,
        some .proceed, some .proceed]).any fun (_, s) =>
          (s.recordIn 0 "job").map (fun r => r.base.error) = some (some "mock failure; second")) =
        true := by decide +kernel
  rcases (Option.any_eq_true _ _).mp hwork with ⟨s₁, hs₁, hrest⟩
  rcases (Option.any_eq_true _ _).mp hrest with ⟨⟨acts, s⟩, hacts, herror⟩
  have hattends : Attends 0 0 0 "job" s₁ acts s := attends_of_attend hacts
  refine ⟨s₁, acts, s, hs₁, hattends, ?_, of_decide_eq_true herror⟩
  have hwritable : ∀ r j, s₀.recordIn 0 "job" = some r → registry.build? r = some j →
      (∃ v, Body.payload j.body = .ok v) ∧ ∃ v, Body.payload (Body.attempt j.body).body = .ok v := by
    intro r j hr hbuilt
    cases hr
    cases hbuilt
    exact ⟨⟨_, rfl⟩, ⟨_, rfl⟩⟩
  exact attempt_all_or_nothing rfl rfl rfl rfl rfl rfl rfl ⟨_, rfl⟩ hwritable hs₁ hattends

/-- A job is put whose count is at its end. The worker that takes it up breaks down, and leaves a job
that nobody has run under a lock of its own. -/
theorem job_left_half_locked_at_last_count :
    let registry : Registry Work :=
      Registry.empty.register "sample" 0 fun _ => some (.drill ⟨0, false, []⟩)
    let job : Job Work := (Backend.sampleJob "job").withStatus
      { Status.blank with modCount := 18446744073709551615 }
    let b : Backend Work :=
      (Backend.inMemory registry .byPriority ⟨300, 0⟩).run [⟨.save job, false, .ofNanos 0⟩]
    let idle : System Work := ((empty 0).perform (.addBackend b ⟨"one", 0, []⟩)).2
    let started : System Work :=
      ((idle.perform (.addPool 1 600)).2.perform (.startPool 0 0 [] (some 0))).2
    let s₀ : System Work := started.modifyWorker 0 0 fun w => w.takeUp job
    ∃ s₁, s₀.workerStep 0 0 .proceed = some s₁ ∧ Attends 0 0 0 "job" s₁ [] s₁ ∧
      (s₁.recordIn 0 "job").map Record.status =
        some { Status.blank with
          inProgress := true, owner := "one/worker-0", modCount := 18446744073709551615 } ∧
      ∀ e, Ends registry 0 "one/worker-0" [] 300000000000 job s₀ e (s₁.recordIn 0 "job") →
        e = .broken := by
  intro registry job b idle started s₀
  have hwork : ((s₀.workerStep 0 0 .proceed).any fun s₁ => s₁.isResting 0 0 &&
      (s₁.recordIn 0 "job").map Record.status =
        some { Status.blank with
          inProgress := true, owner := "one/worker-0", modCount := 18446744073709551615 }) =
      true := by decide +kernel
  rcases (Option.any_eq_true _ _).mp hwork with ⟨s₁, hs₁, hreached⟩
  rcases (Bool.and_eq_true _ _).mp hreached with ⟨hrests, hstored⟩
  refine ⟨s₁, hs₁, .rests (isResting_iff.mp hrests), of_decide_eq_true hstored, ?_⟩
  have hbefore : (s₀.recordIn 0 "job").map Record.status =
      some { Status.blank with modCount := 18446744073709551615 } := by decide +kernel
  have hstatus : ∀ r, s₀.recordIn 0 "job" = some r →
      r.status = { Status.blank with modCount := 18446744073709551615 } := by
    intro r hr
    rw [hr] at hbefore
    exact Option.some.inj hbefore
  intro e hends
  generalize hafter : s₁.recordIn 0 "job" = after at hends
  cases hends with
  | broken => rfl
  | untouched hwhy hnil =>
      rcases hwhy with hfinished | hnone | ⟨r, hr, hcannot⟩
      · exact absurd hfinished (by decide)
      · have hnone' : s₀.recordIn 0 "job" = none := hnone
        rw [hnone'] at hbefore
        cases hbefore
      · rw [hstatus r hr] at hcannot
        exact absurd hcannot (by decide)
  | settled hopen hr₀ hcan hroom hresult hlocks =>
      rw [hstatus _ hr₀] at hroom
      exact absurd hroom (by decide)

end System

end LeaseQueue
