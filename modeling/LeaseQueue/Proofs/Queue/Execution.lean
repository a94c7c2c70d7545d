import LeaseQueue.Proofs.Queue.Course
/-!
# Who runs a job, and how often

Whatever the order in which workers, loops, keepers of leases and clients move,
at most one worker runs a job, under a live lock of its own; a finished job is
not run again unless a client saves it as an unfinished one; and a job that is
put once, while nothing is called off, is run at most once.
-/

namespace LeaseQueue

variable {β : Type}

def Phase.attempted? : Phase β → Option (Job β)
  | .running _ j _ _ => some j
  | _ => none

namespace System

/-- A worker is at an attempt at a job. -/
def Runs (s : System β) (id : String) (p i : Nat) : Prop :=
  ((s.phaseAt p i).bind Phase.attempted?).map Job.id = some id

instance (s : System β) (id : String) (p i : Nat) : Decidable (s.Runs id p i) :=
  inferInstanceAs (Decidable (((s.phaseAt p i).bind Phase.attempted?).map Job.id = some id))

def storedRecord? (s : System β) (id : String) : Option Record :=
  s.backends.head?.bind fun b => b.record? false id

/-- The stored job is completed or failed. -/
def HasFinished (s : System β) (id : String) : Prop :=
  ∃ r, s.storedRecord? id = some r ∧ r.status.isFinished = true

variable [Body β]

/-- A worker stores a job, and the store takes it. -/
def Stores (s : System β) (id : String) (p i : Nat) (s' : System β) : Prop :=
  ∃ pool claim j counts, s.pools[p]? = some pool ∧
    s.phaseAt p i = some (.storing claim j counts) ∧ j.id = id ∧
    (s.driverSave claim.driver pool.token j).1 = .ok () ∧
    s.step (.worker p i .proceed) = some s'

/-- A client saves a finished job, and then it is not finished any more. -/
def Clears (id : String) (s : System β) (e : Event β) : Prop :=
  e.Saves id ∧ s.HasFinished id ∧ ∃ s', s.handle e = some s' ∧ ¬ s'.HasFinished id

variable {b : Backend β} {d : Discipline} {owners : String → Prop} {s s' : System β} {m : Memory}
variable {e : Event β} {events : List (Event β)} {id : String} {p i p' i' : Nat}

omit [Body β] in
theorem Placed.storedRecord?_eq (h : Placed b d owners s m) (id : String) :
    s.storedRecord? id = (m.lookup? id).map Entry.record := by
  unfold storedRecord?
  rw [h.backends]
  rfl

omit [Body β] in
theorem Placed.hasFinished_iff (h : Placed b d owners s m) : s.HasFinished id ↔ m.Finished id := by
  unfold HasFinished
  rw [h.storedRecord?_eq]
  constructor
  · rintro ⟨r, hr, hfinished⟩
    rcases Option.map_eq_some_iff.mp hr with ⟨e, he, rfl⟩
    exact ⟨e, he, hfinished⟩
  · rintro ⟨e, he, hfinished⟩
    exact ⟨e.record, by rw [he, Option.map_some], hfinished⟩

/-!
## One worker at a time
-/

omit [Body β] in
theorem Runs.exists_running (h : s.Runs id p i) :
    ∃ claim j endsAt renewAt, s.phaseAt p i = some (.running claim j endsAt renewAt) ∧
      j.id = id := by
  rcases Option.map_eq_some_iff.mp h with ⟨j, hj, hid⟩
  rcases Option.bind_eq_some_iff.mp hj with ⟨phase, hphase, hattempted⟩
  cases phase with
  | running claim j' endsAt renewAt =>
      cases hattempted
      exact ⟨claim, j, endsAt, renewAt, hphase, hid⟩
  | resting => cases hattempted
  | asking => cases hattempted
  | fetching => cases hattempted
  | waiting deadline => cases hattempted
  | claiming candidate => cases hattempted
  | loading claim => cases hattempted
  | checking claim j' left known => cases hattempted
  | storing claim j' counts => cases hattempted
  | releasing claim => cases hattempted

omit [Body β] in
/-- A worker that runs a job holds its lock since a moment at most half a lease ago. -/
theorem Upheld.leased_of_runs (h : Upheld b d owners s m) (hruns : s.Runs id p i) :
    s.phaseAt p i ≠ none ∧ ∃ t, m.Leased b.lease s.clock id (s.ownerAt p i) t := by
  rcases hruns.exists_running with ⟨claim, j, endsAt, renewAt, hphase, hid⟩
  rcases h.sound.fits p i _ hphase with ⟨-, hj, -, t, hleased, -⟩
  rw [← hj.id, hid] at hleased
  exact ⟨by rw [hphase]; exact Option.some_ne_none _, t, hleased⟩

omit [Body β] in
theorem Upheld.runs_unique (h : Upheld b d owners s m) (hruns : s.Runs id p i)
    (hruns' : s.Runs id p' i') : p = p' ∧ i = i' := by
  rcases h.leased_of_runs hruns with ⟨hpresent, t, hleased⟩
  rcases h.leased_of_runs hruns' with ⟨hpresent', t', hleased'⟩
  exact h.sound.holder_unique hpresent hpresent' hleased.held hleased'.held

omit [Body β] in
theorem Upheld.locked_of_runs (h : Upheld b d owners s m) (hlease : 1 ≤ b.lease.lockSeconds)
    (hruns : s.Runs id p i) :
    ∃ r, s.storedRecord? id = some r ∧ r.status.inProgress = true ∧
      r.status.owner = s.ownerAt p i ∧ r.status.isLive s.now b.lease.lockTimeout = true := by
  rcases h.leased_of_runs hruns with ⟨hpresent, t, hleased⟩
  rcases hleased.held with ⟨entry, hentry, hheld⟩
  have hne : s.ownerAt p i ≠ "" := (h.sound.named.proper p i hpresent).2
  refine ⟨entry.record, ?_, hheld.inProgress, hheld.owner, ?_⟩
  · rw [h.placed.storedRecord?_eq, hentry]
    rfl
  · have hlive := hleased.live hlease
    simp [Status.isLive, hheld.inProgress, hheld.owner, hheld.modTime, hne]
    exact hlive

/-!
## Finished jobs
-/

theorem Upheld.hasFinished_of_stores (h : Upheld b d owners s m) (hstores : s.Stores id p i s') :
    s'.HasFinished id := by
  rcases hstores with ⟨pool, claim, j, counts, hpool, hphase, rfl, hsaved, hstep⟩
  rcases Option.map_eq_some_iff.mp hphase with ⟨w, hw, hphase'⟩
  rcases h.sound.fits p i _ hphase with ⟨-, -, hfinished, -⟩
  have hk := h.placed.driver_lt hw hphase' rfl claim rfl
  have hstored : s' = s.storeJob p i pool claim j counts :=
    Option.some.inj (hstep.symm.trans (workerStep_of_storing hpool hphase))
  cases hj : j.toRecord with
  | error reason =>
      rw [h.placed.driverSave_unwritable hk pool.token hj] at hsaved
      cases hsaved
  | ok r =>
      have hsave := h.placed.driverSave_eq hk pool.token hj
      rw [hsave] at hsaved
      cases hm : m.save r s.now b.lease.lockTimeout with
      | error err =>
          rw [hm] at hsaved
          cases hsaved
      | ok m' =>
          rw [← Job.toRecord_status hj] at hfinished
          rcases Memory.finished_of_save hm hfinished with ⟨entry, hentry, hentry'⟩
          rw [Job.toRecord_id hj] at hentry
          rw [hstored]
          unfold storeJob
          rw [hsave, hm]
          refine ⟨entry.record, ?_, hentry'⟩
          show (m'.lookup? j.id).map Entry.record = some entry.record
          rw [hentry, Option.map_some]

theorem Upheld.runs_of_hasFinished (h : Upheld b d owners s m)
    (hlease : 1 ≤ b.lease.lockSeconds) (hfinished : s.HasFinished id)
    (hcourse : Course owners s events s') :
    runsOf id s'.runs = runsOf id s.runs ∨ Occurs owners s events (Clears id) := by
  induction hcourse generalizing m with
  | nil => exact Or.inl rfl
  | @cons s s₁ s' e rest horderly hhandle hrest ih =>
      rcases h.handle hlease horderly hhandle with ⟨m₁, h₁, hstep, -⟩
      have hstored : (s.crew m).store.Finished id := h.placed.hasFinished_iff.mp hfinished
      have hruns : runsOf id s₁.runs = runsOf id s.runs := h.sound.finished_runs hstored hstep
      by_cases hfinished₁ : s₁.HasFinished id
      · rcases ih h₁ hfinished₁ with hsame | hclears
        · exact Or.inl (hsame.trans hruns)
        · exact Or.inr (hclears.tail horderly hhandle)
      · refine Or.inr (.head ⟨?_, hfinished, s₁, hhandle, hfinished₁⟩)
        refine Classical.byContradiction fun hunsaved => hfinished₁ ?_
        refine h₁.placed.hasFinished_iff.mpr (h.sound.finished_step hstored ?_ hstep)
        intro j hj hid
        exact absurd ⟨j, hj, hid⟩ hunsaved

/-!
## Jobs that are put once
-/

theorem Upheld.attemptedOnce (h : Upheld b d owners s m) (hlease : 1 ≤ b.lease.lockSeconds)
    (hcourse : Course owners s events s') (hcancelled : s.cancelled = [])
    (hcancels : ∀ e ∈ events, ¬ e.Cancels) (hencodes : b.registry.Encodes)
    (hsaves : ¬ Occurs owners s events fun t e => e.Saves id ∧ t.storedRecord? id ≠ none)
    (honce : (s.crew m).AttemptedOnce id) :
    ∃ m', (s'.crew m').AttemptedOnce id := by
  induction hcourse generalizing m with
  | nil => exact ⟨m, honce⟩
  | @cons s s₁ s' e rest horderly hhandle hrest ih =>
      rcases h.handle hlease horderly hhandle with ⟨m₁, h₁, hstep, htokens⟩
      have hnone : ∀ j, e.saved? = some j → j.id = id → (s.crew m).store.lookup? id = none := by
        intro j hj hid
        refine Classical.byContradiction fun hstored => hsaves (.head ⟨⟨j, hj, hid⟩, ?_⟩)
        rw [h.placed.storedRecord?_eq]
        intro hmap
        exact hstored (Option.map_eq_none_iff.mp hmap)
      have honce₁ := honce.step h.sound hcancelled hencodes hnone hstep
      have hcancels₁ : ∀ e ∈ rest, ¬ e.Cancels :=
        fun e' hmem => hcancels e' (List.mem_cons_of_mem e hmem)
      have hsaves₁ : ¬ Occurs owners s₁ rest fun t e => e.Saves id ∧ t.storedRecord? id ≠ none :=
        fun hoccurs => hsaves (hoccurs.tail horderly hhandle)
      have hcancelled₁ : s₁.cancelled = [] := by
        rw [htokens (hcancels e List.mem_cons_self)]
        exact hcancelled
      exact ih h₁ hcancelled₁ hcancels₁ hsaves₁ honce₁

theorem length_runsOf_le {c : Crew β} (honce : c.AttemptedOnce id) :
    (runsOf id c.runs).length ≤ 1 := by
  rcases honce with hnone | ⟨hone, -⟩
  · rw [hnone]
    exact Nat.zero_le 1
  · exact Nat.le_of_eq hone

/-- Whatever the order of events: no two workers run one job; the worker that runs a job has locked
it, and its lease is live; what a worker has stored is finished, and a finished job is run again only
if a client clears it; and a job that is put once, while no token is cancelled and what attempts leave
can be written, is run at most once. -/
theorem single_execution {registry : Registry β} {d : Discipline} {lease : LeaseSettings}
    {clock : Nat} {driver : Driver} {owners : String → Prop} {events : List (Event β)}
    {s : System β} (hlease : 1 ≤ lease.lockSeconds) (houtages : driver.outages = [])
    (hcourse : Course owners (founded registry d lease clock driver) events s) (id : String) :
    (∀ p i p' i', s.Runs id p i → s.Runs id p' i' → p = p' ∧ i = i') ∧
    (∀ p i, s.Runs id p i →
      ∃ r, s.storedRecord? id = some r ∧ r.status.inProgress = true ∧
        r.status.owner = s.ownerAt p i ∧ r.status.isLive s.now lease.lockTimeout = true) ∧
    (∀ p i s', s.Stores id p i s' → s'.HasFinished id) ∧
    (s.HasFinished id → ∀ later s', Course owners s later s' →
      runsOf id s'.runs = runsOf id s.runs ∨ Occurs owners s later (Clears id)) ∧
    ((∀ e ∈ events, ¬ e.Cancels) → registry.Encodes →
      (¬ Occurs owners (founded registry d lease clock driver) events
        fun t e => e.Saves id ∧ t.storedRecord? id ≠ none) →
      (runsOf id s.runs).length ≤ 1) := by
  have hfounded := upheld_founded owners registry d lease clock houtages
  rcases hfounded.course hlease hcourse with ⟨m, h⟩
  refine ⟨?_, ?_, ?_, ?_, ?_⟩
  · intro p i p' i' hruns hruns'
    exact h.runs_unique hruns hruns'
  · intro p i hruns
    exact h.locked_of_runs hlease hruns
  · intro p i s' hstores
    exact h.hasFinished_of_stores hstores
  · intro hfinished later s' hlater
    exact h.runs_of_hasFinished hlease hfinished hlater
  · intro hcancels hencodes hsaves
    have hnone : ((founded registry d lease clock driver).crew .empty).AttemptedOnce id :=
      Or.inl rfl
    rcases hfounded.attemptedOnce hlease hcourse rfl hcancels hencodes hsaves hnone with
      ⟨m', honce⟩
    exact length_runsOf_le honce

/-- Every payload is a drill of 700 milliseconds. -/
def drilling : Registry Work :=
  Registry.empty.register "sample" 0 fun _ => some (.drill ⟨700, false, []⟩)

theorem encodes_drilling : drilling.Encodes := by
  rintro x ⟨r, j, hbuild, rfl⟩
  have hbody : j.body = .drill ⟨700, false, []⟩ := by
    unfold drilling Registry.build? Registry.build Registry.register Registry.empty at hbuild
    simp only [Keyed.get?_put] at hbuild
    by_cases hname : "sample" = r.base.jobType.name
    · simp only [hname, if_true] at hbuild
      split at hbuild
      · cases hbuild
      · cases hbuild
        rfl
    · simp [hname] at hbuild
      cases hbuild
  rw [hbody]
  exact ⟨_, rfl⟩

/-- Two workers are handed one job. One runs it, and renews the lock after half a second; the other
one has to give up. -/
theorem single_execution_of_rivals :
    let start : System Work := founded drilling .byPriority ⟨1, 0⟩ 0 ⟨"one", 0, []⟩
    let setUp : List (Request Work) :=
      [.addDriver ⟨"two", 0, []⟩, .addQueue ⟨1, 600, 16⟩, .addQueue ⟨1, 600, 16⟩,
        .setDriver 0 0, .setDriver 1 1, .start 0 0, .start 1 0,
        .put 0 0 (Backend.sampleJob "job")]
    let moves : List Move :=
      [.call 0 .proceed, .call 1 .proceed, .loop 0 0 .proceed, .loop 0 0 .proceed,
        .loop 1 0 .proceed, .loop 1 0 .proceed, .worker 0 0 .handle, .worker 0 0 .proceed, .worker 0 0 .take, .worker 0 0 .proceed,
        .worker 0 0 .proceed, .worker 0 0 .proceed, .worker 1 0 .handle, .worker 1 0 .proceed,
        .worker 1 0 .take, .worker 1 0 .proceed, .worker 1 0 .handle, .worker 1 0 .proceed,
        .loop 0 0 .proceed, .loop 1 0 .proceed]
    let work : List (Event Work) := moves.map .move ++ [.tick, .move (.worker 0 0 .renew)]
    ∃ s, Course (fun o => o ≠ "") start (setUp.map .request ++ work) s ∧
      s.clock = 500000000 ∧ s.Runs "job" 0 0 ∧ (∀ p i, s.Runs "job" p i → 0 = p ∧ 0 = i) ∧
      (∃ r, s.storedRecord? "job" = some r ∧ r.status.owner = s.ownerAt 0 0) ∧
      (runsOf "job" s.runs).length ≤ 1 := by
  intro start setUp moves work
  have hwork : ((work.foldlM handle (setUp.foldl (fun s r => (s.perform r).2) start)).any
      fun s => s.clock = 500000000 && decide (s.Runs "job" 0 0)) = true := by decide +kernel
  rcases (Option.any_eq_true _ _).mp hwork with ⟨s, hs, hreached⟩
  rcases (Bool.and_eq_true _ _).mp hreached with ⟨hclock, hrunning⟩
  have hruns : s.Runs "job" 0 0 := of_decide_eq_true hrunning
  have horderly : ∀ e ∈ work, ∀ t : System Work, e.Orderly (fun o => o ≠ "") t := by
    simp [work, moves, Event.Orderly]
  have hcourse : Course (fun o => o ≠ "") start (setUp.map .request ++ work) s := by
    refine .request ⟨rfl, rfl, by decide⟩ (.request trivial (.request trivial ?_))
    refine .request ⟨by decide, ?_⟩ (.request ⟨by decide, ?_⟩ ?_)
    · rintro (- | - | q) _ <;> exact nofun
    · rintro (- | - | q) _ <;> exact nofun
    refine .request (Request.orderly_start 0 rfl rfl rfl rfl rfl fun i _ => ?_) ?_
    · exact ownerName_ne_empty _ i
    refine .request (Request.orderly_start 0 rfl rfl rfl rfl rfl fun i _ => ?_) ?_
    · exact ownerName_ne_empty _ i
    exact .request (fun h => h rfl) (course_of_foldlM horderly hs)
  have hsaves : ¬ Occurs (fun o => o ≠ "") start (setUp.map .request ++ work)
      fun t e => e.Saves "job" ∧ t.storedRecord? "job" ≠ none := by
    have hother : ∀ {t : System Work} {e : Event Work}, e.saved? = none →
        ¬ (e.Saves "job" ∧ t.storedRecord? "job" ≠ none) :=
      fun hnone hsaves => Event.not_saves_of_eq_none hnone "job" hsaves.1
    have hwork' : ∀ e ∈ work, e.saved? = none := by simp [work, moves, Event.saved?]
    refine not_occurs_request (hother rfl) (not_occurs_request (hother rfl) ?_)
    refine not_occurs_request (hother rfl) (not_occurs_request (hother rfl) ?_)
    refine not_occurs_request (hother rfl) (not_occurs_request (hother rfl) ?_)
    refine not_occurs_request (hother rfl) (not_occurs_request (fun h => h.2 ?_) ?_)
    · exact Option.isNone_iff_eq_none.mp (by decide +kernel)
    exact not_occurs_of_forall fun e hmem t => hother (hwork' e hmem)
  have hcancels : ∀ e ∈ setUp.map .request ++ work, ¬ e.Cancels := by
    simp [setUp, work, moves, Event.Cancels, Request.Cancels]
  rcases single_execution (by decide) rfl hcourse "job" with ⟨hunique, hlocked, -, -, honce⟩
  rcases hlocked 0 0 hruns with ⟨r, hr, -, howner, -⟩
  refine ⟨s, hcourse, of_decide_eq_true hclock, hruns, ?_, ⟨r, hr, howner⟩, ?_⟩
  · intro p i hruns'
    exact hunique 0 0 p i hruns hruns'
  · exact honce hcancels encodes_drilling hsaves

end System
end LeaseQueue
