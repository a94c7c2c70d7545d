import LeaseQueue.Queue.Step
import LeaseQueue.Proofs.Job.Attempt
import LeaseQueue.Proofs.Queue.Reaching
/-!
# How the work on a candidate ends

A worker that has a candidate takes it through lock, dependency, attempt, storing
and release. There are five ways in which that can end, and a sixth one where the
count of the lock is at its end. Each leaves the record in a state of its own, told
here field by field.
-/

namespace LeaseQueue

variable {β : Type}

def Status.leased (s : Status) (owner : String) (count : UInt64) (t : Timestamp) : Status :=
  { s with inProgress := true, owner := owner, modCount := count, modTime := some t }

def Record.leased (r : Record) (owner : String) (count : UInt64) (t : Timestamp) : Record :=
  r.withStatus (r.status.leased owner count t)

def Job.leased (j : Job β) (owner : String) (count : UInt64) (t : Timestamp) : Job β :=
  j.withStatus (j.status.leased owner count t)

/-- A move of a worker, with the system before it and the attempts that it entered in the log. -/
structure Act (β : Type) where
  before : System β
  move : WorkerMove
  begun : List (Run β)

def Act.between (s : System β) (move : WorkerMove) (s' : System β) : Act β :=
  ⟨s, move, s'.runs.drop s.runs.length⟩

def attempts (acts : List (Act β)) : List (Run β) := acts.flatMap Act.begun

def endings (acts : List (Act β)) : List Timestamp :=
  (acts.filter fun a => a.move = .finish).map fun a => a.before.now

/-- How the work on a candidate ends. -/
inductive Ending where
  /-- The job was not taken up. -/
  | untouched
  /-- An attempt ran to its end. -/
  | ran
  /-- The work was done already. -/
  | passed
  /-- The job cannot be run yet, or cannot be read. -/
  | waited
  /-- An attempt was called off. -/
  | calledOff
  /-- The worker broke down on a lock whose count was at its end. -/
  | broken

namespace Ending

def Releases : Ending → Prop
  | .calledOff | .broken => False
  | _ => True

def Locks (e : Ending) (owner : String) (s : Status) : Prop :=
  match e with
  | .calledOff | .broken => s.inProgress = true ∧ s.owner = owner
  | _ => s.inProgress = false ∧ s.owner = ""

theorem Releases.locks {e : Ending} (he : e.Releases) {owner : String} {s : Status}
    (hfree : s.inProgress = false) (howner : s.owner = "") : e.Locks owner s := by
  cases e with
  | calledOff => exact he.elim
  | broken => exact he.elim
  | _ => exact ⟨hfree, howner⟩

end Ending

structure Quiet (acts : List (Act β)) : Prop where
  begun : attempts acts = []
  ended : endings acts = []
  kept : ∀ a ∈ acts, a.move ≠ .giveUp

section

variable (registry : Registry β) (n : Nat) (owner : String) (r₀ : Record) (acts : List (Act β))

/-- What is known of some jobs, each of them looked up in one of the moves. -/
structure Consulted (ids : List String) (known : List (String × Option Bool)) : Prop where
  ids : known.map Prod.fst = ids.reverse
  answers : ∀ x ∈ known, ∃ a ∈ acts,
    x.2 = ((a.before.recordIn n x.1).bind registry.build?).map fun j => j.status.completed

/-- What the dependency of a job says in the move after those that read the job and looked up the
jobs it waits for. -/
def Finds (j : Job β) (readiness : Readiness) : Prop :=
  ∃ known a, Consulted registry n acts j.base.dependency.waitsFor known ∧
    acts[j.base.dependency.waitsFor.length + 1]? = some a ∧
    j.base.dependency.state a.before.files (fun e => (known.lookup e).join) = readiness

/-- One attempt was begun, at the job that is built from the stored record. -/
structure Began (j₀ : Job β) (run : Run β) : Prop where
  built : registry.build? r₀ = some j₀
  ready : Finds registry n acts j₀ .ready
  once : attempts acts = [run]
  under : run.owner = owner
  job : ∃ count t, run.job = (j₀.leased owner count t).begun (.ofNanos run.moment)

variable [Body β]

/-- What is stored of a job in the end, but for its lock, where `r₀` was stored before. -/
inductive Result : Ending → Record → Prop where
  | ran {j₀ : Job β} {run : Run β} {moment : Timestamp} {r : Record} :
      Began registry n owner r₀ acts j₀ run → endings acts = [moment] →
      Body.payload (Body.attempt j₀.body).body = .ok r.payload →
      r.base = { r₀.base with
        status := r.status
        times := ⟨r₀.base.times.created.or (some (.ofNanos run.moment)),
          r₀.base.times.start.or (some (.ofNanos run.moment)), some moment⟩
        error := (Body.attempt j₀.body).error } →
      r.status.completed = (Body.attempt j₀.body).errors.isEmpty →
      r.status.failed = !(Body.attempt j₀.body).errors.isEmpty →
      Result .ran r
  | passed {j₀ : Job β} {r : Record} :
      registry.build? r₀ = some j₀ → Finds registry n acts j₀ .passed → attempts acts = [] →
      Body.payload j₀.body = .ok r.payload → r.base = { r₀.base with status := r.status } →
      r.status.completed = true → r.status.failed = false →
      Result .passed r
  | waited {r : Record} :
      (∀ j₀, registry.build? r₀ = some j₀ →
        Finds registry n acts j₀ .blocked ∨ Finds registry n acts j₀ .unresolved) →
      attempts acts = [] → r = r₀.withStatus r.status →
      r.status.completed = false → r.status.failed = false →
      Result .waited r
  | calledOff {j₀ : Job β} {run : Run β} {r : Record} :
      Began registry n owner r₀ acts j₀ run → endings acts = [] →
      (∃ a ∈ acts, a.move = .giveUp) → r = r₀.withStatus r.status →
      r.status.completed = false → r.status.failed = false →
      Result .calledOff r
  /-- The count came to its end in the attempt. -/
  | broken {j₀ : Job β} {run : Run β} {r : Record} :
      Began registry n owner r₀ acts j₀ run → endings acts = [] →
      (∀ a ∈ acts, a.move ≠ .giveUp) → r = r₀.withStatus r.status →
      r.status.completed = false → r.status.failed = false →
      r.status.modCount.toNat = maxUInt64 →
      Result .broken r

/-- How the work on a candidate ends, and the stored record then, where the candidate's lock was
asked for in a system. -/
inductive Ends (timeout : Nat) (candidate : Job β) (s : System β) : Ending → Option Record → Prop
    where
  | untouched :
      (candidate.status.isFinished = true ∨ s.recordIn n candidate.id = none ∨
        ∃ r, s.recordIn n candidate.id = some r ∧ r.status.canLock owner s.now timeout = false) →
      acts = [] →
      Ends timeout candidate s .untouched (s.recordIn n candidate.id)
  /-- The count was at its end before. -/
  | broken {r₀ : Record} :
      candidate.status.isFinished = false → s.recordIn n candidate.id = some r₀ →
      r₀.status.canLock owner s.now timeout = true → r₀.status.modCount.toNat = maxUInt64 →
      acts = [] →
      Ends timeout candidate s .broken
        (some (r₀.withStatus { r₀.status with inProgress := true, owner := owner }))
  | settled {e : Ending} {r₀ r : Record} :
      candidate.status.isFinished = false → s.recordIn n candidate.id = some r₀ →
      r₀.status.canLock owner s.now timeout = true → r₀.status.modCount.toNat < maxUInt64 →
      Result registry n owner r₀ acts e r → e.Locks owner r.status →
      Ends timeout candidate s e (some r)

end

/-!
## More moves
-/

section

variable {registry : Registry β} {n : Nat} {owner : String} {r₀ r : Record} {acts : List (Act β)}
variable {a : Act β} {j₀ : Job β} {run : Run β} {readiness : Readiness} {e : Ending}

theorem attempts_append (acts : List (Act β)) (a : Act β) :
    attempts (acts ++ [a]) = attempts acts ++ a.begun := by
  simp [attempts]

theorem endings_append (acts : List (Act β)) (a : Act β) :
    endings (acts ++ [a]) = endings acts ++ if a.move = .finish then [a.before.now] else [] := by
  unfold endings
  by_cases hmove : a.move = .finish <;> simp [hmove]

theorem attempts_append_of_nil (acts : List (Act β)) (hbegun : a.begun = []) :
    attempts (acts ++ [a]) = attempts acts := by
  rw [attempts_append, hbegun, List.append_nil]

theorem endings_append_of_ne (acts : List (Act β)) (hmove : a.move ≠ .finish) :
    endings (acts ++ [a]) = endings acts := by
  rw [endings_append, if_neg hmove, List.append_nil]

theorem kept_append (hkept : ∀ a ∈ acts, a.move ≠ .giveUp) (hmove : a.move ≠ .giveUp) :
    ∀ a' ∈ acts ++ [a], a'.move ≠ .giveUp := by
  intro a' hmem
  rcases List.mem_append.mp hmem with hmem | hmem
  · exact hkept a' hmem
  · exact List.mem_singleton.mp hmem ▸ hmove

theorem Quiet.append (h : Quiet acts) (hbegun : a.begun = []) (hmove : a.move = .proceed) :
    Quiet (acts ++ [a]) := by
  constructor
  · exact (attempts_append_of_nil acts hbegun).trans h.begun
  · exact (endings_append_of_ne acts (hmove ▸ nofun)).trans h.ended
  · exact kept_append h.kept (hmove ▸ nofun)

theorem Consulted.append {ids : List String} {known : List (String × Option Bool)}
    (h : Consulted registry n acts ids known) (a : Act β) :
    Consulted registry n (acts ++ [a]) ids known := by
  refine ⟨h.ids, ?_⟩
  intro x hx
  rcases h.answers x hx with ⟨a', hmem, hanswer⟩
  exact ⟨a', List.mem_append_left _ hmem, hanswer⟩

theorem Finds.append (h : Finds registry n acts j₀ readiness) (a : Act β) :
    Finds registry n (acts ++ [a]) j₀ readiness := by
  rcases h with ⟨known, a', hconsulted, ha', hstate⟩
  refine ⟨known, a', hconsulted.append a, ?_, hstate⟩
  rw [List.getElem?_append_left (List.getElem?_eq_some_iff.mp ha').1]
  exact ha'

theorem Began.append (h : Began registry n owner r₀ acts j₀ run) (hbegun : a.begun = []) :
    Began registry n owner r₀ (acts ++ [a]) j₀ run := by
  have honce := (attempts_append_of_nil acts hbegun).trans h.once
  exact ⟨h.built, h.ready.append a, honce, h.under, h.job⟩

variable [Body β]

theorem Result.append (h : Result registry n owner r₀ acts e r) (he : e.Releases)
    (hbegun : a.begun = []) (hmove : a.move ≠ .finish) :
    Result registry n owner r₀ (acts ++ [a]) e r := by
  have hattempts := attempts_append_of_nil acts hbegun
  have hendings := endings_append_of_ne acts hmove
  cases h with
  | ran hbegan hended hpayload hbase hcompleted hfailed =>
      exact .ran (hbegan.append hbegun) (hendings.trans hended) hpayload hbase hcompleted hfailed
  | passed hbuilt hfinds hnone hpayload hbase hcompleted hfailed =>
      exact .passed hbuilt (hfinds.append a) (hattempts.trans hnone) hpayload hbase hcompleted hfailed
  | waited hfinds hnone hbase hcompleted hfailed =>
      refine .waited ?_ (hattempts.trans hnone) hbase hcompleted hfailed
      intro j₀ hbuilt
      rcases hfinds j₀ hbuilt with hblocked | hunresolved
      · exact Or.inl (hblocked.append a)
      · exact Or.inr (hunresolved.append a)
  | calledOff => exact he.elim
  | broken => exact he.elim

theorem Result.relock (h : Result registry n owner r₀ acts e r) (he : e.Releases) {status : Status}
    (hcompleted : status.completed = r.status.completed)
    (hfailed : status.failed = r.status.failed) :
    Result registry n owner r₀ acts e (r.withStatus status) := by
  rcases r with ⟨base, payload⟩
  cases h with
  | ran hbegan hended hpayload hbase hcompleted' hfailed' =>
      refine .ran hbegan hended hpayload ?_ (hcompleted.trans hcompleted') (hfailed.trans hfailed')
      simp only [Record.withStatus, Record.status] at hbase ⊢
      rw [hbase]
  | passed hbuilt hfinds hnone hpayload hbase hcompleted' hfailed' =>
      refine .passed hbuilt hfinds hnone hpayload ?_ (hcompleted.trans hcompleted')
        (hfailed.trans hfailed')
      simp only [Record.withStatus, Record.status] at hbase ⊢
      rw [hbase]
  | waited hfinds hnone hbase hcompleted' hfailed' =>
      refine .waited hfinds hnone ?_ (hcompleted.trans hcompleted') (hfailed.trans hfailed')
      rw [hbase]
      rfl
  | calledOff => exact he.elim
  | broken => exact he.elim

theorem Result.id_eq (h : Result registry n owner r₀ acts e r) : r.id = r₀.id := by
  cases h with
  | ran hbegan hended hpayload hbase hcompleted hfailed =>
      have hid := congrArg Base.id hbase
      exact hid
  | passed hbuilt hfinds hnone hpayload hbase hcompleted hfailed =>
      have hid := congrArg Base.id hbase
      exact hid
  | waited hfinds hnone hrecord hcompleted hfailed =>
      rw [hrecord]
      rfl
  | calledOff hbegan hended hgivenUp hrecord hcompleted hfailed =>
      rw [hrecord]
      rfl
  | broken hbegan hended hkept hrecord hcompleted hfailed hlast =>
      rw [hrecord]
      rfl

def endingOf (acts : List (Act β)) (r : Record) : Ending :=
  if (attempts acts).isEmpty then if r.status.completed then .passed else .waited
  else if (endings acts).isEmpty then
    if acts.any fun a => a.move = .giveUp then .calledOff else .broken
  else .ran

theorem Result.ending_eq (h : Result registry n owner r₀ acts e r) : e = endingOf acts r := by
  unfold endingOf
  cases h with
  | ran hbegan hended hpayload hbase hcompleted hfailed => simp [hbegan.once, hended]
  | passed hbuilt hfinds hnone hpayload hbase hcompleted hfailed => simp [hnone, hcompleted]
  | waited hfinds hnone hbase hcompleted hfailed => simp [hnone, hcompleted]
  | calledOff hbegan hended hgivenUp hbase hcompleted hfailed => simpa [hbegan.once, hended]
  | broken hbegan hended hkept hbase hcompleted hfailed hlast => simpa [hbegan.once, hended]

theorem Ends.ending_unique {timeout : Nat} {candidate : Job β} {s : System β} {e' : Ending}
    {stored : Option Record} (h : Ends registry n owner acts timeout candidate s e stored)
    (h' : Ends registry n owner acts timeout candidate s e' stored) : e = e' := by
  have hexcludes : ∀ {r₀ : Record}, candidate.status.isFinished = false →
      s.recordIn n candidate.id = some r₀ → r₀.status.canLock owner s.now timeout = true →
      ¬ (candidate.status.isFinished = true ∨ s.recordIn n candidate.id = none ∨
        ∃ r, s.recordIn n candidate.id = some r ∧
          r.status.canLock owner s.now timeout = false) := by
    intro r₀ hopen hr₀ hcan hwhy
    rw [hopen, hr₀] at hwhy
    rcases hwhy with hfinished | hnone | ⟨r, hr, hcannot⟩
    · cases hfinished
    · cases hnone
    · cases hr
      rw [hcan] at hcannot
      cases hcannot
  have hroom : ∀ {r₀ r₁ : Record}, s.recordIn n candidate.id = some r₀ →
      s.recordIn n candidate.id = some r₁ → r₀.status.modCount.toNat = maxUInt64 →
      ¬ r₁.status.modCount.toNat < maxUInt64 := by
    intro r₀ r₁ hr₀ hr₁ hlast hlt
    rw [hr₀] at hr₁
    cases hr₁
    exact Nat.ne_of_lt hlt hlast
  cases h with
  | untouched hwhy hnil =>
      generalize hstored : s.recordIn n candidate.id = stored at h'
      cases h' with
      | untouched hwhy' hnil' => rfl
      | broken hopen hr₀ hcan hlast hnil' => exact absurd hwhy (hexcludes hopen hr₀ hcan)
      | settled hopen hr₀ hcan hlt hresult hlocks => exact absurd hwhy (hexcludes hopen hr₀ hcan)
  | broken hopen hr₀ hcan hlast hnil =>
      generalize hstored : some _ = stored at h'
      cases h' with
      | untouched hwhy hnil' => exact absurd hwhy (hexcludes hopen hr₀ hcan)
      | broken => rfl
      | settled hopen' hr₀' hcan' hlt hresult hlocks => exact absurd hlt (hroom hr₀ hr₀' hlast)
  | settled hopen hr₀ hcan hlt hresult hlocks =>
      generalize hstored : some _ = stored at h'
      cases h' with
      | untouched hwhy hnil => exact absurd hwhy (hexcludes hopen hr₀ hcan)
      | broken hopen' hr₀' hcan' hlast hnil => exact absurd hlt (hroom hr₀' hr₀ hlast)
      | settled hopen' hr₀' hcan' hlt' hresult' hlocks' =>
          cases hstored
          exact hresult.ending_eq.trans hresult'.ending_eq.symm

end

end LeaseQueue
