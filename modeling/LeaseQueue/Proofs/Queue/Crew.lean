import LeaseQueue.Queue.System
import LeaseQueue.Proofs.Job.Attempt
import LeaseQueue.Proofs.Store.Lease
/-!
# Crews of workers

For the question who works on which job, a system of queues is a crew: workers
with owner names and phases over one store and one clock. All that happens to a
crew is one of three things. One worker takes a turn at the job it has locked;
something else happens that takes no lock under a worker's name; or nobody can
move and time passes.
-/

namespace LeaseQueue

variable {β : Type}

namespace Phase

def claim? : Phase β → Option Claim
  | .loading claim | .checking claim _ _ _ | .running claim _ _ _ | .storing claim _ _
  | .releasing claim => some claim
  | _ => none

end Phase

structure Crew (β : Type) where
  clock : Nat
  cancelled : List Nat
  store : Memory
  /-- The owner names of the workers by pool and place. -/
  owner : Nat → Nat → String
  /-- What the workers are about to do. -/
  phase : Nat → Nat → Option (Phase β)
  runs : List (Run β)

namespace Registry

def Reads (registry : Registry β) (x : β) : Prop :=
  ∃ r j, registry.build? r = some j ∧ j.body = x

end Registry

namespace Operation

def Spares (owner : String) : Operation β → Prop
  | .save j => j.status.owner ≠ owner
  | .lock _ other => other ≠ owner
  | .unlock _ other => other ≠ owner
  | _ => True

theorem Spares.not_yields {op : Operation β} {id owner : String} (h : op.Spares owner) :
    ¬ op.Yields id owner := by
  intro hyields
  cases op with
  | save j => exact h hyields.2
  | unlock id' other => exact h hyields.2
  | lock id' other => exact hyields
  | get id' => exact hyields
  | next => exact hyields
  | tally => exact hyields
  | infos => exact hyields
  | pull l => exact hyields

end Operation

section

variable [Body β]

/-- A lease outlasts whatever others do while it is live. -/
theorem Memory.HeldAt.spare {m m' : Memory} {id owner : String} {t : Timestamp}
    {lease : LeaseSettings} {now : Reading} {op : Operation β} (h : m.HeldAt id owner t)
    (hm : m.Indexed) (hne : owner ≠ "") (hlive : now.wall.since t < lease.lockTimeout)
    (hspares : op.Spares owner) (hchange : Memory.Change lease now op m m') :
    m'.HeldAt id owner t := by
  rcases h.change hm hne hlive hspares.not_yields hchange with hsame | ⟨hop, -⟩
  · exact hsame
  · rw [hop] at hspares
    exact absurd rfl hspares

/-- A turn of a worker at the job it works on: what it does to the store and the phase, and the
attempts it begins. -/
inductive Turn (registry : Registry β) (lease : LeaseSettings) (cancelled : List Nat)
    (clock : Nat) (owner : String) :
    Memory → Phase β → Memory → Phase β → List (Run β) → Prop where
  /-- It locks a candidate. -/
  | claim {m m' : Memory} {id : String} {driver : Nat} {candidate : Job β} :
      m.lock id owner (.ofNanos clock) lease.lockTimeout = .made m' →
      Turn registry lease cancelled clock owner m (.claiming candidate)
        m' (.loading ⟨id, driver, owner⟩) []
  /-- It breaks down on the lock of a candidate. -/
  | claimBroken {m m' : Memory} {id : String} {candidate : Job β} :
      m.lock id owner (.ofNanos clock) lease.lockTimeout = .broken m' →
      Turn registry lease cancelled clock owner m (.claiming candidate) m' .resting []
  /-- It reads the stored copy. -/
  | load {m : Memory} {claim : Claim} {e : Entry} {j : Job β} {left : List String} :
      m.lookup? claim.id = some e → registry.build? e.record = some j →
      Turn registry lease cancelled clock owner m (.loading claim)
        m (.checking claim j left []) []
  /-- It looks up a job that its job waits for. -/
  | check {m : Memory} {claim : Claim} {j : Job β} {left left' : List String}
      {known known' : List (String × Option Bool)} :
      Turn registry lease cancelled clock owner m (.checking claim j left known)
        m (.checking claim j left' known') []
  /-- It begins an attempt. -/
  | begin {m : Memory} {claim : Claim} {j : Job β} {left : List String}
      {known : List (String × Option Bool)} {endsAt : Nat} :
      Turn registry lease cancelled clock owner m (.checking claim j left known)
        m (.running claim (j.begun (.ofNanos clock)) endsAt (clock + lease.lockTimeout / 2))
        [⟨claim.owner, j.begun (.ofNanos clock), clock⟩]
  /-- It completes the job without an attempt. -/
  | pass {m : Memory} {claim : Claim} {j : Job β} {left : List String}
      {known : List (String × Option Bool)} :
      Turn registry lease cancelled clock owner m (.checking claim j left known)
        m (.storing claim j.passed false) []
  /-- It gives a job back that it could not read, or that is finished. -/
  | decline {m : Memory} {claim : Claim} :
      Turn registry lease cancelled clock owner m (.loading claim) m (.releasing claim) []
  /-- It gives a job back that has to wait for others. -/
  | block {m : Memory} {claim : Claim} {j : Job β} {left : List String}
      {known : List (String × Option Bool)} :
      Turn registry lease cancelled clock owner m (.checking claim j left known)
        m (.releasing claim) []
  /-- It ends an attempt. -/
  | finish {m : Memory} {claim : Claim} {j : Job β} {endsAt renewAt : Nat} :
      Turn registry lease cancelled clock owner m (.running claim j endsAt renewAt)
        m (.storing claim (j.attempted.ended (.ofNanos clock)) true) []
  /-- It renews the lock. -/
  | renew {m m' : Memory} {claim : Claim} {j : Job β} {endsAt renewAt : Nat} :
      m.lock claim.id claim.owner (.ofNanos clock) lease.lockTimeout = .made m' →
      Turn registry lease cancelled clock owner m (.running claim j endsAt renewAt)
        m' (.running claim j endsAt (clock + lease.lockTimeout / 2)) []
  /-- It breaks down on renewing the lock. -/
  | renewBroken {m m' : Memory} {claim : Claim} {j : Job β} {endsAt renewAt : Nat} :
      m.lock claim.id claim.owner (.ofNanos clock) lease.lockTimeout = .broken m' →
      Turn registry lease cancelled clock owner m (.running claim j endsAt renewAt)
        m' .resting []
  /-- It drops an attempt since the lock is lost. -/
  | lose {m : Memory} {claim : Claim} {j : Job β} {endsAt renewAt : Nat} {err : StoreError} :
      m.lock claim.id claim.owner (.ofNanos clock) lease.lockTimeout = .refused err →
      Turn registry lease cancelled clock owner m (.running claim j endsAt renewAt)
        m .resting []
  /-- It drops an attempt that is called off. -/
  | drop {m : Memory} {claim : Claim} {j : Job β} {endsAt renewAt : Nat} :
      cancelled ≠ [] →
      Turn registry lease cancelled clock owner m (.running claim j endsAt renewAt)
        m .resting []
  /-- It stores the job. -/
  | store {m m' : Memory} {claim : Claim} {j : Job β} {counts : Bool} {r : Record} :
      j.toRecord = .ok r → m.save r (.ofNanos clock) lease.lockTimeout = .ok m' →
      Turn registry lease cancelled clock owner m (.storing claim j counts)
        m' (.releasing claim) []
  /-- The job is not stored. -/
  | refuse {m : Memory} {claim : Claim} {j : Job β} {counts : Bool} :
      (∀ r m', j.toRecord = .ok r → m.save r (.ofNanos clock) lease.lockTimeout ≠ .ok m') →
      Turn registry lease cancelled clock owner m (.storing claim j counts)
        m (.releasing claim) []
  /-- It releases the lock, if it can. -/
  | release {m m' : Memory} {claim : Claim} :
      Memory.Change lease (.ofNanos clock) (.unlock claim.id claim.owner : Operation β) m m' →
      Turn registry lease cancelled clock owner m (.releasing claim) m' .resting []

namespace Crew

def claim? (c : Crew β) (p i : Nat) : Option Claim := (c.phase p i).bind Phase.claim?

/-- Workers that are at a job go on with it as they were; others may turn to something else, and new
ones may come. -/
structure Eases (c c' : Crew β) : Prop where
  clock : c'.clock = c.clock
  runs : c'.runs = c.runs
  phases : ∀ p i, c'.phase p i = c.phase p i ∨ (c.claim? p i = none ∧ c'.claim? p i = none)
  owners : ∀ p i, c.phase p i ≠ none → c'.owner p i = c.owner p i

structure Turns (p i : Nat) (phase phase' : Phase β) (c c' : Crew β) : Prop where
  clock : c'.clock = c.clock
  before : c.phase p i = some phase
  after : c'.phase p i = some phase'
  others : ∀ p' i', ¬ (p' = p ∧ i' = i) → c'.phase p' i' = c.phase p' i'
  owners : c'.owner = c.owner

/-- Time passes while all workers that are at a job run it, up to the first renewal of a lock. -/
structure Rests (c c' : Crew β) : Prop where
  clock : c.clock ≤ c'.clock
  store : c'.store = c.store
  phases : c'.phase = c.phase
  owners : c'.owner = c.owner
  runs : c'.runs = c.runs
  running : ∀ p i phase claim, c.phase p i = some phase → phase.claim? = some claim →
    ∃ j endsAt renewAt, phase = .running claim j endsAt renewAt ∧ c'.clock ≤ renewAt

/-- What happens to a crew. `saved` is the job that a client saves. -/
inductive Step (registry : Registry β) (lease : LeaseSettings) (owners : String → Prop)
    (saved : Option (Job β)) (c c' : Crew β) : Prop where
  | ease (op : Operation β) (h : Eases c c') (hspares : ∀ o, owners o → op.Spares o)
      (hsaved : ∀ j, op = .save j → saved = some j)
      (hchange : Memory.Change lease (.ofNanos c.clock) op c.store c'.store)
  | turn (p i : Nat) (phase phase' : Phase β) (begun : List (Run β))
      (h : Turns p i phase phase' c c') (hruns : c'.runs = c.runs ++ begun)
      (hturn : Turn registry lease c.cancelled c.clock (c.owner p i) c.store phase c'.store phase'
        begun)
  | rest (h : Rests c c')

structure Named (owners : String → Prop) (c : Crew β) : Prop where
  proper : ∀ p i, c.phase p i ≠ none → owners (c.owner p i) ∧ c.owner p i ≠ ""
  distinct : ∀ p i p' i', c.phase p i ≠ none → c.phase p' i' ≠ none →
    c.owner p i = c.owner p' i' → p = p' ∧ i = i'

end Crew

/-!
## What the phase of a worker says about the store
-/

namespace Memory

/-- An owner holds a job since a moment at most half a lease ago. -/
structure Leased (lease : LeaseSettings) (clock : Nat) (m : Memory) (id owner : String) (t : Nat) :
    Prop where
  held : m.HeldAt id owner (.ofNanos t)
  past : t ≤ clock
  half : clock ≤ t + lease.lockTimeout / 2

variable {lease : LeaseSettings} {clock t : Nat} {m m' : Memory} {id owner : String}

theorem Leased.live (h : Leased lease clock m id owner t) (hlease : 1 ≤ lease.lockSeconds) :
    (Reading.ofNanos clock).wall.since (.ofNanos t) < lease.lockTimeout := by
  have hpast := h.past
  have hhalf := h.half
  show (Timestamp.ofNanos clock).since (.ofNanos t) < lease.lockTimeout
  rw [Timestamp.ofNanos_since]
  unfold LeaseSettings.lockTimeout at *
  omega

theorem Leased.spare (h : Leased lease clock m id owner t) (hlease : 1 ≤ lease.lockSeconds)
    (hm : m.Indexed) (hne : owner ≠ "") {op : Operation β} (hspares : op.Spares owner)
    (hchange : Memory.Change lease (.ofNanos clock) op m m') :
    Leased lease clock m' id owner t :=
  { h with held := h.held.spare hm hne (h.live hlease) hspares hchange }

theorem leased_of_lock
    (h : m.lock id owner (.ofNanos clock) lease.lockTimeout = .made m') :
    Leased lease clock m' id owner clock := by
  rcases lock_cases h with ⟨e, s, he, hs, rfl⟩
  refine ⟨⟨_, by rw [lookup?_replace, if_pos rfl], Status.heldAt_of_lock hs⟩, ?_, ?_⟩
  · exact Nat.le_refl clock
  · exact Nat.le_add_right clock _

end Memory

structure Job.IsFor (claim : Claim) (j : Job β) : Prop where
  id : j.id = claim.id
  owner : j.status.owner = claim.owner

def Phase.Fits (registry : Registry β) (lease : LeaseSettings) (clock : Nat) (m : Memory)
    (owner : String) : Phase β → Prop
  | .loading claim => claim.owner = owner ∧ m.Leased lease clock claim.id owner clock
  | .checking claim j _ _ => claim.owner = owner ∧ j.IsFor claim ∧ registry.Reads j.body ∧
      m.Leased lease clock claim.id owner clock
  | .running claim j _ renewAt => claim.owner = owner ∧ j.IsFor claim ∧ registry.Reads j.body ∧
      ∃ t, m.Leased lease clock claim.id owner t ∧ renewAt = t + lease.lockTimeout / 2
  | .storing claim j _ => claim.owner = owner ∧ j.IsFor claim ∧ j.status.isFinished = true ∧
      ∃ t, m.Leased lease clock claim.id owner t
  | .releasing claim => claim.owner = owner
  | _ => True

/-!
## Copies of jobs
-/

namespace Job

theorem IsFor.attempted {claim : Claim} {j : Job β} (h : j.IsFor claim) (now : Timestamp) :
    (j.attempted.ended now).IsFor claim := by
  rcases j.exists_attempted with ⟨error, hattempted⟩
  constructor
  · rw [hattempted]
    exact h.id
  · rw [ended_owner, hattempted]
    exact h.owner

end Job

/-!
## One turn of a worker
-/

variable {registry : Registry β} {lease : LeaseSettings} {cancelled : List Nat} {clock : Nat}
variable {owner : String} {m m' : Memory} {phase phase' : Phase β} {begun : List (Run β)}

theorem Phase.Fits.spare (h : phase.Fits registry lease clock m owner)
    (hlease : 1 ≤ lease.lockSeconds) (hm : m.Indexed) (hne : owner ≠ "") {op : Operation β}
    (hspares : op.Spares owner) (hchange : Memory.Change lease (.ofNanos clock) op m m') :
    phase.Fits registry lease clock m' owner := by
  cases phase with
  | resting => trivial
  | asking => trivial
  | fetching => trivial
  | waiting deadline => trivial
  | claiming candidate => trivial
  | loading claim =>
      rcases h with ⟨howner, hleased⟩
      exact ⟨howner, hleased.spare hlease hm hne hspares hchange⟩
  | checking claim j left known =>
      rcases h with ⟨howner, hj, hreads, hleased⟩
      exact ⟨howner, hj, hreads, hleased.spare hlease hm hne hspares hchange⟩
  | running claim j endsAt renewAt =>
      rcases h with ⟨howner, hj, hreads, t, hleased, hrenew⟩
      exact ⟨howner, hj, hreads, t, hleased.spare hlease hm hne hspares hchange, hrenew⟩
  | storing claim j counts =>
      rcases h with ⟨howner, hj, hfinished, t, hleased⟩
      exact ⟨howner, hj, hfinished, t, hleased.spare hlease hm hne hspares hchange⟩
  | releasing claim => exact h

/-- What a worker may do to the store in a turn: it takes, releases and saves nothing under the name
of another one, and what it saves is a job that is stored, finished. -/
structure Operation.ByWorker (owner : String) (m : Memory) (op : Operation β) : Prop where
  spares : ∀ other, other ≠ owner → op.Spares other
  saves : ∀ j, op = .save j → j.status.isFinished = true ∧ m.lookup? j.id ≠ none

theorem Turn.exists_change
    (h : Turn registry lease cancelled clock owner m phase m' phase' begun)
    (hfits : phase.Fits registry lease clock m owner) :
    ∃ op : Operation β, Memory.Change lease (.ofNanos clock) op m m' ∧ op.ByWorker owner m := by
  have hsame : ∃ op : Operation β, Memory.Change lease (.ofNanos clock) op m m ∧
      op.ByWorker owner m :=
    ⟨.tally, .none _ m, fun _ _ => trivial, fun _ hop => nomatch hop⟩
  cases h with
  | @claim _ id driver candidate hlock =>
      rcases Memory.lock_cases hlock with ⟨e, s, he, hs, rfl⟩
      exact ⟨.lock id owner, .locked he hs, fun _ hne => hne.symm, fun _ hop => nomatch hop⟩
  | @claimBroken _ id candidate hlock =>
      rcases Memory.lock_broken_cases hlock with ⟨e, s, he, hs, rfl⟩
      exact ⟨.lock id owner, .lockBroken he hs, fun _ hne => hne.symm, fun _ hop => nomatch hop⟩
  | load => exact hsame
  | check => exact hsame
  | begin => exact hsame
  | pass => exact hsame
  | decline => exact hsame
  | block => exact hsame
  | finish => exact hsame
  | @renew _ claim j endsAt renewAt hlock =>
      rcases Memory.lock_cases hlock with ⟨e, s, he, hs, rfl⟩
      exact ⟨.lock claim.id claim.owner, .locked he hs, fun _ hne => hfits.1 ▸ hne.symm,
        fun _ hop => nomatch hop⟩
  | @renewBroken _ claim j endsAt renewAt hlock =>
      rcases Memory.lock_broken_cases hlock with ⟨e, s, he, hs, rfl⟩
      exact ⟨.lock claim.id claim.owner, .lockBroken he hs, fun _ hne => hfits.1 ▸ hne.symm,
        fun _ hop => nomatch hop⟩
  | lose => exact hsame
  | drop => exact hsame
  | @store _ claim j counts r hj hsave =>
      rcases hfits with ⟨howner, hfor, hfinished, t, hleased⟩
      have hby : (Operation.save j).ByWorker owner m := by
        constructor
        · intro other hne heq
          exact hne (heq.symm.trans (hfor.owner.trans howner))
        · intro j' hop
          cases hop
          rcases hleased.held with ⟨e, he, -⟩
          rw [hfor.id, he]
          exact ⟨hfinished, Option.some_ne_none e⟩
      rcases Memory.save_cases hsave with ⟨e, he, hcheck, rfl⟩ | ⟨hnone, rfl⟩
      · exact ⟨.save j, .saved hj he hcheck, hby⟩
      · exact ⟨.save j, .added hj hnone, hby⟩
  | refuse => exact hsame
  | @release _ claim hchange =>
      exact ⟨_, hchange, fun _ hne => hfits ▸ hne.symm, fun _ hop => nomatch hop⟩

theorem Turn.fits (h : Turn registry lease cancelled clock owner m phase m' phase' begun)
    (hm : m.Indexed) (hfits : phase.Fits registry lease clock m owner) :
    phase'.Fits registry lease clock m' owner := by
  cases h with
  | claim hlock => exact ⟨rfl, Memory.leased_of_lock hlock⟩
  | claimBroken => trivial
  | @load claim e j left he hbuild =>
      rcases hfits with ⟨howner, hleased⟩
      rcases hleased.held with ⟨e', he', hs⟩
      rw [he] at he'
      cases he'
      have hbase : j.base = e.record.base := Registry.build?_base hbuild
      refine ⟨howner, ⟨?_, ?_⟩, ⟨e.record, j, hbuild, rfl⟩, hleased⟩
      · exact (congrArg Base.id hbase).trans (hm.record_id he)
      · exact (congrArg (fun base => base.status.owner) hbase).trans (hs.owner.trans howner.symm)
  | check => exact hfits
  | begin =>
      rcases hfits with ⟨howner, hj, hreads, hleased⟩
      exact ⟨howner, ⟨hj.id, hj.owner⟩, hreads, clock, hleased, rfl⟩
  | pass =>
      rcases hfits with ⟨howner, hj, -, hleased⟩
      exact ⟨howner, ⟨hj.id, hj.owner⟩, rfl, clock, hleased⟩
  | decline => exact hfits.1
  | block => exact hfits.1
  | finish =>
      rcases hfits with ⟨howner, hj, -, t, hleased, -⟩
      exact ⟨howner, hj.attempted _, Job.ended_isFinished _ _, t, hleased⟩
  | renew hlock =>
      rcases hfits with ⟨howner, hj, hreads, -⟩
      have hleased := Memory.leased_of_lock hlock
      exact ⟨howner, hj, hreads, clock, howner ▸ hleased, rfl⟩
  | renewBroken => trivial
  | lose => trivial
  | drop => trivial
  | store => exact hfits.1
  | refuse => exact hfits.1
  | release => trivial

/-!
## The whole crew
-/

namespace Crew

variable {owners : String → Prop} {saved : Option (Job β)} {c c' : Crew β}

/-- What the phases of the workers say is so. -/
structure Sound (registry : Registry β) (lease : LeaseSettings) (owners : String → Prop)
    (c : Crew β) : Prop where
  named : c.Named owners
  indexed : c.store.Indexed
  fits : ∀ p i phase, c.phase p i = some phase →
    phase.Fits registry lease c.clock c.store (c.owner p i)

omit [Body β] in
theorem fits_of_claim?_eq_none {phase : Phase β} (h : phase.claim? = none) :
    phase.Fits registry lease clock m owner := by
  cases phase with
  | resting => trivial
  | asking => trivial
  | fetching => trivial
  | waiting deadline => trivial
  | claiming candidate => trivial
  | loading claim => cases h
  | checking claim j left known => cases h
  | running claim j endsAt renewAt => cases h
  | storing claim j counts => cases h
  | releasing claim => cases h

theorem Sound.ease (h : c.Sound registry lease owners) (hlease : 1 ≤ lease.lockSeconds)
    {op : Operation β} (heases : Eases c c') (hspares : ∀ o, owners o → op.Spares o)
    (hchange : Memory.Change lease (.ofNanos c.clock) op c.store c'.store)
    (hnamed : c'.Named owners) : c'.Sound registry lease owners := by
  refine ⟨hnamed, h.indexed.change hchange, ?_⟩
  intro p i phase hphase
  rcases heases.phases p i with hsame | ⟨-, hnone⟩
  · rw [hphase] at hsame
    have hpresent : c.phase p i ≠ none := by
      rw [← hsame]
      exact Option.some_ne_none phase
    have hproper := h.named.proper p i hpresent
    rw [heases.clock, heases.owners p i hpresent]
    exact (h.fits p i phase hsame.symm).spare hlease h.indexed hproper.2
      (hspares _ hproper.1) hchange
  · rw [claim?, hphase] at hnone
    exact fits_of_claim?_eq_none hnone

theorem Sound.turn (h : c.Sound registry lease owners) (hlease : 1 ≤ lease.lockSeconds)
    {p i : Nat} (hturns : Turns p i phase phase' c c')
    (hturn : Turn registry lease c.cancelled c.clock (c.owner p i) c.store phase c'.store phase'
      begun)
    (hnamed : c'.Named owners) : c'.Sound registry lease owners := by
  have hfits := h.fits p i phase hturns.before
  have hpresent : c.phase p i ≠ none := by
    rw [hturns.before]
    exact Option.some_ne_none phase
  rcases hturn.exists_change hfits with ⟨op, hchange, hby⟩
  refine ⟨hnamed, h.indexed.change hchange, ?_⟩
  intro p' i' phase'' hphase
  rw [hturns.clock, hturns.owners]
  by_cases hsame : p' = p ∧ i' = i
  · rw [hsame.1, hsame.2, hturns.after] at hphase
    cases hphase
    rw [hsame.1, hsame.2]
    exact hturn.fits h.indexed hfits
  · rw [hturns.others p' i' hsame] at hphase
    have hpresent' : c.phase p' i' ≠ none := by
      rw [hphase]
      exact Option.some_ne_none phase''
    have hother : c.owner p' i' ≠ c.owner p i :=
      fun howner => hsame (h.named.distinct p' i' p i hpresent' hpresent howner)
    exact (h.fits p' i' phase'' hphase).spare hlease h.indexed
      (h.named.proper p' i' hpresent').2 (hby.spares _ hother) hchange

omit [Body β] in
theorem Sound.rest (h : c.Sound registry lease owners) (hrests : Rests c c')
    (hnamed : c'.Named owners) : c'.Sound registry lease owners := by
  refine ⟨hnamed, hrests.store ▸ h.indexed, ?_⟩
  intro p i phase hphase
  rw [hrests.phases] at hphase
  rw [hrests.store, hrests.owners]
  cases hclaim : phase.claim? with
  | none => exact fits_of_claim?_eq_none hclaim
  | some claim =>
      rcases hrests.running p i phase claim hphase hclaim with
        ⟨j, endsAt, renewAt, rfl, hrenewal⟩
      rcases h.fits p i _ hphase with ⟨howner, hj, hreads, t, hleased, rfl⟩
      exact ⟨howner, hj, hreads, t,
        ⟨hleased.held, Nat.le_trans hleased.past hrests.clock, hrenewal⟩, rfl⟩

/-- Whatever happens, what the phases say stays so. -/
theorem Sound.step (h : c.Sound registry lease owners) (hlease : 1 ≤ lease.lockSeconds)
    (hstep : Step registry lease owners saved c c') (hnamed : c'.Named owners) :
    c'.Sound registry lease owners := by
  cases hstep with
  | ease op heases hspares hsaved hchange => exact h.ease hlease heases hspares hchange hnamed
  | turn p i phase phase' begun hturns hruns hturn => exact h.turn hlease hturns hturn hnamed
  | rest hrests => exact h.rest hrests hnamed

/-!
## Who runs a job
-/

omit [Body β] in
theorem Sound.leased (h : c.Sound registry lease owners) {p i : Nat} {claim : Claim} {j : Job β}
    {endsAt renewAt : Nat} (hphase : c.phase p i = some (.running claim j endsAt renewAt)) :
    claim.owner = c.owner p i ∧ ∃ t, c.store.Leased lease c.clock claim.id (c.owner p i) t := by
  rcases h.fits p i _ hphase with ⟨howner, -, -, t, hleased, -⟩
  exact ⟨howner, t, hleased⟩

omit [Body β] in
/-- No two workers hold the lock of one job. -/
theorem Sound.holder_unique (h : c.Sound registry lease owners) {p i p' i' : Nat} {id : String}
    {t t' : Timestamp} (hpresent : c.phase p i ≠ none) (hpresent' : c.phase p' i' ≠ none)
    (hheld : c.store.HeldAt id (c.owner p i) t) (hheld' : c.store.HeldAt id (c.owner p' i') t') :
    p = p' ∧ i = i' := by
  rcases hheld with ⟨e, he, hs⟩
  rcases hheld' with ⟨e', he', hs'⟩
  rw [he] at he'
  cases he'
  exact h.named.distinct p i p' i' hpresent hpresent' (hs.owner.symm.trans hs'.owner)

end Crew

end

end LeaseQueue
