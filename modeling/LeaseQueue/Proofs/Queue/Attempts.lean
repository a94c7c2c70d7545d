import LeaseQueue.Proofs.Queue.Crew
import LeaseQueue.Proofs.Store.Fencing
/-!
# Attempts of a crew

A finished job is not attempted. A job that is saved once, by a crew that nobody
calls off, is attempted once: when the one attempt is over the job is finished, or
the count of its changes has come to its end, and then nobody locks it again.
-/

namespace LeaseQueue

variable {β : Type}

def runsOf (id : String) (runs : List (Run β)) : List (Run β) := runs.filter fun r => r.job.id = id

theorem runsOf_append (id : String) (runs begun : List (Run β)) :
    runsOf id (runs ++ begun) = runsOf id runs ++ runsOf id begun :=
  List.filter_append ..

section

variable [Body β]
variable {registry : Registry β} {lease : LeaseSettings} {owner : String}
variable {m m' : Memory} {phase phase' : Phase β} {begun : List (Run β)}
variable {cancelled : List Nat} {clock : Nat} {id : String}

theorem Turn.begun_cases (h : Turn registry lease cancelled clock owner m phase m' phase' begun)
    (hfits : phase.Fits registry lease clock m owner) :
    begun = [] ∨ ∃ claim j endsAt renewAt r j₀ left known, begun = [r] ∧ r.job.id = claim.id ∧
      phase = .checking claim j₀ left known ∧ phase' = .running claim j endsAt renewAt ∧
      m.Leased lease clock claim.id owner clock := by
  cases h with
  | @begin claim j left known endsAt =>
      rcases hfits with ⟨howner, hfor, -, hleased⟩
      exact Or.inr ⟨claim, _, endsAt, _, _, j, left, known, rfl, hfor.id, rfl, rfl, hleased⟩
  | claim => exact Or.inl rfl
  | claimBroken => exact Or.inl rfl
  | load => exact Or.inl rfl
  | check => exact Or.inl rfl
  | pass => exact Or.inl rfl
  | decline => exact Or.inl rfl
  | block => exact Or.inl rfl
  | finish => exact Or.inl rfl
  | renew => exact Or.inl rfl
  | renewBroken => exact Or.inl rfl
  | lose => exact Or.inl rfl
  | drop => exact Or.inl rfl
  | store => exact Or.inl rfl
  | refuse => exact Or.inl rfl
  | release => exact Or.inl rfl

/-- A turn leads to no job other than the one that the worker is at, unless it locks one. -/
theorem Turn.claim?_cases (h : Turn registry lease cancelled clock owner m phase m' phase' begun) :
    phase'.claim? = none ∨
    (phase'.claim? = phase.claim? ∧ ∀ claim, phase ≠ .releasing claim) ∨
    ∃ id driver, phase' = .loading ⟨id, driver, owner⟩ ∧
      m.lock id owner (.ofNanos clock) lease.lockTimeout = .made m' := by
  cases h with
  | claim hlock => exact Or.inr (Or.inr ⟨_, _, rfl, hlock⟩)
  | claimBroken => exact Or.inl rfl
  | load => exact Or.inr (Or.inl ⟨rfl, fun _ heq => nomatch heq⟩)
  | check => exact Or.inr (Or.inl ⟨rfl, fun _ heq => nomatch heq⟩)
  | begin => exact Or.inr (Or.inl ⟨rfl, fun _ heq => nomatch heq⟩)
  | pass => exact Or.inr (Or.inl ⟨rfl, fun _ heq => nomatch heq⟩)
  | decline => exact Or.inr (Or.inl ⟨rfl, fun _ heq => nomatch heq⟩)
  | block => exact Or.inr (Or.inl ⟨rfl, fun _ heq => nomatch heq⟩)
  | finish => exact Or.inr (Or.inl ⟨rfl, fun _ heq => nomatch heq⟩)
  | @renew _ claim j endsAt renewAt hlock =>
      -- The claims are compared by themselves, since the moments of the renewals differ.
      have hclaim : ∀ t, (Phase.running claim j endsAt t).claim? = some claim := fun _ => rfl
      exact Or.inr (Or.inl ⟨(hclaim _).trans (hclaim _).symm, fun _ heq => nomatch heq⟩)
  | renewBroken => exact Or.inl rfl
  | lose => exact Or.inl rfl
  | drop => exact Or.inl rfl
  | store => exact Or.inr (Or.inl ⟨rfl, fun _ heq => nomatch heq⟩)
  | refuse => exact Or.inr (Or.inl ⟨rfl, fun _ heq => nomatch heq⟩)
  | release => exact Or.inl rfl

omit [Body β] in
theorem Phase.Fits.leased {claim : Claim} (h : phase.Fits registry lease clock m owner)
    (hclaim : phase.claim? = some claim) (hphase : phase ≠ .releasing claim) :
    ∃ t, m.Leased lease clock claim.id owner t := by
  cases phase with
  | loading claim' =>
      cases hclaim
      exact ⟨clock, h.2⟩
  | checking claim' j left known =>
      cases hclaim
      exact ⟨clock, h.2.2.2⟩
  | running claim' j endsAt renewAt =>
      cases hclaim
      rcases h with ⟨-, -, -, t, hleased, -⟩
      exact ⟨t, hleased⟩
  | storing claim' j counts =>
      cases hclaim
      rcases h with ⟨-, -, -, t, hleased⟩
      exact ⟨t, hleased⟩
  | releasing claim' =>
      cases hclaim
      exact absurd rfl hphase
  | resting => cases hclaim
  | asking => cases hclaim
  | fetching => cases hclaim
  | waiting deadline => cases hclaim
  | claiming candidate => cases hclaim

omit [Body β] in
theorem Memory.Leased.not_finished {t : Nat} (h : m.Leased lease clock id owner t) :
    ¬ m.Finished id := by
  rintro ⟨e, he, hfinished⟩
  rcases h.held with ⟨e', he', hs⟩
  rw [he] at he'
  cases he'
  simp [Status.isFinished, hs.completed, hs.failed] at hfinished

omit [Body β] in
theorem Memory.Leased.stored {t : Nat} (h : m.Leased lease clock id owner t) :
    m.lookup? id ≠ none := by
  rcases h.held with ⟨e, he, -⟩
  rw [he]
  exact Option.some_ne_none e

/-- What attempts at the jobs of the registry leave can be written. -/
def Registry.Encodes (registry : Registry β) : Prop :=
  ∀ x, registry.Reads x → ∃ v, Body.payload (Body.attempt x).body = .ok v

/-- An attempt that is not called off goes on or ends; the lock is renewed in time, or the count of
changes is at its end. -/
theorem Turn.of_running {claim : Claim} {j : Job β} {endsAt renewAt : Nat}
    (h : Turn registry lease cancelled clock owner m (.running claim j endsAt renewAt) m' phase'
      begun)
    (hfits : (Phase.running claim j endsAt renewAt).Fits registry lease clock m owner)
    (hcancelled : cancelled = []) (hencodes : registry.Encodes) :
    (∃ renewAt', phase' = .running claim j endsAt renewAt') ∨
    (∃ j' counts v, phase' = .storing claim j' counts ∧ Body.payload j'.body = .ok v) ∨
    (phase' = .resting ∧
      m.lock claim.id owner (.ofNanos clock) lease.lockTimeout = .broken m') := by
  rcases hfits with ⟨howner, -, hreads, t, hleased, -⟩
  cases h with
  | finish =>
      rcases hencodes _ hreads with ⟨v, hv⟩
      rcases j.exists_attempted with ⟨error, hattempted⟩
      refine Or.inr (Or.inl ⟨_, _, v, rfl, ?_⟩)
      show Body.payload j.attempted.body = .ok v
      rw [hattempted]
      exact hv
  | renew => exact Or.inl ⟨_, rfl⟩
  | renewBroken hlock => exact Or.inr (Or.inr ⟨rfl, howner ▸ hlock⟩)
  | lose hlock =>
      rw [howner] at hlock
      exact absurd hlock (hleased.held.lock_ne_refused (.ofNanos clock) lease.lockTimeout _)
  | drop hdrop => exact absurd hcancelled hdrop

theorem Turn.of_storing {claim : Claim} {j : Job β} {counts : Bool}
    (h : Turn registry lease cancelled clock owner m (.storing claim j counts) m' phase' begun)
    (hfits : (Phase.storing claim j counts).Fits registry lease clock m owner) (hne : owner ≠ "")
    {v : Json} (hv : Body.payload j.body = .ok v) : m'.Finished claim.id := by
  rcases hfits with ⟨howner, hfor, hfinished, t, hleased⟩
  have hrecord : j.toRecord = .ok ⟨j.base, v⟩ := by
    unfold Job.toRecord
    rw [hv]
    rfl
  cases h with
  | store hj hsave =>
      rw [← hfor.id, ← Job.toRecord_id hj]
      rw [← Job.toRecord_status hj] at hfinished
      exact Memory.finished_of_save hsave hfinished
  | refuse hrefused =>
      have hid : Record.id ⟨j.base, v⟩ = claim.id := hfor.id
      have howner' : (Record.status ⟨j.base, v⟩).owner = owner := hfor.owner.trans howner
      rcases hleased.held.exists_save hne hid howner' (.ofNanos clock) lease.lockTimeout with
        ⟨m', hsave⟩
      exact absurd hsave (hrefused _ m' hrecord)

namespace Crew

variable {owners : String → Prop} {saved : Option (Job β)} {c c' : Crew β}

/-!
## Finished jobs
-/

theorem Sound.finished_runs (h : c.Sound registry lease owners) (hfinished : c.store.Finished id)
    (hstep : Step registry lease owners saved c c') : runsOf id c'.runs = runsOf id c.runs := by
  cases hstep with
  | ease op heases hspares hsaved hchange => rw [heases.runs]
  | turn p i phase phase' begun hturns hruns hturn =>
      have hfits := h.fits p i phase hturns.before
      rw [hruns, runsOf_append]
      rcases hturn.begun_cases hfits with
        rfl | ⟨claim, -, -, -, r, -, -, -, rfl, hid, -, -, hleased⟩
      · exact List.append_nil _
      · have hother : r.job.id ≠ id := by
          intro heq
          rw [← hid, heq] at hleased
          exact hleased.not_finished hfinished
        simp [runsOf, hother]
  | rest hrests => rw [hrests.runs]

/-- A finished job stays finished until a client saves it as an unfinished one. -/
theorem Sound.finished_step (h : c.Sound registry lease owners) (hfinished : c.store.Finished id)
    (hsaves : ∀ j, saved = some j → j.id = id → j.status.isFinished = true)
    (hstep : Step registry lease owners saved c c') : c'.store.Finished id := by
  cases hstep with
  | ease op heases hspares hsaved hchange =>
      refine hfinished.change Status.lasting_isFinished h.indexed ?_ hchange
      intro j hop hid
      exact hsaves j (hsaved j hop) hid
  | turn p i phase phase' begun hturns hruns hturn =>
      rcases hturn.exists_change (h.fits p i phase hturns.before) with ⟨op, hchange, hby⟩
      refine hfinished.change Status.lasting_isFinished h.indexed ?_ hchange
      intro j hop _
      exact (hby.saves j hop).1
  | rest hrests =>
      rw [hrests.store]
      exact hfinished

/-!
## Jobs that are attempted once
-/

/-- A worker is at an attempt at a job: it runs the job, or is about to store what the attempt has
left, which can be written. -/
def Working (c : Crew β) (id : String) (p i : Nat) : Prop :=
  ∃ claim, claim.id = id ∧
    ((∃ j endsAt renewAt, c.phase p i = some (.running claim j endsAt renewAt)) ∨
      ∃ j counts v, c.phase p i = some (.storing claim j counts) ∧ Body.payload j.body = .ok v)

/-- The count of changes of a job is at its end, and nobody is at the job but to release it. -/
structure Spent (c : Crew β) (id : String) : Prop where
  last : ∃ e, c.store.lookup? id = some e ∧ e.record.status.modCount.toNat = maxUInt64
  idle : ∀ p i claim, c.claim? p i = some claim → claim.id = id →
    c.phase p i = some (.releasing claim)

/-- No attempt was made at a job, or one that is under way, has finished the job or is the last one
that there can be. -/
def AttemptedOnce (c : Crew β) (id : String) : Prop :=
  runsOf id c.runs = [] ∨
    ((runsOf id c.runs).length = 1 ∧
      ((∃ p i, c.Working id p i) ∨ c.store.Finished id ∨ c.Spent id))

theorem Working.leased {p i : Nat} (hworking : c.Working id p i)
    (h : c.Sound registry lease owners) :
    c.phase p i ≠ none ∧ ∃ t, c.store.Leased lease c.clock id (c.owner p i) t := by
  rcases hworking with ⟨claim, rfl, ⟨j, endsAt, renewAt, hphase⟩ | ⟨j, counts, v, hphase, -⟩⟩
  · rcases h.fits p i _ hphase with ⟨-, -, -, t, hleased, -⟩
    exact ⟨by rw [hphase]; exact Option.some_ne_none _, t, hleased⟩
  · rcases h.fits p i _ hphase with ⟨-, -, -, t, hleased⟩
    exact ⟨by rw [hphase]; exact Option.some_ne_none _, t, hleased⟩

theorem Working.claim?_ne {p i : Nat} (hworking : c.Working id p i) : c.claim? p i ≠ none := by
  unfold claim?
  rcases hworking with ⟨claim, -, ⟨_, _, _, hphase⟩ | ⟨_, _, _, hphase, -⟩⟩
  · rw [hphase]
    exact Option.some_ne_none claim
  · rw [hphase]
    exact Option.some_ne_none claim

theorem Working.of_eq {p i : Nat} (hworking : c.Working id p i)
    (hphase : c'.phase p i = c.phase p i) : c'.Working id p i := by
  unfold Working at *
  rw [hphase]
  exact hworking

theorem last_of_change {op : Operation β} {now : Reading}
    (h : ∃ e, m.lookup? id = some e ∧ e.record.status.modCount.toNat = maxUInt64)
    (hm : m.Indexed) (hchange : Memory.Change lease now op m m') :
    ∃ e, m'.lookup? id = some e ∧ e.record.status.modCount.toNat = maxUInt64 := by
  rcases h with ⟨e, he, hlast⟩
  rcases hchange.modCount_le hm he with ⟨e', he', hle⟩
  refine ⟨e', he', Nat.le_antisymm (Status.toNat_modCount_le _) ?_⟩
  rw [← hlast]
  exact UInt64.le_iff_toNat_le.mp hle

theorem Spent.ease (hspent : c.Spent id) (h : c.Sound registry lease owners) {op : Operation β}
    (heases : Eases c c')
    (hchange : Memory.Change lease (.ofNanos c.clock) op c.store c'.store) : c'.Spent id := by
  refine ⟨last_of_change hspent.last h.indexed hchange, ?_⟩
  intro p i claim hclaim hid
  rcases heases.phases p i with hsame | ⟨-, hnone⟩
  · rw [hsame]
    unfold claim? at hclaim
    rw [hsame] at hclaim
    exact hspent.idle p i claim hclaim hid
  · rw [hnone] at hclaim
    cases hclaim

/-- Nobody comes to a job whose count of changes is at its end. -/
theorem Spent.turn (hspent : c.Spent id) (h : c.Sound registry lease owners) {p i : Nat}
    (hturns : Turns p i phase phase' c c')
    (hturn : Turn registry lease c.cancelled c.clock (c.owner p i) c.store phase c'.store phase'
      begun) : c'.Spent id := by
  rcases hturn.exists_change (h.fits p i phase hturns.before) with ⟨op, hchange, -⟩
  refine ⟨last_of_change hspent.last h.indexed hchange, ?_⟩
  intro p' i' claim hclaim hid
  unfold claim? at hclaim
  by_cases hsame : p' = p ∧ i' = i
  · rw [hsame.1, hsame.2, hturns.after, Option.bind_some] at hclaim
    rcases hturn.claim?_cases with hnone | ⟨hkept, hnot⟩ | ⟨id', driver, rfl, hlock⟩
    · rw [hnone] at hclaim
      cases hclaim
    · rw [hkept] at hclaim
      have hbefore : c.claim? p i = some claim := by
        rw [claim?, hturns.before, Option.bind_some, hclaim]
      have hreleasing := hspent.idle p i claim hbefore hid
      rw [hturns.before] at hreleasing
      exact absurd (Option.some.inj hreleasing) (hnot claim)
    · cases hclaim
      rcases Memory.lock_cases hlock with ⟨e, s, he, hs, -⟩
      rcases Status.lock_cases hs with ⟨-, -, -, hroom, -⟩
      rcases hspent.last with ⟨e', he', hlast⟩
      cases he.symm.trans (hid ▸ he')
      exact absurd hlast (Nat.ne_of_lt hroom)
  · rw [hturns.others p' i' hsame] at hclaim ⊢
    exact hspent.idle p' i' claim hclaim hid

omit [Body β] in
theorem spent_of_renewBroken (h : c.Sound registry lease owners) {p i : Nat} {claim : Claim}
    {t : Nat} (hturns : Turns p i phase .resting c c')
    (hleased : c.store.Leased lease c.clock claim.id (c.owner p i) t)
    (hlock : c.store.lock claim.id (c.owner p i) (.ofNanos c.clock) lease.lockTimeout =
      .broken c'.store) : c'.Spent claim.id := by
  rcases Memory.lock_broken_cases hlock with ⟨e, s, he, hs, hstore⟩
  rcases Status.lock_broken_cases hs with ⟨-, -, -, hlast, hs'⟩
  have hlookup := Memory.lookup?_replace c.store claim.id claim.id
    { e with record := e.record.withStatus s }
  rw [if_pos rfl, ← hstore] at hlookup
  have hcount : s.modCount = e.record.status.modCount := by rw [hs']
  refine ⟨⟨_, hlookup, (congrArg UInt64.toNat hcount).trans hlast⟩, ?_⟩
  intro p' i' claim' hclaim hid
  unfold claim? at hclaim
  by_cases hsame : p' = p ∧ i' = i
  · rw [hsame.1, hsame.2, hturns.after] at hclaim
    cases hclaim
  · rw [hturns.others p' i' hsame] at hclaim ⊢
    rcases Option.bind_eq_some_iff.mp hclaim with ⟨phase', hphase', hclaim'⟩
    rw [hphase']
    refine congrArg some (Classical.byContradiction fun hnot => hsame ?_)
    rcases (h.fits p' i' phase' hphase').leased hclaim' hnot with ⟨t', hleased'⟩
    have hpresent' : c.phase p' i' ≠ none := hphase' ▸ Option.some_ne_none phase'
    have hpresent : c.phase p i ≠ none := hturns.before ▸ Option.some_ne_none phase
    exact h.holder_unique hpresent' hpresent (hid ▸ hleased'.held) hleased.held

theorem Working.turn {p i : Nat} (hworking : c.Working id p i)
    (h : c.Sound registry lease owners) (hcancelled : c.cancelled = [])
    (hencodes : registry.Encodes) (hturns : Turns p i phase phase' c c')
    (hturn : Turn registry lease c.cancelled c.clock (c.owner p i) c.store phase c'.store phase'
      begun) :
    c'.Working id p i ∨ c'.store.Finished id ∨ c'.Spent id := by
  have hpresent : c.phase p i ≠ none := by
    rw [hturns.before]
    exact Option.some_ne_none phase
  have hne := (h.named.proper p i hpresent).2
  have hfits := h.fits p i phase hturns.before
  have hafter := hturns.after
  rcases hworking with ⟨claim, rfl, ⟨j, endsAt, renewAt, hphase⟩ | ⟨j, counts, v, hphase, hv⟩⟩
  · rw [hturns.before] at hphase
    cases hphase
    rcases hturn.of_running hfits hcancelled hencodes with
      ⟨renewAt', hrunning⟩ | ⟨j', counts, v, hstoring, hv⟩ | ⟨rfl, hlock⟩
    · exact Or.inl ⟨claim, rfl, Or.inl ⟨j, endsAt, renewAt', hrunning ▸ hafter⟩⟩
    · exact Or.inl ⟨claim, rfl, Or.inr ⟨j', counts, v, hstoring ▸ hafter, hv⟩⟩
    · rcases hfits with ⟨-, -, -, t, hleased, -⟩
      exact Or.inr (Or.inr (spent_of_renewBroken h hturns hleased hlock))
  · rw [hturns.before] at hphase
    cases hphase
    exact Or.inr (Or.inl (hturn.of_storing hfits hne hv))

theorem AttemptedOnce.stored (honce : c.AttemptedOnce id) (h : c.Sound registry lease owners)
    (hbegun : runsOf id c.runs ≠ []) : c.store.lookup? id ≠ none := by
  rcases honce with hnone | ⟨-, ⟨p, i, hworking⟩ | ⟨e, he, -⟩ | ⟨⟨e, he, -⟩, -⟩⟩
  · exact absurd hnone hbegun
  · rcases hworking.leased h with ⟨-, t, hleased⟩
    exact hleased.stored
  · rw [he]
    exact Option.some_ne_none e
  · rw [he]
    exact Option.some_ne_none e

theorem AttemptedOnce.turn_of_runsOf_eq (honce : c.AttemptedOnce id)
    (h : c.Sound registry lease owners) (hcancelled : c.cancelled = [])
    (hencodes : registry.Encodes) {p i : Nat} (hturns : Turns p i phase phase' c c')
    (hruns : c'.runs = c.runs ++ begun)
    (hturn : Turn registry lease c.cancelled c.clock (c.owner p i) c.store phase c'.store phase'
      begun)
    (heq : runsOf id c'.runs = runsOf id c.runs) : c'.AttemptedOnce id := by
  unfold AttemptedOnce
  rw [heq]
  rcases honce with hnone | ⟨hlength, ⟨p', i', hworking⟩ | hfinished | hspent⟩
  · exact Or.inl hnone
  · refine Or.inr ⟨hlength, ?_⟩
    by_cases hsame : p' = p ∧ i' = i
    · rw [hsame.1, hsame.2] at hworking
      rcases hworking.turn h hcancelled hencodes hturns hturn with hworking' | hover
      · exact Or.inl ⟨p, i, hworking'⟩
      · exact Or.inr hover
    · exact Or.inl ⟨p', i', hworking.of_eq (hturns.others p' i' hsame)⟩
  · have hstep : Step registry lease owners none c c' :=
      .turn p i phase phase' begun hturns hruns hturn
    have hunsaved : ∀ j : Job β, none = some j → j.id = id → j.status.isFinished = true :=
      fun _ hj => nomatch hj
    exact Or.inr ⟨hlength, Or.inr (Or.inl (h.finished_step hfinished hunsaved hstep))⟩
  · exact Or.inr ⟨hlength, Or.inr (Or.inr (hspent.turn h hturns hturn))⟩

theorem AttemptedOnce.turn (honce : c.AttemptedOnce id) (h : c.Sound registry lease owners)
    (hcancelled : c.cancelled = []) (hencodes : registry.Encodes) {p i : Nat}
    (hturns : Turns p i phase phase' c c') (hruns : c'.runs = c.runs ++ begun)
    (hturn : Turn registry lease c.cancelled c.clock (c.owner p i) c.store phase c'.store phase'
      begun) :
    c'.AttemptedOnce id := by
  have hsame := honce.turn_of_runsOf_eq h hcancelled hencodes hturns hruns hturn
  have hsplit : runsOf id c'.runs = runsOf id c.runs ++ runsOf id begun := by
    rw [hruns, runsOf_append]
  rcases hturn.begun_cases (h.fits p i phase hturns.before) with
    rfl | ⟨claim, j, endsAt, renewAt, r, j₀, left, known, rfl, hr, hphase, hphase', hleased⟩
  · exact hsame (hsplit.trans (List.append_nil _))
  · by_cases hid : claim.id = id
    · have hfirst : runsOf id c.runs = [] := by
        rcases honce with hnone | ⟨-, ⟨p', i', hworking⟩ | hfinished | hspent⟩
        · exact hnone
        · rcases hworking.leased h with ⟨hpresent', t, hleased'⟩
          have hpresent : c.phase p i ≠ none := by
            rw [hturns.before]
            exact Option.some_ne_none phase
          rcases h.holder_unique hpresent' hpresent hleased'.held (hid ▸ hleased.held) with
            ⟨rfl, rfl⟩
          rcases hworking with ⟨_, -, ⟨_, _, _, hrunning⟩ | ⟨_, _, _, hstoring, -⟩⟩
          · rw [hturns.before, hphase] at hrunning
            cases hrunning
          · rw [hturns.before, hphase] at hstoring
            cases hstoring
        · rw [← hid] at hfinished
          exact absurd hfinished hleased.not_finished
        · have hclaim : c.claim? p i = some claim := by
            rw [claim?, hturns.before, hphase]
            rfl
          have hreleasing := hspent.idle p i claim hclaim hid
          rw [hturns.before, hphase] at hreleasing
          cases hreleasing
      have hone : runsOf id [r] = [r] := by simp [runsOf, hr, hid]
      refine Or.inr ⟨by rw [hsplit, hfirst, hone]; rfl, Or.inl ⟨p, i, claim, hid, Or.inl ?_⟩⟩
      exact ⟨j, endsAt, renewAt, hphase' ▸ hturns.after⟩
    · have hnone : runsOf id [r] = [] := by simp [runsOf, hr, hid]
      exact hsame (by rw [hsplit, hnone, List.append_nil])

/-- A job that is saved once is attempted once. -/
theorem AttemptedOnce.step (honce : c.AttemptedOnce id) (h : c.Sound registry lease owners)
    (hcancelled : c.cancelled = []) (hencodes : registry.Encodes)
    (hsaves : ∀ j, saved = some j → j.id = id → c.store.lookup? id = none)
    (hstep : Step registry lease owners saved c c') : c'.AttemptedOnce id := by
  cases hstep with
  | ease op heases hspares hsaved hchange =>
      unfold AttemptedOnce
      rw [heases.runs]
      by_cases hbegun : runsOf id c.runs = []
      · exact Or.inl hbegun
      · have hstored := honce.stored h hbegun
        rcases honce with hnone | ⟨hlength, hstate⟩
        · exact Or.inl hnone
        · refine Or.inr ⟨hlength, ?_⟩
          rcases hstate with ⟨p, i, hworking⟩ | hfinished | hspent
          · refine Or.inl ⟨p, i, hworking.of_eq ?_⟩
            rcases heases.phases p i with hsame | ⟨hnone, -⟩
            · exact hsame
            · exact absurd hnone hworking.claim?_ne
          · refine Or.inr (Or.inl
              (hfinished.change Status.lasting_isFinished h.indexed ?_ hchange))
            intro j hop hid
            exact absurd (hsaves j (hsaved j hop) hid) hstored
          · exact Or.inr (Or.inr (hspent.ease h heases hchange))
  | turn p i phase phase' begun hturns hruns hturn =>
      exact honce.turn h hcancelled hencodes hturns hruns hturn
  | rest hrests =>
      unfold AttemptedOnce
      rw [hrests.runs, hrests.store]
      rcases honce with hnone | ⟨hlength, ⟨p, i, hworking⟩ | hfinished | hspent⟩
      · exact Or.inl hnone
      · exact Or.inr ⟨hlength, Or.inl ⟨p, i, hworking.of_eq (by rw [hrests.phases])⟩⟩
      · exact Or.inr ⟨hlength, Or.inr (Or.inl hfinished)⟩
      · refine Or.inr ⟨hlength, Or.inr (Or.inr ⟨hrests.store ▸ hspent.last, ?_⟩)⟩
        unfold claim?
        rw [hrests.phases]
        exact hspent.idle

end Crew

end

end LeaseQueue
