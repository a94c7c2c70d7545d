import LeaseQueue.Proofs.Queue.Crew
import LeaseQueue.Proofs.Queue.Names
/-!
# How a system is wired

Which driver a queue works through and which pool works for which queue is fixed
once the queue has started. Where each queue has a driver of its own, each worker
has an owner name of its own.
-/

namespace LeaseQueue

variable {β : Type}

structure Staff (β : Type) where
  started : Bool
  source : Option (Source β)
  size : Nat

/-- What of a system stays while its parts work: the drivers, the driver of each queue and whether
it has started, and the staff of each pool. -/
structure Wiring (β : Type) where
  drivers : List Driver
  queues : List (Option Nat × Bool)
  pools : List (Staff β)

namespace Wiring

def queueDriver (w : Wiring β) (q : Nat) : Option Nat := (w.queues[q]?).bind Prod.fst

def driverName (w : Wiring β) (d : Nat) : String :=
  match w.drivers[d]? with
  | some driver => driver.name
  | none => ""

def sourceDriver (w : Wiring β) : Option (Source β) → Option Nat
  | some (.queue q) => w.queueDriver q
  | some (.jobs _ d) => d
  | none => none

def ownerAt (w : Wiring β) (p i : Nat) : String :=
  match (w.pools[p]?).bind fun staff => w.sourceDriver staff.source with
  | some d => ownerName (w.driverName d) i
  | none => ""

/-- A pool that works for a queue which has started, under names that clients do not use. -/
structure WorksFor (owners : String → Prop) (w : Wiring β) (staff : Staff β) (q d : Nat) :
    Prop where
  started : staff.started = true
  source : staff.source = some (.queue q)
  queue : w.queues[q]? = some (some d, true)
  names : ∀ i, i < staff.size → owners (ownerName (w.driverName d) i)

/-- Every driver works on the one backend and every queue through a driver of its own; a pool has not
started, or it works for a queue, alone. -/
structure Sound (owners : String → Prop) (w : Wiring β) : Prop where
  drivers : ∀ driver ∈ w.drivers, driver.backend = 0 ∧ driver.outages = []
  names : ∀ (d d' : Nat) driver driver', w.drivers[d]? = some driver →
    w.drivers[d']? = some driver' → driver.name = driver'.name → d = d'
  inRange : ∀ q d, w.queueDriver q = some d → d < w.drivers.length
  separate : ∀ q q' d, w.queueDriver q = some d → w.queueDriver q' = some d → q = q'
  staffs : ∀ (p : Nat) staff, w.pools[p]? = some staff →
    staff = ⟨false, none, 0⟩ ∨ ∃ q d, w.WorksFor owners staff q d
  single : ∀ (p p' : Nat) staff staff' q, w.pools[p]? = some staff → w.pools[p']? = some staff' →
    staff.source = some (.queue q) → staff'.source = some (.queue q) → p = p'

variable {owners : String → Prop} {w : Wiring β}

theorem WorksFor.queueDriver {staff : Staff β} {q d : Nat} (h : w.WorksFor owners staff q d) :
    w.queueDriver q = some d := by
  unfold Wiring.queueDriver
  rw [h.queue]
  rfl

theorem WorksFor.ownerAt {staff : Staff β} {q d p : Nat} (h : w.WorksFor owners staff q d)
    (hstaff : w.pools[p]? = some staff) (i : Nat) :
    w.ownerAt p i = ownerName (w.driverName d) i := by
  have hsource : w.sourceDriver staff.source = some d := by
    rw [h.source]
    exact h.queueDriver
  unfold Wiring.ownerAt
  rw [hstaff, Option.bind_some, hsource]

theorem Sound.worksFor (h : w.Sound owners) {p i : Nat} {staff : Staff β}
    (hstaff : w.pools[p]? = some staff) (hi : i < staff.size) :
    ∃ q d, w.WorksFor owners staff q d := by
  rcases h.staffs p staff hstaff with rfl | hworks
  · exact absurd hi (Nat.not_lt_zero i)
  · exact hworks

theorem Sound.driverName_inj (h : w.Sound owners) {d d' : Nat} (hd : d < w.drivers.length)
    (hd' : d' < w.drivers.length) (hname : w.driverName d = w.driverName d') : d = d' := by
  have hdriver := List.getElem?_eq_getElem hd
  have hdriver' := List.getElem?_eq_getElem hd'
  unfold driverName at hname
  rw [hdriver, hdriver'] at hname
  exact h.names d d' _ _ hdriver hdriver' hname

theorem Sound.ownerAt_inj (h : w.Sound owners) {p p' i i' : Nat} {staff staff' : Staff β}
    (hstaff : w.pools[p]? = some staff) (hstaff' : w.pools[p']? = some staff')
    (hi : i < staff.size) (hi' : i' < staff'.size) (howner : w.ownerAt p i = w.ownerAt p' i') :
    p = p' ∧ i = i' := by
  rcases h.worksFor hstaff hi with ⟨q, d, hworks⟩
  rcases h.worksFor hstaff' hi' with ⟨q', d', hworks'⟩
  rw [hworks.ownerAt hstaff, hworks'.ownerAt hstaff'] at howner
  rcases ownerName_inj howner with ⟨hname, hplace⟩
  have hdriver : d = d' :=
    h.driverName_inj (h.inRange q d hworks.queueDriver) (h.inRange q' d' hworks'.queueDriver) hname
  have hqueue : q = q' :=
    h.separate q q' d hworks.queueDriver (hdriver ▸ hworks'.queueDriver)
  exact ⟨h.single p p' staff staff' q hstaff hstaff' hworks.source (hqueue ▸ hworks'.source),
    hplace⟩

end Wiring

end LeaseQueue
