import LeaseQueue.Queue.System
import LeaseQueue.Proofs.Store.Index
/-!
# Drivers that work on a store in memory

A driver of which no call is planned to fail works on its backend as it stands.
Where that is a store in memory, a call of the driver is an operation on the
store.
-/

namespace LeaseQueue

theorem Driver.begin_of_outages {driver : Driver} (houtages : driver.outages = [])
    (call : DriverCall) : driver.begin call = (false, driver) := by
  unfold Driver.begin
  rw [houtages]
  show (false, { driver with outages := [] }) = _
  rw [← houtages]

namespace System

variable {β : Type}

/-- A driver works on a store in memory, and no call of it is planned to fail. -/
structure Reaches (s : System β) (k n : Nat) (b : Backend β) (d : Discipline) (m : Memory) :
    Prop where
  driver : ∃ driver, s.drivers[k]? = some driver ∧ driver.backend = n ∧ driver.outages = []
  store : s.backends[n]? = some (b.onMemory d m)

def putStore (s : System β) (n : Nat) (b : Backend β) (d : Discipline) (m : Memory) : System β :=
  { s with backends := s.backends.set n (b.onMemory d m) }

/-- The answer to a call that changes a store in memory unless it fails. -/
def settleIn (s : System β) (n : Nat) (b : Backend β) (d : Discipline) :
    Except StoreError Memory → Except StoreError Unit × System β
  | .ok m => (.ok (), s.putStore n b d m)
  | .error e => (.error e, s)

def settleLockIn (s : System β) (n : Nat) (b : Backend β) (d : Discipline) :
    LockChange StoreError Memory → LockChange StoreError Unit × System β
  | .made m => (.made (), s.putStore n b d m)
  | .refused e => (.refused e, s)
  | .broken m => (.broken (), s.putStore n b d m)

def recordIn (s : System β) (n : Nat) (id : String) : Option Record :=
  (s.backends[n]?).bind fun b => b.record? false id

variable {s : System β} {k n : Nat} {b : Backend β} {d : Discipline} {m m' : Memory}

theorem Reaches.recordIn_eq (h : s.Reaches k n b d m) (id : String) :
    s.recordIn n id = (m.lookup? id).map Entry.record := by
  unfold recordIn
  rw [h.store]
  rfl

theorem Reaches.putStore (h : s.Reaches k n b d m) (m' : Memory) :
    (s.putStore n b d m').Reaches k n b d m' :=
  ⟨h.driver, List.getElem?_set_self (List.getElem?_eq_some_iff.mp h.store).1⟩

theorem Reaches.putStore_self (h : s.Reaches k n b d m) : s.putStore n b d m = s := by
  rcases List.getElem?_eq_some_iff.mp h.store with ⟨hn, heq⟩
  unfold System.putStore
  rw [← heq, List.set_getElem_self]

theorem Reaches.viaDriver_eq {α : Type} (h : s.Reaches k n b d m) (call : DriverCall) (failed : α)
    (f : Backend β → α × Backend β) :
    s.viaDriver k call failed f = ((f (b.onMemory d m)).1,
      { s with backends := s.backends.set n (f (b.onMemory d m)).2 }) := by
  rcases h.driver with ⟨driver, hdriver, rfl, houtages⟩
  rcases List.getElem?_eq_some_iff.mp hdriver with ⟨hk, heq⟩
  unfold viaDriver
  rw [hdriver]
  subst heq
  simp only [Driver.begin_of_outages houtages, List.set_getElem_self, h.store]
  rfl

theorem Reaches.viaDriver_settle (h : s.Reaches k n b d m) {call : DriverCall}
    {failed : Except StoreError Unit} {f : Backend β → Except StoreError (Backend β)}
    {r : Except StoreError Memory}
    (hf : f (b.onMemory d m) = r >>= fun m' => pure (b.onMemory d m')) :
    s.viaDriver k call failed (fun b => settle b (f b)) =
      s.settleIn n b d r := by
  rw [h.viaDriver_eq, hf]
  cases r with
  | ok m' => rfl
  | error e => exact congrArg (Prod.mk (Except.error e)) h.putStore_self

theorem Reaches.viaDriver_settleLock (h : s.Reaches k n b d m) {call : DriverCall}
    {failed : LockChange StoreError Unit} {f : Backend β → LockChange StoreError (Backend β)}
    {r : LockChange StoreError Memory} (hf : f (b.onMemory d m) = r.map (b.onMemory d)) :
    s.viaDriver k call failed (fun b => settleLock b (f b)) = s.settleLockIn n b d r := by
  rw [h.viaDriver_eq, hf]
  cases r with
  | made m' => rfl
  | refused e => exact congrArg (Prod.mk (LockChange.refused e)) h.putStore_self
  | broken m' => rfl

theorem Reaches.driverLock_eq (h : s.Reaches k n b d m) (token : Nat) (id owner : String) :
    s.driverLock k token id owner =
      s.settleLockIn n b d (m.lock id owner s.now b.lease.lockTimeout) :=
  h.viaDriver_settleLock rfl

theorem Reaches.driverUnlock_eq (h : s.Reaches k n b d m) (token : Nat) (id owner : String) :
    s.driverUnlock k token id owner =
      s.settleLockIn n b d (m.unlock id owner s.now) :=
  h.viaDriver_settleLock rfl

theorem Reaches.driverGet_eq (h : s.Reaches k n b d m) (token : Nat) (id : String) :
    s.driverGet k token id = (((m.lookup? id).map Entry.record).bind b.registry.build?, s) := by
  unfold driverGet
  rw [h.viaDriver_eq]
  exact congrArg (Prod.mk _) h.putStore_self

theorem Reaches.driverSave_eq [Body β] (h : s.Reaches k n b d m) (token : Nat) {j : Job β}
    {r : Record} (hj : j.toRecord = .ok r) :
    s.driverSave k token j =
      s.settleIn n b d (m.save r s.now b.lease.lockTimeout) := by
  exact h.viaDriver_settle (Backend.save_onMemory b d m _ s.reading hj)

end System
end LeaseQueue
