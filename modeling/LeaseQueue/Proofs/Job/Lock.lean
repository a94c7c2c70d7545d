import LeaseQueue.Job.Registry
import LeaseQueue.Store.Saving
/-!
# Locks of a status

What a lock, a release and a save leave of a status, and what jobs and records
have in common.
-/

namespace LeaseQueue

namespace LockChange

variable {ε ε' σ σ' : Type} {c : LockChange ε σ}

theorem map_eq_made {f : σ → σ'} {s : σ'} : c.map f = .made s ↔ ∃ a, c = .made a ∧ f a = s := by
  cases c <;> simp [map]

theorem map_eq_broken {f : σ → σ'} {s : σ'} :
    c.map f = .broken s ↔ ∃ a, c = .broken a ∧ f a = s := by
  cases c <;> simp [map]

theorem mapRefusal_eq_made {f : ε → ε'} {s : σ} : c.mapRefusal f = .made s ↔ c = .made s := by
  cases c <;> simp [mapRefusal]

theorem mapRefusal_eq_broken {f : ε → ε'} {s : σ} :
    c.mapRefusal f = .broken s ↔ c = .broken s := by
  cases c <;> simp [mapRefusal]

end LockChange

namespace Status

/-- An owner holds an unfinished job by a lock that was taken or renewed at a moment. -/
structure HeldAt (s : Status) (owner : String) (t : Timestamp) : Prop where
  inProgress : s.inProgress = true
  owner : s.owner = owner
  modTime : s.modTime = some t
  completed : s.completed = false
  failed : s.failed = false

variable {s s' : Status} {owner id : String} {t now : Timestamp} {timeout : Nat}

theorem isHeldBy_iff :
    s.isHeldBy owner = true ↔ s.inProgress = true ∧ owner ≠ "" ∧ s.owner = owner := by
  unfold isHeldBy
  simp [and_assoc]

theorem toNat_modCount_le (s : Status) : s.modCount.toNat ≤ maxUInt64 := by
  have h := s.modCount.toNat_lt
  unfold maxUInt64
  omega

theorem counted_of_lt (h : s.modCount.toNat < maxUInt64) :
    s.counted now = .made { s with modCount := s.modCount + 1, modTime := some now } := by
  unfold counted
  rw [if_neg (Nat.ne_of_lt h)]

theorem counted_of_eq (h : s.modCount.toNat = maxUInt64) : s.counted now = .broken s := by
  unfold counted
  rw [if_pos h]

theorem counted_cases (s : Status) (now : Timestamp) :
    (s.modCount.toNat < maxUInt64 ∧
      s.counted now = .made { s with modCount := s.modCount + 1, modTime := some now }) ∨
    (s.modCount.toNat = maxUInt64 ∧ s.counted now = .broken s) := by
  rcases Nat.lt_or_eq_of_le (toNat_modCount_le s) with hlt | heq
  · exact Or.inl ⟨hlt, counted_of_lt hlt⟩
  · exact Or.inr ⟨heq, counted_of_eq heq⟩

theorem open_of_canLock (h : s.canLock owner now timeout = true) :
    s.completed = false ∧ s.failed = false := by
  have hfinished := (Bool.and_eq_true_iff.mp h).1
  simpa [isFinished] using hfinished

theorem lock_of_canLock (h : s.canLock owner now timeout = true) :
    s.lock id owner now timeout =
      { s with inProgress := true, owner := owner : Status }.counted now := by
  have hopen := open_of_canLock h
  unfold lock
  rw [hopen.1, hopen.2, h]
  rfl

theorem lock_of_room (h : s.canLock owner now timeout = true)
    (hroom : s.modCount.toNat < maxUInt64) :
    s.lock id owner now timeout = .made { s with
      inProgress := true, owner := owner, modCount := s.modCount + 1, modTime := some now } := by
  rw [lock_of_canLock h]
  exact counted_of_lt (s := { s with inProgress := true, owner := owner : Status }) hroom

theorem lock_of_not_canLock (h : s.canLock owner now timeout = false) :
    s.lock id owner now timeout = .refused
      (if s.completed then .completed id else if s.failed then .failed id
        else .held id s.owner) := by
  unfold lock
  rw [h]
  cases s.completed <;> cases s.failed <;> rfl

theorem lock_cases (h : s.lock id owner now timeout = .made s') :
    s.completed = false ∧ s.failed = false ∧ s.canLock owner now timeout = true ∧
      s.modCount.toNat < maxUInt64 ∧ s' = { s with
        inProgress := true, owner := owner, modCount := s.modCount + 1, modTime := some now } := by
  cases hcan : s.canLock owner now timeout with
  | false =>
      rw [lock_of_not_canLock hcan] at h
      cases h
  | true =>
      rcases open_of_canLock hcan with ⟨hcompleted, hfailed⟩
      rw [lock_of_canLock hcan] at h
      rcases counted_cases { s with inProgress := true, owner := owner } now with
        ⟨hlt, hmade⟩ | ⟨-, hbroken⟩
      · rw [hmade] at h
        cases h
        exact ⟨hcompleted, hfailed, rfl, hlt, rfl⟩
      · rw [hbroken] at h
        cases h

/-- A lock breaks off at the end of the count, when the owner has been changed. -/
theorem lock_broken_cases (h : s.lock id owner now timeout = .broken s') :
    s.completed = false ∧ s.failed = false ∧ s.canLock owner now timeout = true ∧
      s.modCount.toNat = maxUInt64 ∧ s' = { s with inProgress := true, owner := owner } := by
  cases hcan : s.canLock owner now timeout with
  | false =>
      rw [lock_of_not_canLock hcan] at h
      cases h
  | true =>
      rcases open_of_canLock hcan with ⟨hcompleted, hfailed⟩
      rw [lock_of_canLock hcan] at h
      rcases counted_cases { s with inProgress := true, owner := owner } now with
        ⟨-, hmade⟩ | ⟨heq, hbroken⟩
      · rw [hmade] at h
        cases h
      · rw [hbroken] at h
        cases h
        exact ⟨hcompleted, hfailed, rfl, heq, rfl⟩

theorem heldAt_of_lock (h : s.lock id owner now timeout = .made s') :
    s'.HeldAt owner now := by
  rcases lock_cases h with ⟨hcompleted, hfailed, -, -, rfl⟩
  exact ⟨rfl, rfl, rfl, hcompleted, hfailed⟩

theorem unlock_of_holder (hbusy : s.inProgress = true) (howner : s.owner = owner) :
    s.unlock id owner now =
      { s with inProgress := false, owner := "" : Status }.counted now := by
  unfold unlock
  simp [hbusy, howner]

theorem unlock_of_room (hbusy : s.inProgress = true) (howner : s.owner = owner)
    (hroom : s.modCount.toNat < maxUInt64) :
    s.unlock id owner now = .made { s with
      inProgress := false, owner := "", modCount := s.modCount + 1, modTime := some now } := by
  rw [unlock_of_holder hbusy howner]
  exact counted_of_lt (s := { s with inProgress := false, owner := "" : Status }) hroom

theorem unlock_cases (h : s.unlock id owner now = .made s') :
    (s.inProgress = false ∧ s' = s) ∨
    (s.inProgress = true ∧ s.owner = owner ∧ s.modCount.toNat < maxUInt64 ∧
      s' = { s with
        inProgress := false, owner := "", modCount := s.modCount + 1, modTime := some now }) := by
  cases hbusy : s.inProgress with
  | false =>
      simp only [unlock, hbusy] at h
      cases h
      exact Or.inl ⟨rfl, rfl⟩
  | true =>
      by_cases howner : s.owner = owner
      · rw [unlock_of_holder hbusy howner] at h
        rcases counted_cases { s with inProgress := false, owner := "" } now with
          ⟨hlt, hmade⟩ | ⟨-, hbroken⟩
        · rw [hmade] at h
          cases h
          exact Or.inr ⟨rfl, howner, hlt, rfl⟩
        · rw [hbroken] at h
          cases h
      · simp [unlock, hbusy, howner] at h

/-- A release breaks off at the end of the count, when the owner has been cleared. -/
theorem unlock_broken_cases (h : s.unlock id owner now = .broken s') :
    s.inProgress = true ∧ s.owner = owner ∧ s.modCount.toNat = maxUInt64 ∧
      s' = { s with inProgress := false, owner := "" } := by
  cases hbusy : s.inProgress with
  | false =>
      simp only [unlock, hbusy] at h
      cases h
  | true =>
      by_cases howner : s.owner = owner
      · rw [unlock_of_holder hbusy howner] at h
        rcases counted_cases { s with inProgress := false, owner := "" } now with
          ⟨-, hmade⟩ | ⟨heq, hbroken⟩
        · rw [hmade] at h
          cases h
        · rw [hbroken] at h
          cases h
          exact ⟨rfl, howner, heq, rfl⟩
      · simp [unlock, hbusy, howner] at h

/-- A copy with another owner may not be saved over a live lease. -/
theorem checkSave_of_isLive {stored incoming : Status} (hlive : stored.isLive now timeout = true)
    (hother : incoming.owner ≠ stored.owner) :
    ∃ reason, stored.checkSave incoming id now timeout = .error (.conflict id reason) := by
  have hheld : stored.isHeldBy incoming.owner = false := by
    unfold isHeldBy
    simp [hother.symm]
  unfold checkSave
  rw [hheld, hlive]
  by_cases hcount : incoming.modCount < stored.modCount
  · simp [hcount]
  · simp [hcount]

/-!
## The modification count
-/

theorem modCount_lt_succ {c : UInt64} (h : c.toNat < maxUInt64) : c < c + 1 := by
  unfold maxUInt64 at h
  rw [UInt64.lt_iff_toNat_lt, UInt64.toNat_add]
  simp only [UInt64.toNat_one]
  omega

theorem modCount_le_merge (stored incoming : Status) :
    stored.modCount ≤ (stored.merge incoming).modCount := by
  show stored.modCount ≤
    if stored.modCount ≤ incoming.modCount then incoming.modCount else stored.modCount
  split
  · assumption
  · exact UInt64.le_refl _

end Status

namespace Job

variable {β : Type} [Body β]

theorem toRecord_base {j : Job β} {r : Record} (h : j.toRecord = .ok r) :
    r.base = j.base := by
  unfold toRecord at h
  cases hpayload : Body.payload j.body with
  | error reason =>
      rw [hpayload] at h
      cases h
  | ok v =>
      rw [hpayload] at h
      cases h
      rfl

theorem toRecord_of_payload {j : Job β} {v : Json} (h : Body.payload j.body = .ok v) :
    j.toRecord = .ok ⟨j.base, v⟩ := by
  unfold toRecord
  rw [h]
  rfl

theorem toRecord_id {j : Job β} {r : Record} (h : j.toRecord = .ok r) : r.id = j.id :=
  congrArg Base.id (toRecord_base h)

theorem toRecord_status {j : Job β} {r : Record} (h : j.toRecord = .ok r) :
    r.status = j.status :=
  congrArg Base.status (toRecord_base h)

end Job

theorem Registry.build?_base {β : Type} {registry : Registry β} {r : Record} {j : Job β}
    (h : registry.build? r = some j) : j.base = r.base := by
  unfold build? build at h
  cases hfactory : registry.factories.get? r.base.jobType.name with
  | none => simp [hfactory, Except.toOption] at h
  | some f =>
      simp only [hfactory] at h
      split at h
      · cases h
      · split at h
        · cases h
          rfl
        · cases h

theorem Registry.build?_withStatus {β : Type} (registry : Registry β) (r : Record) (s : Status) :
    registry.build? (r.withStatus s) = (registry.build? r).map fun j => j.withStatus s := by
  unfold build? build
  cases hfactory : registry.factories.get? r.base.jobType.name with
  | none => simp [Record.withStatus, hfactory, Except.toOption]
  | some f =>
      by_cases hversion : f.version = r.base.jobType.version
      · cases hread : f.read r.payload <;>
          simp [Record.withStatus, hfactory, hversion, hread, Except.toOption, Job.withStatus]
      · simp [Record.withStatus, hfactory, hversion, Except.toOption]

end LeaseQueue
