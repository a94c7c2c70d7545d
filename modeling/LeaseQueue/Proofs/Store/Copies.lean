import LeaseQueue.Proofs.Store.Effects
import LeaseQueue.Proofs.Work.Payloads
/-!
# Locks of copies

A job's lock can be taken or released in the store, or on a copy that is fetched
and then saved. A copy whose lock was taken names the owner whom the store then
knows as its holder, so both ways come to the same. A copy whose lock was released
names nobody, so the store takes it for a stranger's as long as the lease is live.
-/

namespace LeaseQueue

/-!
## What a change of a lock notes
-/

theorem Timestamp.eq_of_not_before {t s : Timestamp} (h : t.before s = false)
    (h' : s.before t = false) : t = s := by
  unfold before at h h'
  simp only [Bool.or_eq_false_iff, Bool.and_eq_false_iff, decide_eq_false_iff_not] at h h'
  have hseconds : t.seconds = s.seconds := by omega
  have hnanos : t.nanos = s.nanos := by omega
  cases t
  cases s
  cases hseconds
  cases hnanos
  rfl

theorem laterOf_now {t : Option Timestamp} {now : Timestamp}
    (h : ∀ s, t = some s → now.before s = false) : laterOf t (some now) = some now := by
  cases t with
  | none => rfl
  | some s =>
      have hlater : laterOf (some s) (some now) = some (if s.before now then now else s) := rfl
      rw [hlater]
      cases hbefore : s.before now with
      | true => rfl
      | false => exact congrArg some (Timestamp.eq_of_not_before hbefore (h s rfl))

namespace Status

/-- A change of a lock at a moment is noted in the count and the time of such changes. -/
structure Noted (s s' : Status) (now : Timestamp) : Prop where
  modCount : s.modCount ≤ s'.modCount
  modTime : s'.modTime = some now

section

variable {s s' : Status} {owner id : String} {now : Timestamp} {timeout : Nat}

theorem noted_of_lock (h : s.lock id owner now timeout = .made s') : s.Noted s' now := by
  rcases lock_cases h with ⟨-, -, -, hroom, rfl⟩
  exact ⟨UInt64.le_of_lt (modCount_lt_succ hroom), rfl⟩

theorem noted_of_unlock (h : s.unlock id owner now = .made s') (hbusy : s.inProgress = true) :
    s.Noted s' now ∧ s'.owner = "" := by
  rcases unlock_cases h with ⟨hidle, -⟩ | ⟨-, -, hroom, rfl⟩
  · rw [hbusy] at hidle
    cases hidle
  · exact ⟨⟨UInt64.le_of_lt (modCount_lt_succ hroom), rfl⟩, rfl⟩

theorem Noted.merge_eq (h : s.Noted s' now)
    (htime : ∀ t, s.modTime = some t → now.before t = false) : s.merge s' = s' := by
  have hmax : max s.modCount s'.modCount = s'.modCount := if_pos h.modCount
  have hlater : laterOf s.modTime s'.modTime = s'.modTime := by
    rw [h.modTime]
    exact laterOf_now htime
  show { s' with modCount := max s.modCount s'.modCount, modTime := laterOf s.modTime s'.modTime } = s'
  rw [hmax, hlater]

/-!
## Saving a copy whose lock was changed
-/

theorem not_isLive_of_not_isHeldBy (h : s.isHeldBy s.owner = false) (now : Timestamp)
    (timeout : Nat) : s.isLive now timeout = false := by
  have hnone : (s.inProgress && s.owner != "") = false := by
    simpa [isHeldBy] using h
  unfold isLive
  rw [hnone]
  rfl

theorem checkSave_of_not_isLive (hcount : s.modCount ≤ s'.modCount)
    (hlive : s.isLive now timeout = false) : s.checkSave s' id now timeout = .ok () := by
  unfold checkSave
  rw [hlive, if_neg (UInt64.not_lt.mpr hcount)]
  split <;> rfl

theorem checkSave_of_lock (h : s.lock id owner now timeout = .made s') :
    s.checkSave s' id now timeout = .ok () := by
  have hle := (noted_of_lock h).modCount
  rcases lock_cases h with ⟨-, -, hcan, -, rfl⟩
  have howner : s.owner = owner ∨ s.isLive now timeout = false := by
    simpa using (Bool.and_eq_true_iff.mp hcan).2
  rcases howner with rfl | hlive
  · cases hheld : s.isHeldBy s.owner with
    | true => exact if_pos hheld
    | false => exact checkSave_of_not_isLive hle (not_isLive_of_not_isHeldBy hheld now timeout)
  · exact checkSave_of_not_isLive hle hlive

/-- A copy without an owner is refused under a live lease, the holder's own copy too. -/
theorem checkSave_of_ownerless (id : String) (hnobody : s'.owner = "") (hcount : s.modCount ≤ s'.modCount)
    (hlive : s.isLive now timeout = true) :
    s.checkSave s' id now timeout = .error (.conflict id (.locked s.owner)) := by
  have hheld : s.isHeldBy s'.owner = false := by
    rw [hnobody]
    simp [isHeldBy]
  unfold checkSave
  rw [hheld, hlive, if_neg (UInt64.not_lt.mpr hcount)]
  rfl

end
end Status

namespace Memory

/-- The store with another status of a job and with its payload written anew. -/
def setCopy (m : Memory) (id : String) (e : Entry) (s : Status) (payload : Json) : Memory :=
  m.replace id { e with record := ⟨(e.record.withStatus s).base, payload⟩ }

section

variable {m : Memory} {id owner : String} {e : Entry} {s : Status} {now : Timestamp}
variable {timeout : Nat}

theorem lock_eq_made (he : m.lookup? id = some e)
    (hs : e.record.status.lock id owner now timeout = .made s) :
    m.lock id owner now timeout = .made (m.setStatus id e s) := by
  unfold lock
  simp only [he, hs]
  rfl

theorem lock_eq_refused {c : LockConflict} (he : m.lookup? id = some e)
    (hc : e.record.status.lock id owner now timeout = .refused c) :
    m.lock id owner now timeout = .refused (.lock c) := by
  unfold lock
  simp only [he, hc]
  rfl

theorem unlock_eq_made (he : m.lookup? id = some e)
    (hs : e.record.status.unlock id owner now = .made s) :
    m.unlock id owner now = .made (m.setStatus id e s) := by
  unfold unlock
  simp only [he, hs]
  rfl

theorem save_eq_error {r : Record} {err : StoreError} (he : m.lookup? r.id = some e)
    (hcheck : e.record.status.checkSave r.status r.id now timeout = .error err) :
    m.save r now timeout = .error err := by
  unfold save
  simp only [he, hcheck]
  rfl

theorem save_eq_ok {r : Record} (he : m.lookup? r.id = some e)
    (hcheck : e.record.status.checkSave r.status r.id now timeout = .ok ()) :
    m.save r now timeout =
      .ok (m.replace r.id { e with record := r.withStatus (e.record.status.merge r.status) }) := by
  unfold save
  simp only [he, hcheck]
  rfl

end
end Memory

namespace Backend

variable {β : Type} [Body β]

/-- Fetches a copy of a job, changes its lock and saves it. Nothing is saved if the change is
refused or breaks off. -/
def accessCopy (b : Backend β) (cancelled : Bool) (now : Reading) (id : String)
    (change : Job β → LockChange LockConflict (Job β)) : Answer β × Backend β :=
  match b.get cancelled id with
  | none => (.job none, b)
  | some j =>
      match change j with
      | .made j' => b.access ⟨.save j', cancelled, now⟩
      | .refused c => (.done (.error (.lock c)), b)
      | .broken _ => (.broken, b)

/-- Two ways to change the lock of a job, on a copy and in the store, come to the same. Both are
refused for one reason and leave the store as it was, or both give the job one status. In the second
case all else stays as it was, but that saving writes the payload of the copy. -/
inductive Alike (b : Backend β) (d : Discipline) (m : Memory) (id : String) (e : Entry)
    (payload : Json) :
    LockChange LockConflict Status → Answer β × Backend β → Answer β × Backend β → Prop
  | refused (c : LockConflict) :
      Alike b d m id e payload (.refused c) (.done (.error (.lock c)), b.onMemory d m)
        (.done (.error (.lock c)), b.onMemory d m)
  | settled (s : Status) :
      Alike b d m id e payload (.made s) (.done (.ok ()), b.onMemory d (m.setCopy id e s payload))
        (.done (.ok ()), b.onMemory d (m.setStatus id e s))

omit [Body β] in
theorem Alike.answers {b : Backend β} {d : Discipline} {m : Memory} {id : String} {e : Entry}
    {payload : Json} {outcome : LockChange LockConflict Status} {viaCopy direct : Answer β × Backend β}
    (h : Alike b d m id e payload outcome viaCopy direct) : viaCopy.1 = direct.1 := by
  cases h with
  | refused c => rfl
  | settled s => rfl

section

variable {b : Backend β} {d : Discipline} {m : Memory} {id owner : String} {e : Entry}
variable {s : Status} {j : Job β} {cancelled : Bool} {now : Reading} {payload : Json}
variable {change : Job β → LockChange LockConflict (Job β)}

theorem accessCopy_of_made (hj : (b.onMemory d m).get cancelled id = some j) {j' : Job β}
    (hchange : change j = .made j') :
    (b.onMemory d m).accessCopy cancelled now id change =
      (b.onMemory d m).access ⟨.save j', cancelled, now⟩ := by
  unfold accessCopy
  simp only [hj, hchange]

theorem accessCopy_of_refused (hj : (b.onMemory d m).get cancelled id = some j) {c : LockConflict}
    (hchange : change j = .refused c) :
    (b.onMemory d m).accessCopy cancelled now id change =
      (.done (.error (.lock c)), b.onMemory d m) := by
  unfold accessCopy
  simp only [hj, hchange]

theorem access_save_copy (hm : m.Indexed) (he : m.lookup? id = some e)
    (hj : j.toRecord = .ok ⟨(e.record.withStatus s).base, payload⟩)
    (hcheck : e.record.status.checkSave s id now.wall b.lease.lockTimeout = .ok ())
    (hmerge : e.record.status.merge s = s) :
    (b.onMemory d m).access ⟨.save j, cancelled, now⟩ =
      (.done (.ok ()), b.onMemory d (m.setCopy id e s payload)) := by
  have hid : e.record.base.id = id := hm.record_id he
  subst hid
  have hsave := Memory.save_eq_ok (r := ⟨(e.record.withStatus s).base, payload⟩) he hcheck
  rw [access_save b d m cancelled now hj, hsave]
  show (_, b.onMemory d (m.setCopy e.record.base.id e (e.record.status.merge s) payload)) = _
  rw [hmerge]

theorem access_save_copy_refused (hm : m.Indexed) (he : m.lookup? id = some e)
    (hj : j.toRecord = .ok ⟨(e.record.withStatus s).base, payload⟩) {err : StoreError}
    (hcheck : e.record.status.checkSave s id now.wall b.lease.lockTimeout = .error err) :
    (b.onMemory d m).access ⟨.save j, cancelled, now⟩ =
      (.done (.error err), b.onMemory d m) := by
  have hid : e.record.base.id = id := hm.record_id he
  subst hid
  have hsave := Memory.save_eq_error (r := ⟨(e.record.withStatus s).base, payload⟩) he hcheck
  rw [access_save b d m cancelled now hj, hsave]
  rfl

theorem toRecord_copy (hj : b.registry.build? e.record = some j)
    (hpayload : Body.payload j.body = .ok payload) (s : Status) :
    (j.withStatus s).toRecord = .ok ⟨(e.record.withStatus s).base, payload⟩ := by
  have hbase : j.base = e.record.base := Registry.build?_base hj
  unfold Job.toRecord Job.withStatus
  rw [hbase, hpayload]
  rfl

omit [Body β] in
theorem get_copy (he : m.lookup? id = some e) (hj : b.registry.build? e.record = some j) :
    (b.onMemory d m).get cancelled id = some j := by
  rw [get_onMemory, he]
  exact hj

/-- A change of the copy's lock that may be saved and is written as it is comes to the same as this
change of the stored job's lock. -/
theorem alike_of_copy (hm : m.Indexed) (he : m.lookup? id = some e)
    (hj : b.registry.build? e.record = some j) (hpayload : Body.payload j.body = .ok payload)
    (hchange : change j = .made (j.withStatus s))
    (hcheck : e.record.status.checkSave s id now.wall b.lease.lockTimeout = .ok ())
    (hmerge : e.record.status.merge s = s) :
    Alike b d m id e payload (.made s) ((b.onMemory d m).accessCopy cancelled now id change)
      (.done (.ok ()), b.onMemory d (m.setStatus id e s)) := by
  rw [accessCopy_of_made (get_copy he hj) hchange,
    access_save_copy hm he (toRecord_copy hj hpayload s) hcheck hmerge]
  exact .settled s

omit [Body β] in
theorem lock_copy (owner : String) (now : Timestamp)
    (hdefault : b.lease.lockSeconds = defaultLockSeconds) (hm : m.Indexed)
    (he : m.lookup? id = some e) (hj : b.registry.build? e.record = some j) :
    j.lock owner now =
      (e.record.status.lock id owner now b.lease.lockTimeout).map j.withStatus := by
  have hbase : j.base = e.record.base := Registry.build?_base hj
  have hid : j.id = id := (congrArg Base.id hbase).trans (hm.record_id he)
  have hstatus : j.status = e.record.status := congrArg Base.status hbase
  have htimeout : b.lease.lockTimeout = defaultLockTimeout := by
    unfold LeaseSettings.lockTimeout
    rw [hdefault]
    rfl
  unfold Job.lock
  rw [hid, hstatus, htimeout]

omit [Body β] in
theorem unlock_copy (owner : String) (now : Timestamp) (hm : m.Indexed)
    (he : m.lookup? id = some e) (hj : b.registry.build? e.record = some j) :
    j.unlock owner now = (e.record.status.unlock id owner now).map j.withStatus := by
  have hbase : j.base = e.record.base := Registry.build?_base hj
  have hid : j.id = id := (congrArg Base.id hbase).trans (hm.record_id he)
  have hstatus : j.status = e.record.status := congrArg Base.status hbase
  unfold Job.unlock
  rw [hid, hstatus]

theorem alike_lock (hdefault : b.lease.lockSeconds = defaultLockSeconds) (hm : m.Indexed)
    (he : m.lookup? id = some e) (hj : b.registry.build? e.record = some j)
    (hpayload : Body.payload j.body = .ok payload)
    (hcount : e.record.status.modCount.toNat < maxUInt64)
    (htime : ∀ t, e.record.status.modTime = some t → now.wall.before t = false) :
    Alike b d m id e payload (e.record.status.lock id owner now.wall b.lease.lockTimeout)
      ((b.onMemory d m).accessCopy cancelled now id fun j => j.lock owner now.wall)
      ((b.onMemory d m).access ⟨.lock id owner, cancelled, now⟩) := by
  have hcopy := lock_copy owner now.wall hdefault hm he hj
  rw [access_lock]
  cases hs : e.record.status.lock id owner now.wall b.lease.lockTimeout with
  | refused c =>
      rw [hs] at hcopy
      rw [accessCopy_of_refused (get_copy he hj) hcopy, Memory.lock_eq_refused he hs]
      exact .refused c
  | broken s =>
      rcases Status.lock_broken_cases hs with ⟨-, -, -, hfull, -⟩
      omega
  | made s =>
      rw [hs] at hcopy
      rw [Memory.lock_eq_made he hs]
      exact alike_of_copy hm he hj hpayload hcopy (Status.checkSave_of_lock hs)
        ((Status.noted_of_lock hs).merge_eq htime)

theorem accessCopy_unlock_of_isLive (hm : m.Indexed) (he : m.lookup? id = some e)
    (hj : b.registry.build? e.record = some j) (hpayload : Body.payload j.body = .ok payload)
    (hbusy : e.record.status.inProgress = true)
    (hs : e.record.status.unlock id owner now.wall = .made s)
    (hlive : e.record.status.isLive now.wall b.lease.lockTimeout = true) :
    (b.onMemory d m).accessCopy cancelled now id (fun j => j.unlock owner now.wall) =
      (.done (.error (.conflict id (.locked e.record.status.owner))), b.onMemory d m) := by
  have hcopy := unlock_copy owner now.wall hm he hj
  rw [hs] at hcopy
  rcases Status.noted_of_unlock hs hbusy with ⟨hnoted, hnobody⟩
  have hcheck := Status.checkSave_of_ownerless id hnobody hnoted.modCount hlive
  rw [accessCopy_of_made (get_copy he hj) hcopy,
    access_save_copy_refused hm he (toRecord_copy hj hpayload s) hcheck]

theorem alike_unlock (hm : m.Indexed) (he : m.lookup? id = some e)
    (hj : b.registry.build? e.record = some j) (hpayload : Body.payload j.body = .ok payload)
    (hbusy : e.record.status.inProgress = true)
    (hs : e.record.status.unlock id owner now.wall = .made s)
    (htime : ∀ t, e.record.status.modTime = some t → now.wall.before t = false)
    (hlive : e.record.status.isLive now.wall b.lease.lockTimeout = false) :
    Alike b d m id e payload (.made s)
      ((b.onMemory d m).accessCopy cancelled now id fun j => j.unlock owner now.wall)
      (.done (.ok ()), b.onMemory d (m.setStatus id e s)) := by
  have hcopy := unlock_copy owner now.wall hm he hj
  rw [hs] at hcopy
  rcases Status.noted_of_unlock hs hbusy with ⟨hnoted, -⟩
  exact alike_of_copy hm he hj hpayload hcopy
    (Status.checkSave_of_not_isLive hnoted.modCount hlive) (hnoted.merge_eq htime)

end

section

variable {kinds : List (JobKind β)} {d : Discipline} {lease : LeaseSettings}
variable {past : List (Access β)} {cancelled : Bool} {now : Reading} {id owner : String}
variable {r : Record} {j : Job β}

/-- To take the lock of a copy and save the copy comes to the same as taking the lock in the store,
if the store's leases are as long as those of copies are. -/
theorem locking_copy_locks_job (owner : String)
    (hdefault : lease.lockSeconds = defaultLockSeconds)
    (hr : ((inMemory (.ofKinds kinds) d lease).run past).record? cancelled id = some r)
    (hj : (Registry.ofKinds kinds).build? r = some j)
    (hcount : r.status.modCount.toNat < maxUInt64)
    (htime : ∀ t, r.status.modTime = some t → now.wall.before t = false) :
    let empty := inMemory (.ofKinds kinds) d lease
    let b := empty.run past
    ∃ m e payload, b = empty.onMemory d m ∧ m.lookup? id = some e ∧ e.record = r ∧
      Body.payload j.body = .ok payload ∧ Alike empty d m id e payload (r.status.lock id owner now.wall lease.lockTimeout)
        (b.accessCopy cancelled now id fun j => j.lock owner now.wall)
        (b.access ⟨.lock id owner, cancelled, now⟩) := by
  intro empty b
  rcases run_onMemory empty d Memory.indexed_empty past with ⟨m, hrun, hm⟩
  have hb : b = empty.onMemory d m := hrun
  have hr' : b.record? cancelled id = some r := hr
  rw [hb] at hr' ⊢
  rcases Option.map_eq_some_iff.mp hr' with ⟨e, he, rfl⟩
  rcases Registry.exists_payload_of_build? hj with ⟨payload, hpayload⟩
  exact ⟨m, e, payload, rfl, he, rfl, hpayload,
    alike_lock hdefault hm he hj hpayload hcount htime⟩

def heldPast : List (Access Work) :=
  [⟨.save (plainJob "job"), false, .ofNanos 0⟩, ⟨.lock "job" "holder", false, .ofNanos 0⟩]

def heldStore : Backend Work :=
  (inMemory (.ofKinds [Work.keptKind]) .oldestFirst .standard).run heldPast

def heldRecord : Record :=
  Record.withStatus ⟨(plainJob "job").base, .object []⟩
    ⟨false, false, true, "holder", 1, some (.ofNanos 0)⟩

theorem heldStore_record? : heldStore.record? false "job" = some heldRecord := rfl

theorem heldRecord_modTime (now : Timestamp) (h : now.before (.ofNanos 0) = false) :
    ∀ t, heldRecord.status.modTime = some t → now.before t = false := by
  intro t ht
  cases ht
  exact h

/-- When the lease has run out, another owner takes the lock either way. -/
theorem locking_copy_locks_job_of_rival :
    let empty : Backend Work := inMemory (.ofKinds [Work.keptKind]) .oldestFirst .standard
    let now := Reading.ofNanos 300000000000
    ∃ m e payload, heldStore = empty.onMemory .oldestFirst m ∧ m.lookup? "job" = some e ∧
      Alike empty .oldestFirst m "job" e payload
        (.made ⟨false, false, true, "rival", 2, some now.wall⟩)
        (heldStore.accessCopy false now "job" fun j => j.lock "rival" now.wall)
        (heldStore.access ⟨.lock "job" "rival", false, now⟩) := by
  intro empty now
  rcases locking_copy_locks_job "rival" rfl heldStore_record? rfl (by decide)
    (heldRecord_modTime now.wall rfl) with ⟨m, e, payload, hm, he, -, -, halike⟩
  have hlock : heldRecord.status.lock "job" "rival" now.wall LeaseSettings.standard.lockTimeout =
      .made ⟨false, false, true, "rival", 2, some now.wall⟩ := by decide +kernel
  rw [hlock] at halike
  exact ⟨m, e, payload, hm, he, halike⟩

/-- To release the lock of a copy and save the copy comes to the same as releasing the lock in the
store only when the lease has run out. Under a live lease the store refuses the copy, naming its own
holder as the one who locks it out, where it does release the lock for the same holder. -/
theorem releasing_copy_waits_for_lease
    (hr : ((inMemory (.ofKinds kinds) d lease).run past).record? cancelled id = some r)
    (hj : (Registry.ofKinds kinds).build? r = some j)
    (hheld : r.status.isHeldBy owner = true)
    (hcount : r.status.modCount.toNat < maxUInt64)
    (htime : ∀ t, r.status.modTime = some t → now.wall.before t = false) :
    let empty := inMemory (.ofKinds kinds) d lease
    let b := empty.run past
    let viaCopy := b.accessCopy cancelled now id fun j => j.unlock owner now.wall
    let direct := b.access ⟨.unlock id owner, cancelled, now⟩
    ∃ m e s payload, b = empty.onMemory d m ∧ m.lookup? id = some e ∧ e.record = r ∧
      Body.payload j.body = .ok payload ∧ r.status.unlock id owner now.wall = .made s ∧
      direct = (.done (.ok ()), empty.onMemory d (m.setStatus id e s)) ∧
      (r.status.isLive now.wall lease.lockTimeout = true →
        viaCopy = (.done (.error (.conflict id (.locked owner))), b)) ∧
      (r.status.isLive now.wall lease.lockTimeout = false →
        Alike empty d m id e payload (.made s) viaCopy direct) := by
  intro empty b viaCopy direct
  rcases run_onMemory empty d Memory.indexed_empty past with ⟨m, hrun, hm⟩
  have hb : b = empty.onMemory d m := hrun
  have hr' : b.record? cancelled id = some r := hr
  rw [hb] at hr'
  rcases Option.map_eq_some_iff.mp hr' with ⟨e, he, rfl⟩
  rcases Registry.exists_payload_of_build? hj with ⟨payload, hpayload⟩
  rcases Status.isHeldBy_iff.mp hheld with ⟨hbusy, -, howner⟩
  have hs : ∃ s, e.record.status.unlock id owner now.wall = .made s :=
    ⟨_, (Status.unlock_of_holder hbusy howner).trans (Status.counted_of_lt hcount)⟩
  rcases hs with ⟨s, hs⟩
  have hdirect : direct = (.done (.ok ()), empty.onMemory d (m.setStatus id e s)) := by
    show b.access _ = _
    rw [hb, access_unlock, Memory.unlock_eq_made he hs]
    rfl
  refine ⟨m, e, s, payload, hb, he, rfl, hpayload, hs, hdirect, ?_, ?_⟩
  · intro hlive
    show b.accessCopy _ _ _ _ = _
    rw [hb, ← howner]
    rw [← howner] at hs
    exact accessCopy_unlock_of_isLive hm he hj hpayload hbusy hs hlive
  · intro hlive
    rw [hdirect]
    show Alike empty d m id e payload _ (b.accessCopy _ _ _ _) _
    rw [hb]
    exact alike_unlock hm he hj hpayload hbusy hs htime hlive

/-- When the lease has run out, its holder releases the job either way. -/
theorem releasing_copy_waits_for_lease_of_late_holder :
    let empty : Backend Work := inMemory (.ofKinds [Work.keptKind]) .oldestFirst .standard
    let now := Reading.ofNanos 300000000000
    ∃ m e s payload, m.lookup? "job" = some e ∧
      heldRecord.status.unlock "job" "holder" now.wall = .made s ∧
      Alike empty .oldestFirst m "job" e payload (.made s)
        (heldStore.accessCopy false now "job" fun j => j.unlock "holder" now.wall)
        (heldStore.access ⟨.unlock "job" "holder", false, now⟩) := by
  intro empty now
  have hheld : heldRecord.status.isHeldBy "holder" = true := rfl
  rcases releasing_copy_waits_for_lease heldStore_record? rfl hheld (by decide)
    (heldRecord_modTime now.wall rfl) with ⟨m, e, s, payload, -, he, -, -, hs, -, -, halike⟩
  have hover : heldRecord.status.isLive now.wall LeaseSettings.standard.lockTimeout = false := by
    decide +kernel
  exact ⟨m, e, s, payload, he, hs, halike hover⟩

/-- A second after it took the lock, the holder releases it in the store, but is refused when it
saves a copy that it has released. -/
theorem holder_is_refused_its_released_copy :
    let now := Reading.ofNanos 1000000000
    (heldStore.access ⟨.unlock "job" "holder", false, now⟩).1 = .done (.ok ()) ∧
      (heldStore.accessCopy false now "job" fun j => j.unlock "holder" now.wall).1 =
        .done (.error (.conflict "job" (.locked "holder"))) :=
  ⟨rfl, rfl⟩

end

end Backend
end LeaseQueue
