import LeaseQueue.Proofs.Json.Text
import LeaseQueue.Proofs.Store.Lease
/-!
# Rivals at the same moment

A lock that has just been taken keeps a rival off only if its lease lasts some
time. Settings whose lease was set by a call always have such a lease; settings
that are read from a text have the lease that the text gives, which may be none.
-/

namespace LeaseQueue

/-- The settings are the standard ones, or their lease was set by a call, whatever it had been. -/
inductive LeaseSettings.Built : LeaseSettings → Prop where
  | standard : Built .standard
  | withLockTimeout (s : LeaseSettings) (span : Span) : Built (s.withLockTimeout span)
  | withDispatchWindow {s : LeaseSettings} (span : Span) :
      Built s → Built (s.withDispatchWindow span)

theorem LeaseSettings.Built.lockSeconds_pos {s : LeaseSettings} (h : s.Built) :
    0 < s.lockSeconds := by
  induction h with
  | standard => decide
  | withLockTimeout s span => exact Nat.lt_of_lt_of_le Nat.zero_lt_one (Nat.le_max_right _ 1)
  | withDispatchWindow span _ ih => exact ih

theorem LeaseSettings.lockTimeout_pos_iff (s : LeaseSettings) :
    0 < s.lockTimeout ↔ 0 < s.lockSeconds := by
  unfold lockTimeout
  omega

namespace Status

theorem HeldAt.canLock_of_no_lease {s : Status} {owner : String} {t : Timestamp}
    (h : s.HeldAt owner t) (other : String) : s.canLock other t 0 = true := by
  have hlive : s.isLive t 0 = false := by
    unfold Status.isLive
    rw [h.modTime]
    simp [Timestamp.since_self]
  unfold canLock isFinished
  rw [h.completed, h.failed, hlive]
  simp

end Status

namespace Backend

variable {β : Type} [Body β] {id owner rival : String}

theorem access_lock_of_lease (b : Backend β) (d : Discipline) {m : Memory} (howner : owner ≠ "")
    (hrival : rival ≠ owner) {now : Reading} (hheld : m.HeldAt id owner now.wall)
    (hlease : 0 < b.lease.lockTimeout) (cancelled : Bool) :
    (b.onMemory d m).access ⟨.lock id rival, cancelled, now⟩ =
      (.done (.error (.lock (.held id owner))), b.onMemory d m) := by
  rcases hheld with ⟨e, he, hs⟩
  have hlive : now.wall.since now.wall < b.lease.lockTimeout := by
    rw [Timestamp.since_self]
    exact Int.natCast_pos.mpr hlease
  rw [access_lock]
  unfold Memory.lock
  simp only [he, hs.lock_other howner hlive hrival]
  rfl

/-- A rival takes the lock over at the moment it was taken if the lease has no length, unless the
count of changes is at its end. -/
theorem access_lock_of_no_lease (b : Backend β) (d : Discipline) {m : Memory} {now : Reading}
    {e : Entry} (he : m.lookup? id = some e) (hheld : e.record.status.HeldAt owner now.wall)
    (hlease : b.lease.lockTimeout = 0) (cancelled : Bool) :
    ((b.onMemory d m).access ⟨.lock id rival, cancelled, now⟩).1 =
      if e.record.status.modCount.toNat = maxUInt64 then .broken else .done (.ok ()) := by
  rw [access_lock, hlease]
  unfold Memory.lock
  simp only [he, Status.lock_of_canLock (hheld.canLock_of_no_lease rival), Status.counted]
  split <;> rfl

/-- Right after a lock is taken, a rival is refused if and only if the lease lasts at least a second,
and otherwise takes the lock over, if the count of changes can note it. The settings that calls make
always refuse it. -/
theorem rival_refused_iff_lease {registry : Registry β} {d : Discipline} {lease : LeaseSettings}
    {b : Backend β} (hb : Reachable registry d lease b) (howner : owner ≠ "")
    (hrival : rival ≠ owner) (now : Reading) (c c' : Bool)
    (hlock : (b.access ⟨.lock id owner, c, now⟩).1 = .done (.ok ())) :
    let b' := b.after ⟨.lock id owner, c, now⟩
    let answer := b'.access ⟨.lock id rival, c', now⟩
    let refused := answer = (.done (.error (.lock (.held id owner))), b')
    (refused ↔ 0 < lease.lockSeconds) ∧
    (∀ r, b'.record? false id = some r → (answer.1 = .done (.ok ()) ↔
      lease.lockSeconds = 0 ∧ r.status.modCount.toNat < maxUInt64)) ∧
    (lease.Built → refused) := by
  intro b' answer refused
  rcases hb.exists_memory with ⟨m, rfl, hm⟩
  rcases heldAt_of_access_lock hm hlock with ⟨m', hafter, -, hheld⟩
  have hb' : b' = (inMemory registry d lease).onMemory d m' := hafter
  have hkept : 0 < lease.lockSeconds → refused := by
    intro hpos
    have hlease : 0 < lease.lockTimeout := lease.lockTimeout_pos_iff.mpr hpos
    show b'.access _ = _
    rw [hb']
    exact access_lock_of_lease (inMemory registry d lease) d howner hrival hheld hlease c'
  rcases hheld with ⟨e, he, hs⟩
  have htaken : lease.lockSeconds = 0 → answer.1 =
      if e.record.status.modCount.toNat = maxUInt64 then .broken else .done (.ok ()) := by
    intro hzero
    have hlease : lease.lockTimeout = 0 :=
      Nat.eq_zero_of_not_pos fun hpos =>
        Nat.lt_irrefl 0 (hzero ▸ lease.lockTimeout_pos_iff.mp hpos)
    show (b'.access _).1 = _
    rw [hb']
    exact access_lock_of_no_lease (inMemory registry d lease) d he hs hlease c'
  have hpos : answer.1 = .done (.error (.lock (.held id owner))) → 0 < lease.lockSeconds := by
    intro hrefused
    refine Nat.pos_of_ne_zero fun hzero => ?_
    rw [htaken hzero] at hrefused
    split at hrefused <;> cases hrefused
  refine ⟨⟨fun hrefused => hpos (congrArg Prod.fst hrefused), hkept⟩, ?_,
    fun hbuilt => hkept hbuilt.lockSeconds_pos⟩
  intro r hr
  rw [hb', record?_onMemory, he] at hr
  cases hr
  constructor
  · intro hdone
    have hzero : lease.lockSeconds = 0 := by
      refine Nat.eq_zero_of_not_pos fun hpos => ?_
      have hrefused : answer.1 = .done (.error _) := congrArg Prod.fst (hkept hpos)
      rw [hdone] at hrefused
      cases hrefused
    refine ⟨hzero, Nat.lt_of_le_of_ne (Status.toNat_modCount_le _) fun hlast => ?_⟩
    rw [htaken hzero, if_pos hlast] at hdone
    cases hdone
  · rintro ⟨hzero, hroom⟩
    rw [htaken hzero, if_neg (Nat.ne_of_lt hroom)]

/-- A lease set to nothing by a call still lasts a second, and refuses a rival. -/
theorem rival_refused_of_shortest_lease :
    let lease := LeaseSettings.standard.withLockTimeout ⟨0, 0⟩
    let b : Backend Work :=
      (inMemory .empty .byPriority lease).run [⟨.save (sampleJob "job"), false, .ofNanos 0⟩]
    let b' := b.after ⟨.lock "job" "holder", false, .ofNanos 0⟩
    b'.access ⟨.lock "job" "rival", false, .ofNanos 0⟩ =
      (.done (.error (.lock (.held "job" "holder"))), b') := by
  intro lease b b'
  have hb : Reachable .empty .byPriority lease b := ⟨_, rfl⟩
  exact (rival_refused_iff_lease hb (by decide) (by decide) (.ofNanos 0) false false rfl).2.2
    (.withLockTimeout _ _)

/-- Settings read from a text may set the lease to nothing, and then a rival takes over a lock at the
moment it was taken. -/
theorem rival_takes_lock_of_no_lease :
    ∃ lease, Document.parse LeaseSettings.ofDocument "\x7b\"lock_timeout_secs\":0\x7d" = .ok lease ∧
      let b : Backend Work :=
        (inMemory .empty .byPriority lease).run [⟨.save (sampleJob "job"), false, .ofNanos 0⟩]
      let b' := b.after ⟨.lock "job" "holder", false, .ofNanos 0⟩
      (b.access ⟨.lock "job" "holder", false, .ofNanos 0⟩).1 = .done (.ok ()) ∧
        (b'.access ⟨.lock "job" "rival", false, .ofNanos 0⟩).1 = .done (.ok ()) := by
  let settings : Json := .object [("lock_timeout_secs", .number (.whole 0))]
  have htext : "\x7b\"lock_timeout_secs\":0\x7d" = settings.render := by cbv
  have hwhole : settings.isWhole = true := by decide
  refine ⟨⟨0, 1000⟩, ?_, rfl, rfl⟩
  rw [htext]
  exact (Document.parse_render LeaseSettings.ofDocument hwhole).trans rfl

end Backend
end LeaseQueue
