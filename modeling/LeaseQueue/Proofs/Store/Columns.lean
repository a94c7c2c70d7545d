import LeaseQueue.Proofs.Time.Elapsed
import LeaseQueue.Store.Memory
import LeaseQueue.Store.Table
/-!
# Leases and hand-outs in columns

A table keeps the times of locks and hand-outs in whole milliseconds and compares
them with limits, where a store in memory takes differences in nanoseconds. On a
clock that shows whole milliseconds, late enough for every lease and window to
fit between the epoch and now, the two come to the same.
-/

namespace LeaseQueue

namespace Timestamp

structure OnMilli (t : Timestamp) : Prop where
  notLeap : t.isLeap = false
  whole : t.nanos % nanosPerMilli = 0

theorem OnMilli.total_eq {t : Timestamp} (h : t.OnMilli) :
    t.total = t.millis * nanosPerMilli := by
  have hwhole := h.whole
  unfold total millis
  rw [nanosPerMilli] at *
  rw [nanosPerSecond]
  omega

theorem OnMilli.since_eq {t s : Timestamp} (ht : t.OnMilli) (hs : s.OnMilli) :
    t.since s = (t.millis - s.millis) * nanosPerMilli := by
  rw [since_eq_total_sub ht.notLeap hs.notLeap, ht.total_eq, hs.total_eq, Int.sub_mul]

theorem OnMilli.later {t s : Timestamp} (ht : t.OnMilli) (hs : s.OnMilli) :
    (t.later s).OnMilli := by
  unfold Timestamp.later
  split
  · exact hs
  · exact ht

end Timestamp

namespace LeaseSettings

/-- A clock reading that the columns of a table are made for: a whole millisecond that a column
holds, with room for a lease and a window since the epoch. -/
structure Fits (lease : LeaseSettings) (now : Timestamp) : Prop where
  onMilli : now.OnMilli
  lock : (lease.lockSeconds : Int) * 1000 ≤ now.millis
  window : (lease.windowMillis : Int) ≤ now.millis
  column : now.millis ≤ maxColumn

variable {lease : LeaseSettings} {now : Timestamp}

theorem Fits.liveAfter_eq (h : lease.Fits now) :
    Table.liveAfter lease now = now.millis - (lease.lockSeconds : Int) * 1000 := by
  have hlock := h.lock
  have hcolumn := h.column
  unfold Table.liveAfter Table.lockMillis columnSub
  rw [maxColumn] at *
  rw [minColumn]
  omega

theorem Fits.dispatchAfter_eq (h : lease.Fits now) :
    Table.dispatchAfter lease now = now.millis - lease.windowMillis := by
  have hwindow := h.window
  have hcolumn := h.column
  unfold Table.dispatchAfter Table.windowMillis columnSub
  rw [maxColumn] at *
  rw [minColumn]
  omega

/-!
## Leases
-/

/-- A lease has run out in nanoseconds when it has in milliseconds. -/
theorem Fits.since_lt_iff (h : lease.Fits now) {t : Timestamp} (ht : t.OnMilli) :
    now.since t < lease.lockTimeout ↔ Table.liveAfter lease now < t.millis := by
  rw [h.liveAfter_eq, h.onMilli.since_eq ht, lockTimeout, nanosPerMilli]
  omega

end LeaseSettings

namespace Status

/-- A status whose lock a table can keep track of: a lock has an owner, and was taken at a whole
millisecond. -/
structure Exact (s : Status) : Prop where
  owned : s.inProgress = true → s.owner ≠ ""
  onMilli : ∀ t, s.modTime = some t → t.OnMilli

theorem exact_blank : blank.Exact where
  owned := fun hbusy => nomatch hbusy
  onMilli := fun _ ht => nomatch ht

variable {s stored incoming : Status} {lease : LeaseSettings} {now : Timestamp}
  {id owner : String}

theorem Exact.isLive_eq (hs : s.Exact) (hnow : lease.Fits now) :
    s.isLive now lease.lockTimeout =
      (s.inProgress && !decide (Row.leaseOf s ≤ Table.liveAfter lease now)) := by
  unfold isLive Row.leaseOf
  cases hbusy : s.inProgress with
  | false => rfl
  | true =>
      have howned := hs.owned hbusy
      cases htime : s.modTime with
      | none =>
          have hlimit : 0 ≤ Table.liveAfter lease now := by
            have hlock := hnow.lock
            rw [hnow.liveAfter_eq]
            omega
          simp [hlimit]
      | some t =>
          have hname : (s.owner != "") = true := bne_iff_ne.mpr howned
          have hlive : decide (now.since t < lease.lockTimeout) =
              !decide (t.millis ≤ Table.liveAfter lease now) := by
            rw [← decide_not]
            apply decide_eq_decide.mpr
            exact (hnow.since_lt_iff (hs.onMilli t htime)).trans Int.not_le.symm
          show (true && s.owner != "" && decide (now.since t < lease.lockTimeout)) = _
          rw [hname, hlive]
          rfl

theorem Exact.merge (hstored : stored.Exact) (hincoming : incoming.Exact) :
    (stored.merge incoming).Exact := by
  refine ⟨hincoming.owned, ?_⟩
  intro t ht
  have hlater : laterOf stored.modTime incoming.modTime = some t := ht
  cases hs : stored.modTime with
  | none =>
      rw [hs] at hlater
      exact hincoming.onMilli t hlater
  | some a =>
      cases hi : incoming.modTime with
      | none =>
          rw [hs, hi] at hlater
          cases hlater
          exact hstored.onMilli t hs
      | some b =>
          rw [hs, hi] at hlater
          cases hlater
          exact (hstored.onMilli a hs).later (hincoming.onMilli b hi)

theorem exact_changeLock (hnow : now.OnMilli) {inProgress : Bool}
    (howner : inProgress = true → owner ≠ "") :
    (Table.changeLock s inProgress owner now).Exact := by
  refine ⟨howner, ?_⟩
  intro t ht
  cases ht
  exact hnow

end Status

/-!
## Hand-outs
-/

/-- The column of a hand-out for a time of the clock that never goes back. -/
def HandedAs (offset : Int) (dispatchedAt : Option Nat) (column : Int) : Prop :=
  match dispatchedAt with
  | none => column = 0
  | some t => (t : Int) = column * nanosPerMilli + offset

theorem HandedAs.unique {offset column column' : Int} {dispatchedAt : Option Nat}
    (h : HandedAs offset dispatchedAt column) (h' : HandedAs offset dispatchedAt column') :
    column = column' := by
  unfold HandedAs nanosPerMilli at *
  cases dispatchedAt with
  | none => exact h.trans h'.symm
  | some t =>
      dsimp only at h h'
      omega

theorem HandedAs.windowPassed_eq {offset column : Int} {dispatchedAt : Option Nat}
    (h : HandedAs offset dispatchedAt column) {lease : LeaseSettings} {now : Reading}
    (hnow : lease.Fits now.wall) (hticks : (now.ticks : Int) = now.wall.total + offset)
    (hpast : ∀ t, dispatchedAt = some t → t ≤ now.ticks) :
    Memory.windowPassed dispatchedAt now.ticks lease.window =
      decide (column ≤ Table.dispatchAfter lease now.wall) := by
  have hwindow := hnow.window
  rw [hnow.dispatchAfter_eq]
  rw [hnow.onMilli.total_eq, nanosPerMilli] at hticks
  cases dispatchedAt with
  | none =>
      have hcolumn : column = 0 := h
      simp [Memory.windowPassed, hcolumn, hwindow]
  | some t =>
      have hcolumn : (t : Int) = column * nanosPerMilli + offset := h
      have hle := hpast t rfl
      rw [nanosPerMilli] at hcolumn
      simp only [Memory.windowPassed, LeaseSettings.window]
      congr 1
      apply propext
      omega

end LeaseQueue
