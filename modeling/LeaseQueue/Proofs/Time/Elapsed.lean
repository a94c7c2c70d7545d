import LeaseQueue.Time.Timestamp
/-!
# Time that has passed

Away from leap seconds a moment is a number of nanoseconds, and what has passed
between two moments is the difference of their numbers. Readings of the clocks
that never go back therefore only let more time pass.
-/

namespace LeaseQueue
namespace Timestamp

def total (t : Timestamp) : Int := t.seconds * nanosPerSecond + t.nanos

theorem millis_eq_total_div (t : Timestamp) : t.millis = t.total / nanosPerMilli := by
  unfold millis total
  rw [nanosPerMilli, nanosPerSecond]
  omega

theorem since_self (t : Timestamp) : t.since t = 0 := by
  unfold since leapBetween
  simp

theorem nanos_lt_of_not_isLeap {t : Timestamp} (ht : t.isLeap = false) :
    t.nanos < nanosPerSecond := by
  simpa [isLeap] using ht

theorem since_eq_total_sub {t s : Timestamp}
    (ht : t.isLeap = false) (hs : s.isLeap = false) :
    t.since s = t.total - s.total := by
  have hleap : leapBetween t s = 0 := by
    unfold leapBetween
    simp [ht, hs]
  unfold since total
  rw [hleap, nanosPerSecond]
  omega

/-- What is less than a number of milliseconds between whole milliseconds is less in nanoseconds. -/
theorem since_lt_of_millis {t s : Timestamp} (ht : t.isLeap = false) (hs : s.isLeap = false)
    {n : Nat} (h : t.millis - s.millis < n) : t.since s < (n * nanosPerMilli : Nat) := by
  rw [since_eq_total_sub ht hs]
  rw [millis_eq_total_div, millis_eq_total_div] at h
  rw [nanosPerMilli] at *
  omega

theorem total_le_of_not_before {t s : Timestamp}
    (ht : t.isLeap = false) (hs : s.isLeap = false)
    (h : t.before s = false) : s.total ≤ t.total := by
  have hnt := nanos_lt_of_not_isLeap ht
  have hns := nanos_lt_of_not_isLeap hs
  unfold before at h
  simp only [Bool.or_eq_false_iff, Bool.and_eq_false_iff,
    decide_eq_false_iff_not] at h
  unfold total
  rw [nanosPerSecond] at *
  omega

theorem since_le_since {a t s : Timestamp}
    (ha : a.isLeap = false) (ht : t.isLeap = false) (hs : s.isLeap = false)
    (h : t.before s = false) : s.since a ≤ t.since a := by
  have htotal := total_le_of_not_before ht hs h
  rw [since_eq_total_sub hs ha, since_eq_total_sub ht ha]
  omega

/-!
## Moments given in nanoseconds
-/

theorem isLeap_ofNanos (n : Nat) : (ofNanos n).isLeap = false := by
  have hlt : n % nanosPerSecond < nanosPerSecond :=
    Nat.mod_lt n (by decide)
  exact decide_eq_false (Nat.not_le.mpr hlt)

theorem total_ofNanos (n : Nat) : (ofNanos n).total = n := by
  unfold total ofNanos nanosPerSecond
  show ((n : Int) / 1000000000) * 1000000000 + ((n % 1000000000 : Nat) : Int) = n
  omega

theorem ofNanos_since (n m : Nat) :
    (ofNanos n).since (ofNanos m) = (n : Int) - m := by
  rw [since_eq_total_sub (isLeap_ofNanos n) (isLeap_ofNanos m),
    total_ofNanos, total_ofNanos]

/-!
## Clocks that never go back
-/

/-- Moments in the order in which they were read off a clock that never goes back and knows no leap
seconds. -/
def Ordered (l : List Timestamp) : Prop :=
  (∀ t ∈ l, t.isLeap = false) ∧ l.Pairwise fun t s => s.before t = false

theorem Ordered.tail {t : Timestamp} {l : List Timestamp}
    (h : Ordered (t :: l)) : Ordered l :=
  ⟨fun s hs => h.1 s (List.mem_cons_of_mem t hs), h.2.of_cons⟩

theorem Ordered.since_le {a t s : Timestamp} {l : List Timestamp}
    (h : Ordered (t :: l)) (hs : s ∈ l) (ha : a.isLeap = false) :
    t.since a ≤ s.since a := by
  have ht : t.isLeap = false := h.1 t List.mem_cons_self
  have hleap : s.isLeap = false := h.1 s (List.mem_cons_of_mem t hs)
  exact since_le_since ha hleap ht (List.rel_of_pairwise_cons h.2 hs)

theorem Ordered.skip {t s : Timestamp} {l : List Timestamp}
    (h : Ordered (t :: s :: l)) : Ordered (t :: l) := by
  have hsub : List.Sublist (t :: l) (t :: s :: l) :=
    List.Sublist.cons_cons t (List.sublist_cons_self s l)
  exact ⟨fun u hu => h.1 u (hsub.subset hu), h.2.sublist hsub⟩

theorem Ordered.since_second_le {t s u : Timestamp} {l : List Timestamp}
    (h : Ordered (t :: s :: l)) (hu : u ∈ l) : u.since s ≤ u.since t := by
  have ht : t.isLeap = false := h.1 t List.mem_cons_self
  have hs : s.isLeap = false := h.tail.1 s List.mem_cons_self
  have hleap : u.isLeap = false := h.tail.1 u (List.mem_cons_of_mem s hu)
  have htotal : t.total ≤ s.total :=
    total_le_of_not_before hs ht (List.rel_of_pairwise_cons h.2 List.mem_cons_self)
  rw [since_eq_total_sub hleap hs, since_eq_total_sub hleap ht]
  omega

end Timestamp
end LeaseQueue
