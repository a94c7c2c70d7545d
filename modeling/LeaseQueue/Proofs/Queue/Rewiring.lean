import LeaseQueue.Proofs.Queue.Wiring
/-!
# Changes of the wiring

A client adds drivers, pools and queues, gives a queue that has not started a
driver, and starts it. Whoever works already goes on under the same name, and
each queue still has a driver of its own.
-/

namespace LeaseQueue

theorem getElem?_concat_cases {α : Type} {l : List α} {a x : α} {i : Nat}
    (h : (l ++ [a])[i]? = some x) : l[i]? = some x ∨ (i = l.length ∧ x = a) := by
  by_cases hi : i < l.length
  · rw [List.getElem?_append_left hi] at h
    exact Or.inl h
  · rw [List.getElem?_append_right (Nat.le_of_not_lt hi)] at h
    rcases List.getElem?_eq_some_iff.mp h with ⟨hlt, hx⟩
    have hlast : i - l.length = 0 := Nat.lt_one_iff.mp hlt
    refine Or.inr ⟨by omega, ?_⟩
    rw [← hx]
    simp [hlast]

namespace Wiring

variable {β : Type} {owners : String → Prop} {w w' w'' : Wiring β} {staff : Staff β}
variable {p q d : Nat}

/-- What works in one wiring works in the other in the same way. -/
structure Extends (w w' : Wiring β) : Prop where
  drivers : w.drivers.length ≤ w'.drivers.length
  names : ∀ d, d < w.drivers.length → w'.driverName d = w.driverName d
  queues : ∀ (q : Nat) d, w.queues[q]? = some (some d, true) → w'.queues[q]? = some (some d, true)
  pools : ∀ (p : Nat) staff, w.pools[p]? = some staff → staff.started = true →
    w'.pools[p]? = some staff

theorem Extends.trans (h : w.Extends w') (h' : w'.Extends w'') : w.Extends w'' := by
  refine ⟨Nat.le_trans h.drivers h'.drivers, ?_, ?_, ?_⟩
  · intro d hd
    exact (h'.names d (Nat.lt_of_lt_of_le hd h.drivers)).trans (h.names d hd)
  · intro q d hq
    exact h'.queues q d (h.queues q d hq)
  · intro p staff hp hstarted
    exact h'.pools p staff (h.pools p staff hp hstarted) hstarted

theorem Extends.worksFor (h : w.Extends w') (hw : w.Sound owners)
    (hworks : w.WorksFor owners staff q d) : w'.WorksFor owners staff q d := by
  refine ⟨hworks.started, hworks.source, h.queues q d hworks.queue, ?_⟩
  rw [h.names d (hw.inRange q d hworks.queueDriver)]
  exact hworks.names

theorem Extends.ownerAt_eq (h : w.Extends w') (hw : w.Sound owners)
    (hstaff : w.pools[p]? = some staff) {i : Nat} (hi : i < staff.size) :
    w'.ownerAt p i = w.ownerAt p i := by
  rcases hw.worksFor hstaff hi with ⟨q, d, hworks⟩
  have hstaff' := h.pools p staff hstaff hworks.started
  rw [hworks.ownerAt hstaff, (h.worksFor hw hworks).ownerAt hstaff',
    h.names d (hw.inRange q d hworks.queueDriver)]

theorem Extends.staffs (h : w.Extends w') (hw : w.Sound owners)
    (hstaff : w.pools[p]? = some staff) :
    staff = ⟨false, none, 0⟩ ∨ ∃ q d, w'.WorksFor owners staff q d := by
  rcases hw.staffs p staff hstaff with hidle | ⟨q, d, hworks⟩
  · exact Or.inl hidle
  · exact Or.inr ⟨q, d, h.worksFor hw hworks⟩

theorem Sound.source_ne (hw : w.Sound owners) (hstaff : w.pools[p]? = some staff)
    {old : Option Nat} (hqueue : w.queues[q]? = some (old, false)) :
    staff.source ≠ some (.queue q) := by
  intro hsource
  rcases hw.staffs p staff hstaff with rfl | ⟨q', d, hworks⟩
  · cases hsource
  · rw [hworks.source] at hsource
    cases hsource
    rw [hworks.queue] at hqueue
    cases hqueue

/-!
## More drivers, pools and queues
-/

def addDriver (w : Wiring β) (driver : Driver) : Wiring β :=
  { w with drivers := w.drivers ++ [driver] }

def addPool (w : Wiring β) : Wiring β := { w with pools := w.pools ++ [⟨false, none, 0⟩] }

def addQueue (w : Wiring β) : Wiring β := { w with queues := w.queues ++ [(none, false)] }

theorem extends_addDriver (w : Wiring β) (driver : Driver) : w.Extends (w.addDriver driver) := by
  refine ⟨by simp [addDriver], ?_, fun _ _ hq => hq, fun _ _ hp _ => hp⟩
  intro d hd
  unfold driverName addDriver
  rw [List.getElem?_append_left hd]

theorem extends_addPool (w : Wiring β) : w.Extends w.addPool := by
  refine ⟨Nat.le_refl _, fun _ _ => rfl, fun _ _ hq => hq, ?_⟩
  intro p staff hp _
  exact (List.getElem?_append_left (List.getElem?_eq_some_iff.mp hp).1).trans hp

theorem extends_addQueue (w : Wiring β) : w.Extends w.addQueue := by
  refine ⟨Nat.le_refl _, fun _ _ => rfl, ?_, fun _ _ hp _ => hp⟩
  intro q d hq
  exact (List.getElem?_append_left (List.getElem?_eq_some_iff.mp hq).1).trans hq

theorem queueDriver_addQueue (w : Wiring β) (q : Nat) :
    w.addQueue.queueDriver q = w.queueDriver q := by
  unfold queueDriver addQueue
  by_cases hq : q < w.queues.length
  · rw [List.getElem?_append_left hq]
  · have hnone : w.queues[q]? = none := List.getElem?_eq_none (Nat.le_of_not_lt hq)
    cases hnew : (w.queues ++ [(none, false)])[q]? with
    | none => rw [hnone]
    | some post =>
        rcases getElem?_concat_cases hnew with hold | ⟨-, rfl⟩
        · rw [hnone] at hold
          cases hold
        · rw [hnone]
          rfl

theorem Sound.addDriver (h : w.Sound owners) {driver : Driver} (hbackend : driver.backend = 0)
    (houtages : driver.outages = [])
    (hfresh : ∀ driver' ∈ w.drivers, driver'.name ≠ driver.name) :
    (w.addDriver driver).Sound owners where
  drivers := by
    intro driver' hmem
    rcases List.mem_append.mp hmem with hold | hnew
    · exact h.drivers driver' hold
    · cases List.mem_singleton.mp hnew
      exact ⟨hbackend, houtages⟩
  names := by
    intro d d' one other hone hother hname
    rcases getElem?_concat_cases hone with hold | ⟨hd, rfl⟩
    · rcases getElem?_concat_cases hother with hold' | ⟨-, rfl⟩
      · exact h.names d d' one other hold hold' hname
      · exact absurd hname (hfresh one (List.mem_of_getElem? hold))
    · rcases getElem?_concat_cases hother with hold' | ⟨hd', -⟩
      · exact absurd hname.symm (hfresh other (List.mem_of_getElem? hold'))
      · exact hd.trans hd'.symm
  inRange := by
    intro q d hq
    exact Nat.lt_of_lt_of_le (h.inRange q d hq) (w.extends_addDriver driver).drivers
  separate := h.separate
  staffs := fun _ _ hstaff => (w.extends_addDriver driver).staffs h hstaff
  single := h.single

theorem Sound.addPool (h : w.Sound owners) : w.addPool.Sound owners where
  drivers := h.drivers
  names := h.names
  inRange := h.inRange
  separate := h.separate
  staffs := by
    intro p staff hstaff
    rcases getElem?_concat_cases hstaff with hold | ⟨-, rfl⟩
    · exact w.extends_addPool.staffs h hold
    · exact Or.inl rfl
  single := by
    intro p p' staff staff' q hstaff hstaff' hsource hsource'
    rcases getElem?_concat_cases hstaff with hold | ⟨-, rfl⟩
    · rcases getElem?_concat_cases hstaff' with hold' | ⟨-, rfl⟩
      · exact h.single p p' staff staff' q hold hold' hsource hsource'
      · cases hsource'
    · cases hsource

theorem Sound.addQueue (h : w.Sound owners) : w.addQueue.Sound owners where
  drivers := h.drivers
  names := h.names
  inRange := by
    intro q d hq
    rw [queueDriver_addQueue] at hq
    exact h.inRange q d hq
  separate := by
    intro q q' d hq hq'
    rw [queueDriver_addQueue] at hq hq'
    exact h.separate q q' d hq hq'
  staffs := fun _ _ hstaff => w.extends_addQueue.staffs h hstaff
  single := h.single

/-!
## Queues that are set up and started
-/

def setDriver (w : Wiring β) (q d : Nat) : Wiring β :=
  { w with queues := w.queues.set q (some d, false) }

def start (w : Wiring β) (q d p size : Nat) : Wiring β :=
  { w with
    queues := w.queues.set q (some d, true)
    pools := w.pools.set p ⟨true, some (.queue q), size⟩ }

theorem extends_setDriver {old : Option Nat} (hqueue : w.queues[q]? = some (old, false)) (d : Nat) :
    w.Extends (w.setDriver q d) := by
  refine ⟨Nat.le_refl _, fun _ _ => rfl, ?_, fun _ _ hp _ => hp⟩
  intro q' d' hq'
  have hne : q ≠ q' := by
    rintro rfl
    rw [hqueue] at hq'
    cases hq'
  exact (List.getElem?_set_ne hne).trans hq'

theorem queueDriver_set {post : Option Nat × Bool} (hqueue : w.queues[q]? = some post)
    (started : Bool) (q' : Nat) :
    ((w.queues.set q (some d, started))[q']?).bind Prod.fst =
      if q' = q then some d else w.queueDriver q' := by
  have hlt := (List.getElem?_eq_some_iff.mp hqueue).1
  by_cases hq : q' = q
  · rw [if_pos hq, hq, List.getElem?_set_self hlt]
    rfl
  · rw [if_neg hq, List.getElem?_set_ne (Ne.symm hq)]
    rfl

theorem queueDriver_setDriver {post : Option Nat × Bool} (hqueue : w.queues[q]? = some post)
    (q' : Nat) :
    (w.setDriver q d).queueDriver q' = if q' = q then some d else w.queueDriver q' :=
  queueDriver_set hqueue false q'

theorem queueDriver_start (hqueue : w.queues[q]? = some (some d, false)) (p size q' : Nat) :
    (w.start q d p size).queueDriver q' = w.queueDriver q' := by
  refine (queueDriver_set hqueue true q').trans ?_
  split
  · rename_i hq
    unfold queueDriver
    rw [hq, hqueue]
    rfl
  · rfl

theorem Sound.setDriver (h : w.Sound owners) {old : Option Nat}
    (hqueue : w.queues[q]? = some (old, false)) (hd : d < w.drivers.length)
    (hfree : ∀ q', q' ≠ q → w.queueDriver q' ≠ some d) : (w.setDriver q d).Sound owners where
  drivers := h.drivers
  names := h.names
  inRange := by
    intro q' d' hq'
    rw [queueDriver_setDriver hqueue] at hq'
    split at hq'
    · cases hq'
      exact hd
    · exact h.inRange q' d' hq'
  separate := by
    intro q₁ q₂ d' h₁ h₂
    rw [queueDriver_setDriver hqueue] at h₁ h₂
    split at h₁
    · rename_i hq₁
      cases h₁
      split at h₂
      · rename_i hq₂
        exact hq₁.trans hq₂.symm
      · rename_i hq₂
        exact absurd h₂ (hfree q₂ hq₂)
    · rename_i hq₁
      split at h₂
      · cases h₂
        exact absurd h₁ (hfree q₁ hq₁)
      · exact h.separate q₁ q₂ d' h₁ h₂
  staffs := fun _ _ hstaff => (extends_setDriver hqueue d).staffs h hstaff
  single := h.single

theorem extends_start (hqueue : w.queues[q]? = some (some d, false))
    (hpool : w.pools[p]? = some ⟨false, none, 0⟩) (size : Nat) :
    w.Extends (w.start q d p size) := by
  refine ⟨Nat.le_refl _, fun _ _ => rfl, ?_, ?_⟩
  · intro q' d' hq'
    have hne : q ≠ q' := by
      rintro rfl
      rw [hqueue] at hq'
      cases hq'
    exact (List.getElem?_set_ne hne).trans hq'
  · intro p' staff hstaff hstarted
    have hne : p ≠ p' := by
      rintro rfl
      rw [hpool] at hstaff
      cases hstaff
      cases hstarted
    exact (List.getElem?_set_ne hne).trans hstaff

theorem pools_start_cases {size p' : Nat} (hpool : w.pools[p]? = some ⟨false, none, 0⟩)
    (hstaff : (w.start q d p size).pools[p']? = some staff) :
    (p' = p ∧ staff = ⟨true, some (.queue q), size⟩) ∨ (p' ≠ p ∧ w.pools[p']? = some staff) := by
  by_cases hp : p' = p
  · refine Or.inl ⟨hp, ?_⟩
    have hnew : (w.start q d p size).pools[p]? = some ⟨true, some (.queue q), size⟩ :=
      List.getElem?_set_self (List.getElem?_eq_some_iff.mp hpool).1
    rw [hp, hnew] at hstaff
    cases hstaff
    rfl
  · refine Or.inr ⟨hp, ?_⟩
    exact (List.getElem?_set_ne (Ne.symm hp)).symm.trans hstaff

/-- A queue starts with a pool of its own, under names that clients do not use. -/
theorem Sound.start (h : w.Sound owners) {size : Nat}
    (hqueue : w.queues[q]? = some (some d, false))
    (hpool : w.pools[p]? = some ⟨false, none, 0⟩)
    (hnames : ∀ i, i < size → owners (ownerName (w.driverName d) i)) :
    (w.start q d p size).Sound owners where
  drivers := h.drivers
  names := h.names
  inRange := by
    intro q' d' hq'
    rw [queueDriver_start hqueue] at hq'
    exact h.inRange q' d' hq'
  separate := by
    intro q₁ q₂ d' h₁ h₂
    rw [queueDriver_start hqueue] at h₁ h₂
    exact h.separate q₁ q₂ d' h₁ h₂
  staffs := by
    intro p' staff hstaff
    rcases pools_start_cases hpool hstaff with ⟨-, rfl⟩ | ⟨-, hold⟩
    · have hstarted : (w.start q d p size).queues[q]? = some (some d, true) :=
        List.getElem?_set_self (List.getElem?_eq_some_iff.mp hqueue).1
      exact Or.inr ⟨q, d, rfl, rfl, hstarted, hnames⟩
    · exact (extends_start hqueue hpool size).staffs h hold
  single := by
    intro p₁ p₂ staff₁ staff₂ q' h₁ h₂ hsource₁ hsource₂
    rcases pools_start_cases hpool h₁ with ⟨hp₁, rfl⟩ | ⟨-, hold₁⟩
    · rcases pools_start_cases hpool h₂ with ⟨hp₂, -⟩ | ⟨-, hold₂⟩
      · exact hp₁.trans hp₂.symm
      · cases hsource₁
        exact absurd hsource₂ (h.source_ne hold₂ hqueue)
    · rcases pools_start_cases hpool h₂ with ⟨-, rfl⟩ | ⟨-, hold₂⟩
      · cases hsource₂
        exact absurd hsource₁ (h.source_ne hold₁ hqueue)
      · exact h.single p₁ p₂ staff₁ staff₂ q' hold₁ hold₂ hsource₁ hsource₂

end Wiring

end LeaseQueue
