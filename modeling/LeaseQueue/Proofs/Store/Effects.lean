import LeaseQueue.Proofs.Job.Lock
import LeaseQueue.Proofs.Store.Index
/-!
# Effects of operations

What an operation leaves of a store in memory, told by its answer. One that fails leaves all of the
store as it was, one that only reads does so too, and one that succeeds changes no more than the job
that it is about, and of that job no more than its own fields.
-/

namespace LeaseQueue

/-!
## The later of two moments
-/

/-- Whether a moment comes before another one; an unset one comes before every other. -/
def comesBefore : Option Timestamp → Option Timestamp → Bool
  | none, b => b.isSome
  | some _, none => false
  | some a, some b => a.before b

structure IsLatest (a b t : Option Timestamp) : Prop where
  one : t = a ∨ t = b
  first : comesBefore t a = false
  second : comesBefore t b = false

theorem Timestamp.not_before_self (t : Timestamp) : t.before t = false := by
  unfold before
  simp

theorem Timestamp.not_before_of_before {t s : Timestamp} (h : t.before s = true) :
    s.before t = false := by
  unfold before at *
  simp only [Bool.or_eq_true, Bool.and_eq_true, decide_eq_true_eq] at h
  simp only [Bool.or_eq_false_iff, Bool.and_eq_false_iff, decide_eq_false_iff_not]
  omega

theorem isLatest_laterOf (a b : Option Timestamp) : IsLatest a b (laterOf a b) := by
  cases a with
  | none =>
      cases b with
      | none => exact ⟨Or.inl rfl, rfl, rfl⟩
      | some b => exact ⟨Or.inr rfl, rfl, b.not_before_self⟩
  | some a =>
      cases b with
      | none => exact ⟨Or.inl rfl, a.not_before_self, rfl⟩
      | some b =>
          have hlater : laterOf (some a) (some b) = some (if a.before b then b else a) := rfl
          rw [hlater]
          cases hbefore : a.before b with
          | true =>
              exact ⟨Or.inr rfl, Timestamp.not_before_of_before hbefore, b.not_before_self⟩
          | false => exact ⟨Or.inl rfl, a.not_before_self, hbefore⟩

namespace Memory

variable {m : Memory} {id : String} {e : Entry} {r : Record} {now : Timestamp} {timeout : Nat}

/-!
## Changes of one job
-/

/-- Two stores that differ at most in what they keep of one job, each job at its place. -/
structure SameBut (id : String) (m m' : Memory) : Prop where
  others : ∀ other, other ≠ id → m'.lookup? other = m.lookup? other
  order : m'.order = m.order
  nextSeq : m'.nextSeq = m.nextSeq

theorem sameBut_replace (m : Memory) (id : String) (e : Entry) :
    SameBut id m (m.replace id e) := by
  refine ⟨?_, rfl, rfl⟩
  intro other hother
  rw [lookup?_replace, if_neg hother.symm]

def HandsOut (m m' : Memory) (ticks : Nat) : Prop :=
  ∃ id e, m.lookup? id = some e ∧ m'.lookup? id = some { e with dispatchedAt := some ticks } ∧
    SameBut id m m'

/-- The lock of a job is taken, renewed or released: of its record no more changes than whether it is
locked, by whom, how often that changed, and when. -/
def Relocks (id : String) (m m' : Memory) : Prop :=
  ∃ e s, m.lookup? id = some e ∧ m'.lookup? id = some { e with record := e.record.withStatus s } ∧
    s.completed = e.record.status.completed ∧ s.failed = e.record.status.failed ∧ SameBut id m m'

/-- A record takes the place of the stored one, with the greater count and the later time of a change
of its lock. Its place in the order and the time of its hand-out stay. -/
def Replaces (r : Record) (m m' : Memory) : Prop :=
  ∃ e count time, m.lookup? r.id = some e ∧
    m'.lookup? r.id = some
      { e with record := r.withStatus { r.status with modCount := count, modTime := time } } ∧
    count = max e.record.status.modCount r.status.modCount ∧
    IsLatest e.record.status.modTime r.status.modTime time ∧ SameBut r.id m m'

/-- A record comes to the end of the order, at a place after all others. -/
structure Appends (r : Record) (m m' : Memory) : Prop where
  isNew : m.lookup? r.id = none
  entry : m'.lookup? r.id = some ⟨m.nextSeq, r, none⟩
  others : ∀ other, other ≠ r.id → m'.lookup? other = m.lookup? other
  order : m'.order = m.order ++ [(m.nextSeq, r.id)]
  last : ∀ p ∈ m.order, p.1 < m.nextSeq
  nextSeq : m'.nextSeq = m.nextSeq + 1

theorem Indexed.seq_lt_nextSeq (h : m.Indexed) : ∀ p ∈ m.order, p.1 < m.nextSeq := by
  intro p hp
  rw [h.order] at hp
  rcases List.mem_map.mp hp with ⟨x, hx, rfl⟩
  have hseq : x.2.seq ∈ m.jobs.entries.map fun p => p.2.seq := List.mem_map.mpr ⟨x, hx, rfl⟩
  rw [h.seqs] at hseq
  rw [h.next]
  exact List.mem_range.mp hseq

theorem appends_append (h : m.Indexed) (hnone : m.lookup? r.id = none) :
    Appends r m (m.append r) := by
  refine ⟨hnone, by rw [lookup?_append, if_pos rfl], ?_, rfl, h.seq_lt_nextSeq, rfl⟩
  intro other hother
  rw [lookup?_append, if_neg hother.symm]

theorem replaces_replace (he : m.lookup? r.id = some e) :
    Replaces r m
      (m.replace r.id { e with record := r.withStatus (e.record.status.merge r.status) }) :=
  ⟨e, _, _, he, by rw [lookup?_replace, if_pos rfl]; rfl, rfl, isLatest_laterOf _ _,
    sameBut_replace m r.id _⟩

theorem relocks_replace {s : Status} (he : m.lookup? id = some e)
    (hcompleted : s.completed = e.record.status.completed)
    (hfailed : s.failed = e.record.status.failed) :
    Relocks id m (m.replace id { e with record := e.record.withStatus s }) :=
  ⟨e, s, he, by rw [lookup?_replace, if_pos rfl], hcompleted, hfailed, sameBut_replace m id _⟩

theorem relocks_of_lock {m' : Memory} {owner : String} (h : m.lock id owner now timeout = .made m') :
    Relocks id m m' := by
  rcases lock_cases h with ⟨e, s, he, hs, rfl⟩
  rcases Status.lock_cases hs with ⟨-, -, -, -, rfl⟩
  exact relocks_replace he rfl rfl

theorem relocks_of_lock_broken {m' : Memory} {owner : String}
    (h : m.lock id owner now timeout = .broken m') : Relocks id m m' := by
  rcases lock_broken_cases h with ⟨e, s, he, hs, rfl⟩
  rcases Status.lock_broken_cases hs with ⟨-, -, -, -, rfl⟩
  exact relocks_replace he rfl rfl

theorem relocks_of_unlock {m' : Memory} {owner : String} (h : m.unlock id owner now = .made m') :
    Relocks id m m' := by
  rcases unlock_cases h with ⟨e, s, he, hs, rfl⟩
  rcases Status.unlock_cases hs with ⟨-, rfl⟩ | ⟨-, -, -, rfl⟩
  · exact relocks_replace he rfl rfl
  · exact relocks_replace he rfl rfl

theorem relocks_of_unlock_broken {m' : Memory} {owner : String}
    (h : m.unlock id owner now = .broken m') : Relocks id m m' := by
  rcases unlock_broken_cases h with ⟨e, s, he, hs, rfl⟩
  rcases Status.unlock_broken_cases hs with ⟨-, -, -, rfl⟩
  exact relocks_replace he rfl rfl

theorem replaces_or_appends_of_save {m' : Memory} (hm : m.Indexed)
    (h : m.save r now timeout = .ok m') : Replaces r m m' ∨ Appends r m m' := by
  rcases save_cases h with ⟨e, he, -, rfl⟩ | ⟨hnone, rfl⟩
  · exact Or.inl (replaces_replace he)
  · exact Or.inr (appends_append hm hnone)

variable {β : Type} [Body β]

/-- What an operation that is answered in some way leaves of a store. -/
def Effect (ticks : Nat) (answer : Answer β) (m m' : Memory) : Operation β → Prop
  | .save j =>
      (∃ err, answer = .done (.error err) ∧ m' = m) ∨
      (answer = .done (.ok ()) ∧ ∃ r, j.toRecord = .ok r ∧ (Replaces r m m' ∨ Appends r m m'))
  | .lock id _ | .unlock id _ =>
      (∃ err, answer = .done (.error err) ∧ m' = m) ∨
      ((answer = .done (.ok ()) ∨ answer = .broken) ∧ Relocks id m m')
  | .next => ∃ j, answer = .job j ∧ (m' = m ∨ (HandsOut m m' ticks))
  | .get _ | .tally | .infos | .pull _ => m' = m

end Memory

namespace Backend

variable {β : Type} [Body β] {m : Memory}

omit [Body β] in
/-- An operation that changes the store unless it fails has the effect that it has when it
succeeds, or fails and has none. -/
theorem settleOn_cases (b : Backend β) (d : Discipline) (m : Memory)
    (r : Except StoreError Memory) :
    (∃ err, b.settleOn d m r = (.done (.error err), b.onMemory d m)) ∨
    ∃ m', r = .ok m' ∧ b.settleOn d m r = (.done (.ok ()), b.onMemory d m') := by
  cases r with
  | error err => exact Or.inl ⟨err, rfl⟩
  | ok m' => exact Or.inr ⟨m', rfl, rfl⟩

theorem effect_of_access (b : Backend β) (d : Discipline) (hm : m.Indexed) (a : Access β) :
    ∃ m', (b.onMemory d m).after a = b.onMemory d m' ∧
      Memory.Effect a.reading.ticks ((b.onMemory d m).access a).1 m m' a.operation := by
  rcases a with ⟨op, cancelled, now⟩
  unfold after
  cases op with
  | save j =>
      cases hj : j.toRecord with
      | error reason =>
          rw [access_save_unwritable b d m cancelled now hj]
          exact ⟨m, rfl, Or.inl ⟨_, rfl, rfl⟩⟩
      | ok r =>
          rw [access_save b d m cancelled now hj]
          rcases settleOn_cases b d m (m.save r now.wall b.lease.lockTimeout) with
            ⟨err, hsettle⟩ | ⟨m', hsave, hsettle⟩
          · rw [hsettle]
            exact ⟨m, rfl, Or.inl ⟨err, rfl, rfl⟩⟩
          · rw [hsettle]
            exact ⟨m', rfl, Or.inr ⟨rfl, r, hj, Memory.replaces_or_appends_of_save hm hsave⟩⟩
  | lock id owner =>
      rw [access_lock]
      cases hlock : m.lock id owner now.wall b.lease.lockTimeout with
      | refused err => exact ⟨m, rfl, Or.inl ⟨err, rfl, rfl⟩⟩
      | made m' => exact ⟨m', rfl, Or.inr ⟨Or.inl rfl, Memory.relocks_of_lock hlock⟩⟩
      | broken m' => exact ⟨m', rfl, Or.inr ⟨Or.inr rfl, Memory.relocks_of_lock_broken hlock⟩⟩
  | unlock id owner =>
      rw [access_unlock]
      cases hunlock : m.unlock id owner now.wall with
      | refused err => exact ⟨m, rfl, Or.inl ⟨err, rfl, rfl⟩⟩
      | made m' => exact ⟨m', rfl, Or.inr ⟨Or.inl rfl, Memory.relocks_of_unlock hunlock⟩⟩
      | broken m' =>
          exact ⟨m', rfl, Or.inr ⟨Or.inr rfl, Memory.relocks_of_unlock_broken hunlock⟩⟩
  | next =>
      cases cancelled with
      | true => exact ⟨m, rfl, none, rfl, Or.inl rfl⟩
      | false =>
          rw [access_next]
          cases hnext : m.next d now b.lease with
          | none => exact ⟨m, rfl, none, rfl, Or.inl rfl⟩
          | some p =>
              rcases p with ⟨r, m'⟩
              rcases Memory.next_cases hnext with ⟨id, e, hcandidate, -, rfl⟩
              have he := hm.lookup?_of_mem (Memory.candidate?_cases hcandidate).1
              refine ⟨_, rfl, b.registry.build? r, rfl, Or.inr ⟨id, e, he, ?_, ?_⟩⟩
              · rw [Memory.lookup?_replace, if_pos rfl]
              · exact Memory.sameBut_replace m id _
  | get id => exact ⟨m, rfl, rfl⟩
  | tally => exact ⟨m, rfl, rfl⟩
  | infos => exact ⟨m, rfl, rfl⟩
  | pull l => exact ⟨m, rfl, rfl⟩

/-- Whatever is asked of a store in memory, by whichever driver, has no more than its own effect. A
save, a lock or a release that fails leaves the whole store as it was. A lock or a release that
succeeds, or breaks off, changes the lock of the one record and nothing else. A save that succeeds puts its record
in the place of the stored one, or at the end of the order if there is none. A hand-out sets the time
of one hand-out, and what only reads changes nothing. Registry and settings stay in any case. -/
theorem operations_keep_to_their_own {registry : Registry β} {d : Discipline}
    {lease : LeaseSettings} {b : Backend β} (hb : Reachable registry d lease b) (a : Access β) :
    ∃ m m', b = (inMemory registry d lease).onMemory d m ∧
      b.after a = (inMemory registry d lease).onMemory d m' ∧
      m.Effect a.reading.ticks (b.access a).1 m' a.operation := by
  rcases hb.exists_memory with ⟨m, rfl, hm⟩
  rcases effect_of_access (inMemory registry d lease) d hm a with ⟨m', hafter, heffect⟩
  exact ⟨m, m', rfl, hafter, heffect⟩

/-- Under the live lease of a job that was handed out, a copy without the lease cannot be saved and
leaves the store as it was, and the holder's renewal changes the lock alone. -/
theorem operations_keep_to_their_own_under_lease :
    let b : Backend Work := (inMemory .empty .byPriority .standard).run
      [⟨.save (sampleJob "job"), false, .ofNanos 0⟩, ⟨.next, false, .ofNanos 0⟩,
        ⟨.lock "job" "holder", false, .ofNanos 1000000000⟩]
    b.after ⟨.save (sampleJob "job"), false, .ofNanos 2000000000⟩ = b ∧
    ∃ m m', b = (inMemory .empty .byPriority .standard).onMemory .byPriority m ∧
      b.after ⟨.lock "job" "holder", false, .ofNanos 2000000000⟩ =
        (inMemory .empty .byPriority .standard).onMemory .byPriority m' ∧
      m.Relocks "job" m' := by
  intro b
  have hb : Reachable .empty .byPriority .standard b := ⟨_, rfl⟩
  constructor
  · rcases operations_keep_to_their_own hb
      ⟨.save (sampleJob "job"), false, .ofNanos 2000000000⟩ with ⟨m, m', hm, hafter, heffect⟩
    rcases heffect with ⟨err, -, rfl⟩ | ⟨hanswer, -⟩
    · exact hafter.trans hm.symm
    · cases hanswer
  · rcases operations_keep_to_their_own hb
      ⟨.lock "job" "holder", false, .ofNanos 2000000000⟩ with ⟨m, m', hm, hafter, heffect⟩
    rcases heffect with ⟨err, hanswer, -⟩ | ⟨-, hrelocks⟩
    · cases hanswer
    · exact ⟨m, m', hm, hafter, hrelocks⟩

end Backend
end LeaseQueue
