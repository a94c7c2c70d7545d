import LeaseQueue.Proofs.Store.Fencing
/-!
# The last count

The count of a job has 64 bits, and jobs may be saved with any count. It never goes
back, and a lock that is taken raises it. A release raises it too, but at the last
count there is: there the release breaks off when the owner is gone already.
-/

namespace LeaseQueue
namespace Backend

variable {β : Type}

def modCount? (b : Backend β) (id : String) : Option UInt64 :=
  (b.record? false id).map fun r => r.status.modCount

def isLocked? (b : Backend β) (id : String) : Option Bool :=
  (b.record? false id).map fun r => r.status.inProgress

theorem modCount?_onMemory (b : Backend β) (d : Discipline) (m : Memory) (id : String) :
    (b.onMemory d m).modCount? id = (m.lookup? id).map fun e => e.record.status.modCount := by
  unfold modCount?
  rw [record?_onMemory, Option.map_map]
  rfl

theorem isLocked?_onMemory (b : Backend β) (d : Discipline) (m : Memory) (id : String) :
    (b.onMemory d m).isLocked? id = (m.lookup? id).map fun e => e.record.status.inProgress := by
  unfold isLocked?
  rw [record?_onMemory, Option.map_map]
  rfl

variable [Body β]

def TakesLock (b : Backend β) (id : String) (a : Access β) : Prop :=
  (∃ owner, a.operation = .lock id owner) ∧ (b.access a).1 = .done (.ok ())

/-- The operation is a release, and the job was locked before and is not afterwards. -/
def FreesLock (b : Backend β) (id : String) (a : Access β) : Prop :=
  (∃ owner, a.operation = .unlock id owner) ∧ b.isLocked? id = some true ∧
    (b.after a).isLocked? id = some false

variable {b : Backend β} {d : Discipline} {m : Memory} {id : String} {a : Access β}

theorem TakesLock.turnsLock (h : b.TakesLock id a) : b.TurnsLock id a := by
  rcases a with ⟨op, cancelled, now⟩
  rcases h with ⟨⟨owner, rfl⟩, hdone⟩
  exact ⟨hdone, rfl⟩

/-- A release that frees a job has raised its count, or has broken off at the last one. -/
theorem FreesLock.cases (h : (b.onMemory d m).FreesLock id a) {e : Entry}
    (he : m.lookup? id = some e) :
    (b.onMemory d m).TurnsLock id a ∨
      (((b.onMemory d m).access a).1 = .broken ∧ e.record.status.modCount.toNat = maxUInt64 ∧
        ((b.onMemory d m).after a).modCount? id = some e.record.status.modCount) := by
  rcases a with ⟨op, cancelled, now⟩
  rcases h with ⟨⟨owner, rfl⟩, hlocked, hfree⟩
  have hbusy : e.record.status.inProgress = true := by
    rw [isLocked?_onMemory, he] at hlocked
    exact Option.some.inj hlocked
  unfold TurnsLock
  unfold after at hfree ⊢
  rw [access_unlock] at hfree ⊢
  cases hunlock : m.unlock id owner now.wall with
  | refused err =>
      rw [hunlock] at hfree
      have hsame : (b.onMemory d m).isLocked? id = some false := hfree
      rw [hlocked] at hsame
      cases hsame
  | made m' => exact Or.inl ⟨rfl, rfl, e.record, by rw [record?_onMemory, he]; rfl, hbusy⟩
  | broken m' =>
      rcases Memory.unlock_broken_cases hunlock with ⟨e₀, s, he₀, hs, rfl⟩
      rw [he] at he₀
      cases he₀
      rcases Status.unlock_broken_cases hs with ⟨-, -, hlast, rfl⟩
      refine Or.inr ⟨rfl, hlast, ?_⟩
      show (b.onMemory d _).modCount? id = _
      rw [modCount?_onMemory, Memory.lookup?_replace, if_pos rfl]
      rfl

theorem TurnsLock.modCount?_lt (hm : m.Indexed) (h : (b.onMemory d m).TurnsLock id a) {n : UInt64}
    (hn : (b.onMemory d m).modCount? id = some n) :
    ∃ n', ((b.onMemory d m).after a).modCount? id = some n' ∧ n < n' := by
  rcases h.modCount_lt hm with ⟨m', e, e', hafter, -, he, he', hlt⟩
  rw [modCount?_onMemory, he] at hn
  cases hn
  exact ⟨_, by rw [hafter, modCount?_onMemory, he']; rfl, hlt⟩

/-- Over any run, the count of a job is never lowered. A lock that is taken raises it. So does a
release that frees the job, unless the count is at its last: there the release breaks off, and the
job is free while its count stays. -/
theorem count_grows_to_last (registry : Registry β) (d : Discipline) (lease : LeaseSettings)
    (past : List (Access β)) (id : String) :
    let b := (inMemory registry d lease).run past
    ∀ n, b.modCount? id = some n →
      (∀ later, ∃ n', (b.run later).modCount? id = some n' ∧ n ≤ n') ∧
      (∀ a, b.TakesLock id a → ∃ n', (b.after a).modCount? id = some n' ∧ n < n') ∧
      ∀ a, b.FreesLock id a →
        (n.toNat < maxUInt64 ∧ (b.access a).1 = .done (.ok ()) ∧
          ∃ n', (b.after a).modCount? id = some n' ∧ n < n') ∨
        (n.toNat = maxUInt64 ∧ (b.access a).1 = .broken ∧ (b.after a).modCount? id = some n) := by
  intro b n hn
  rcases run_onMemory (inMemory registry d lease) d Memory.indexed_empty past with ⟨m, hrun, hm⟩
  have hb : b = (inMemory registry d lease).onMemory d m := hrun
  clear_value b
  subst hb
  have hcount := hn
  rw [modCount?_onMemory] at hcount
  rcases Option.map_eq_some_iff.mp hcount with ⟨e, he, rfl⟩
  refine ⟨?_, fun a htakes => htakes.turnsLock.modCount?_lt hm hn, ?_⟩
  · intro later
    rcases run_modCount_le (inMemory registry d lease) d hm he later with
      ⟨m', e', hrun', -, he', hle⟩
    exact ⟨_, by rw [hrun', modCount?_onMemory, he']; rfl, hle⟩
  · intro a hfrees
    rcases hfrees.cases he with hturn | ⟨hbroken, hlast, hsame⟩
    · rcases hturn.modCount?_lt hm hn with ⟨n', hn', hlt⟩
      have hroom : e.record.status.modCount.toNat < maxUInt64 := by
        have hbound := n'.toNat_lt
        rw [UInt64.lt_iff_toNat_lt] at hlt
        unfold maxUInt64
        omega
      exact Or.inl ⟨hroom, hturn.1, n', hn', hlt⟩
    · exact Or.inr ⟨hlast, hbroken, hsame⟩

/-- A job that was locked up to the last count is freed, and its count stays. -/
theorem job_freed_at_last_count :
    let job : Job Work := (sampleJob "job").withStatus
      { Status.blank with modCount := .ofNat (maxUInt64 - 1) }
    let b := (inMemory Work.registry .oldestFirst .standard).run
      [⟨.save job, false, .ofNanos 0⟩, ⟨.lock "job" "worker", false, .ofNanos 0⟩]
    let release : Access Work := ⟨.unlock "job" "worker", false, .ofNanos 0⟩
    b.modCount? "job" = some (.ofNat maxUInt64) ∧ b.FreesLock "job" release ∧
      (b.after release).modCount? "job" = some (.ofNat maxUInt64) ∧
      ¬ ∀ a n n', b.modCount? "job" = some n → (b.after a).modCount? "job" = some n' →
        b.FreesLock "job" a → n < n' := by
  intro job b release
  have hlast : b.modCount? "job" = some (.ofNat maxUInt64) := by decide +kernel
  have hfrees : b.FreesLock "job" release :=
    ⟨⟨"worker", rfl⟩, by decide +kernel, by decide +kernel⟩
  have hsame : (b.after release).modCount? "job" = some (.ofNat maxUInt64) := by decide +kernel
  refine ⟨hlast, hfrees, hsame, ?_⟩
  intro hgrows
  exact UInt64.lt_irrefl _ (hgrows release _ _ hlast hsame hfrees)

end Backend
end LeaseQueue
