import LeaseQueue.Proofs.Store.Finished
/-!
# Stale copies

The modification count of a stored job never goes back, and every lock and every
release raises it. A copy that was read before the lock last changed hands is
therefore refused, unless the job is held under the very owner that the copy
names.
-/

namespace LeaseQueue

namespace Memory

/-!
## The stored count
-/

variable {m m' : Memory} {id : String} {lease : LeaseSettings} {now : Reading}

variable {β : Type} [Body β] {op : Operation β}

theorem Change.modCount_le (h : Change lease now op m m') (hm : m.Indexed) {e : Entry}
    (he : m.lookup? id = some e) :
    ∃ e', m'.lookup? id = some e' ∧
      e.record.status.modCount ≤ e'.record.status.modCount := by
  -- The entry of the job may only be replaced by one with no smaller count.
  have hreplace : ∀ {id' : String} {e₀ e₁ : Entry}, m.lookup? id' = some e₀ →
      e₀.record.status.modCount ≤ e₁.record.status.modCount →
      ∃ e', (m.replace id' e₁).lookup? id = some e' ∧
        e.record.status.modCount ≤ e'.record.status.modCount := by
    intro id' e₀ e₁ he₀ hle
    by_cases hid : id' = id
    · rw [hid, he] at he₀
      cases he₀
      exact ⟨e₁, by rw [lookup?_replace, if_pos hid], hle⟩
    · exact ⟨e, by rw [lookup?_replace, if_neg hid, he], UInt64.le_refl _⟩
  cases h with
  | none => exact ⟨e, he, UInt64.le_refl _⟩
  | saved hj he₀ hcheck => exact hreplace he₀ (Status.modCount_le_merge _ _)
  | @added j r _ hj hnone =>
      have hid : r.id ≠ id := by
        intro hid
        rw [hid, he] at hnone
        cases hnone
      exact ⟨e, by rw [lookup?_append, if_neg hid, he], UInt64.le_refl _⟩
  | handed hmem heligible => exact hreplace (hm.lookup?_of_mem hmem) (UInt64.le_refl _)
  | locked he₀ hs =>
      rcases Status.lock_cases hs with ⟨-, -, -, hroom, rfl⟩
      exact hreplace he₀ (UInt64.le_of_lt (Status.modCount_lt_succ hroom))
  | lockBroken he₀ hs =>
      rcases Status.lock_broken_cases hs with ⟨-, -, -, -, rfl⟩
      exact hreplace he₀ (UInt64.le_refl _)
  | unlocked he₀ hs =>
      rcases Status.unlock_cases hs with ⟨-, rfl⟩ | ⟨-, -, hroom, rfl⟩
      · exact hreplace he₀ (UInt64.le_refl _)
      · exact hreplace he₀ (UInt64.le_of_lt (Status.modCount_lt_succ hroom))
  | unlockBroken he₀ hs =>
      rcases Status.unlock_broken_cases hs with ⟨-, -, -, rfl⟩
      exact hreplace he₀ (UInt64.le_refl _)

end Memory

/-!
## Finished jobs that an owner does not hold
-/

/-- The status is that of a finished job, and not in progress under the owner. -/
def Status.ClosedTo (owner : String) (s : Status) : Prop :=
  s.isFinished = true ∧ ¬ (s.inProgress = true ∧ s.owner = owner)

theorem Status.lasting_closedTo (owner : String) : Lasting (ClosedTo owner) where
  finished := fun _ hs => hs.1
  merged := fun _ _ hs => hs
  released := fun _ _ _ hs => ⟨hs.1, by simp⟩

/-- The operation does not save the job as one to be worked on again, nor as one in progress under
the owner. -/
def Operation.LeavesClosed {β : Type} (id owner : String) (op : Operation β) : Prop :=
  ∀ j, op = .save j → j.id = id → j.status.ClosedTo owner

namespace Backend

/-!
## Runs after a copy was read
-/

variable {β : Type}

variable [Body β] {id : String}

theorem run_modCount_le (b : Backend β) (d : Discipline) {m : Memory} (hm : m.Indexed)
    {e : Entry} (he : m.lookup? id = some e) (accesses : List (Access β)) :
    ∃ m' e', (b.onMemory d m).run accesses = b.onMemory d m' ∧ m'.Indexed ∧
      m'.lookup? id = some e' ∧
      e.record.status.modCount ≤ e'.record.status.modCount := by
  induction accesses generalizing m e with
  | nil => exact ⟨m, e, rfl, hm, he, UInt64.le_refl _⟩
  | cons a rest ih =>
      rcases exists_change b d m a with ⟨m₁, hafter, hchange⟩
      rcases hchange.modCount_le hm he with ⟨e₁, he₁, hle₁⟩
      rw [run_cons, hafter]
      rcases ih (hm.change hchange) he₁ with ⟨m', e', hrun, hm', he', hle'⟩
      exact ⟨m', e', hrun, hm', he', UInt64.le_trans hle₁ hle'⟩

theorem run_closedTo (b : Backend β) (d : Discipline) {m : Memory} (hm : m.Indexed)
    {owner : String} (hclosed : m.Shows id (Status.ClosedTo owner)) (accesses : List (Access β))
    (hops : ∀ a ∈ accesses, a.operation.LeavesClosed id owner) :
    ∃ m', (b.onMemory d m).run accesses = b.onMemory d m' ∧ m'.Shows id (Status.ClosedTo owner) := by
  induction accesses generalizing m with
  | nil => exact ⟨m, rfl, hclosed⟩
  | cons a rest ih =>
      rcases exists_change b d m a with ⟨m₁, hafter, hchange⟩
      rw [run_cons, hafter]
      exact ih (hm.change hchange)
        (hclosed.change (Status.lasting_closedTo owner) hm (hops a List.mem_cons_self) hchange)
        (fun a' ha' => hops a' (List.mem_cons_of_mem a ha'))

/-!
## Locks that change hands
-/

/-- The operation has taken or renewed the lock of a job, or released it when it was held. -/
def TurnsLock (b : Backend β) (id : String) (a : Access β) : Prop :=
  (b.access a).1 = .done (.ok ()) ∧
    match a.operation with
    | .lock id' _ => id' = id
    | .unlock id' _ => id' = id ∧ ∃ r, b.record? false id = some r ∧ r.status.inProgress = true
    | _ => False

theorem TurnsLock.modCount_lt {b : Backend β} {d : Discipline} {m : Memory} (hm : m.Indexed)
    {a : Access β} (h : (b.onMemory d m).TurnsLock id a) :
    ∃ m' e e', (b.onMemory d m).after a = b.onMemory d m' ∧ m'.Indexed ∧
      m.lookup? id = some e ∧ m'.lookup? id = some e' ∧
      e.record.status.modCount < e'.record.status.modCount := by
  rcases a with ⟨op, cancelled, now⟩
  rcases h with ⟨hdone, hop⟩
  unfold after
  cases op with
  | lock id' owner =>
      cases hop
      rw [access_lock] at hdone ⊢
      cases hlock : m.lock id owner now.wall b.lease.lockTimeout with
      | refused err =>
          rw [hlock] at hdone
          cases hdone
      | broken m' =>
          rw [hlock] at hdone
          cases hdone
      | made m' =>
          rcases Memory.lock_cases hlock with ⟨e, s, he, hs, rfl⟩
          have hid := hm.record_id he
          refine ⟨_, e, _, rfl, hm.replace he rfl hid, he,
            by rw [Memory.lookup?_replace, if_pos rfl], ?_⟩
          rcases Status.lock_cases hs with ⟨-, -, -, hroom, rfl⟩
          exact Status.modCount_lt_succ hroom
  | unlock id' owner =>
      rcases hop with ⟨rfl, r, hr, hbusy⟩
      rw [access_unlock] at hdone ⊢
      cases hunlock : m.unlock id' owner now.wall with
      | refused err =>
          rw [hunlock] at hdone
          cases hdone
      | broken m' =>
          rw [hunlock] at hdone
          cases hdone
      | made m' =>
          rcases Memory.unlock_cases hunlock with ⟨e, s, he, hs, rfl⟩
          have hid := hm.record_id he
          refine ⟨_, e, _, rfl, hm.replace he rfl hid, he,
            by rw [Memory.lookup?_replace, if_pos rfl], ?_⟩
          rw [record?_onMemory, he] at hr
          cases hr
          rcases Status.unlock_cases hs with ⟨hidle, -⟩ | ⟨-, -, hroom, rfl⟩
          · have hbusy' : e.record.status.inProgress = true := hbusy
            rw [hbusy'] at hidle
            cases hidle
          · exact Status.modCount_lt_succ hroom
  | save _ => cases hop
  | get _ => cases hop
  | next => cases hop
  | tally => cases hop
  | infos => cases hop
  | pull _ => cases hop

/-- A copy whose count is behind the stored one is saved for the holder it names, and refused
without a trace otherwise. -/
theorem access_save_behind (b : Backend β) (d : Discipline) {m : Memory} {e : Entry}
    {copy : Job β} {r : Record} (hcopy : copy.toRecord = .ok r) (he : m.lookup? copy.id = some e)
    (hbehind : copy.status.modCount < e.record.status.modCount) (cancelled : Bool)
    (now : Reading) :
    (e.record.status.inProgress = true ∧ copy.status.owner ≠ "" ∧
      e.record.status.owner = copy.status.owner →
      ((b.onMemory d m).access ⟨.save copy, cancelled, now⟩).1 = .done (.ok ())) ∧
    (¬ (e.record.status.inProgress = true ∧ copy.status.owner ≠ "" ∧
      e.record.status.owner = copy.status.owner) →
      ∃ reason, (b.onMemory d m).access ⟨.save copy, cancelled, now⟩ =
        (.done (.error (.conflict copy.id reason)), b.onMemory d m)) := by
  have hid := Job.toRecord_id hcopy
  have hstatus := Job.toRecord_status hcopy
  rw [access_save b d m cancelled now hcopy]
  unfold Memory.save
  rw [hid, hstatus]
  simp only [he]
  unfold Status.checkSave
  constructor
  · intro hheld
    rw [if_pos (Status.isHeldBy_iff.mpr hheld)]
    rfl
  · intro hfree
    refine ⟨.newer e.record.status.modCount copy.status.modCount, ?_⟩
    rw [if_neg (fun hheld => hfree (Status.isHeldBy_iff.mp hheld)), if_pos hbehind]
    rfl

/-- The stored count passes a count read before once the lock changes hands, and does not come
back. -/
theorem run_modCount_lt (b : Backend β) (d : Discipline) {m : Memory} (hm : m.Indexed)
    {e : Entry} (he : m.lookup? id = some e) {first later : List (Access β)} {turn : Access β}
    (hturn : ((b.onMemory d m).run first).TurnsLock id turn) :
    ∃ m' e', (b.onMemory d m).run (first ++ turn :: later) = b.onMemory d m' ∧
      m'.lookup? id = some e' ∧ e.record.status.modCount < e'.record.status.modCount := by
  rcases run_modCount_le b d hm he first with ⟨m₁, e₁, hrun₁, hm₁, he₁, hle₁⟩
  rw [hrun₁] at hturn
  rcases hturn.modCount_lt hm₁ with ⟨m₂, e₁', e₂, hafter, hm₂, he₁', he₂, hlt⟩
  rw [he₁] at he₁'
  cases he₁'
  rcases run_modCount_le b d hm₂ he₂ later with ⟨m₃, e₃, hrun₃, -, he₃, hle₃⟩
  refine ⟨m₃, e₃, ?_, he₃, UInt64.lt_of_le_of_lt hle₁ (UInt64.lt_of_lt_of_le hlt hle₃)⟩
  rw [run_append, hrun₁, run_cons, hafter, hrun₃]

theorem run_closedTo_of_release (b : Backend β) (d : Discipline) {m : Memory} (hm : m.Indexed)
    {owner other : String} {first later : List (Access β)} {turn : Access β}
    (hturn : ((b.onMemory d m).run first).TurnsLock id turn)
    (hrelease : turn.operation = .unlock id other) {r : Record}
    (hr : ((b.onMemory d m).run first).record? false id = some r)
    (hfinished : r.status.isFinished = true)
    (hops : ∀ a ∈ later, a.operation.LeavesClosed id owner) :
    ∃ m', (b.onMemory d m).run (first ++ turn :: later) = b.onMemory d m' ∧
      m'.Shows id (Status.ClosedTo owner) := by
  rcases run_onMemory b d hm first with ⟨m₁, hrun₁, hm₁⟩
  rcases turn with ⟨op, cancelled, now⟩
  cases hrelease
  have hdone := hturn.1
  have hbusy := hturn.2.2
  rw [hrun₁, access_unlock] at hdone
  rw [hrun₁, record?_onMemory] at hr hbusy
  cases hunlock : m₁.unlock id other now.wall with
  | refused err =>
      rw [hunlock] at hdone
      cases hdone
  | broken m₂ =>
      rw [hunlock] at hdone
      cases hdone
  | made m₂ =>
      rcases Memory.unlock_cases hunlock with ⟨e, s, he, hs, hm₂⟩
      rw [he] at hr hbusy
      cases hr
      rcases hbusy with ⟨r', hr', hinProgress⟩
      cases hr'
      have hid := hm₁.record_id he
      have hclosed : m₂.Shows id (Status.ClosedTo owner) := by
        rcases Status.unlock_cases hs with ⟨hidle, -⟩ | ⟨-, -, -, rfl⟩
        · have hidle' : e.record.status.inProgress = false := hidle
          rw [hidle'] at hinProgress
          cases hinProgress
        · rw [hm₂]
          refine ⟨_, by rw [Memory.lookup?_replace, if_pos rfl], ?_, ?_⟩
          · exact hfinished
          · simp [Record.withStatus, Record.status]
      have hm₂' : m₂.Indexed := hm₂ ▸ hm₁.replace he rfl hid
      rcases run_closedTo b d hm₂' hclosed later hops with ⟨m₃, hrun₃, hclosed₃⟩
      refine ⟨m₃, ?_, hclosed₃⟩
      rw [run_append, hrun₁, run_cons, after, access_unlock, hunlock]
      exact hrun₃

theorem exists_entry_of_access_get {b : Backend β} {d : Discipline} {m : Memory}
    {cancelled : Bool} {now : Reading} {j : Job β}
    (h : ((b.onMemory d m).access ⟨.get id, cancelled, now⟩).1 = .job (some j)) :
    ∃ e, m.lookup? id = some e ∧ j.base = e.record.base := by
  injection h with hbuild
  rw [get_onMemory] at hbuild
  cases he : m.lookup? id with
  | none =>
      rw [he] at hbuild
      cases hbuild
  | some e =>
      rw [he] at hbuild
      exact ⟨e, rfl, Registry.build?_base hbuild⟩

/-- After the lock of a job has changed hands, a copy read before is saved if the job is held at that
moment under the owner the copy names, and refused as a conflict without a trace in every other
case. So it never undoes a job that was finished and released since, unless somebody puts the job
back by a save. -/
theorem stale_copy_refused {registry : Registry β} {d : Discipline} {lease : LeaseSettings}
    {b : Backend β} (hb : Reachable registry d lease b) {cancelled : Bool} {read : Reading}
    {j : Job β} (hget : (b.access ⟨.get id, cancelled, read⟩).1 = .job (some j))
    (first later : List (Access β)) (turn : Access β)
    (hturn : (b.run first).TurnsLock id turn)
    {copy : Job β} (hid : copy.id = j.id)
    (hcount : copy.status.modCount = j.status.modCount)
    {v : Json} (hpayload : Body.payload copy.body = .ok v) (c : Bool) (now : Reading) :
    let b' := b.run (first ++ turn :: later)
    let answer := b'.access ⟨.save copy, c, now⟩
    let refused := ∃ reason, answer = (.done (.error (.conflict id reason)), b')
    (∃ r, b'.record? false id = some r ∧
      (r.status.inProgress = true ∧ copy.status.owner ≠ "" ∧
        r.status.owner = copy.status.owner → answer.1 = .done (.ok ())) ∧
      (¬ (r.status.inProgress = true ∧ copy.status.owner ≠ "" ∧
        r.status.owner = copy.status.owner) → refused)) ∧
    ((∃ owner r, turn.operation = .unlock id owner ∧
      (b.run first).record? false id = some r ∧ r.status.isFinished = true) →
      (∀ a ∈ later, a.operation.LeavesClosed id copy.status.owner) → refused) := by
  intro b' answer refused
  rcases hb.exists_memory with ⟨m, rfl, hm⟩
  rcases exists_entry_of_access_get hget with ⟨e, he, hbase⟩
  have hcopy : copy.toRecord = .ok ⟨copy.base, v⟩ := by
    unfold Job.toRecord
    rw [hpayload]
    rfl
  have hcopyId : copy.id = id :=
    hid.trans ((congrArg Base.id hbase).trans (hm.record_id he))
  have hcopyCount : copy.status.modCount = e.record.status.modCount :=
    hcount.trans (congrArg (fun base => base.status.modCount) hbase)
  rcases run_modCount_lt (inMemory registry d lease) d hm he hturn with
    ⟨m', e', hrun, he', hlt⟩
  have hb' : b' = (inMemory registry d lease).onMemory d m' := hrun
  have hbehind : copy.status.modCount < e'.record.status.modCount := hcopyCount ▸ hlt
  have hsave := access_save_behind (inMemory registry d lease) d hcopy
    (hcopyId.symm ▸ he') hbehind c now
  rw [← hb', hcopyId] at hsave
  refine ⟨⟨e'.record, by rw [hb', record?_onMemory, he']; rfl, hsave⟩, ?_⟩
  rintro ⟨owner, r, hrelease, hr, hfinished⟩ hops
  rcases run_closedTo_of_release (inMemory registry d lease) d hm hturn hrelease hr hfinished
    hops with ⟨m'', hrun', e'', he'', -, hfree⟩
  have hsame : m'' = m' := by
    injection hrun'.symm.trans hrun with _ _ hstorage
    injection hstorage
  rw [hsame, he'] at he''
  cases he''
  refine hsave.2 ?_
  rintro ⟨hbusy, -, howner⟩
  exact hfree ⟨hbusy, howner⟩

/-- A copy that was read before the job was locked, finished and released is refused. -/
theorem stale_copy_refused_after_release :
    let kept : Registry Work := Registry.empty.register "sample" 0 fun v => some (.kept v)
    let finished : Job Work := (sampleJob "job").withStatus ⟨true, false, true, "worker", 1, none⟩
    let b := (inMemory kept .byPriority .standard).run
      [⟨.save (sampleJob "job"), false, .ofNanos 0⟩]
    let b' := b.run [⟨.lock "job" "worker", false, .ofNanos 0⟩, ⟨.save finished, false, .ofNanos 1⟩,
      ⟨.unlock "job" "worker", false, .ofNanos 2⟩]
    ∃ reason, b'.access ⟨.save (sampleJob "job"), false, .ofNanos 3⟩ =
      (.done (.error (.conflict "job" reason)), b') := by
  intro kept finished b b'
  have hb : Reachable kept .byPriority .standard b := ⟨_, rfl⟩
  have hget : (b.access ⟨.get "job", false, .ofNanos 0⟩).1 = .job (some (sampleJob "job")) := rfl
  have hpayload : Body.payload (sampleJob "job").body = .ok .null := rfl
  have hturn : TurnsLock (b.run [⟨.lock "job" "worker", false, .ofNanos 0⟩,
      ⟨.save finished, false, .ofNanos 1⟩]) "job" ⟨.unlock "job" "worker", false, .ofNanos 2⟩ :=
    ⟨rfl, rfl, _, rfl, rfl⟩
  exact (stale_copy_refused hb hget _ [] _ hturn rfl rfl hpayload false (.ofNanos 3)).2
    ⟨"worker", _, rfl, rfl, rfl⟩ (by simp)

end Backend
end LeaseQueue
