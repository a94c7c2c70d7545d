import LeaseQueue.Proofs.Store.Rows
/-!
# Locks without a time

A lock that nobody knows the time of is no lease: anyone may take it over, and it
keeps nobody from being handed the job. Stores in memory have it so at every
reading. A table notes the epoch in place of the missing time, so there such a
lock has run out only when a lease has passed since the epoch.
-/

namespace LeaseQueue

namespace Status

/-- Somebody holds a job that is not finished, and since when is not known. -/
structure Undated (s : Status) : Prop where
  unfinished : s.isFinished = false
  inProgress : s.inProgress = true
  modTime : s.modTime = none

def free (s : Status) : Status := { s with inProgress := false, owner := "" }

section

variable {s : Status} {now : Timestamp} {timeout : Nat}

theorem Undated.not_isLive (h : s.Undated) : s.isLive now timeout = false := by
  unfold isLive
  rw [h.modTime]
  simp

theorem Undated.canLock (h : s.Undated) (owner : String) (now : Timestamp) (timeout : Nat) :
    s.canLock owner now timeout = true := by
  unfold Status.canLock
  rw [h.unfinished, h.not_isLive]
  simp

theorem Undated.not_completed (h : s.Undated) : s.completed = false :=
  (Bool.or_eq_false_iff.mp h.unfinished).1

theorem Undated.not_failed (h : s.Undated) : s.failed = false :=
  (Bool.or_eq_false_iff.mp h.unfinished).2

end

end Status

def Record.free (r : Record) : Record := r.withStatus r.status.free

/-!
## Stores in memory
-/

namespace Memory

def freeEntry (e : Entry) : Entry := { e with record := e.record.free }

def freeAt (id : String) (p : String × Entry) : String × Entry :=
  if p.1 = id then (p.1, freeEntry p.2) else p

def free (m : Memory) (id : String) : Memory :=
  { m with jobs := ⟨m.jobs.entries.map (freeAt id)⟩ }

section

variable {m : Memory} {d : Discipline} {id : String} {now : Reading} {lease : LeaseSettings}

theorem exists_lock {e : Entry} (he : m.lookup? id = some e) (h : e.record.status.Undated)
    (hroom : e.record.status.modCount.toNat < maxUInt64) (owner : String) (now : Timestamp)
    (timeout : Nat) : ∃ m', m.lock id owner now timeout = .made m' := by
  unfold lock
  simp only [he, Status.lock_of_room (h.canLock owner now timeout) hroom]
  exact ⟨_, rfl⟩

theorem least_map {f : String × Entry → String × Entry}
    (hf : ∀ p, keyOf d (f p).2 = keyOf d p.2) (l : List (String × Entry)) :
    least d (l.map f) = (least d l).map f := by
  induction l with
  | nil => rfl
  | cons p rest ih =>
      rw [List.map_cons]
      unfold least
      rw [ih]
      cases least d rest with
      | none => rfl
      | some q =>
          simp only [Option.map_some, hf]
          split <;> rfl

theorem isEligible_freeEntry {e : Entry} (h : e.record.status.Undated) :
    isEligible (freeEntry e) now lease = isEligible e now lease := by
  unfold isEligible
  rw [h.not_isLive]
  rfl

theorem candidate?_free (h : ∀ e, (id, e) ∈ m.jobs.entries → e.record.status.Undated) :
    (m.free id).candidate? d now lease = (m.candidate? d now lease).map (freeAt id) := by
  have hkey : ∀ p, keyOf d (freeAt id p).2 = keyOf d p.2 := by
    intro p
    unfold freeAt
    split <;> rfl
  have heligible : ∀ p ∈ m.jobs.entries,
      isEligible (freeAt id p).2 now lease = isEligible p.2 now lease := by
    intro p hp
    unfold freeAt
    split
    · rename_i hid
      apply isEligible_freeEntry
      apply h
      rw [← hid]
      exact hp
    · rfl
  unfold candidate?
  rw [← least_map hkey]
  congr 1
  show (m.jobs.entries.map (freeAt id)).filter _ = _
  rw [List.filter_map]
  exact congrArg _ (List.filter_congr heligible)

end
end Memory

/-!
## Tables
-/

theorem columnSub_nonneg_iff (a b : Int) : 0 ≤ columnSub a b ↔ b ≤ a := by
  -- Both ends of a column are on either side of zero, so a cut difference keeps its sign.
  unfold columnSub minColumn maxColumn
  omega

def Row.free (r : Row) : Row := { r with record := r.record.free }

namespace Table

section

variable {t : Table} {r : Row} {id owner : String} {lease : LeaseSettings} {now : Timestamp}
variable {liveAfter dispatchAfter : Int}

/-- The column of a lock without a time is the epoch, which has to be a lease ago. -/
theorem leaseMillis_le_iff (hlease : r.leaseMillis = Row.leaseOf r.status)
    (h : r.status.Undated) :
    r.leaseMillis ≤ Table.liveAfter lease now ↔ lockMillis lease ≤ now.millis := by
  rw [hlease, Row.leaseOf, h.modTime]
  exact columnSub_nonneg_iff now.millis (lockMillis lease)

theorem lock_isOk_iff (hr : t.select id = some r) (h : r.status.Undated)
    (hroom : (r.status.modCount.toNat : Int) < maxColumn) (last : Int) :
    (∃ x, t.lock last lease id owner now = .ok x) ↔
      r.status.owner = owner ∨ r.leaseMillis ≤ Table.liveAfter lease now := by
  have hwhere : t.lockWhere id owner now (Table.liveAfter lease now) =
      if r.status.owner = owner ∨ r.leaseMillis ≤ Table.liveAfter lease now
      then .ok (some (t.change id (lockRow true owner now))) else .ok none := by
    unfold lockWhere
    rw [turnWhere_eq hr, if_neg (Int.not_le.mpr hroom)]
    simp [h.not_completed, h.not_failed, h.inProgress]
  rw [lock_eq, hwhere]
  by_cases hfree : r.status.owner = owner ∨ r.leaseMillis ≤ Table.liveAfter lease now
  · simp [hfree, answered]
  · rcases mem_of_select hr with ⟨-, rfl⟩
    rcases explain_of_busy hr h.inProgress false with ⟨err, herr⟩
    simp [hfree, answered, herr, Except.map]

theorem Indexed.free {lastSeq : Int} (ht : t.Indexed lastSeq) (id : String) :
    (t.change id Row.free).Indexed lastSeq := by
  refine ht.of_kept (ht.toKept.change ?_ ?_ ?_) fun _ => rfl
  · exact fun _ => rfl
  · exact fun r hr _ => ht.ids r hr
  · exact fun r hr _ => ht.leases r hr

theorem claim_eq (hr : t.select id = some r) (millis : Int) :
    t.claim id r.dispatchedMillis millis = some (t.change id (Row.handedAt millis)) := by
  -- The row still has the time of hand-out that it was found with.
  unfold claim
  rw [updateWhere_eq hr]
  simp
  rfl

theorem candidate_change {f : Row → Row}
    (hmay : ∀ r ∈ t.rows, r.id = id →
      mayHandOut liveAfter dispatchAfter (f r) = mayHandOut liveAfter dispatchAfter r)
    (hpriority : ∀ r, (f r).record.base.priority = r.record.base.priority)
    (hseq : ∀ r, (f r).seq = r.seq) :
    (t.change id f).candidate liveAfter dispatchAfter =
      (t.candidate liveAfter dispatchAfter).map fun r => if r.id = id then f r else r := by
  have hsame : ∀ r ∈ t.rows, mayHandOut liveAfter dispatchAfter (if r.id = id then f r else r) =
      mayHandOut liveAfter dispatchAfter r := by
    intro r hr
    split
    · rename_i hid
      exact hmay r hr hid
    · rfl
  have hplace : ∀ r : Row,
      (if r.id = id then f r else r).record.base.priority = r.record.base.priority ∧
        (if r.id = id then f r else r).seq = r.seq := by
    intro r
    split
    · exact ⟨hpriority r, hseq r⟩
    · exact ⟨rfl, rfl⟩
  unfold candidate
  rw [← List.head?_map, List.map_mergeSort (s := Row.handedBefore)]
  · congr 2
    show (t.rows.map _).filter _ = _
    rw [List.filter_map]
    exact congrArg _ (List.filter_congr hsame)
  · intro r _ s _
    unfold Row.handedBefore
    rw [(hplace r).1, (hplace r).2, (hplace s).1, (hplace s).2]

theorem mayHandOut_free (hlease : r.leaseMillis = Row.leaseOf r.status) (h : r.status.Undated)
    (hlapsed : lockMillis lease ≤ now.millis) :
    mayHandOut (Table.liveAfter lease now) dispatchAfter r.free =
      mayHandOut (Table.liveAfter lease now) dispatchAfter r := by
  have hlate := (leaseMillis_le_iff hlease h).mpr hlapsed
  have hfree : r.free.status.inProgress = false := rfl
  unfold mayHandOut
  rw [hfree, h.inProgress, decide_eq_true hlate]
  rfl

theorem not_mayHandOut_of_undated (hlease : r.leaseMillis = Row.leaseOf r.status)
    (h : r.status.Undated) (hlives : now.millis < lockMillis lease) :
    mayHandOut (Table.liveAfter lease now) dispatchAfter r = false := by
  have hlate : ¬ r.leaseMillis ≤ Table.liveAfter lease now := by
    rw [leaseMillis_le_iff hlease h]
    exact Int.not_le.mpr hlives
  unfold mayHandOut
  simp [h.inProgress, hlate]

end
end Table

namespace Backend

variable {β : Type}

def free (b : Backend β) (id : String) : Backend β :=
  match b.storage with
  | .memory d m => b.onMemory d (m.free id)
  | .table settings (some t) lastSeq => b.onTable settings (t.change id Row.free) lastSeq
  | .table _ none _ => b

variable [Body β]

section

variable {b : Backend β} {d : Discipline} {m : Memory} {settings : TableSettings} {t : Table}
variable {last : Int} {id : String} {now : Reading}

theorem handsOut_onMemory_iff :
    (b.onMemory d m).HandsOut id ⟨.next, false, now⟩ ↔
      ∃ p, m.candidate? d now b.lease = some p ∧ p.2.record.id = id ∧
        (b.registry.build? p.2.record).isSome := by
  unfold HandsOut
  rw [access_next]
  unfold Memory.next
  cases m.candidate? d now b.lease with
  | none => simp
  | some p =>
      cases hbuilt : b.registry.build? p.2.record with
      | none => simp [hbuilt]
      | some j =>
          have hid : j.id = p.2.record.id := congrArg Base.id (Registry.build?_base hbuilt)
          simp [hbuilt, hid]

theorem handsOut_onTable_iff (ht : t.Indexed last) :
    (b.onTable settings t last).HandsOut id ⟨.next, false, now⟩ ↔
      ∃ r, t.candidate (Table.liveAfter b.lease now.wall) (Table.dispatchAfter b.lease now.wall) =
        some r ∧ r.record.id = id ∧ (b.registry.build? r.record).isSome := by
  unfold HandsOut
  rw [access_next_onTable, Table.next_eq]
  cases hr : t.candidate (Table.liveAfter b.lease now.wall)
      (Table.dispatchAfter b.lease now.wall) with
  | none => simp
  | some r =>
      have hrow := Table.select_of_mem ht.nodup (Table.candidate_cases hr).1
      have hclaim := Table.claim_eq hrow now.wall.millis
      rcases Table.claim_cases hclaim with ⟨r', hr', -, -, hselect⟩
      cases hr'.symm.trans hrow
      have hrecord : (Row.handedAt now.wall.millis r).record = r.record := rfl
      cases hbuilt : b.registry.build? r.record with
      | none => simp [hclaim, hselect, hrecord, hbuilt]
      | some j =>
          have hid : j.id = r.record.id := congrArg Base.id (Registry.build?_base hbuilt)
          simp [hclaim, hselect, hrecord, hbuilt, hid]

omit [Body β] in
theorem isSome_build?_free (registry : Registry β) (r : Record) :
    (registry.build? r.free).isSome = (registry.build? r).isSome := by
  unfold Record.free
  rw [Registry.build?_withStatus, Option.isSome_map]

theorem handsOut_free_onMemory (hm : m.Indexed) {e : Entry} (he : m.lookup? id = some e)
    (h : e.record.status.Undated) :
    ((b.onMemory d m).free id).HandsOut id ⟨.next, false, now⟩ ↔
      (b.onMemory d m).HandsOut id ⟨.next, false, now⟩ := by
  have hundated : ∀ e', (id, e') ∈ m.jobs.entries → e'.record.status.Undated := by
    -- No id has two entries, so this is the one that is looked up.
    intro e' hmem
    cases he.symm.trans (hm.lookup?_of_mem hmem)
    exact h
  have hrecord : ∀ p : String × Entry, (Memory.freeAt id p).2.record.id = p.2.record.id ∧
      (b.registry.build? (Memory.freeAt id p).2.record).isSome =
        (b.registry.build? p.2.record).isSome := by
    intro p
    unfold Memory.freeAt
    split
    · exact ⟨rfl, isSome_build?_free _ _⟩
    · exact ⟨rfl, rfl⟩
  show (b.onMemory d (m.free id)).HandsOut id _ ↔ _
  rw [handsOut_onMemory_iff, handsOut_onMemory_iff, Memory.candidate?_free hundated]
  cases m.candidate? d now b.lease with
  | none => simp
  | some p => simp [hrecord p]

theorem handsOut_free_onTable (ht : t.Indexed last) {r : Row} (hr : t.select id = some r)
    (h : r.status.Undated) (hlapsed : Table.lockMillis b.lease ≤ now.wall.millis) :
    ((b.onTable settings t last).free id).HandsOut id ⟨.next, false, now⟩ ↔
      (b.onTable settings t last).HandsOut id ⟨.next, false, now⟩ := by
  have hmay : ∀ s ∈ t.rows, s.id = id →
      Table.mayHandOut (Table.liveAfter b.lease now.wall) (Table.dispatchAfter b.lease now.wall)
          s.free =
        Table.mayHandOut (Table.liveAfter b.lease now.wall)
          (Table.dispatchAfter b.lease now.wall) s := by
    intro s hs hid
    have hselect := Table.select_of_mem ht.nodup hs
    rw [hid, hr] at hselect
    cases hselect
    exact Table.mayHandOut_free (ht.leases r hs) h hlapsed
  have hrecord : ∀ s : Row, (if s.id = id then s.free else s).record.id = s.record.id ∧
      (b.registry.build? (if s.id = id then s.free else s).record).isSome =
        (b.registry.build? s.record).isSome := by
    intro s
    split
    · exact ⟨rfl, isSome_build?_free _ _⟩
    · exact ⟨rfl, rfl⟩
  show (b.onTable settings (t.change id Row.free) last).HandsOut id _ ↔ _
  rw [handsOut_onTable_iff (ht.free id), handsOut_onTable_iff ht,
    Table.candidate_change hmay (fun _ => rfl) (fun _ => rfl)]
  cases t.candidate (Table.liveAfter b.lease now.wall) (Table.dispatchAfter b.lease now.wall) with
  | none => simp
  | some s => simp [hrecord s]

theorem access_lock_onTable_isOk_iff (owner : String) :
    ((b.onTable settings t last).access ⟨.lock id owner, false, now⟩).1 = .done (.ok ()) ↔
      ∃ x, t.lock last b.lease id owner now.wall = .ok x := by
  rw [access_lock_onTable]
  cases t.lock last b.lease id owner now.wall with
  | error err => simp [settleOnTable]
  | ok x => simp [settleOnTable]

end

/-- After every run on one store, by however many drivers, anyone may take over a lock without a
time from a store in memory, and the lock makes no difference to whether the job is handed out. In a
table, which notes the epoch in place of the missing time, that holds of all but the owner exactly
when a lease has passed since the epoch; until then nobody is handed the job. The count of changes
has to have room for the change. -/
theorem undated_lock_counts_from_epoch (b : Backend β) (past : List (Access β)) (id owner : String)
    (r : Record) (hundated : r.status.Undated) (now : Reading) :
    (∀ d, let b' := (b.onMemory d .empty).run past
      b'.record? false id = some r →
      (r.status.modCount.toNat < maxUInt64 →
        ∀ cancelled, (b'.access ⟨.lock id owner, cancelled, now⟩).1 = .done (.ok ())) ∧
      (b'.HandsOut id ⟨.next, false, now⟩ ↔ (b'.free id).HandsOut id ⟨.next, false, now⟩)) ∧
    (∀ settings lastSeq, let b' := (b.onTable settings .empty lastSeq).run past
      b'.record? false id = some r →
      ((r.status.modCount.toNat : Int) < maxColumn →
        ((b'.access ⟨.lock id owner, false, now⟩).1 = .done (.ok ()) ↔
          r.status.owner = owner ∨ Table.lockMillis b.lease ≤ now.wall.millis)) ∧
      (Table.lockMillis b.lease ≤ now.wall.millis →
        (b'.HandsOut id ⟨.next, false, now⟩ ↔ (b'.free id).HandsOut id ⟨.next, false, now⟩)) ∧
      (now.wall.millis < Table.lockMillis b.lease → ¬ b'.HandsOut id ⟨.next, false, now⟩)) := by
  constructor
  · intro d b' hr
    rcases run_onMemory b d Memory.indexed_empty past with ⟨m, hrun, hm⟩
    have hb' : b' = b.onMemory d m := hrun
    rw [hb', record?_onMemory] at hr
    rcases Option.map_eq_some_iff.mp hr with ⟨e, he, rfl⟩
    rw [hb']
    refine ⟨?_, (handsOut_free_onMemory hm he hundated).symm⟩
    intro hroom cancelled
    rcases Memory.exists_lock he hundated hroom owner now.wall b.lease.lockTimeout with ⟨m', hm'⟩
    rw [access_lock, hm']
    rfl
  · intro settings lastSeq b' hr
    rcases run_onTable b settings (Table.indexed_empty lastSeq) past with ⟨t, last, hrun, ht⟩
    have hb' : b' = b.onTable settings t last := hrun
    rw [hb'] at hr ⊢
    rcases Option.map_eq_some_iff.mp (show (t.select id).map Row.record = some r from hr) with
      ⟨row, hrow, rfl⟩
    rcases Table.mem_of_select hrow with ⟨hmem, hid⟩
    have hlease := ht.leases row hmem
    refine ⟨?_, fun hlapsed => (handsOut_free_onTable ht hrow hundated hlapsed).symm, ?_⟩
    · intro hroom
      rw [access_lock_onTable_isOk_iff, Table.lock_isOk_iff hrow hundated hroom,
        Table.leaseMillis_le_iff hlease hundated]
      rfl
    · intro hlives hhands
      rcases hhands.onTable ht.toKept with ⟨row', hrow', hmay, -⟩
      cases hrow.symm.trans hrow'
      rw [Table.not_mayHandOut_of_undated hlease hundated hlives] at hmay
      cases hmay

def undatedJob : Job Work :=
  (sampleJob "job").withStatus ⟨false, false, true, "gone", 0, none⟩

/-- Five minutes after the epoch, a lease of five minutes keeps no rival from a lock without a
time. -/
theorem undated_lock_counts_from_epoch_of_rival :
    let b : Backend Work := inMemory .empty .byPriority .standard
    let b' := (b.onTable .inMemory .empty 0).run [⟨.save undatedJob, false, .ofNanos 0⟩]
    (b'.access ⟨.lock "job" "rival", false, .ofNanos 300000000000⟩).1 = .done (.ok ()) := by
  intro b b'
  have h := (undated_lock_counts_from_epoch b [⟨.save undatedJob, false, .ofNanos 0⟩] "job" "rival"
    ⟨undatedJob.base, .null⟩ ⟨rfl, rfl, rfl⟩ (.ofNanos 300000000000)).2 .inMemory 0 rfl
  exact (h.1 (by decide)).mpr (Or.inr (by decide))

/-- In 2030 a lease of ten thousand million seconds keeps a rival from a lock without a time in a
table, though not in memory. -/
theorem long_lease_keeps_undated_lock :
    let b : Backend Work := inMemory .empty .byPriority ⟨10000000000, 1000⟩
    let now := Reading.ofNanos 1893456000000000000
    let past : List (Access Work) := [⟨.save undatedJob, false, now⟩]
    let rivals : Access Work := ⟨.lock "job" "rival", false, now⟩
    (((b.onTable .inMemory .empty 0).run past).access rivals).1 =
        .done (.error (.lock (.held "job" "gone"))) ∧
      (((b.onMemory .byPriority .empty).run past).access rivals).1 = .done (.ok ()) :=
  ⟨rfl, rfl⟩

end Backend
end LeaseQueue
