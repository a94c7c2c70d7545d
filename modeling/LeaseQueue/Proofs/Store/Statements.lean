import LeaseQueue.Proofs.Store.Arrivals
import LeaseQueue.Proofs.Store.Columns
import LeaseQueue.Proofs.Store.Listing
/-!
# Statements on a table

An operation on an open table changes the one row of its job, or makes a row. The
rows keep the ids and places that they were made with, and their columns agree
with their records after every run.
-/

namespace LeaseQueue

def Row.withRecord (record : Record) (r : Row) : Row :=
  { r with record := record, leaseMillis := Row.leaseOf record.status }

def Row.handedAt (millis : Int) (r : Row) : Row := { r with dispatchedMillis := millis }

namespace Table

def change (t : Table) (id : String) (change : Row → Row) : Table :=
  ⟨t.rows.map fun r => if r.id = id then change r else r⟩

section

variable {t : Table} {r : Row} {id : String}

theorem updateWhere_eq (hr : t.select id = some r)
    (condition : Row → Bool) (change : Row → Row) :
    t.updateWhere id condition change =
      if condition r then some (t.change id change) else none := by
  unfold updateWhere
  rw [hr]
  rfl

theorem replace_eq (hr : t.select id = some r) (record : Record) :
    t.replace id record r.status = some (t.change id (Row.withRecord record.stored)) := by
  unfold replace
  rw [updateWhere_eq hr]
  simp
  rfl

theorem mem_of_select (hr : t.select id = some r) : r ∈ t.rows ∧ r.id = id := by
  refine ⟨List.mem_of_find?_eq_some hr, ?_⟩
  simpa using List.find?_some hr

theorem select_of_mem (hids : (t.rows.map Row.id).Nodup) (hr : r ∈ t.rows) :
    t.select r.id = some r := by
  rcases t with ⟨rows⟩
  unfold select
  induction rows with
  | nil => cases hr
  | cons s rest ih =>
      rw [List.map_cons, List.nodup_cons] at hids
      rcases List.mem_cons.mp hr with rfl | hrest
      · simp
      · have hne : s.id ≠ r.id := by
          intro hid
          rw [hid] at hids
          exact hids.1 (List.mem_map_of_mem hrest)
        rw [List.find?_cons_of_neg (by simpa using hne)]
        exact ih hids.2 hrest

theorem select_change {change : Row → Row} (hid : ∀ r, (change r).id = r.id) (other : String) :
    (t.change id change).select other =
      if id = other then (t.select other).map change else t.select other := by
  have hsame : ∀ r : Row, (if r.id = id then change r else r).id = r.id := by
    intro r
    split
    · exact hid r
    · rfl
  have hmap : (t.change id change).select other =
      (t.select other).map fun r => if r.id = id then change r else r := by
    unfold Table.change select
    rw [List.find?_map]
    simp only [Function.comp_def, hsame]
  rw [hmap]
  cases hr : t.select other with
  | none => split <;> rfl
  | some r =>
      rw [Option.map_some, (mem_of_select hr).2]
      by_cases hother : id = other
      · rw [if_pos hother, if_pos hother.symm, Option.map_some]
      · rw [if_neg hother, if_neg (Ne.symm hother)]

def append (t : Table) (new : Row) : Table := ⟨t.rows ++ [new]⟩

theorem create_eq {new : Row} (hnone : t.select new.id = none) :
    t.create new = some (t.append new) := by
  unfold create
  rw [hnone]
  rfl

theorem create_cases {t' : Table} {new : Row} (h : t.create new = some t') :
    t.select new.id = none ∧ t' = t.append new := by
  cases hr : t.select new.id with
  | none => exact ⟨rfl, Option.some.inj (h.symm.trans (create_eq hr))⟩
  | some r =>
      unfold create at h
      rw [hr] at h
      cases h

theorem select_append (new : Row) (other : String) :
    (t.append new).select other =
      (t.select other).or (if new.id = other then some new else none) := by
  unfold append select
  rw [List.find?_append]
  congr 1
  by_cases hid : new.id = other <;> simp [hid]

end

theorem lt_nextSeq (last : Int) (wall : Timestamp) : last < nextSeq last wall := by
  unfold nextSeq
  omega

/-!
## What an operation does to a table
-/

variable {β : Type} [Body β]

/-- What an operation may do to a table and the last place given. -/
inductive Change (lease : LeaseSettings) (now : Reading) :
    Operation β → Table × Int → Table × Int → Prop where
  | none (op : Operation β) (x : Table × Int) : Change lease now op x x
  /-- A record is saved over the stored one. -/
  | saved {j : Job β} {record : Record} {t : Table} {last : Int} {r : Row} :
      j.toRecord = .ok record → t.select record.id = some r →
      r.status.checkSave record.status record.id now.wall lease.lockTimeout = .ok () →
      Change lease now (.save j) (t, last)
        (t.change record.id
          (Row.withRecord (record.withStatus (r.status.merge record.status)).stored), last)
  /-- A record is saved for the first time. -/
  | created {j : Job β} {record : Record} {t : Table} {last : Int} :
      j.toRecord = .ok record → t.select record.id = Option.none →
      Change lease now (.save j) (t, last)
        (t.append ⟨record.id, nextSeq last now.wall, Row.leaseOf record.status, 0, record.stored⟩,
          nextSeq last now.wall)
  /-- A job is handed out. -/
  | handed {t : Table} {last : Int} {r : Row} :
      r ∈ t.rows →
      mayHandOut (liveAfter lease now.wall) (dispatchAfter lease now.wall) r = true →
      Change lease now .next (t, last)
        (t.change r.id (Row.handedAt now.wall.millis), last)
  /-- A lock is taken or renewed. -/
  | locked {id owner : String} {t : Table} {last : Int} {r : Row} :
      t.select id = some r →
      (!r.status.completed && !r.status.failed && (!r.status.inProgress ||
        r.status.owner = owner || r.leaseMillis ≤ liveAfter lease now.wall)) = true →
      Change lease now (.lock id owner) (t, last)
        (t.change id (lockRow true owner now.wall), last)
  /-- A lock is released. -/
  | unlocked {id owner : String} {t : Table} {last : Int} {r : Row} :
      t.select id = some r → (r.status.inProgress && r.status.owner = owner) = true →
      Change lease now (.unlock id owner) (t, last)
        (t.change id (lockRow false "" now.wall), last)

section

variable {t t' : Table} {last last' : Int} {record : Record} {now : Timestamp}
variable {lease : LeaseSettings} {id owner : String}

/-!
## Calls that nobody comes between
-/

namespace Exchange

variable {x y : Exchange} {s s' : Table × Int}

theorem steps_of_step (h : x.step lease now s = (y, s')) (n : Nat) :
    steps lease now (n + 1) x s = steps lease now n y s' := by
  show steps lease now n (x.step lease now s).1 (x.step lease now s).2 = _
  rw [h]

theorem steps_ended (lease : LeaseSettings) (now : Timestamp) (n : Nat) (r : Reply)
    (s : Table × Int) : steps lease now n (.ended r) s = (.ended r, s) := by
  induction n with
  | zero => rfl
  | succ n ih => exact ih

theorem finish_select_of_new (hnone : t.select record.id = none) :
    (select record false).finish lease now (t, last) =
      (.ended (.done (.ok ())),
        t.append ⟨record.id, nextSeq last now, Row.leaseOf record.status, 0, record.stored⟩,
        nextSeq last now) := by
  have hselect : (select record false).step lease now (t, last) =
      (.weigh record none false, t, last) := by
    simp only [step, hnone]
  have hcreate : (create record (nextSeq last now)).step lease now (t, nextSeq last now) =
      (.ended (.done (.ok ())), t.append ⟨record.id, nextSeq last now, Row.leaseOf record.status, 0,
        record.stored⟩, nextSeq last now) := by
    simp only [step]
    rw [create_eq hnone]
  unfold finish
  rw [rank, steps_of_step hselect, steps_of_step (y := .create record (nextSeq last now)) rfl,
    steps_of_step hcreate, steps_ended]

end Exchange

theorem save_eq (t : Table) (last : Int) (record : Record) (now : Timestamp)
    (lease : LeaseSettings) :
    t.save last record now lease =
      match t.select record.id with
      | some r => (r.status.checkSave record.status record.id now lease.lockTimeout).map fun _ =>
          (t.change record.id
            (Row.withRecord (record.withStatus (r.status.merge record.status)).stored), last)
      | none => .ok
          (t.append ⟨record.id, nextSeq last now, Row.leaseOf record.status, 0, record.stored⟩,
            nextSeq last now) := by
  unfold save
  cases hr : t.select record.id with
  | none =>
      rw [Exchange.finish_select_of_new hr]
      rfl
  | some r =>
      have hselect : (Exchange.select record false).step lease now (t, last) =
          (.weigh record (some r) false, t, last) := by
        simp only [Exchange.step, hr]
      unfold Exchange.finish
      rw [Exchange.rank, Exchange.steps_of_step hselect]
      cases hcheck : r.status.checkSave record.status record.id now lease.lockTimeout with
      | error e =>
          have hweigh : (Exchange.weigh record (some r) false).step lease now (t, last) =
              (.ended (.done (.error e)), t, last) := by
            simp only [Exchange.step, Exchange.settle, hcheck]
          rw [Exchange.steps_of_step hweigh, Exchange.steps_ended]
          simp only [hcheck]
          rfl
      | ok _ =>
          let merged := record.withStatus (r.status.merge record.status)
          have hweigh : (Exchange.weigh record (some r) false).step lease now (t, last) =
              (.replace merged r.status, t, last) := by
            simp only [Exchange.step, Exchange.settle, hcheck, merged]
          have hrow : t.replace merged.id merged r.status = some _ := replace_eq hr merged
          have hreplace : (Exchange.replace merged r.status).step lease now (t, last) =
              (.ended (.done (.ok ())), t.change record.id (Row.withRecord merged.stored), last) := by
            simp only [Exchange.step, hrow]
          rw [Exchange.steps_of_step hweigh, Exchange.steps_of_step hreplace, Exchange.steps_ended]
          simp only [hcheck]
          rfl

theorem next_eq (t : Table) (last : Int) (lease : LeaseSettings) (now : Timestamp) :
    t.next last lease now =
      (t.candidate (liveAfter lease now) (dispatchAfter lease now)).bind fun r =>
        (t.claim r.id r.dispatchedMillis now.millis).bind fun t' =>
          (t'.select r.id).map fun r => (r.record, t', last) := by
  unfold next Exchange.finish
  simp only [Exchange.rank, Exchange.steps, Exchange.step]
  cases t.candidate (liveAfter lease now) (dispatchAfter lease now) with
  | none => rfl
  | some r =>
      simp only [Option.bind_some]
      cases t.claim r.id r.dispatchedMillis now.millis with
      | none => rfl
      | some t' =>
          simp only [Option.bind_some]
          cases t'.select r.id <;> rfl

/-- The answer to a statement that changes a lock; if it has met no row, another one explains it. -/
def answered (t : Table) (last : Int) (releasing : Bool) (id : String) :
    Except StoreError (Option Table) → Except StoreError (Table × Int)
  | .ok (some t') => .ok (t', last)
  | .ok none => (t.explain releasing id).map fun _ => (t, last)
  | .error e => .error e

theorem eq_of_answered {releasing : Bool} (h : t.answered last releasing id (.ok none) =
    .ok (t', last')) : t' = t ∧ last' = last := by
  unfold answered at h
  cases hexplain : t.explain releasing id with
  | error e =>
      rw [hexplain] at h
      cases h
  | ok _ =>
      rw [hexplain] at h
      cases h
      exact ⟨rfl, rfl⟩

theorem lock_eq (t : Table) (last : Int) (lease : LeaseSettings) (id owner : String)
    (now : Timestamp) :
    t.lock last lease id owner now =
      t.answered last false id (t.lockWhere id owner now (liveAfter lease now)) := by
  unfold lock Exchange.finish
  simp only [Exchange.rank, Exchange.steps, Exchange.step, Bool.false_eq_true, if_false]
  rcases t.lockWhere id owner now (liveAfter lease now) with e | _ | t'
  · rfl
  · show settled (.ended (.done (t.explain false id)), t, last) = _
    unfold answered
    cases t.explain false id <;> rfl
  · rfl

theorem unlock_eq (t : Table) (last : Int) (lease : LeaseSettings) (id owner : String)
    (now : Timestamp) :
    t.unlock last lease id owner now = t.answered last true id (t.unlockWhere id owner now) := by
  unfold unlock Exchange.finish
  simp only [Exchange.rank, Exchange.steps, Exchange.step, if_true]
  rcases t.unlockWhere id owner now with e | _ | t'
  · rfl
  · show settled (.ended (.done (t.explain true id)), t, last) = _
    unfold answered
    cases t.explain true id <;> rfl
  · rfl

theorem updateWhere_cases {condition : Row → Bool} {change : Row → Row}
    (h : t.updateWhere id condition change = some t') :
    ∃ r, t.select id = some r ∧ condition r = true ∧ t' = t.change id change := by
  cases hr : t.select id with
  | none =>
      unfold updateWhere at h
      rw [hr] at h
      cases h
  | some r =>
      rw [updateWhere_eq hr] at h
      split at h
      · rename_i hcondition
        cases h
        exact ⟨r, rfl, hcondition, rfl⟩
      · cases h

theorem turnWhere_eq {r : Row} (hr : t.select id = some r) (condition : Row → Bool)
    (change : Row → Row) :
    t.turnWhere id condition change =
      if condition r then
        if maxColumn ≤ r.status.modCount.toNat then .error .database
        else .ok (some (t.change id change))
      else .ok none := by
  unfold turnWhere
  simp only [hr, updateWhere_eq hr]
  by_cases hcondition : condition r = true
  · by_cases hfull : maxColumn ≤ r.status.modCount.toNat <;> simp [hcondition, hfull]
  · simp [hcondition]

theorem turnWhere_cases {condition : Row → Bool} {change : Row → Row}
    (h : t.turnWhere id condition change = .ok (some t')) :
    ∃ r, t.select id = some r ∧ condition r = true ∧ r.status.modCount.toNat < maxColumn ∧
      t' = t.change id change := by
  cases hr : t.select id with
  | none =>
      unfold turnWhere at h
      rw [hr] at h
      cases h
  | some r =>
      rw [turnWhere_eq hr] at h
      split at h
      · rename_i hcondition
        split at h
        · cases h
        · rename_i hroom
          cases h
          exact ⟨r, rfl, hcondition, Int.not_le.mp hroom, rfl⟩
      · cases h

theorem save_cases (h : t.save last record now lease = .ok (t', last')) :
    (∃ r, t.select record.id = some r ∧
      r.status.checkSave record.status record.id now lease.lockTimeout = .ok () ∧
      t' = t.change record.id
        (Row.withRecord (record.withStatus (r.status.merge record.status)).stored) ∧
      last' = last) ∨
    (t.select record.id = Option.none ∧
      t' = t.append ⟨record.id, nextSeq last now, Row.leaseOf record.status, 0, record.stored⟩ ∧
      last' = nextSeq last now) := by
  rw [save_eq] at h
  cases hr : t.select record.id with
  | none =>
      rw [hr] at h
      cases h
      exact Or.inr ⟨rfl, rfl, rfl⟩
  | some r =>
      simp only [hr] at h
      cases hcheck : r.status.checkSave record.status record.id now lease.lockTimeout with
      | error err =>
          rw [hcheck] at h
          cases h
      | ok _ =>
          rw [hcheck] at h
          cases h
          exact Or.inl ⟨r, rfl, hcheck, rfl, rfl⟩

theorem candidate_cases {liveAfter dispatchAfter : Int} {r : Row}
    (h : t.candidate liveAfter dispatchAfter = some r) :
    r ∈ t.rows ∧ mayHandOut liveAfter dispatchAfter r = true :=
  List.mem_filter.mp (List.mem_mergeSort.mp (List.mem_of_mem_head? h))

theorem claim_cases {seen millis : Int} (h : t.claim id seen millis = some t') :
    ∃ r, t.select id = some r ∧ r.dispatchedMillis = seen ∧
      t' = t.change id (Row.handedAt millis) ∧ t'.select id = some (r.handedAt millis) := by
  rcases updateWhere_cases h with ⟨r, hr, hseen, ht'⟩
  refine ⟨r, hr, of_decide_eq_true hseen, ht', ?_⟩
  rw [ht']
  have hkeeps : ∀ r, (Row.handedAt millis r).id = r.id := fun _ => rfl
  have hselect : (t.change id (Row.handedAt millis)).select id = _ := select_change hkeeps id
  rw [if_pos rfl, hr, Option.map_some] at hselect
  exact hselect

theorem next_cases (h : t.next last lease now = some (record, t', last')) :
    ∃ r chosen, t.select chosen.id = some r ∧ chosen ∈ t.rows ∧
      mayHandOut (liveAfter lease now) (dispatchAfter lease now) chosen = true ∧
      r.dispatchedMillis = chosen.dispatchedMillis ∧
      record = r.record ∧ t' = t.change chosen.id (Row.handedAt now.millis) ∧ last' = last := by
  rw [next_eq] at h
  simp only [Option.bind_eq_some_iff, Option.map_eq_some_iff] at h
  rcases h with ⟨chosen, hchosen, t₁, hclaim, claimed, hselect, heq⟩
  cases heq
  rcases candidate_cases hchosen with ⟨hmem, hmay⟩
  rcases claim_cases hclaim with ⟨r, hr, hseen, ht', hafter⟩
  cases hselect.symm.trans hafter
  exact ⟨r, chosen, hr, hmem, hmay, hseen, rfl, ht', rfl⟩

theorem lock_cases (h : t.lock last lease id owner now = .ok (t', last')) :
    (t' = t ∨ ∃ r, t.select id = some r ∧
      (!r.status.completed && !r.status.failed && (!r.status.inProgress ||
        r.status.owner = owner || r.leaseMillis ≤ liveAfter lease now)) = true ∧
      t' = t.change id (lockRow true owner now)) ∧ last' = last := by
  rw [lock_eq] at h
  rcases hwhere : t.lockWhere id owner now (liveAfter lease now) with e | _ | t₁
  · rw [hwhere] at h
    cases h
  · rw [hwhere] at h
    exact ⟨Or.inl (eq_of_answered h).1, (eq_of_answered h).2⟩
  · rw [hwhere] at h
    cases h
    rcases turnWhere_cases hwhere with ⟨r, hr, hfree, -, ht'⟩
    exact ⟨Or.inr ⟨r, hr, hfree, ht'⟩, rfl⟩

theorem unlock_cases (h : t.unlock last lease id owner now = .ok (t', last')) :
    (t' = t ∨ ∃ r, t.select id = some r ∧
      (r.status.inProgress && r.status.owner = owner) = true ∧
      t' = t.change id (lockRow false "" now)) ∧ last' = last := by
  rw [unlock_eq] at h
  rcases hwhere : t.unlockWhere id owner now with e | _ | t₁
  · rw [hwhere] at h
    cases h
  · rw [hwhere] at h
    exact ⟨Or.inl (eq_of_answered h).1, (eq_of_answered h).2⟩
  · rw [hwhere] at h
    cases h
    rcases turnWhere_cases hwhere with ⟨r, hr, hheld, -, ht'⟩
    exact ⟨Or.inr ⟨r, hr, hheld, ht'⟩, rfl⟩

end

end Table

namespace Table

/-!
## Tables whose columns agree
-/

/-- Each job has one row, under the id of its record, and the column of the lease is that of the
record's status. -/
structure Kept (t : Table) : Prop where
  nodup : (t.rows.map Row.id).Nodup
  ids : ∀ r ∈ t.rows, r.record.id = r.id
  leases : ∀ r ∈ t.rows, r.leaseMillis = Row.leaseOf r.status

structure Indexed (t : Table) (lastSeq : Int) : Prop extends t.Kept where
  inOrder : t.InOrder
  last : ∀ r ∈ t.rows, r.seq ≤ lastSeq

theorem kept_empty : Kept empty := by
  constructor <;> simp [empty]

theorem indexed_empty (lastSeq : Int) : Indexed empty lastSeq :=
  ⟨kept_empty, by simp [empty, InOrder], by simp [empty]⟩

section

variable {t : Table} {lastSeq : Int} {id : String} {f : Row → Row}

theorem map_change {γ : Type} {column : Row → γ} (hf : ∀ r, column (f r) = column r) :
    (t.change id f).rows.map column = t.rows.map column := by
  show (t.rows.map fun r => if r.id = id then f r else r).map column = _
  rw [List.map_map]
  apply List.map_congr_left
  intro r _
  show column (if r.id = id then f r else r) = column r
  split
  · exact hf r
  · rfl

theorem forall_mem_change {P : Row → Prop} (hold : ∀ r ∈ t.rows, P r)
    (hnew : ∀ r ∈ t.rows, r.id = id → P (f r)) :
    ∀ r ∈ (t.change id f).rows, P r := by
  intro r hr
  rcases List.mem_map.mp hr with ⟨r₀, hr₀, rfl⟩
  split
  · rename_i hid
    exact hnew r₀ hr₀ hid
  · exact hold r₀ hr₀

theorem forall_mem_append {P : Row → Prop} {new : Row} (hold : ∀ r ∈ t.rows, P r) (hnew : P new) :
    ∀ r ∈ (t.append new).rows, P r := by
  intro r hr
  rcases List.mem_append.mp hr with hmem | hlast
  · exact hold r hmem
  · cases List.mem_singleton.mp hlast
    exact hnew

theorem Kept.change (h : t.Kept) (hid : ∀ r, (f r).id = r.id)
    (hrecord : ∀ r ∈ t.rows, r.id = id → (f r).record.id = r.id)
    (hlease : ∀ r ∈ t.rows, r.id = id →
      (f r).leaseMillis = Row.leaseOf (f r).status) : (t.change id f).Kept := by
  constructor
  · rw [map_change hid]
    exact h.nodup
  · apply forall_mem_change h.ids
    intro r hr hrid
    rw [hid]
    exact hrecord r hr hrid
  · exact forall_mem_change h.leases hlease

theorem Kept.handOut (h : t.Kept) (id : String) (millis : Int) :
    (t.change id (Row.handedAt millis)).Kept := by
  apply h.change
  · exact fun _ => rfl
  · exact fun r hr _ => h.ids r hr
  · exact fun r hr _ => h.leases r hr

theorem Kept.withRecord (h : t.Kept) {record : Record} (hid : record.id = id) :
    (t.change id (Row.withRecord record)).Kept := by
  apply h.change
  · exact fun _ => rfl
  · exact fun r _ hrid => hid.trans hrid.symm
  · exact fun _ _ _ => rfl

theorem Kept.lockRow (h : t.Kept) (id : String) (inProgress : Bool) (owner : String)
    (now : Timestamp) : (t.change id (lockRow inProgress owner now)).Kept := by
  apply h.change
  · exact fun _ => rfl
  · exact fun r hr _ => h.ids r hr
  · exact fun _ _ _ => rfl

theorem Kept.append (h : t.Kept) {new : Row} (hid : new.record.id = new.id)
    (hlease : new.leaseMillis = Row.leaseOf new.status) (hnone : t.select new.id = none) :
    (t.append new).Kept := by
  constructor
  · show (List.map Row.id (t.rows ++ [new])).Nodup
    rw [List.map_append]
    refine List.nodup_append.mpr ⟨h.nodup, by simp, ?_⟩
    intro key hkey other hother heq
    rcases List.mem_map.mp hkey with ⟨r, hr, rfl⟩
    have hpassed := List.find?_eq_none.mp hnone r hr
    rw [heq, List.mem_singleton.mp hother] at hpassed
    simp at hpassed
  · exact forall_mem_append h.ids hid
  · exact forall_mem_append h.leases hlease

theorem Indexed.of_kept (h : t.Indexed lastSeq) (hkept : (t.change id f).Kept)
    (hseq : ∀ r, (f r).seq = r.seq) : (t.change id f).Indexed lastSeq := by
  refine ⟨hkept, ?_, ?_⟩
  · have hpairwise : ((t.change id f).rows.map Row.seq).Pairwise (· < ·) := by
      rw [map_change hseq]
      exact List.pairwise_map.mpr h.inOrder
    exact List.pairwise_map.mp hpairwise
  · apply forall_mem_change h.last
    intro r hr _
    rw [hseq]
    exact h.last r hr

theorem Indexed.handOut (h : t.Indexed lastSeq) (id : String) (millis : Int) :
    (t.change id (Row.handedAt millis)).Indexed lastSeq :=
  h.of_kept (h.toKept.handOut id millis) fun _ => rfl

theorem Indexed.append (h : t.Indexed lastSeq) {new : Row} (hid : new.record.id = new.id)
    (hlease : new.leaseMillis = Row.leaseOf new.status) (hnone : t.select new.id = none)
    (hseq : lastSeq < new.seq) : (t.append new).Indexed new.seq := by
  refine ⟨h.toKept.append hid hlease hnone, ?_, ?_⟩
  · refine List.pairwise_append.mpr ⟨h.inOrder, List.pairwise_singleton _ _, ?_⟩
    intro r hr s hs
    cases List.mem_singleton.mp hs
    exact Int.lt_of_le_of_lt (h.last r hr) hseq
  · exact forall_mem_append
      (fun r hr => Int.le_of_lt (Int.lt_of_le_of_lt (h.last r hr) hseq)) (Int.le_refl _)

end

theorem Indexed.after_change {lease : LeaseSettings} {now : Reading} {β : Type} [Body β]
    {op : Operation β} {t t' : Table} {last last' : Int} (h : t.Indexed last)
    (hchange : Change lease now op (t, last) (t', last')) : t'.Indexed last' := by
  cases hchange with
  | none => exact h
  | saved hj hr hcheck => exact h.of_kept (h.toKept.withRecord rfl) fun _ => rfl
  | created hj hnone => exact h.append rfl rfl hnone (lt_nextSeq last now.wall)
  | handed hmem hmay => exact h.handOut _ _
  | locked hr hfree => exact h.of_kept (h.toKept.lockRow _ _ _ _) fun _ => rfl
  | unlocked hr hheld => exact h.of_kept (h.toKept.lockRow _ _ _ _) fun _ => rfl

end Table

namespace Backend

variable {β : Type} [Body β]

/-!
## Operations on a table
-/

section

variable (b : Backend β) (settings : TableSettings) (t : Table) (lastSeq : Int)

/-- The answer to an operation on a table that changes the table unless it fails. -/
def settleOnTable : Except StoreError (Table × Int) → Answer β × Backend β
  | .ok (t', lastSeq') => (.done (.ok ()), b.onTable settings t' lastSeq')
  | .error e => (.done (.error e), b.onTable settings t lastSeq)

theorem access_save_onTable (now : Reading) {j : Job β} {r : Record} (hj : j.toRecord = .ok r) :
    (b.onTable settings t lastSeq).access ⟨.save j, false, now⟩ =
      b.settleOnTable settings t lastSeq (t.save lastSeq r now.wall b.lease) := by
  show (b.onTable settings t lastSeq).settle ((b.onTable settings t lastSeq).save false now j) = _
  unfold save
  rw [hj]
  show settle _ (t.save lastSeq r now.wall b.lease >>= _) = _
  cases t.save lastSeq r now.wall b.lease <;> rfl

theorem access_save_onTable_unwritable (cancelled : Bool) (now : Reading) {j : Job β}
    {reason : String} (hj : j.toRecord = .error reason) :
    (b.onTable settings t lastSeq).access ⟨.save j, cancelled, now⟩ =
      (.done (.error (.unwritable reason)), b.onTable settings t lastSeq) := by
  show (b.onTable settings t lastSeq).settle
    ((b.onTable settings t lastSeq).save cancelled now j) = _
  unfold save
  rw [hj]
  rfl

theorem access_save_onTable_cancelled (now : Reading) {j : Job β} {r : Record}
    (hj : j.toRecord = .ok r) :
    (b.onTable settings t lastSeq).access ⟨.save j, true, now⟩ =
      (.done (.error .cancelled), b.onTable settings t lastSeq) := by
  show (b.onTable settings t lastSeq).settle ((b.onTable settings t lastSeq).save true now j) = _
  unfold save
  rw [hj]
  rfl

theorem access_lock_onTable (now : Reading) (id owner : String) :
    (b.onTable settings t lastSeq).access ⟨.lock id owner, false, now⟩ =
      b.settleOnTable settings t lastSeq (t.lock lastSeq b.lease id owner now.wall) := by
  show settleLock _ (.ofExcept (t.lock lastSeq b.lease id owner now.wall >>= _)) = _
  cases t.lock lastSeq b.lease id owner now.wall <;> rfl

theorem access_unlock_onTable (now : Reading) (id owner : String) :
    (b.onTable settings t lastSeq).access ⟨.unlock id owner, false, now⟩ =
      b.settleOnTable settings t lastSeq (t.unlock lastSeq b.lease id owner now.wall) := by
  show settleLock _ (.ofExcept (t.unlock lastSeq b.lease id owner now.wall >>= _)) = _
  cases t.unlock lastSeq b.lease id owner now.wall <;> rfl

theorem access_next_onTable (now : Reading) :
    (b.onTable settings t lastSeq).access ⟨.next, false, now⟩ =
      match t.next lastSeq b.lease now.wall with
      | some (r, t', lastSeq') => (.job (b.registry.build? r), b.onTable settings t' lastSeq')
      | none => (.job none, b.onTable settings t lastSeq) := by
  show (Answer.job ((b.onTable settings t lastSeq).next false now).1,
    ((b.onTable settings t lastSeq).next false now).2) = _
  unfold next onTable
  cases hnext : t.next lastSeq b.lease now.wall with
  | none => simp [hnext]
  | some p => simp [hnext]

end

theorem after_onTable_cancelled (b : Backend β) (settings : TableSettings) (t : Table)
    (lastSeq : Int) (op : Operation β) (now : Reading) :
    (b.onTable settings t lastSeq).after ⟨op, true, now⟩ = b.onTable settings t lastSeq := by
  unfold after
  cases op with
  | save j =>
      cases hj : j.toRecord with
      | error reason => rw [access_save_onTable_unwritable b settings t lastSeq true now hj]
      | ok r => rw [access_save_onTable_cancelled b settings t lastSeq now hj]
  | _ => rfl

/-- An operation changes nothing of a backend with an open table but the table and the last place
given, and those only as the operation may. -/
theorem exists_change_onTable (b : Backend β) (settings : TableSettings) (t : Table)
    (lastSeq : Int) (a : Access β) :
    ∃ t' lastSeq', (b.onTable settings t lastSeq).after a = b.onTable settings t' lastSeq' ∧
      Table.Change b.lease a.reading a.operation (t, lastSeq) (t', lastSeq') := by
  rcases a with ⟨op, cancelled, now⟩
  have hsame : ∃ t' lastSeq', b.onTable settings t lastSeq = b.onTable settings t' lastSeq' ∧
      Table.Change b.lease now op (t, lastSeq) (t', lastSeq') :=
    ⟨t, lastSeq, rfl, .none op _⟩
  cases cancelled with
  | true =>
      rw [after_onTable_cancelled]
      exact hsame
  | false =>
      unfold after
      cases op with
      | save j =>
          cases hj : j.toRecord with
          | error reason =>
              rw [access_save_onTable_unwritable b settings t lastSeq false now hj]
              exact hsame
          | ok r =>
              rw [access_save_onTable b settings t lastSeq now hj]
              cases hsave : t.save lastSeq r now.wall b.lease with
              | error e => exact hsame
              | ok x =>
                  rcases x with ⟨t', lastSeq'⟩
                  rcases Table.save_cases hsave with ⟨row, hr, hcheck, rfl, rfl⟩ | ⟨hr, rfl, rfl⟩
                  · exact ⟨_, _, rfl, .saved hj hr hcheck⟩
                  · exact ⟨_, _, rfl, .created hj hr⟩
      | next =>
          rw [access_next_onTable]
          cases hnext : t.next lastSeq b.lease now.wall with
          | none => exact hsame
          | some p =>
              rcases p with ⟨record, t', lastSeq'⟩
              rcases Table.next_cases hnext with ⟨r, chosen, -, hmem, hmay, -, -, rfl, rfl⟩
              exact ⟨_, _, rfl, .handed hmem hmay⟩
      | lock id owner =>
          rw [access_lock_onTable]
          cases hlock : t.lock lastSeq b.lease id owner now.wall with
          | error e => exact hsame
          | ok x =>
              rcases x with ⟨t', lastSeq'⟩
              rcases Table.lock_cases hlock with ⟨rfl | ⟨r, hr, hfree, rfl⟩, rfl⟩
              · exact hsame
              · exact ⟨_, _, rfl, .locked hr hfree⟩
      | unlock id owner =>
          rw [access_unlock_onTable]
          cases hunlock : t.unlock lastSeq b.lease id owner now.wall with
          | error e => exact hsame
          | ok x =>
              rcases x with ⟨t', lastSeq'⟩
              rcases Table.unlock_cases hunlock with ⟨rfl | ⟨r, hr, hheld, rfl⟩, rfl⟩
              · exact hsame
              · exact ⟨_, _, rfl, .unlocked hr hheld⟩
      | get id => exact hsame
      | tally => exact hsame
      | infos => exact hsame
      | pull l => exact hsame

theorem run_onTable (b : Backend β) (settings : TableSettings) {t : Table} {lastSeq : Int}
    (ht : t.Indexed lastSeq) (accesses : List (Access β)) :
    ∃ t' lastSeq', (b.onTable settings t lastSeq).run accesses = b.onTable settings t' lastSeq' ∧
      t'.Indexed lastSeq' := by
  induction accesses generalizing t lastSeq with
  | nil => exact ⟨t, lastSeq, rfl, ht⟩
  | cons a rest ih =>
      rcases exists_change_onTable b settings t lastSeq a with ⟨t', lastSeq', hafter, hchange⟩
      rw [run_cons, hafter]
      exact ih (ht.after_change hchange)

end Backend
end LeaseQueue
