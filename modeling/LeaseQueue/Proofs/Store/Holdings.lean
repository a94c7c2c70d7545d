import LeaseQueue.Proofs.Store.Rows
/-!
# What a store holds

Stores in memory and open tables hold a list of records, one for each job, in the
order of first saves. What can be said of the jobs of a store is said of that
list, whichever of the two the store is.
-/

namespace LeaseQueue
namespace Backend

variable {β : Type}

/-- A store in memory or an open table that nothing has been saved in. -/
def IsNew (b : Backend β) : Prop :=
  (∃ d, b.storage = .memory d .empty) ∨
    ∃ settings lastSeq, b.storage = .table settings (some .empty) lastSeq

/-- The records of all jobs of a store, in the order of their first saves. -/
inductive Holds (b : Backend β) : List Record → Prop where
  | memory {d : Discipline} {m : Memory} : b.storage = .memory d m → m.Indexed →
      Holds b (m.jobs.entries.map fun p => p.2.record)
  | table {settings : TableSettings} {t : Table} {lastSeq : Int} :
      b.storage = .table settings (some t) lastSeq → t.Indexed lastSeq →
      Holds b (t.rows.map Row.record)

theorem onTable_self {b : Backend β} {settings : TableSettings} {t : Table} {lastSeq : Int}
    (hb : b.storage = .table settings (some t) lastSeq) :
    b.onTable settings t lastSeq = b := by
  cases b
  cases hb
  rfl

theorem IsNew.holds {b : Backend β} (h : b.IsNew) : b.Holds [] := by
  rcases h with ⟨d, hb⟩ | ⟨settings, lastSeq, hb⟩
  · exact .memory hb Memory.indexed_empty
  · exact .table hb (Table.indexed_empty lastSeq)

namespace Holds

variable {b : Backend β} {records : List Record}

/-!
## Jobs and records
-/

theorem map_id_memory {m : Memory} (hm : m.Indexed) :
    (m.jobs.entries.map fun p => p.2.record).map Record.id = m.jobs.keys := by
  rw [List.map_map]
  exact List.map_congr_left hm.ids

theorem map_id_table {t : Table} {lastSeq : Int} (ht : t.Indexed lastSeq) :
    (t.rows.map Row.record).map Record.id = t.rows.map Row.id := by
  rw [List.map_map]
  exact List.map_congr_left ht.ids

theorem nodup (h : b.Holds records) : (records.map Record.id).Nodup := by
  cases h with
  | memory hb hm =>
      rw [map_id_memory hm]
      exact hm.nodup
  | table hb ht =>
      rw [map_id_table ht]
      exact ht.nodup

theorem record?_eq_some_iff (h : b.Holds records) {id : String} {r : Record} :
    b.record? false id = some r ↔ r ∈ records ∧ r.id = id := by
  cases h with
  | @memory d m hb hm =>
      rw [← onMemory_self hb, record?_onMemory]
      constructor
      · intro hr
        rcases Option.map_eq_some_iff.mp hr with ⟨e, he, rfl⟩
        exact ⟨List.mem_map.mpr ⟨(id, e), Keyed.mem_of_find he, rfl⟩, hm.record_id he⟩
      · rintro ⟨hr, rfl⟩
        rcases List.mem_map.mp hr with ⟨⟨key, e⟩, hmem, rfl⟩
        have hkey : e.record.id = key := hm.ids _ hmem
        rw [hkey, hm.lookup?_of_mem hmem]
        rfl
  | @table settings t lastSeq hb ht =>
      rw [← onTable_self hb]
      show (t.select id).map Row.record = some r ↔ _
      constructor
      · intro hr
        rcases Option.map_eq_some_iff.mp hr with ⟨row, hrow, rfl⟩
        rcases Table.mem_of_select hrow with ⟨hmem, hid⟩
        exact ⟨List.mem_map_of_mem hmem, (ht.ids row hmem).trans hid⟩
      · rintro ⟨hr, rfl⟩
        rcases List.mem_map.mp hr with ⟨row, hmem, rfl⟩
        rw [ht.ids row hmem, Table.select_of_mem ht.nodup hmem]
        rfl

theorem mem_ids_iff (h : b.Holds records) {id : String} :
    id ∈ records.map Record.id ↔ b.record? false id ≠ none := by
  rw [Option.ne_none_iff_exists', List.mem_map]
  constructor
  · rintro ⟨r, hr⟩
    exact ⟨r, h.record?_eq_some_iff.mpr hr⟩
  · rintro ⟨r, hr⟩
    exact ⟨r, h.record?_eq_some_iff.mp hr⟩

/-!
## Lists and counts
-/

theorem infos_eq (h : b.Holds records) : b.infos false = records.map .ofRecord := by
  cases h with
  | memory hb hm =>
      rw [← onMemory_self hb, infos_onMemory _ _ hm, List.map_map]
      rfl
  | table hb ht =>
      rw [← onTable_self hb, infos_onTable _ _ _ ht.inOrder, List.map_map]
      rfl

theorem tally_eq (h : b.Holds records) :
    b.tally false = .ofInfos (records.map .ofRecord) := by
  cases h with
  | memory hb hm =>
      rw [← onMemory_self hb, tally_onMemory _ _ hm, List.map_map]
      rfl
  | @table settings t lastSeq hb ht =>
      rw [← onTable_self hb, List.map_map]
      exact t.tally_eq

/-!
## Runs
-/

variable [Body β]

/-- An operation leaves the jobs in their places, and its newcomer comes last. -/
theorem after (h : b.Holds records) (a : Access β) :
    ∃ records', (b.after a).Holds records' ∧
      records'.map Record.id = records.map Record.id ++ (b.newcomer? a).toList := by
  cases h with
  | @memory d m hb hm =>
      rcases exists_change b d m a with ⟨m', hafter, hchange⟩
      have hids := keys_after hm hafter
      rw [onMemory_self hb] at hafter hids
      have hm' := hm.change hchange
      refine ⟨_, .memory (congrArg Backend.storage hafter) hm', ?_⟩
      rw [map_id_memory hm', map_id_memory hm]
      exact hids
  | @table settings t lastSeq hb ht =>
      rcases exists_change_onTable b settings t lastSeq a with ⟨t', lastSeq', hafter, hchange⟩
      have hids := ids_after hafter
      rw [onTable_self hb] at hafter hids
      have ht' := ht.after_change hchange
      refine ⟨_, .table (congrArg Backend.storage hafter) ht', ?_⟩
      rw [map_id_table ht', map_id_table ht]
      exact hids

theorem run (h : b.Holds records) (accesses : List (Access β)) :
    ∃ records', (b.run accesses).Holds records' ∧
      records'.map Record.id = records.map Record.id ++ b.firstSaves accesses := by
  induction accesses generalizing b records with
  | nil => exact ⟨records, h, (List.append_nil _).symm⟩
  | cons a rest ih =>
      rcases h.after a with ⟨records₁, hafter, hids⟩
      rcases ih hafter with ⟨records', hrun, hids'⟩
      refine ⟨records', hrun, ?_⟩
      rw [hids', hids, List.append_assoc]
      rfl

end Holds

theorem IsNew.run [Body β] {b : Backend β} (h : b.IsNew) (past : List (Access β)) :
    ∃ records, (b.run past).Holds records ∧ records.map Record.id = b.firstSaves past :=
  h.holds.run past

theorem IsNew.record?_of_not_mem [Body β] {b : Backend β} (h : b.IsNew) {past : List (Access β)}
    {id : String} (hid : id ∉ b.firstSaves past) : (b.run past).record? false id = none := by
  rcases h.run past with ⟨records, hrecords, hids⟩
  rw [← hids, hrecords.mem_ids_iff] at hid
  exact not_not.mp hid

end Backend
end LeaseQueue
