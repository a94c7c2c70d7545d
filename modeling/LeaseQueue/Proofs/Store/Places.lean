import Mathlib.Data.List.Nodup
import LeaseQueue.Proofs.Store.Index
/-!
# Places of the jobs of a store

A store in memory gives a job its place in the order when the job is first
saved. The map of ids and the order of places say the same of every job, the
places are counted without a gap, and neither a job nor its place is ever lost.
-/

namespace LeaseQueue

namespace Memory

def Stands (m : Memory) (id : String) (seq : Nat) : Prop :=
  ∃ e, m.lookup? id = some e ∧ e.seq = seq

/-!
## Two views of one store
-/

/-- The map and the order of a store match each other, one id to one place, and the places are those
below the next free one. -/
structure Consistent (m : Memory) : Prop where
  /-- No id has two entries. -/
  keys : (m.jobs.entries.map Prod.fst).Nodup
  ids : ∀ id e, m.lookup? id = some e → e.record.id = id
  order_iff : ∀ id seq, (seq, id) ∈ m.order ↔ m.Stands id seq
  /-- The order goes through the places one by one. -/
  places : m.order.map Prod.fst = List.range m.nextSeq
  taken_iff : ∀ seq, (∃ id, m.Stands id seq) ↔ seq < m.nextSeq
  distinct : ∀ id other seq, m.Stands id seq → m.Stands other seq → id = other

theorem Indexed.order_iff {m : Memory} (h : m.Indexed) (id : String) (seq : Nat) :
    (seq, id) ∈ m.order ↔ m.Stands id seq := by
  rw [h.order, List.mem_map]
  constructor
  · rintro ⟨⟨key, e⟩, hmem, heq⟩
    cases heq
    exact ⟨e, h.lookup?_of_mem hmem, rfl⟩
  · rintro ⟨e, he, rfl⟩
    exact ⟨(id, e), Keyed.mem_of_find he, rfl⟩

theorem Indexed.places {m : Memory} (h : m.Indexed) :
    m.order.map Prod.fst = List.range m.nextSeq := by
  rw [h.order, List.map_map, h.next]
  exact h.seqs

theorem Indexed.taken_iff {m : Memory} (h : m.Indexed) (seq : Nat) :
    (∃ id, m.Stands id seq) ↔ seq < m.nextSeq := by
  rw [← List.mem_range, ← h.places, List.mem_map]
  constructor
  · rintro ⟨id, hstands⟩
    exact ⟨(seq, id), (h.order_iff id seq).mpr hstands, rfl⟩
  · rintro ⟨⟨place, id⟩, hmem, rfl⟩
    exact ⟨id, (h.order_iff id place).mp hmem⟩

theorem Indexed.stands_unique {m : Memory} (h : m.Indexed) {id other : String} {seq : Nat}
    (hid : m.Stands id seq) (hother : m.Stands other seq) : id = other := by
  have hnodup : (m.order.map Prod.fst).Nodup := h.places ▸ List.nodup_range
  have heq : (seq, id) = (seq, other) :=
    List.inj_on_of_nodup_map hnodup ((h.order_iff id seq).mpr hid)
      ((h.order_iff other seq).mpr hother) rfl
  exact congrArg Prod.snd heq

theorem Indexed.getElem?_of_stands {m : Memory} (h : m.Indexed) {id : String} {seq : Nat}
    (hstands : m.Stands id seq) :
    ∃ e, m.lookup? id = some e ∧ m.jobs.entries[seq]? = some (id, e) := by
  rcases hstands with ⟨e, he, rfl⟩
  rcases List.mem_iff_getElem?.mp (Keyed.mem_of_find he) with ⟨n, hn⟩
  have hlt := (List.getElem?_eq_some_iff.mp hn).1
  have hseq : (m.jobs.entries.map fun p => p.2.seq)[n]? = some e.seq := by
    rw [List.getElem?_map, hn]
    rfl
  rw [h.seqs, List.getElem?_range hlt] at hseq
  cases hseq
  exact ⟨e, he, hn⟩

theorem Indexed.consistent {m : Memory} (h : m.Indexed) : m.Consistent where
  keys := h.nodup
  ids := fun _ _ he => h.record_id he
  order_iff := h.order_iff
  places := h.places
  taken_iff := h.taken_iff
  distinct := fun _ _ _ hid hother => h.stands_unique hid hother

/-!
## Places that stay
-/

/-- Every job of a store is in the other store too, at the same place. -/
def Keeps (m m' : Memory) : Prop := ∀ id seq, m.Stands id seq → m'.Stands id seq

theorem Keeps.refl (m : Memory) : m.Keeps m := fun _ _ h => h

theorem Keeps.trans {m m' m'' : Memory} (h : m.Keeps m') (h' : m'.Keeps m'') : m.Keeps m'' :=
  fun id seq hstands => h' id seq (h id seq hstands)

theorem keeps_replace {m : Memory} {id : String} {e e' : Entry} (he : m.lookup? id = some e)
    (hseq : e'.seq = e.seq) : m.Keeps (m.replace id e') := by
  rintro other seq ⟨e₀, he₀, hplace⟩
  by_cases hid : id = other
  · rw [← hid, he] at he₀
    cases he₀
    exact ⟨e', by rw [lookup?_replace, if_pos hid], hseq.trans hplace⟩
  · exact ⟨e₀, by rw [lookup?_replace, if_neg hid, he₀], hplace⟩

theorem keeps_append {m : Memory} {r : Record} (hnone : m.lookup? r.id = none) :
    m.Keeps (m.append r) := by
  rintro other seq ⟨e₀, he₀, hplace⟩
  have hid : r.id ≠ other := by
    intro hid
    rw [hid, he₀] at hnone
    cases hnone
  exact ⟨e₀, by rw [lookup?_append, if_neg hid, he₀], hplace⟩

variable {β : Type} [Body β]

theorem Change.keeps {lease : LeaseSettings} {now : Reading} {op : Operation β} {m m' : Memory}
    (h : Change lease now op m m') (hm : m.Indexed) : m.Keeps m' := by
  cases h with
  | none => exact .refl m
  | saved hj he hcheck => exact keeps_replace he rfl
  | added hj hnone => exact keeps_append hnone
  | handed hmem heligible => exact keeps_replace (hm.lookup?_of_mem hmem) rfl
  | locked he _ | lockBroken he _ | unlocked he _ | unlockBroken he _ =>
      exact keeps_replace he rfl

end Memory

namespace Backend

variable {β : Type} [Body β]

theorem run_keeps (b : Backend β) (d : Discipline) {m : Memory} (hm : m.Indexed)
    (accesses : List (Access β)) :
    ∃ m', (b.onMemory d m).run accesses = b.onMemory d m' ∧ m'.Indexed ∧ m.Keeps m' := by
  induction accesses generalizing m with
  | nil => exact ⟨m, rfl, hm, .refl m⟩
  | cons a rest ih =>
      rcases exists_change b d m a with ⟨m₁, hafter, hchange⟩
      rw [run_cons, hafter]
      rcases ih (hm.change hchange) with ⟨m', hrun, hm', hkeeps⟩
      exact ⟨m', hrun, hm', (hchange.keeps hm).trans hkeeps⟩

/-- Whatever has been asked of an empty store, its two views match, and whatever is asked afterwards,
no job is lost and every job stays at its place. -/
theorem jobs_keep_their_places (registry : Registry β) (d : Discipline) (lease : LeaseSettings)
    (past later : List (Access β)) :
    ∃ m m', (inMemory registry d lease).run past = (inMemory registry d lease).onMemory d m ∧
      (inMemory registry d lease).run (past ++ later) =
        (inMemory registry d lease).onMemory d m' ∧
      m.Consistent ∧ m'.Consistent ∧ m.Keeps m' := by
  rcases run_onMemory (inMemory registry d lease) d Memory.indexed_empty past with ⟨m, hrun, hm⟩
  rcases run_keeps (inMemory registry d lease) d hm later with ⟨m', hrun', hm', hkeeps⟩
  refine ⟨m, m', hrun, ?_, hm.consistent, hm'.consistent, hkeeps⟩
  rw [run_append, ← hrun']
  exact congrArg (fun b => run b later) hrun

end Backend
end LeaseQueue
