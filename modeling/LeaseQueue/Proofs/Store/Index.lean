import LeaseQueue.Proofs.Store.Access
/-!
# Entries and order of a store in memory

A store in memory keeps its jobs twice: under their ids, and in the order of
their first saves. The two stay in step through every run, and each record is
kept under its own id.
-/

namespace LeaseQueue

namespace Keyed

variable {α : Type}

/-!
## Giving a key in a list of pairs
-/

theorem mem_of_find {key : String} {l : List (String × α)} {v : α}
    (h : find key l = some v) : (key, v) ∈ l := by
  induction l with
  | nil => cases h
  | cons p rest ih =>
      rcases p with ⟨k, w⟩
      unfold find at h
      split at h
      · rename_i hk
        cases h
        rw [hk]
        exact List.mem_cons_self
      · exact List.mem_cons_of_mem _ (ih h)

theorem find_of_mem {key : String} {l : List (String × α)} {v : α}
    (hnodup : (l.map Prod.fst).Nodup) (h : (key, v) ∈ l) : find key l = some v := by
  induction l with
  | nil => cases h
  | cons p rest ih =>
      rcases p with ⟨k, w⟩
      rw [List.map_cons, List.nodup_cons] at hnodup
      unfold find
      rcases List.mem_cons.mp h with heq | hrest
      · cases heq
        rw [if_pos rfl]
      · have hne : k ≠ key := by
          intro hk
          rw [hk] at hnodup
          exact hnodup.1 (List.mem_map.mpr ⟨(key, v), hrest, rfl⟩)
        rw [if_neg hne]
        exact ih hnodup.2 hrest

theorem exists_split_of_find {key : String} {l : List (String × α)} {v : α}
    (h : find key l = some v) :
    ∃ front back, l = front ++ (key, v) :: back ∧
      ∀ w, place key w l = front ++ (key, w) :: back := by
  induction l with
  | nil => cases h
  | cons p rest ih =>
      rcases p with ⟨k, u⟩
      unfold find at h
      by_cases hk : k = key
      · rw [if_pos hk] at h
        cases h
        refine ⟨[], rest, by rw [hk]; rfl, ?_⟩
        intro w
        simp [place, hk]
      · rw [if_neg hk] at h
        rcases ih h with ⟨front, back, hl, hplace⟩
        refine ⟨(k, u) :: front, back, by rw [hl]; rfl, ?_⟩
        intro w
        simp [place, hk, hplace w]

theorem place_of_find_none {key : String} {l : List (String × α)}
    (h : find key l = none) (v : α) : place key v l = l ++ [(key, v)] := by
  induction l with
  | nil => rfl
  | cons p rest ih =>
      rcases p with ⟨k, u⟩
      unfold find at h
      by_cases hk : k = key
      · rw [if_pos hk] at h
        cases h
      · rw [if_neg hk] at h
        simp [place, hk, ih h]

theorem not_mem_keys_of_find_none {key : String} {l : List (String × α)}
    (h : find key l = none) : key ∉ l.map Prod.fst := by
  induction l with
  | nil => simp
  | cons p rest ih =>
      rcases p with ⟨k, u⟩
      unfold find at h
      by_cases hk : k = key
      · rw [if_pos hk] at h
        cases h
      · rw [if_neg hk] at h
        have hne : key ≠ k := fun heq => hk heq.symm
        simpa [hne] using ih h

end Keyed

namespace Memory

/-!
## Stores whose two views agree
-/

/-- The entries of a store are kept under the ids of their records and stand in the order of first
saves, which counts from zero. -/
structure Indexed (m : Memory) : Prop where
  nodup : (m.jobs.entries.map Prod.fst).Nodup
  ids : ∀ p ∈ m.jobs.entries, p.2.record.id = p.1
  order : m.order = m.jobs.entries.map fun p => (p.2.seq, p.1)
  seqs : m.jobs.entries.map (fun p => p.2.seq) = List.range m.jobs.entries.length
  next : m.nextSeq = m.jobs.entries.length

theorem indexed_empty : Indexed empty := by
  constructor <;> simp [empty, Keyed.empty]

theorem Indexed.lookup?_of_mem {m : Memory} (h : m.Indexed) {id : String} {e : Entry}
    (hmem : (id, e) ∈ m.jobs.entries) : m.lookup? id = some e :=
  Keyed.find_of_mem h.nodup hmem

theorem Indexed.record_id {m : Memory} (h : m.Indexed) {id : String} {e : Entry}
    (he : m.lookup? id = some e) : e.record.id = id :=
  h.ids (id, e) (Keyed.mem_of_find he)

theorem Indexed.pairwise_seq {m : Memory} (h : m.Indexed) :
    m.jobs.entries.Pairwise fun p q => p.2.seq < q.2.seq := by
  have hrange : (List.range m.jobs.entries.length).Pairwise (· < ·) := List.pairwise_lt_range
  rw [← h.seqs] at hrange
  exact List.pairwise_map.mp hrange

theorem Indexed.replace {m : Memory} (h : m.Indexed) {id : String} {e e' : Entry}
    (he : m.lookup? id = some e) (hseq : e'.seq = e.seq) (hid : e'.record.id = id) :
    (m.replace id e').Indexed := by
  rcases Keyed.exists_split_of_find he with ⟨front, back, hl, hplace⟩
  have hentries : (m.replace id e').jobs.entries = front ++ (id, e') :: back := hplace e'
  have hids := h.ids
  have hseqs := h.seqs
  have hnodup := h.nodup
  have horder := h.order
  rw [hl] at hids hseqs hnodup horder
  constructor
  · rw [hentries]
    simpa using hnodup
  · intro p hp
    rw [hentries] at hp
    rcases List.mem_append.mp hp with hfront | hback
    · exact hids p (List.mem_append_left _ hfront)
    · rcases List.mem_cons.mp hback with rfl | hback
      · exact hid
      · exact hids p (List.mem_append_right _ (List.mem_cons_of_mem _ hback))
  · rw [hentries]
    show m.order = _
    rw [horder]
    simp [hseq]
  · rw [hentries]
    simpa [hseq] using hseqs
  · rw [hentries]
    show m.nextSeq = _
    rw [h.next, hl]
    simp

theorem Indexed.append {m : Memory} (h : m.Indexed) {r : Record}
    (hnone : m.lookup? r.id = none) : (m.append r).Indexed := by
  have hentries : (m.append r).jobs.entries =
      m.jobs.entries ++ [(r.id, ⟨m.nextSeq, r, none⟩)] :=
    Keyed.place_of_find_none hnone _
  constructor
  · rw [hentries, List.map_append, List.map_cons, List.map_nil]
    have hnew := Keyed.not_mem_keys_of_find_none hnone
    refine List.nodup_append.mpr ⟨h.nodup, by simp, ?_⟩
    intro key hkey other hother heq
    rw [heq, List.mem_singleton.mp hother] at hkey
    exact hnew hkey
  · intro p hp
    rw [hentries] at hp
    rcases List.mem_append.mp hp with hold | hnew
    · exact h.ids p hold
    · rcases List.mem_singleton.mp hnew with rfl
      rfl
  · rw [hentries]
    show m.order ++ [(m.nextSeq, r.id)] = _
    rw [h.order]
    simp
  · rw [hentries]
    simp [h.seqs, h.next, List.range_succ]
  · rw [hentries]
    show m.nextSeq + 1 = _
    rw [h.next]
    simp

variable {β : Type} [Body β]

theorem Indexed.change {m m' : Memory} (h : m.Indexed) {lease : LeaseSettings}
    {now : Reading} {op : Operation β} (hchange : Change lease now op m m') :
    m'.Indexed := by
  cases hchange with
  | none => exact h
  | saved hj he hcheck => exact h.replace he rfl rfl
  | added hj hnone => exact h.append hnone
  | handed hmem heligible => exact h.replace (h.lookup?_of_mem hmem) rfl (h.ids _ hmem)
  | locked he _ | lockBroken he _ | unlocked he _ | unlockBroken he _ =>
      have hid := h.record_id he
      exact h.replace he rfl hid

end Memory

namespace Backend

/-!
## Backends that a run can reach
-/

variable {β : Type} [Body β]

def Reachable (registry : Registry β) (d : Discipline) (lease : LeaseSettings)
    (b : Backend β) : Prop :=
  ∃ past, b = (inMemory registry d lease).run past

/-- A backend that a run leads to is one with an indexed store in memory; registry, discipline and
settings are those it began with. -/
theorem run_onMemory (b : Backend β) (d : Discipline) {m : Memory} (hm : m.Indexed)
    (accesses : List (Access β)) :
    ∃ m', (b.onMemory d m).run accesses = b.onMemory d m' ∧ m'.Indexed := by
  induction accesses generalizing m with
  | nil => exact ⟨m, rfl, hm⟩
  | cons a rest ih =>
      rcases exists_change b d m a with ⟨m', hafter, hchange⟩
      rw [run_cons, hafter]
      exact ih (hm.change hchange)

theorem Reachable.exists_memory {registry : Registry β} {d : Discipline}
    {lease : LeaseSettings} {b : Backend β} (h : Reachable registry d lease b) :
    ∃ m, b = (inMemory registry d lease).onMemory d m ∧ m.Indexed := by
  rcases h with ⟨past, rfl⟩
  exact run_onMemory (inMemory registry d lease) d Memory.indexed_empty past

end Backend
end LeaseQueue
