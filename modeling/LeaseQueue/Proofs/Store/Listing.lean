import LeaseQueue.Proofs.Store.Index
/-!
# Lists and counts of all jobs

A list that is pulled to its end gives every job once: from a store in memory in
the order of the entries, and from a table in the order of the rows, however the
rows fall into pages. The counts of a list are those that a table makes in one
pass.
-/

namespace LeaseQueue

namespace Tally

/-!
## Counts
-/

def completedOf (l : List StatusInfo) : Nat := l.countP fun i => i.completed

def failedOf (l : List StatusInfo) : Nat := l.countP fun i => !i.completed && i.failed

def runningOf (l : List StatusInfo) : Nat :=
  l.countP fun i => !i.completed && !i.failed && i.inProgress

theorem counts_le_length (l : List StatusInfo) :
    completedOf l + failedOf l + runningOf l ≤ l.length := by
  induction l with
  | nil => exact Nat.le_refl 0
  | cons i rest ih =>
      unfold completedOf failedOf runningOf at *
      simp only [List.countP_cons, List.length_cons]
      cases i.completed <;> cases i.failed <;> cases i.inProgress <;> simp <;> omega

theorem foldl_record (l : List StatusInfo) (t : Tally) :
    l.foldl record t =
      ⟨t.total + l.length,
        t.pending + (l.length - (completedOf l + failedOf l + runningOf l)),
        t.running + runningOf l, t.completed + completedOf l, t.failed + failedOf l⟩ := by
  induction l generalizing t with
  | nil => rfl
  | cons i rest ih =>
      have hle := counts_le_length rest
      rw [List.foldl_cons, ih]
      unfold completedOf failedOf runningOf record at *
      simp only [List.countP_cons, List.length_cons]
      cases i.completed <;> cases i.failed <;> cases i.inProgress <;> simp <;> omega

theorem ofInfos_eq (l : List StatusInfo) :
    ofInfos l =
      ⟨l.length, l.length - (completedOf l + failedOf l + runningOf l),
        runningOf l, completedOf l, failedOf l⟩ := by
  unfold ofInfos zero
  rw [foldl_record]
  simp

end Tally

namespace Memory

/-!
## Lists of a store in memory
-/

/-- The walk along the order skips the places before the cursor. -/
theorem infoFrom_eq {m : Memory} {l : List (String × Entry)} {first cursor : Nat}
    (hentries : ∀ p ∈ l, m.lookup? p.1 = some p.2)
    (hseqs : l.map (fun p => p.2.seq) = List.range' first l.length)
    (hfirst : first ≤ cursor) :
    m.infoFrom cursor (l.map fun p => (p.2.seq, p.1)) =
      l[cursor - first]?.map fun p => (.ofRecord p.2.record, cursor + 1) := by
  induction l generalizing first with
  | nil => rfl
  | cons p rest ih =>
      rw [List.map_cons, List.length_cons, List.range'_succ, List.cons.injEq] at hseqs
      rw [List.map_cons]
      unfold infoFrom
      by_cases hskip : p.2.seq < cursor
      · rw [if_pos hskip,
          ih (fun q hq => hentries q (List.mem_cons_of_mem p hq)) hseqs.2 (by omega)]
        have hsub : cursor - first = (cursor - (first + 1)) + 1 := by omega
        rw [hsub, List.getElem?_cons_succ]
      · have hcursor : cursor = first := by omega
        rw [if_neg hskip]
        simp only [hentries p List.mem_cons_self]
        rw [hcursor, Nat.sub_self, hseqs.1]
        rfl

theorem Indexed.pull_eq {m : Memory} (hm : m.Indexed) (cursor : Nat) :
    m.pull cursor =
      m.jobs.entries[cursor]?.map fun p => (.ofRecord p.2.record, cursor + 1) := by
  unfold pull
  rw [hm.order]
  refine infoFrom_eq (fun p hp => hm.lookup?_of_mem hp) ?_ (Nat.zero_le cursor)
  rw [hm.seqs, List.range_eq_range']

end Memory

namespace Backend

variable {β : Type}

theorem pullAll_onMemory (b : Backend β) (d : Discipline) {m : Memory} (hm : m.Indexed)
    (fuel cursor : Nat) :
    (b.onMemory d m).pullAll fuel (.memory cursor) =
      ((m.jobs.entries.drop cursor).take fuel).map fun p => .ofRecord p.2.record := by
  induction fuel generalizing cursor with
  | zero => rfl
  | succ fuel ih =>
      unfold pullAll pull
      simp only [onMemory, Bool.false_eq_true, if_false]
      rw [hm.pull_eq]
      by_cases hlt : cursor < m.jobs.entries.length
      · rw [List.getElem?_eq_getElem hlt, List.drop_eq_getElem_cons hlt]
        exact congrArg _ (ih (cursor + 1))
      · have hle : m.jobs.entries.length ≤ cursor := Nat.le_of_not_lt hlt
        rw [List.getElem?_eq_none hle, List.drop_of_length_le hle]
        rfl

theorem order_length {m : Memory} (hm : m.Indexed) :
    m.order.length = m.jobs.entries.length := by
  rw [hm.order, List.length_map]

theorem infos_onMemory (b : Backend β) (d : Discipline) {m : Memory} (hm : m.Indexed) :
    (b.onMemory d m).infos false =
      m.jobs.entries.map fun p => .ofRecord p.2.record := by
  show (b.onMemory d m).pullAll m.order.length (.memory 0) = _
  rw [pullAll_onMemory b d hm, order_length hm, List.drop_zero, List.take_length]

theorem tally_onMemory (b : Backend β) (d : Discipline) {m : Memory} (hm : m.Indexed) :
    (b.onMemory d m).tally false =
      .ofInfos (m.jobs.entries.map fun p => .ofRecord p.2.record) :=
  congrArg Tally.ofInfos (infos_onMemory b d hm)

end Backend

/-!
## Lists of a table
-/

namespace Table

/-- The rows stand in the order in which they were made. -/
def InOrder (t : Table) : Prop := t.rows.Pairwise fun r s => r.seq < s.seq

def infos (t : Table) : List StatusInfo := t.rows.map fun r => .ofRecord r.record

theorem tally_eq (t : Table) : t.tally = .ofInfos t.infos := by
  rw [Tally.ofInfos_eq]
  unfold tally infos Tally.completedOf Tally.failedOf Tally.runningOf
  simp only [List.countP_map, List.length_map]
  rfl

variable {t : Table}

theorem InOrder.page_eq (ht : t.InOrder) (limit start : Nat) :
    t.page limit start = (t.infos.drop start).take limit := by
  have hsorted : t.rows.mergeSort Row.listedBefore = t.rows := by
    refine List.mergeSort_of_pairwise (ht.imp ?_)
    intro r s hlt
    simp [Row.listedBefore, hlt]
  unfold page infos
  rw [hsorted, List.map_take, List.map_drop]

end Table

namespace PageCursor

/-- What is left of a list: of the page read last, and of the rows after it. -/
def rest (c : PageCursor) (t : Table) : List StatusInfo := c.buffer ++ t.infos.drop c.start

def Sound (c : PageCursor) (t : Table) : Prop :=
  c.exhausted = true → t.infos.length ≤ c.start

variable {t : Table}

theorem pull_cases (ht : t.InOrder) {c : PageCursor} (hc : c.Sound t) :
    (c.pull t = none ∧ c.rest t = []) ∨
      ∃ i c', c.pull t = some (i, c') ∧ c.rest t = i :: c'.rest t ∧ c'.Sound t := by
  rcases c with ⟨start, buffer, exhausted⟩
  unfold pull rest
  cases buffer with
  | cons i buffer => exact Or.inr ⟨i, ⟨start, buffer, exhausted⟩, rfl, rfl, hc⟩
  | nil =>
      cases exhausted with
      | true => exact Or.inl ⟨rfl, List.drop_of_length_le (hc rfl)⟩
      | false =>
          simp only [Bool.false_eq_true, if_false, ht.page_eq, List.nil_append]
          cases hpage : (t.infos.drop start).take Table.pageSize with
          | nil =>
              have hdrop : t.infos.drop start = [] :=
                (List.take_eq_nil_iff.mp hpage).resolve_left (by decide)
              exact Or.inl ⟨rfl, hdrop⟩
          | cons i buffer =>
              have hlength := congrArg List.length hpage
              have hsplit := List.take_append_drop Table.pageSize (t.infos.drop start)
              rw [List.length_take, List.length_drop] at hlength
              rw [hpage, List.drop_drop] at hsplit
              have hafter : t.infos.drop (start + (i :: buffer).length) =
                  t.infos.drop (start + Table.pageSize) := by
                by_cases hfull : Table.pageSize ≤ t.infos.length - start
                · rw [← hlength, Nat.min_eq_left hfull]
                · rw [List.drop_of_length_le (by omega), List.drop_of_length_le (by omega)]
              refine Or.inr ⟨i, _, rfl, ?_, ?_⟩
              · show t.infos.drop start = i :: (buffer ++ t.infos.drop (start + (i :: buffer).length))
                rw [hafter, ← hsplit]
                rfl
              · intro hshort
                have hlt : (i :: buffer).length < Table.pageSize := of_decide_eq_true hshort
                show t.infos.length ≤ start + (i :: buffer).length
                omega

end PageCursor

namespace Backend

variable {β : Type}

def onTable (b : Backend β) (settings : TableSettings) (t : Table) (lastSeq : Int) : Backend β :=
  { b with storage := .table settings (some t) lastSeq }

variable (b : Backend β) (settings : TableSettings) {t : Table} (lastSeq : Int)

theorem pullAll_onTable (ht : t.InOrder) (fuel : Nat) {c : PageCursor} (hc : c.Sound t) :
    (b.onTable settings t lastSeq).pullAll fuel (.table c) = (c.rest t).take fuel := by
  induction fuel generalizing c with
  | zero => rfl
  | succ fuel ih =>
      unfold pullAll Backend.pull
      simp only [onTable, Bool.false_eq_true, if_false]
      rcases c.pull_cases ht hc with ⟨hpull, hrest⟩ | ⟨i, c', hpull, hrest, hc'⟩
      · rw [hpull, hrest]
        rfl
      · rw [hpull, hrest]
        exact congrArg _ (ih hc')

theorem infos_onTable (ht : t.InOrder) :
    (b.onTable settings t lastSeq).infos false = t.infos := by
  show (b.onTable settings t lastSeq).pullAll t.rows.length (.table .first) = _
  rw [pullAll_onTable b settings lastSeq ht t.rows.length (c := .first) (fun h => nomatch h)]
  show (t.infos.drop 0).take t.rows.length = t.infos
  have hlength : t.rows.length = t.infos.length := (List.length_map _).symm
  rw [List.drop_zero, hlength, List.take_length]

end Backend
end LeaseQueue
