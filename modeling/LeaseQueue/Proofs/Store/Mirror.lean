import Mathlib.Data.List.Forall2
import LeaseQueue.Proofs.Job.Lock
import LeaseQueue.Proofs.Store.Statements
/-!
# Tables that mirror stores in memory

A table mirrors a store in memory when its rows stand for the entries one by one,
in the same order. Each operation takes a pair of mirrors to a pair of mirrors:
the condition of its statement holds for a row when the predicate in memory holds
for the entry.
-/

namespace LeaseQueue

/-- The table's clock in milliseconds and the store's in nanoseconds show the same time, which is
not before the time `clock` of an earlier reading. -/
structure Follows (lease : LeaseSettings) (offset : Int) (clock : Nat) (now : Reading) :
    Prop where
  fits : lease.Fits now.wall
  lockstep : (now.ticks : Int) = now.wall.total + offset
  past : clock ≤ now.ticks

theorem Follows.handedAs {lease : LeaseSettings} {offset : Int} {clock : Nat} {now : Reading}
    (h : Follows lease offset clock now) :
    HandedAs offset (some now.ticks) now.wall.millis := by
  show (now.ticks : Int) = now.wall.millis * nanosPerMilli + offset
  rw [h.lockstep, h.fits.onMilli.total_eq]

structure Mirrored (offset : Int) (clock : Nat) (p : String × Entry) (r : Row) : Prop where
  id : r.id = p.1
  record : r.record = p.2.record
  leased : r.leaseMillis = Row.leaseOf p.2.record.status
  handed : HandedAs offset p.2.dispatchedAt r.dispatchedMillis
  past : ∀ t, p.2.dispatchedAt = some t → t ≤ clock
  exact : p.2.record.status.Exact

/-- A table stands for a store in memory. -/
structure Mirrors (offset : Int) (clock : Nat) (m : Memory) (t : Table) (lastSeq : Int) :
    Prop where
  indexed : m.Indexed
  rows : List.Forall₂ (Mirrored offset clock) m.jobs.entries t.rows
  inOrder : t.InOrder
  last : ∀ r ∈ t.rows, r.seq ≤ lastSeq

theorem mirrors_empty (offset : Int) : Mirrors offset 0 .empty .empty 0 where
  indexed := Memory.indexed_empty
  rows := .nil
  inOrder := .nil
  last := by simp [Table.empty]

section

variable {offset : Int} {clock clock' : Nat}
variable {p : String × Entry} {r : Row}
variable {m : Memory} {t : Table} {lastSeq : Int}

theorem Mirrored.later (h : Mirrored offset clock p r) (hclock : clock ≤ clock') :
    Mirrored offset clock' p r :=
  { h with past := fun t ht => Nat.le_trans (h.past t ht) hclock }

theorem Mirrors.later (h : Mirrors offset clock m t lastSeq) (hclock : clock ≤ clock') :
    Mirrors offset clock' m t lastSeq :=
  { h with rows := h.rows.imp fun _ _ hrow => hrow.later hclock }

/-!
## Looking a job up
-/

theorem find_mirrored {l : List (String × Entry)} {rows : List Row}
    (h : List.Forall₂ (Mirrored offset clock) l rows) (id : String) :
    (Keyed.find id l = none ∧ rows.find? (fun r => r.id = id) = none) ∨
      ∃ e r, Keyed.find id l = some e ∧ rows.find? (fun r => r.id = id) = some r ∧
        Mirrored offset clock (id, e) r := by
  induction h with
  | nil => exact Or.inl ⟨rfl, rfl⟩
  | @cons p r l rows hrow _ ih =>
      rcases p with ⟨key, e⟩
      by_cases hkey : key = id
      · have hid : r.id = id := hrow.id.trans hkey
        refine Or.inr ⟨e, r, ?_, ?_, hkey ▸ hrow⟩
        · simp [Keyed.find, hkey]
        · simp [hid]
      · have hid : ¬ r.id = id := fun hid => hkey (hrow.id.symm.trans hid)
        simpa [Keyed.find, hkey, hid] using ih

theorem Mirrors.lookup (h : Mirrors offset clock m t lastSeq) (id : String) :
    (m.lookup? id = none ∧ t.select id = none) ∨
      ∃ e r, m.lookup? id = some e ∧ t.select id = some r ∧ Mirrored offset clock (id, e) r :=
  find_mirrored h.rows id

theorem infos_mirrored {l : List (String × Entry)} {rows : List Row}
    (h : List.Forall₂ (Mirrored offset clock) l rows) :
    rows.map (fun r => StatusInfo.ofRecord r.record) =
      l.map fun p => StatusInfo.ofRecord p.2.record := by
  induction h with
  | nil => rfl
  | cons hrow _ ih => rw [List.map_cons, List.map_cons, ih, hrow.record]

/-!
## Changing a job
-/

theorem map_mirrored_of_not_mem {l : List (String × Entry)} {rows : List Row}
    (h : List.Forall₂ (Mirrored offset clock) l rows) {id : String}
    (hid : id ∉ l.map Prod.fst) (change : Row → Row) :
    rows.map (fun r => if r.id = id then change r else r) = rows := by
  induction h with
  | nil => rfl
  | cons hrow _ ih =>
      rw [List.map_cons, List.mem_cons, not_or] at hid
      rw [List.map_cons, ih hid.2, if_neg (fun heq => hid.1 (heq.symm.trans hrow.id))]

theorem place_mirrored {l : List (String × Entry)} {rows : List Row}
    (h : List.Forall₂ (Mirrored offset clock) l rows) (hnodup : (l.map Prod.fst).Nodup)
    {id : String} {e e' : Entry} (he : Keyed.find id l = some e) {change : Row → Row}
    (hchange : ∀ r, Mirrored offset clock (id, e) r →
      Mirrored offset clock (id, e') (change r)) :
    List.Forall₂ (Mirrored offset clock) (Keyed.place id e' l)
      (rows.map fun r => if r.id = id then change r else r) := by
  induction h with
  | nil => cases he
  | @cons p r l rows hrow hrest ih =>
      rcases p with ⟨key, e₀⟩
      rw [List.map_cons, List.nodup_cons] at hnodup
      unfold Keyed.find at he
      by_cases hkey : key = id
      · have hid : r.id = id := hrow.id.trans hkey
        rw [if_pos hkey] at he
        cases he
        rw [List.map_cons, if_pos hid,
          map_mirrored_of_not_mem hrest (hkey ▸ hnodup.1) change]
        unfold Keyed.place
        rw [if_pos hkey]
        exact .cons (hchange r (hkey ▸ hrow)) hrest
      · have hid : ¬ r.id = id := fun hid => hkey (hrow.id.symm.trans hid)
        rw [if_neg hkey] at he
        rw [List.map_cons, if_neg hid]
        unfold Keyed.place
        rw [if_neg hkey]
        exact .cons hrow (ih hnodup.2 he)

theorem Mirrors.change (h : Mirrors offset clock m t lastSeq) {id : String} {e e' : Entry}
    (he : m.lookup? id = some e) (hseq : e'.seq = e.seq) (hid : e'.record.id = id)
    {change : Row → Row} (hkeeps : ∀ r, (change r).seq = r.seq)
    (hchange : ∀ r, Mirrored offset clock (id, e) r →
      Mirrored offset clock (id, e') (change r)) :
    Mirrors offset clock (m.replace id e') (t.change id change) lastSeq := by
  have hplace : ∀ r, (if r.id = id then change r else r).seq = r.seq := by
    intro r
    split
    · exact hkeeps r
    · rfl
  refine ⟨h.indexed.replace he hseq hid, place_mirrored h.rows h.indexed.nodup he hchange, ?_, ?_⟩
  · refine List.pairwise_map.mpr (h.inOrder.imp ?_)
    intro r s hlt
    rw [hplace, hplace]
    exact hlt
  · intro r hr
    rcases List.mem_map.mp hr with ⟨r₀, hr₀, rfl⟩
    rw [hplace]
    exact h.last r₀ hr₀

theorem Mirrors.append (h : Mirrors offset clock m t lastSeq) {record : Record}
    (hnone : m.lookup? record.id = none) (hstatus : record.status.Exact) {seq : Int}
    (hseq : lastSeq < seq) :
    Mirrors offset clock (m.append record)
      (t.append ⟨record.id, seq, Row.leaseOf record.status, 0, record⟩) seq := by
  have hentries : (m.append record).jobs.entries =
      m.jobs.entries ++ [(record.id, ⟨m.nextSeq, record, none⟩)] :=
    Keyed.place_of_find_none hnone _
  refine ⟨h.indexed.append hnone, ?_, ?_, ?_⟩
  · rw [hentries]
    exact List.rel_append h.rows
      (.cons ⟨rfl, rfl, rfl, rfl, (fun _ ht => nomatch ht), hstatus⟩ .nil)
  · refine List.pairwise_append.mpr ⟨h.inOrder, List.pairwise_singleton _ _, ?_⟩
    intro r hr s hs
    rcases List.mem_singleton.mp hs with rfl
    exact Int.lt_of_le_of_lt (h.last r hr) hseq
  · intro r hr
    rcases List.mem_append.mp hr with hold | hnew
    · exact Int.le_of_lt (Int.lt_of_le_of_lt (h.last r hold) hseq)
    · rcases List.mem_singleton.mp hnew with rfl
      exact Int.le_refl _

/-!
## The job that is handed out next
-/

theorem Row.handedBefore_trans (a b c : Row) (hab : a.handedBefore b = true)
    (hbc : b.handedBefore c = true) : a.handedBefore c = true := by
  simp only [handedBefore, Bool.or_eq_true, Bool.and_eq_true, decide_eq_true_eq] at *
  omega

theorem Row.handedBefore_total (a b : Row) : (a.handedBefore b || b.handedBefore a) = true := by
  simp only [handedBefore, Bool.or_eq_true, Bool.and_eq_true, decide_eq_true_eq]
  omega

theorem head?_mergeSort_cons (r : Row) (rows : List Row) :
    ((r :: rows).mergeSort Row.handedBefore).head? =
      some (match (rows.mergeSort Row.handedBefore).head? with
        | none => r
        | some s => if r.handedBefore s then r else s) := by
  have hsorted := List.pairwise_mergeSort Row.handedBefore_trans Row.handedBefore_total (r :: rows)
  rcases List.mergeSort_cons Row.handedBefore_trans Row.handedBefore_total r rows with
    ⟨front, back, hwith, hwithout, hfront⟩
  rw [hwith] at hsorted ⊢
  rw [hwithout]
  cases front with
  | nil =>
      cases back with
      | nil => rfl
      | cons s back =>
          have hbefore : r.handedBefore s = true :=
            List.rel_of_pairwise_cons hsorted List.mem_cons_self
          simp [hbefore]
  | cons s front =>
      have hafter : (!r.handedBefore s) = true := hfront s List.mem_cons_self
      have hafter' : r.handedBefore s = false := by simpa using hafter
      simp [hafter']

theorem keyBefore_eq {q : String × Entry} {s : Row} (hp : Mirrored offset clock p r)
    (hq : Mirrored offset clock q s) (hseq : p.2.seq < q.2.seq) (hrow : r.seq < s.seq) :
    Discipline.keyBefore (Memory.keyOf .byPriority q.2) (Memory.keyOf .byPriority p.2) =
      !r.handedBefore s := by
  rw [Bool.eq_iff_iff, keyBefore_iff]
  unfold Row.handedBefore
  rw [hp.record, hq.record]
  simp only [Memory.keyOf, Discipline.key, Bool.not_eq_true', Bool.or_eq_false_iff,
    Bool.and_eq_false_iff, decide_eq_false_iff_not]
  omega

theorem least_mirrored {l : List (String × Entry)} {rows : List Row}
    (h : List.Forall₂ (Mirrored offset clock) l rows)
    (hentries : l.Pairwise fun p q => p.2.seq < q.2.seq)
    (hrows : rows.Pairwise fun r s => r.seq < s.seq) :
    Option.Rel (Mirrored offset clock) (Memory.least .byPriority l)
      (rows.mergeSort Row.handedBefore).head? := by
  induction h with
  | nil =>
      rw [List.mergeSort_nil]
      exact .none
  | @cons p r l rows hrow hrest ih =>
      have ih' := ih hentries.of_cons hrows.of_cons
      rw [head?_mergeSort_cons]
      unfold Memory.least
      cases hq : Memory.least .byPriority l with
      | none =>
          rw [hq] at ih'
          cases hs : (rows.mergeSort Row.handedBefore).head? with
          | none => exact .some hrow
          | some s =>
              rw [hs] at ih'
              cases ih'
      | some q =>
          rw [hq] at ih'
          cases hs : (rows.mergeSort Row.handedBefore).head? with
          | none =>
              rw [hs] at ih'
              cases ih'
          | some s =>
              rw [hs] at ih'
              cases ih' with
              | some hqs =>
                  have hseq : p.2.seq < q.2.seq :=
                    List.rel_of_pairwise_cons hentries (Memory.least_mem hq)
                  have hmem : s ∈ rows :=
                    List.mem_mergeSort.mp (List.mem_of_mem_head? hs)
                  have hrowseq : r.seq < s.seq := List.rel_of_pairwise_cons hrows hmem
                  simp only [keyBefore_eq hrow hqs hseq hrowseq]
                  cases r.handedBefore s with
                  | true => exact .some hrow
                  | false => exact .some hqs

variable {lease : LeaseSettings} {now : Reading}

theorem Mirrored.isEligible_eq (h : Mirrored offset clock p r)
    (hnow : Follows lease offset clock now) :
    Memory.isEligible p.2 now lease =
      Table.mayHandOut (Table.liveAfter lease now.wall) (Table.dispatchAfter lease now.wall) r := by
  have hpast : ∀ t, p.2.dispatchedAt = some t → t ≤ now.ticks :=
    fun t ht => Nat.le_trans (h.past t ht) hnow.past
  unfold Memory.isEligible Table.mayHandOut Row.status Status.isFinished
  rw [h.exact.isLive_eq hnow.fits, h.handed.windowPassed_eq hnow.fits hnow.lockstep hpast,
    h.record, h.leased, Bool.not_or, Bool.not_and, Bool.not_not]

theorem Mirrors.candidate (h : Mirrors offset clock m t lastSeq)
    (hnow : Follows lease offset clock now) :
    Option.Rel (Mirrored offset clock) (m.candidate? .byPriority now lease)
      (t.candidate (Table.liveAfter lease now.wall) (Table.dispatchAfter lease now.wall)) := by
  refine least_mirrored (List.rel_filter ?_ h.rows) (h.indexed.pairwise_seq.filter _) (h.inOrder.filter _)
  intro p r hrow
  simp only [hrow.isEligible_eq hnow]

theorem Mirrors.next (h : Mirrors offset clock m t lastSeq)
    (hnow : Follows lease offset clock now) :
    (m.next .byPriority now lease = none ∧ t.next lastSeq lease now.wall = none) ∨
      ∃ record m' t', m.next .byPriority now lease = some (record, m') ∧
        t.next lastSeq lease now.wall = some (record, t', lastSeq) ∧
        Mirrors offset now.ticks m' t' lastSeq := by
  have hrel := h.candidate hnow
  unfold Memory.next
  rw [Table.next_eq]
  cases hm : m.candidate? .byPriority now lease with
  | none =>
      rw [hm] at hrel
      cases ht : t.candidate (Table.liveAfter lease now.wall)
          (Table.dispatchAfter lease now.wall) with
      | none => exact Or.inl ⟨rfl, rfl⟩
      | some r =>
          rw [ht] at hrel
          cases hrel
  | some p =>
      rcases p with ⟨id, e⟩
      rw [hm] at hrel
      cases ht : t.candidate (Table.liveAfter lease now.wall)
          (Table.dispatchAfter lease now.wall) with
      | none =>
          rw [ht] at hrel
          cases hrel
      | some r =>
          rw [ht] at hrel
          cases hrel with
          | some hrow =>
              have hmem := (Memory.candidate?_cases hm).1
              have he := h.indexed.lookup?_of_mem hmem
              have hid : e.record.id = id := h.indexed.ids (id, e) hmem
              rcases h.lookup id with ⟨hnone, -⟩ | ⟨e', r', he', hr', hrow'⟩
              · rw [he] at hnone
                cases hnone
              · rw [he] at he'
                cases he'
                have hseen : r'.dispatchedMillis = r.dispatchedMillis :=
                  hrow'.handed.unique hrow.handed
                have hclaim : t.claim r.id r.dispatchedMillis now.wall.millis =
                    some (t.change id (Row.handedAt now.wall.millis)) := by
                  unfold Table.claim
                  rw [hrow.id, Table.updateWhere_eq hr', hseen]
                  simp
                  rfl
                rcases Table.claim_cases hclaim with ⟨r₁, hr₁, -, -, hselect⟩
                rw [hrow.id, hr'] at hr₁
                cases hr₁
                refine Or.inr ⟨e.record, m.replace id { e with dispatchedAt := some now.ticks },
                  t.change id (Row.handedAt now.wall.millis), rfl, ?_, ?_⟩
                · rw [Option.bind_some, hclaim, Option.bind_some, hselect]
                  show some (r'.record, _, lastSeq) = _
                  rw [hrow'.record]
                · refine (h.later hnow.past).change he ?_ ?_ ?_ ?_
                  · rfl
                  · exact hid
                  · intro r₀
                    rfl
                  · intro r₀ hrow₀
                    exact { hrow₀ with
                      handed := hnow.handedAs
                      past := fun t ht => Nat.le_of_eq (Option.some.inj ht).symm }

/-!
## Locks
-/

variable {id owner : String}

theorem Mirrored.canLock_eq (h : Mirrored offset clock p r)
    (hnow : Follows lease offset clock now) :
    p.2.record.status.canLock owner now.wall lease.lockTimeout =
      (!r.status.completed && !r.status.failed &&
        (!r.status.inProgress || r.status.owner = owner ||
          r.leaseMillis ≤ Table.liveAfter lease now.wall)) := by
  unfold Status.canLock Status.isFinished Row.status
  rw [h.exact.isLive_eq hnow.fits, h.record, h.leased, Bool.eq_iff_iff]
  cases p.2.record.status.inProgress <;> simp [and_assoc]

theorem Mirrored.lockRow {e : Entry} {inProgress : Bool}
    (h : Mirrored offset clock (id, e) r) (hnow : now.wall.OnMilli)
    (howner : inProgress = true → owner ≠ "") :
    Mirrored offset clock
      (id, { e with record :=
        e.record.withStatus (Table.changeLock e.record.status inProgress owner now.wall) })
      (Table.lockRow inProgress owner now.wall r) where
  id := h.id
  record := by
    have hrecord : r.record = e.record := h.record
    simp [Table.lockRow, Row.status, hrecord]
  leased := rfl
  handed := h.handed
  past := h.past
  exact := Status.exact_changeLock hnow howner

theorem Mirrors.changeLock (h : Mirrors offset clock m t lastSeq)
    (hnow : Follows lease offset clock now) {e : Entry} (he : m.lookup? id = some e)
    {inProgress : Bool} (howner : inProgress = true → owner ≠ "") :
    Mirrors offset now.ticks
      (m.setStatus id e (Table.changeLock e.record.status inProgress owner now.wall))
      (t.change id (Table.lockRow inProgress owner now.wall)) lastSeq := by
  refine (h.later hnow.past).change he ?_ ?_ ?_ ?_
  · rfl
  · have hid := h.indexed.record_id he
    exact hid
  · intro r₀
    rfl
  · intro r₀ hrow₀
    exact hrow₀.lockRow hnow.fits.onMilli howner

/-- No count of changes of a lock is greater than what a column holds. -/
def Memory.CountsFit (m : Memory) : Prop :=
  ∀ id e, m.lookup? id = some e → (e.record.status.modCount.toNat : Int) ≤ maxColumn

theorem Memory.CountsFit.lt_last (h : m.CountsFit) {e : Entry} (he : m.lookup? id = some e) :
    e.record.status.modCount.toNat < maxUInt64 := by
  have hle := h id e he
  rw [maxColumn] at hle
  rw [maxUInt64]
  omega

theorem Memory.CountsFit.lt_of_raised (h : m.CountsFit) {e : Entry} (he : m.lookup? id = some e)
    {s : Status} (hs : s.modCount = e.record.status.modCount + 1)
    (hafter : (m.setStatus id e s).CountsFit) :
    (e.record.status.modCount.toNat : Int) < maxColumn := by
  have hlookup : (m.setStatus id e s).lookup? id =
      some { e with record := e.record.withStatus s } := by
    show (m.replace id _).lookup? id = _
    rw [lookup?_replace, if_pos rfl]
  have hle : (s.modCount.toNat : Int) ≤ maxColumn := hafter id _ hlookup
  have hlt := UInt64.lt_iff_toNat_lt.mp (Status.modCount_lt_succ (h.lt_last he))
  rw [← hs] at hlt
  omega

theorem Mirrors.lock (h : Mirrors offset clock m t lastSeq)
    (hnow : Follows lease offset clock now) (howner : owner ≠ "") (hfits : m.CountsFit)
    (hafter : ∀ m', m.lock id owner now.wall lease.lockTimeout = .made m' → m'.CountsFit) :
    (∃ err, m.lock id owner now.wall lease.lockTimeout = .refused err ∧
      t.lock lastSeq lease id owner now.wall = .error err) ∨
    ∃ m' t', m.lock id owner now.wall lease.lockTimeout = .made m' ∧
      t.lock lastSeq lease id owner now.wall = .ok (t', lastSeq) ∧
      Mirrors offset now.ticks m' t' lastSeq := by
  rw [Table.lock_eq]
  unfold Table.lockWhere
  rcases h.lookup id with ⟨he, hr⟩ | ⟨e, r, he, hr, hrow⟩
  · refine Or.inl ⟨.notFound id, by simp only [Memory.lock, he], ?_⟩
    simp only [Table.turnWhere, hr, Table.answered, Table.explain]
    rfl
  · have hstatus : r.status = e.record.status := congrArg Record.status hrow.record
    have hcan : e.record.status.canLock owner now.wall lease.lockTimeout = _ :=
      hrow.canLock_eq hnow
    rw [Table.turnWhere_eq hr, ← hcan, hstatus]
    cases hfree : e.record.status.canLock owner now.wall lease.lockTimeout with
    | true =>
        have hlock : m.lock id owner now.wall lease.lockTimeout = .made
            (m.setStatus id e (Table.changeLock e.record.status true owner now.wall)) := by
          simp only [Memory.lock, he, Status.lock_of_room hfree (hfits.lt_last he)]
          rfl
        have hroom := hfits.lt_of_raised he rfl (hafter _ hlock)
        refine Or.inr ⟨_, _, hlock, ?_, h.changeLock hnow he (fun _ => howner)⟩
        rw [if_pos rfl, if_neg (Int.not_le.mpr hroom)]
        rfl
    | false =>
        refine Or.inl ⟨_, by simp only [Memory.lock, he, Status.lock_of_not_canLock hfree]; rfl, ?_⟩
        rw [if_neg Bool.false_ne_true]
        simp only [Table.answered, Table.explain, hr, hstatus, Bool.false_and, Bool.false_eq_true,
          if_false]
        cases e.record.status.completed <;> cases e.record.status.failed <;> rfl

theorem Memory.replace_self {e : Entry} (he : m.lookup? id = some e) : m.replace id e = m := by
  rcases Keyed.exists_split_of_find he with ⟨front, back, hentries, hplace⟩
  have hjobs : m.jobs.put id e = m.jobs := by
    unfold Keyed.put
    rw [hplace e, ← hentries]
  unfold replace
  rw [hjobs]

/-- A lock is released in both, or stays in both; the reason that is given may be another one. -/
theorem Mirrors.unlock (h : Mirrors offset clock m t lastSeq)
    (hnow : Follows lease offset clock now) (hfits : m.CountsFit)
    (hafter : ∀ m', m.unlock id owner now.wall = .made m' → m'.CountsFit) :
    (∃ err, m.unlock id owner now.wall = .refused err ∧
      t.unlock lastSeq lease id owner now.wall = .error err) ∨
    (∃ c c', m.unlock id owner now.wall = .refused (.lock c) ∧
      t.unlock lastSeq lease id owner now.wall = .error (.lock c')) ∨
    ∃ m' t', m.unlock id owner now.wall = .made m' ∧
      t.unlock lastSeq lease id owner now.wall = .ok (t', lastSeq) ∧
      Mirrors offset now.ticks m' t' lastSeq := by
  rw [Table.unlock_eq]
  unfold Table.unlockWhere
  rcases h.lookup id with ⟨he, hr⟩ | ⟨e, r, he, hr, hrow⟩
  · refine Or.inl ⟨.notFound id, by simp only [Memory.unlock, he], ?_⟩
    simp only [Table.turnWhere, hr, Table.answered, Table.explain]
    rfl
  · have hstatus : r.status = e.record.status := congrArg Record.status hrow.record
    rw [Table.turnWhere_eq hr, hstatus]
    cases hbusy : e.record.status.inProgress with
    | false =>
        have hself : m.setStatus id e e.record.status = m := Memory.replace_self he
        have hunlock : m.unlock id owner now.wall = .made m := by
          simp only [Memory.unlock, he, Status.unlock, hbusy]
          exact congrArg LockChange.made hself
        refine Or.inr (Or.inr ⟨_, _, hunlock, ?_, h.later hnow.past⟩)
        simp only [Bool.false_and, Bool.false_eq_true, if_false, Table.answered, Table.explain, hr,
          hstatus, hbusy]
        rfl
    | true =>
        by_cases howner : e.record.status.owner = owner
        · have hunlock : m.unlock id owner now.wall = .made
              (m.setStatus id e (Table.changeLock e.record.status false "" now.wall)) := by
            simp only [Memory.unlock, he, Status.unlock_of_room hbusy howner (hfits.lt_last he)]
            rfl
          have hroom := hfits.lt_of_raised he rfl (hafter _ hunlock)
          have hfree : Mirrors offset now.ticks
              (m.setStatus id e (Table.changeLock e.record.status false "" now.wall))
              (t.change id (Table.lockRow false "" now.wall)) lastSeq :=
            h.changeLock hnow he (fun hheld => absurd hheld Bool.false_ne_true)
          refine Or.inr (Or.inr ⟨_, _, hunlock, ?_, hfree⟩)
          simp only [howner, decide_true, Bool.and_self, if_true]
          rw [if_neg (Int.not_le.mpr hroom)]
          rfl
        · refine Or.inr (Or.inl ?_)
          simp only [Memory.unlock, he, Status.unlock, hbusy, howner, decide_false, Bool.and_false,
            Bool.false_eq_true, if_false, Table.answered, Table.explain, hr, hstatus]
          cases e.record.status.completed <;> cases e.record.status.failed <;>
            simp [howner, LockChange.map, LockChange.mapRefusal, Except.map]

/-!
## Saves
-/

theorem Record.withStatus_stored {record : Record} (h : record.stored = record) (s : Status) :
    (record.withStatus s).stored = record.withStatus s := by
  have hpayload : dropNulls record.payload = record.payload := congrArg Record.payload h
  simp [stored, withStatus, hpayload]

theorem Mirrors.withRecord (h : Mirrors offset clock m t lastSeq)
    (hnow : Follows lease offset clock now) {e : Entry} (he : m.lookup? id = some e)
    {record : Record} (hid : record.id = id) (hstatus : record.status.Exact) :
    Mirrors offset now.ticks (m.replace id { e with record := record })
      (t.change id (Row.withRecord record)) lastSeq := by
  refine (h.later hnow.past).change he ?_ ?_ ?_ ?_
  · rfl
  · exact hid
  · intro r₀
    rfl
  · intro r₀ hrow₀
    exact { hrow₀ with
      record := rfl
      leased := rfl
      exact := hstatus }

theorem Mirrors.save (h : Mirrors offset clock m t lastSeq)
    (hnow : Follows lease offset clock now) {record : Record}
    (hstored : record.stored = record) (hstatus : record.status.Exact) :
    (∃ err, m.save record now.wall lease.lockTimeout = .error err ∧
      t.save lastSeq record now.wall lease = .error err) ∨
    ∃ m' t' lastSeq', m.save record now.wall lease.lockTimeout = .ok m' ∧
      t.save lastSeq record now.wall lease = .ok (t', lastSeq') ∧
      Mirrors offset now.ticks m' t' lastSeq' := by
  unfold Memory.save
  rw [Table.save_eq]
  rcases h.lookup record.id with ⟨he, hr⟩ | ⟨e, r, he, hr, hrow⟩
  · refine Or.inr ⟨m.append record, _, _, by simp only [he]; rfl, by simp only [hr]; rfl, ?_⟩
    rw [hstored]
    exact (h.later hnow.past).append he hstatus (Table.lt_nextSeq lastSeq now.wall)
  · have hseen : r.status = e.record.status := congrArg Record.status hrow.record
    simp only [he, hr]
    rw [hseen, Record.withStatus_stored hstored]
    cases hcheck : e.record.status.checkSave record.status record.id now.wall
        lease.lockTimeout with
    | error err => exact Or.inl ⟨err, rfl, rfl⟩
    | ok _ =>
        have hmerged : (record.withStatus (e.record.status.merge record.status)).status.Exact :=
          hrow.exact.merge hstatus
        exact Or.inr ⟨_, _, lastSeq, rfl, rfl, h.withRecord hnow he rfl hmerged⟩

end

end LeaseQueue
