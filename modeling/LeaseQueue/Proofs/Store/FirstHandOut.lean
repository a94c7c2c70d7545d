import LeaseQueue.Proofs.Store.HandOuts
import LeaseQueue.Proofs.Store.Undated
/-!
# The first hand-out

The dispatch window holds back jobs that were handed out before. A job that never
was waits for nothing in a store in memory, however long the window is. A table
notes the epoch in place of the hand-out that there never was, so there such a job
waits until the window has passed since the epoch.
-/

namespace LeaseQueue

/-!
## Stores in memory
-/

namespace Memory

def Waits (m : Memory) (id : String) : Prop :=
  ∀ e, m.lookup? id = some e → e.dispatchedAt = none

section

variable {m m' : Memory} {d : Discipline} {id other : String} {e e' : Entry}
variable {now : Reading} {lease : LeaseSettings}

theorem Waits.replace (h : m.Waits id) (he : m.lookup? other = some e)
    (hkeeps : e'.dispatchedAt = e.dispatchedAt) : (m.replace other e').Waits id := by
  intro e₀ he₀
  rw [lookup?_replace] at he₀
  split at he₀
  · rename_i hid
    cases he₀
    rw [hid] at he
    exact hkeeps.trans (h e he)
  · exact h e₀ he₀

theorem Waits.replace_other (h : m.Waits id) (hne : other ≠ id) :
    (m.replace other e).Waits id := by
  intro e₀ he₀
  rw [lookup?_replace, if_neg hne] at he₀
  exact h e₀ he₀

theorem Waits.append (h : m.Waits id) (r : Record) : (m.append r).Waits id := by
  intro e he
  rw [lookup?_append] at he
  split at he
  · cases he
    rfl
  · exact h e he

theorem Waits.change {β : Type} [Body β] {op : Operation β} (h : m.Waits id)
    (hop : op ≠ .next) (hchange : Change lease now op m m') : m'.Waits id := by
  cases hchange with
  | none => exact h
  | saved hj he hcheck => exact h.replace he rfl
  | added hj hnone => exact h.append _
  | handed hmem heligible => exact absurd rfl hop
  | locked he hs => exact h.replace he rfl
  | lockBroken he hs => exact h.replace he rfl
  | unlocked he hs => exact h.replace he rfl
  | unlockBroken he hs => exact h.replace he rfl

theorem exists_next (hmem : (id, e) ∈ m.jobs.entries) (heligible : isEligible e now lease = true) :
    ∃ key e' m', m.next d now lease = some (e'.record, m') ∧ (key, e') ∈ m.jobs.entries := by
  cases hcandidate : m.candidate? d now lease with
  | none =>
      have hnone : m.jobs.entries.filter (fun p => isEligible p.2 now lease) = [] :=
        eq_nil_of_least hcandidate
      have hfilter : (id, e) ∈ m.jobs.entries.filter fun p => isEligible p.2 now lease :=
        List.mem_filter.mpr ⟨hmem, heligible⟩
      rw [hnone] at hfilter
      cases hfilter
  | some p =>
      rcases p with ⟨key, e'⟩
      refine ⟨key, e', m.replace key { e' with dispatchedAt := some now.ticks }, ?_,
        (candidate?_cases hcandidate).1⟩
      unfold next
      rw [hcandidate]
      rfl

theorem Waits.isEligible (h : m.Waits id) (he : m.lookup? id = some e)
    (hunfinished : e.record.status.isFinished = false)
    (hfree : e.record.status.inProgress = false) : Memory.isEligible e now lease = true := by
  have hlive : e.record.status.isLive now.wall lease.lockTimeout = false := by
    unfold Status.isLive
    simp [hfree]
  unfold Memory.isEligible
  rw [hunfinished, hlive, h e he]
  rfl

end
end Memory

/-!
## Tables
-/

namespace Table

def Waits (t : Table) (id : String) : Prop :=
  ∀ r, t.select id = some r → r.dispatchedMillis = 0

section

variable {t t' : Table} {r : Row} {id other : String} {lease : LeaseSettings} {last last' : Int}

theorem Waits.change_row {f : Row → Row} (h : t.Waits id) (hid : ∀ r, (f r).id = r.id)
    (hkeeps : other = id → ∀ r, (f r).dispatchedMillis = r.dispatchedMillis) :
    (t.change other f).Waits id := by
  intro r hr
  rw [select_change hid] at hr
  split at hr
  · rename_i hother
    rcases Option.map_eq_some_iff.mp hr with ⟨r', hr', rfl⟩
    exact (hkeeps hother r').trans (h r' hr')
  · exact h r hr

theorem Waits.append (h : t.Waits id) {new : Row} (hnew : new.dispatchedMillis = 0) :
    (t.append new).Waits id := by
  intro r hr
  rw [select_append] at hr
  cases ht : t.select id with
  | some r₀ =>
      rw [ht, Option.some_or] at hr
      cases hr
      exact h _ ht
  | none =>
      rw [ht, Option.none_or] at hr
      split at hr
      · cases hr
        exact hnew
      · cases hr

theorem Waits.change {β : Type} [Body β] {now : Reading} {op : Operation β} (h : t.Waits id)
    (hop : op ≠ .next) (hchange : Change lease now op (t, last) (t', last')) : t'.Waits id := by
  cases hchange with
  | none => exact h
  | saved hj hr hcheck => exact h.change_row (fun _ => rfl) (fun _ _ => rfl)
  | created hj hnone => exact h.append rfl
  | handed hmem hmay => exact absurd rfl hop
  | locked hr hfree => exact h.change_row (fun _ => rfl) (fun _ _ => rfl)
  | unlocked hr hheld => exact h.change_row (fun _ => rfl) (fun _ _ => rfl)

variable {now : Timestamp}

theorem exists_next (ht : t.Indexed last) (hmem : r ∈ t.rows)
    (hmay : mayHandOut (liveAfter lease now) (dispatchAfter lease now) r = true) :
    ∃ r' t', t.next last lease now = some (r'.record, t', last) ∧ r' ∈ t.rows := by
  cases hr' : t.candidate (liveAfter lease now) (dispatchAfter lease now) with
  | none =>
      have hsorted : r ∈ (t.rows.filter (mayHandOut (liveAfter lease now)
          (dispatchAfter lease now))).mergeSort Row.handedBefore :=
        List.mem_mergeSort.mpr (List.mem_filter.mpr ⟨hmem, hmay⟩)
      rw [List.head?_eq_none_iff.mp hr'] at hsorted
      cases hsorted
  | some r' =>
      have hmem' : r' ∈ t.rows := (candidate_cases hr').1
      have hclaim := claim_eq (select_of_mem ht.nodup hmem') now.millis
      rcases claim_cases hclaim with ⟨r₁, hr₁, -, -, hselect⟩
      cases hr₁.symm.trans (select_of_mem ht.nodup hmem')
      refine ⟨r', t.change r'.id (Row.handedAt now.millis), ?_, hmem'⟩
      rw [next_eq, hr', Option.bind_some, hclaim, Option.bind_some, hselect]
      rfl

theorem Waits.dispatchedMillis_le_iff (h : t.Waits id) (hr : t.select id = some r) :
    r.dispatchedMillis ≤ dispatchAfter lease now ↔ windowMillis lease ≤ now.millis := by
  rw [h r hr]
  exact columnSub_nonneg_iff now.millis (windowMillis lease)

theorem Waits.mayHandOut_iff (h : t.Waits id) (hr : t.select id = some r)
    (hunfinished : r.status.isFinished = false) (hfree : r.status.inProgress = false)
    (liveAfter : Int) :
    mayHandOut liveAfter (dispatchAfter lease now) r = true ↔ windowMillis lease ≤ now.millis := by
  rcases Bool.or_eq_false_iff.mp hunfinished with ⟨hcompleted, hfailed⟩
  rw [← h.dispatchedMillis_le_iff hr]
  unfold mayHandOut
  simp [hcompleted, hfailed, hfree]

end
end Table

namespace Backend

variable {β : Type}

/-- The id of the job that an operation picks to hand it out, whether or not its record can be
turned into a job. -/
def picked? (b : Backend β) (a : Access β) : Option String :=
  match a.operation, a.cancelled, b.storage with
  | .next, false, .memory d m => (m.next d a.reading b.lease).map fun p => p.1.id
  | .next, false, .table _ (some t) lastSeq =>
      (t.next lastSeq b.lease a.reading.wall).map fun p => p.1.id
  | _, _, _ => none

variable [Body β]

def NeverPicks (b : Backend β) (id : String) : List (Access β) → Prop
  | [] => True
  | a :: rest => b.picked? a ≠ some id ∧ (b.after a).NeverPicks id rest

/-- What every operation keeps that does not pick the job, a run keeps that never picks it. -/
theorem exists_run_of_after {σ : Type} (store : σ → Backend β) (P : σ → Prop) {id : String}
    (hstep : ∀ s a, P s → (store s).picked? a ≠ some id →
      ∃ s', (store s).after a = store s' ∧ P s')
    {s : σ} (h : P s) {accesses : List (Access β)} (hnever : (store s).NeverPicks id accesses) :
    ∃ s', (store s).run accesses = store s' ∧ P s' := by
  induction accesses generalizing s with
  | nil => exact ⟨s, rfl, h⟩
  | cons a rest ih =>
      rcases hstep s a h hnever.1 with ⟨s₁, hafter, h₁⟩
      have hrest := hnever.2
      rw [hafter] at hrest
      rw [run_cons, hafter]
      exact ih h₁ hrest

section

variable {b : Backend β} {d : Discipline} {m : Memory} {settings : TableSettings} {t : Table}
variable {last : Int} {id : String}

theorem waits_after_onMemory (hm : m.Indexed) (h : m.Waits id) {a : Access β}
    (hpicked : (b.onMemory d m).picked? a ≠ some id) :
    ∃ m', (b.onMemory d m).after a = b.onMemory d m' ∧ m'.Indexed ∧ m'.Waits id := by
  rcases exists_change b d m a with ⟨m', hafter, hchange⟩
  refine ⟨m', hafter, hm.change hchange, ?_⟩
  rcases a with ⟨op, cancelled, now⟩
  by_cases hop : op = .next
  · subst hop
    cases cancelled with
    | true =>
        cases onMemory_injective hafter
        exact h
    | false =>
        unfold after at hafter
        rw [access_next] at hafter
        cases hnext : m.next d now b.lease with
        | none =>
            rw [hnext] at hafter
            cases onMemory_injective hafter
            exact h
        | some p =>
            rcases p with ⟨r, m₁⟩
            rcases Memory.next_cases hnext with ⟨key, e, hcandidate, rfl, rfl⟩
            rw [hnext] at hafter
            cases onMemory_injective hafter
            have hid : e.record.id = key := hm.ids _ (Memory.candidate?_cases hcandidate).1
            have hpick : (b.onMemory d m).picked? ⟨.next, false, now⟩ = some e.record.id := by
              show (m.next d now b.lease).map _ = _
              rw [hnext]
              rfl
            -- Only the entry of the job that is picked gets a time, and that is another job.
            apply h.replace_other
            intro hkey
            rw [hpick, hid, hkey] at hpicked
            exact hpicked rfl
  · exact h.change hop hchange

theorem waits_after_onTable (ht : t.Indexed last) (h : t.Waits id) {a : Access β}
    (hpicked : (b.onTable settings t last).picked? a ≠ some id) :
    ∃ s : Table × Int, (b.onTable settings t last).after a = b.onTable settings s.1 s.2 ∧
      s.1.Indexed s.2 ∧ s.1.Waits id := by
  rcases exists_change_onTable b settings t last a with ⟨t', last', hafter, hchange⟩
  refine ⟨(t', last'), hafter, ht.after_change hchange, ?_⟩
  rcases a with ⟨op, cancelled, now⟩
  by_cases hop : op = .next
  · subst hop
    cases cancelled with
    | true =>
        rcases onTable_injective hafter with ⟨rfl, rfl⟩
        exact h
    | false =>
        unfold after at hafter
        rw [access_next_onTable] at hafter
        cases hnext : t.next last b.lease now.wall with
        | none =>
            rw [hnext] at hafter
            rcases onTable_injective hafter with ⟨rfl, rfl⟩
            exact h
        | some p =>
            rcases p with ⟨record, t₁, last₁⟩
            rcases Table.next_cases hnext with ⟨r', r, hr', hmem, hmay, -, rfl, rfl, rfl⟩
            have hsame : r = r' :=
              Option.some.inj ((Table.select_of_mem ht.nodup hmem).symm.trans hr')
            subst hsame
            rw [hnext] at hafter
            rcases onTable_injective hafter with ⟨rfl, rfl⟩
            have hpick : (b.onTable settings t last₁).picked? ⟨.next, false, now⟩ =
                some r.record.id := by
              show (t.next _ b.lease now.wall).map _ = _
              rw [hnext]
              rfl
            refine h.change_row (f := Row.handedAt now.wall.millis) (fun _ => rfl) ?_
            intro hid
            rw [hpick, ht.ids r hmem, hid] at hpicked
            exact absurd rfl hpicked
  · exact h.change hop hchange

end

def Decodes (b : Backend β) : Prop :=
  ∀ id r, b.record? false id = some r → ∃ j, b.registry.build? r = some j

/-- After every run on one store, by however many drivers, that has not picked a certain job: if the
job is free and not finished, a store in memory hands a job out, whatever the window. A table, which
notes the epoch in place of the hand-out that there never was, does so when a window has passed
since the epoch, and before that does not hand the job out. -/
theorem first_hand_out_counts_from_epoch (b : Backend β) (past : List (Access β)) (id : String)
    (r : Record) (hunfinished : r.status.isFinished = false) (hfree : r.status.inProgress = false)
    (now : Reading) :
    (∀ d, let b' := (b.onMemory d .empty).run past
      b'.Decodes → b'.record? false id = some r → (b.onMemory d .empty).NeverPicks id past →
      ∃ j, (b'.access ⟨.next, false, now⟩).1 = .job (some j)) ∧
    (∀ settings lastSeq, let b' := (b.onTable settings .empty lastSeq).run past
      b'.Decodes → b'.record? false id = some r →
      (b.onTable settings .empty lastSeq).NeverPicks id past →
      (Table.windowMillis b.lease ≤ now.wall.millis →
        ∃ j, (b'.access ⟨.next, false, now⟩).1 = .job (some j)) ∧
      (now.wall.millis < Table.windowMillis b.lease → ¬ b'.HandsOut id ⟨.next, false, now⟩)) := by
  constructor
  · intro d b' hdecodes hr hnever
    rcases exists_run_of_after (b.onMemory d) (fun m => m.Indexed ∧ m.Waits id)
      (fun m a h => waits_after_onMemory h.1 h.2)
      ⟨Memory.indexed_empty, fun _ he => nomatch he⟩ hnever with ⟨m, hrun, hm, hwaits⟩
    have hb' : b' = b.onMemory d m := hrun
    rw [hb'] at hdecodes hr ⊢
    rcases Option.map_eq_some_iff.mp hr with ⟨e, he, rfl⟩
    rcases Memory.exists_next (Keyed.mem_of_find he)
      (hwaits.isEligible he hunfinished hfree) with ⟨key, e', m', hnext, hmem⟩
    rcases hdecodes key e'.record (by rw [record?_onMemory, hm.lookup?_of_mem hmem]; rfl) with
      ⟨j, hj⟩
    refine ⟨j, ?_⟩
    rw [access_next, hnext]
    exact congrArg Answer.job hj
  · intro settings lastSeq b' hdecodes hr hnever
    rcases exists_run_of_after (fun s : Table × Int => b.onTable settings s.1 s.2)
      (fun s => s.1.Indexed s.2 ∧ s.1.Waits id)
      (fun s a h => waits_after_onTable h.1 h.2) (s := (.empty, lastSeq))
      ⟨Table.indexed_empty lastSeq, fun _ hr => nomatch hr⟩ hnever with
      ⟨⟨t, last⟩, hrun, ht, hwaits⟩
    have hb' : b' = b.onTable settings t last := hrun
    rw [hb'] at hdecodes hr ⊢
    rcases Option.map_eq_some_iff.mp hr with ⟨row, hrow, rfl⟩
    have hmay : ∀ liveAfter, Table.mayHandOut liveAfter (Table.dispatchAfter b.lease now.wall) row =
        true ↔ Table.windowMillis b.lease ≤ now.wall.millis :=
      hwaits.mayHandOut_iff hrow hunfinished hfree
    constructor
    · intro hpassed
      rcases Table.exists_next ht (Table.mem_of_select hrow).1 ((hmay _).mpr hpassed) with
        ⟨row', t', hnext, hmem⟩
      rcases hdecodes row'.id row'.record
        (by show (t.select row'.id).map _ = _; rw [Table.select_of_mem ht.nodup hmem]; rfl) with
        ⟨j, hj⟩
      refine ⟨j, ?_⟩
      rw [access_next_onTable, hnext]
      exact congrArg Answer.job hj
    · intro hearly hhands
      rcases hhands.onTable ht.toKept with ⟨row', hrow', hmay', -⟩
      cases hrow.symm.trans hrow'
      exact absurd ((hmay _).mp hmay') (Int.not_le.mpr hearly)

/-- With a window as long as there is, a second job is handed out after the first one. -/
theorem first_hand_out_counts_from_epoch_of_second_job :
    let b : Backend Work := inMemory Work.registry .oldestFirst ⟨300, maxUInt64⟩
    let past : List (Access Work) := [⟨.save (plainJob "first"), false, .ofNanos 0⟩,
      ⟨.next, false, .ofNanos 0⟩, ⟨.save (plainJob "second"), false, .ofNanos 0⟩]
    ∃ j, (((b.onMemory .oldestFirst .empty).run past).access ⟨.next, false, .ofNanos 0⟩).1 =
      .job (some j) := by
  intro b past
  have hrun : (b.onMemory .oldestFirst .empty).run past = b.onMemory .oldestFirst
      ⟨⟨[("first", ⟨0, ⟨(plainJob "first").base, .object []⟩, some 0⟩),
        ("second", ⟨1, ⟨(plainJob "second").base, .object []⟩, none⟩)]⟩,
        [(0, "first"), (1, "second")], 2⟩ := rfl
  have hdecodes : ((b.onMemory .oldestFirst .empty).run past).Decodes := by
    intro id r hr
    rw [hrun, record?_onMemory] at hr
    rcases Option.map_eq_some_iff.mp hr with ⟨e, he, rfl⟩
    have hmem := Keyed.mem_of_find he
    simp only [List.mem_cons, Prod.mk.injEq, List.not_mem_nil, or_false] at hmem
    rcases hmem with ⟨-, rfl⟩ | ⟨-, rfl⟩ <;> exact ⟨_, rfl⟩
  have hnever : (b.onMemory .oldestFirst .empty).NeverPicks "second" past :=
    ⟨by decide, by decide, by decide, trivial⟩
  exact (first_hand_out_counts_from_epoch b past "second" ⟨(plainJob "second").base, .object []⟩
    rfl rfl (.ofNanos 0)).1 .oldestFirst hdecodes rfl hnever

/-- In 2030 a window as long as there is keeps a table from ever handing a job out, though not a
store in memory. -/
theorem long_window_withholds_first_hand_out :
    let b : Backend Work := inMemory Work.registry .byPriority ⟨300, maxUInt64⟩
    let now := Reading.ofNanos 1893456000000000000
    let past : List (Access Work) := [⟨.save (plainJob "job"), false, now⟩]
    let asks : Access Work := ⟨.next, false, now⟩
    (((b.onTable .inMemory .empty 0).run past).access asks).1 = .job none ∧
      (((b.onMemory .byPriority .empty).run past).access asks).1 = .job (some (plainJob "job")) := by
  intro b now past asks
  refine ⟨?_, rfl⟩
  have hnothing : (((b.onTable .inMemory .empty 0).run past).access asks).1.given? = some none := by
    decide +kernel
  rcases Answer.exists_of_given? hnothing with ⟨j?, hanswer, hnone⟩
  rw [hanswer, Option.map_eq_none_iff.mp hnone]

end Backend
end LeaseQueue
