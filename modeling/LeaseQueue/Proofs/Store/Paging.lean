import LeaseQueue.Proofs.Store.Streaming
/-!
# Lists that steps of calls come between

A list of a table is read page by page in the order of the places. A row that is
made in a place before those that were read moves the pages on by one: the next page
begins with a job that was given already, and the new one is left out. As long as
rows are made in turn, the list gives each job once.
-/

namespace LeaseQueue

/-!
## Rows in the order of their places
-/

namespace Row

theorem listedBefore_trans (a b c : Row) (hab : a.listedBefore b = true)
    (hbc : b.listedBefore c = true) : a.listedBefore c = true := by
  simp only [listedBefore, Bool.or_eq_true, Bool.and_eq_true, decide_eq_true_eq,
    Bool.not_eq_true', decide_eq_false_iff_not, String.not_lt] at *
  rcases hab with hab | ⟨hab, hid⟩ <;> rcases hbc with hbc | ⟨hbc, hid'⟩
  · exact Or.inl (Int.lt_trans hab hbc)
  · exact Or.inl (hbc ▸ hab)
  · exact Or.inl (hab ▸ hbc)
  · exact Or.inr ⟨hab.trans hbc, String.le_trans hid hid'⟩

theorem listedBefore_total (a b : Row) : (a.listedBefore b || b.listedBefore a) = true := by
  simp only [listedBefore, Bool.or_eq_true, Bool.and_eq_true, decide_eq_true_eq,
    Bool.not_eq_true', decide_eq_false_iff_not, String.not_lt]
  rcases Int.lt_trichotomy a.seq b.seq with hlt | heq | hgt
  · exact Or.inl (Or.inl hlt)
  · rcases String.le_total a.id b.id with hid | hid
    · exact Or.inl (Or.inr ⟨heq, hid⟩)
    · exact Or.inr (Or.inr ⟨heq.symm, hid⟩)
  · exact Or.inr (Or.inl hgt)

end Row

namespace Table

def sorted (t : Table) : Table := ⟨t.rows.mergeSort Row.listedBefore⟩

variable {t t' : Table}

theorem sorted_perm (t : Table) : t.sorted.rows.Perm t.rows := List.mergeSort_perm _ _

theorem pairwise_sorted (t : Table) :
    t.sorted.rows.Pairwise fun r s => r.listedBefore s = true :=
  List.pairwise_mergeSort Row.listedBefore_trans Row.listedBefore_total t.rows

theorem inOrder_sorted (h : (t.rows.map Row.seq).Nodup) : t.sorted.InOrder := by
  have hnodup : (t.sorted.rows.map Row.seq).Nodup := (t.sorted_perm.map Row.seq).nodup_iff.mpr h
  refine List.Pairwise.imp₂ ?_ t.pairwise_sorted (List.pairwise_map.mp hnodup)
  intro r s hbefore hne
  simp only [Row.listedBefore, Bool.or_eq_true, Bool.and_eq_true, decide_eq_true_eq] at hbefore
  rcases hbefore with hlt | ⟨heq, -⟩
  · exact hlt
  · exact absurd heq hne

theorem sorted_eq (h : t'.InOrder) (hperm : t'.rows.Perm t.rows) : t.sorted = t' := by
  have hnodup : (t'.rows.map Row.seq).Nodup := List.pairwise_map.mpr (h.imp Int.ne_of_lt)
  have hsorted : t.sorted.InOrder :=
    inOrder_sorted ((hperm.map Row.seq).nodup_iff.mp hnodup)
  have hrows : t.sorted.rows = t'.rows := by
    refine List.Perm.eq_of_pairwise ?_ hsorted h (t.sorted_perm.trans hperm.symm)
    intro r s _ _ hlt hgt
    exact absurd (Int.lt_trans hlt hgt) (Int.lt_irrefl _)
  exact congrArg Table.mk hrows

theorem InOrder.sorted_eq (h : t.InOrder) : t.sorted = t :=
  Table.sorted_eq h (List.Perm.refl _)

theorem sorted_append (h : (t.rows.map Row.seq).Nodup) {new : Row}
    (hlast : ∀ r ∈ t.rows, r.seq < new.seq) : (t.append new).sorted = t.sorted.append new := by
  apply sorted_eq
  · refine List.pairwise_append.mpr ⟨inOrder_sorted h, List.pairwise_singleton _ _, ?_⟩
    intro r hr s hs
    cases List.mem_singleton.mp hs
    exact hlast r (t.sorted_perm.mem_iff.mp hr)
  · exact t.sorted_perm.append_right [new]

theorem sorted_change (h : (t.rows.map Row.seq).Nodup) {id : String} {f : Row → Row}
    (hseq : ∀ r, (f r).seq = r.seq) : (t.change id f).sorted = t.sorted.change id f := by
  apply sorted_eq
  · have hpairwise := List.pairwise_map.mpr (inOrder_sorted h)
    rw [← map_change hseq] at hpairwise
    exact List.pairwise_map.mp hpairwise
  · exact t.sorted_perm.map _

theorem pull_sorted (c : PageCursor) (t : Table) : c.pull t.sorted = c.pull t := by
  have hpage : ∀ limit start, t.sorted.page limit start = t.page limit start := by
    intro limit start
    unfold page
    rw [List.mergeSort_of_pairwise t.pairwise_sorted]
    rfl
  unfold PageCursor.pull
  simp only [hpage]

namespace Traffic

variable {lease : LeaseSettings} {s : Traffic} {events : List Event} {given : List StatusInfo}
variable {c c' : PageCursor} {i : StatusInfo} {start : Nat}

def listed (s : Traffic) : List String := s.table.sorted.rows.map Row.id

/-- Jobs stay in their order, and new ones come last, if rows are made in turn. -/
theorem listed_handle (hs : s.Sound) (e : Event)
    (hlast : ∀ new, (s.handle lease e).table = s.table.append new →
      ∀ r ∈ s.table.rows, r.seq < new.seq) :
    s.listed <+: (s.handle lease e).listed := by
  have halters := alters_handle lease s e
  unfold listed
  generalize (s.handle lease e).table = t' at halters hlast
  cases halters with
  | stays => exact List.prefix_rfl
  | gains new =>
      rw [sorted_append hs.apart (hlast new rfl)]
      show _ <+: (s.table.sorted.rows ++ [new]).map Row.id
      rw [List.map_append]
      exact List.prefix_append _ _
  | changes hid hseq =>
      rw [sorted_change hs.apart hseq, map_change hid]

theorem listed_run (hs : s.Sound) (hturn : s.InTurn lease events) :
    s.listed <+: (s.run lease events).listed := by
  induction events generalizing s with
  | nil => exact List.prefix_rfl
  | cons e rest ih =>
      exact (listed_handle hs e hturn.1).trans (ih (hs.handle lease e) hturn.2)

/-!
## Lists
-/

/-- A list that was begun in the traffic: what calls have done since, what the list has given, and
where it stands. -/
inductive Lists (lease : LeaseSettings) (s : Traffic) :
    List Event → List StatusInfo → PageCursor → Prop where
  | begun : Lists lease s [] [] .first
  | given {events : List Event} {given : List StatusInfo} {c c' : PageCursor} {i : StatusInfo} :
      Lists lease s events given c → c.pull (s.run lease events).table = some (i, c') →
      Lists lease s events (given ++ [i]) c'
  | between {events : List Event} {given : List StatusInfo} {c : PageCursor} (e : Event) :
      Lists lease s events given c → Lists lease s (events ++ [e]) given c

/-- A job had the status at some moment since the list was begun. -/
def Showed (lease : LeaseSettings) (s : Traffic) (events : List Event) (i : StatusInfo) : Prop :=
  ∃ seen, seen <+: events ∧ ∃ r ∈ (s.run lease seen).table.rows, .ofRecord r.record = i

theorem Showed.mono {first rest : List Event} (h : s.Showed lease first i)
    (hearlier : first <+: rest) : s.Showed lease rest i := by
  rcases h with ⟨seen, hseen, hr⟩
  exact ⟨seen, hseen.trans hearlier, hr⟩

structure Progress (lease : LeaseSettings) (s : Traffic) (events : List Event)
    (given : List StatusInfo) (c : PageCursor) : Prop where
  within : c.start ≤ (s.run lease events).table.rows.length
  read : (given ++ c.buffer).map StatusInfo.id = (s.run lease events).listed.take c.start
  last : c.exhausted = true → s.table.rows.length ≤ c.start
  showed : ∀ i ∈ c.buffer, s.Showed lease events i

theorem length_listed (s : Traffic) : s.listed.length = s.table.rows.length := by
  unfold listed
  rw [List.length_map, (s.table.sorted_perm).length_eq]

theorem map_id_infos (hs : s.Sound) : s.table.sorted.infos.map StatusInfo.id = s.listed := by
  unfold infos listed
  rw [List.map_map]
  apply List.map_congr_left
  intro r hr
  exact hs.kept.ids r (s.table.sorted_perm.mem_iff.mp hr)

theorem Progress.pulls (h : s.Progress lease events given c) (hs : s.Sound)
    (hgrown : s.table.rows.length ≤ (s.run lease events).table.rows.length) :
    c.Pulls (s.run lease events).table.sorted s.table.rows.length := by
  have hrows := ((s.run lease events).table.sorted_perm).length_eq
  apply PageCursor.pulls
  · exact inOrder_sorted (hs.run lease events).apart
  · rw [hrows]
    exact hgrown
  · rw [hrows]
    exact h.within
  · exact h.last

theorem Progress.give (h : s.Progress lease events given c) (hs : s.Sound)
    (hgrown : s.table.rows.length ≤ (s.run lease events).table.rows.length)
    (hpull : c.pull (s.run lease events).table = some (i, c')) :
    s.Showed lease events i ∧ s.Progress lease events (given ++ [i]) c' := by
  rw [← pull_sorted] at hpull
  cases h.pulls hs hgrown with
  | nothing hnone => cases hpull.symm.trans hnone
  | gives i₁ c₁ page hsome hfront hpage hnext hread =>
      cases hpull.symm.trans hsome
      have hshowed : ∀ j ∈ i :: c'.buffer, s.Showed lease events j := by
        intro j hj
        rw [← hfront] at hj
        rcases List.mem_append.mp hj with hold | hnew
        · exact h.showed j hold
        · rcases List.mem_map.mp (List.mem_of_mem_drop (hpage.subset hnew)) with ⟨r, hr, rfl⟩
          exact ⟨events, List.prefix_rfl, r, (sorted_perm _).mem_iff.mp hr, rfl⟩
      have hall := map_id_infos (hs.run lease events)
      have hfits := length_page_le hpage
      rw [infos, List.length_map, (sorted_perm _).length_eq] at hfits
      refine ⟨hshowed i List.mem_cons_self, ?_⟩
      constructor
      · have hwithin := h.within
        omega
      · have hread := h.read
        rw [← hall] at hread ⊢
        rw [hnext]
        exact ids_of_page hread hfront hpage
      · exact hread
      · exact fun j hj => hshowed j (List.mem_cons_of_mem i hj)

theorem Progress.finish (h : s.Progress lease events given c) (hs : s.Sound)
    (hgrown : s.table.rows.length ≤ (s.run lease events).table.rows.length)
    (hpull : c.pull (s.run lease events).table = none) :
    c.buffer = [] ∧ s.table.rows.length ≤ c.start := by
  rw [← pull_sorted] at hpull
  cases h.pulls hs hgrown with
  | nothing hnone hbuffer hread => exact ⟨hbuffer, hread⟩
  | gives i c' page hsome => cases hpull.symm.trans hsome

theorem Progress.wait (h : s.Progress lease events given c) {e : Event}
    (hlisted : (s.run lease events).listed <+: (s.run lease (events ++ [e])).listed) :
    s.Progress lease (events ++ [e]) given c := by
  have hlength := hlisted.length_le
  rw [length_listed, length_listed] at hlength
  constructor
  · exact Nat.le_trans h.within hlength
  · rcases hlisted with ⟨new, hnew⟩
    have hle : c.start ≤ (s.run lease events).listed.length := by
      rw [length_listed]
      exact h.within
    rw [h.read, ← hnew, List.take_append_of_le_length hle]
  · exact h.last
  · exact fun i hi => (h.showed i hi).mono (List.prefix_append _ _)

theorem length_rows_le_run (hs : s.Sound) (hturn : s.InTurn lease events) :
    s.table.rows.length ≤ (s.run lease events).table.rows.length := by
  have hlength := (listed_run hs hturn).length_le
  rwa [length_listed, length_listed] at hlength

theorem Lists.progress (h : s.Lists lease events given c) (hs : s.Sound)
    (hturn : s.InTurn lease events) : s.Progress lease events given c := by
  induction h with
  | begun =>
      constructor
      · exact Nat.zero_le _
      · rfl
      · intro hexhausted
        cases hexhausted
      · intro i hi
        cases hi
  | given _ hpull ih =>
      exact ((ih hturn).give hs (length_rows_le_run hs hturn) hpull).2
  | @between events given c e _ ih =>
      rcases inTurn_append.mp hturn with ⟨hbefore, hafter⟩
      apply (ih hbefore).wait
      rw [run_concat]
      exact listed_handle (hs.run lease events) e hafter.1

/-- A list gives the jobs in the order of their places and each of them once, if the rows that are
made meanwhile are made in turn. -/
theorem Lists.each_job_once (h : s.Lists lease events given c) (hs : s.Sound)
    (hturn : s.InTurn lease events) :
    given.map StatusInfo.id <+: (s.run lease events).listed ∧
    (given.map StatusInfo.id).Nodup ∧
    (∀ i c', c.pull (s.run lease events).table = some (i, c') → s.Showed lease events i) ∧
    (c.pull (s.run lease events).table = none →
      ∀ r ∈ s.table.rows, (given.map StatusInfo.id).count r.id = 1) := by
  have hprogress := h.progress hs hturn
  have hgrown := length_rows_le_run hs hturn
  have hread : given.map StatusInfo.id <+: (s.run lease events).listed.take c.start := by
    rw [← hprogress.read, List.map_append]
    exact List.prefix_append _ _
  have hfront := hread.trans (List.take_prefix c.start _)
  have hlisted : (s.run lease events).listed.Nodup :=
    ((sorted_perm _).map Row.id).nodup_iff.mpr (hs.run lease events).kept.nodup
  have hnodup := hlisted.sublist hfront.sublist
  refine ⟨hfront, hnodup, fun i c' hpull => (hprogress.give hs hgrown hpull).1, ?_⟩
  intro hend r hr
  rcases hprogress.finish hs hgrown hend with ⟨hbuffer, hleast⟩
  have hgiven : given.map StatusInfo.id = (s.run lease events).listed.take c.start := by
    rw [← hprogress.read, hbuffer, List.append_nil]
  have hfirst : s.listed <+: given.map StatusInfo.id := by
    rw [hgiven]
    refine List.prefix_of_prefix_length_le (listed_run hs hturn) (List.take_prefix _ _) ?_
    have hwithin := hprogress.within
    rw [List.length_take, length_listed, length_listed]
    omega
  apply List.count_eq_one_of_mem hnodup
  apply hfirst.subset
  exact List.mem_map_of_mem ((sorted_perm _).mem_iff.mpr hr)

theorem Lists.page (h : s.Lists lease events given ⟨start, [], false⟩) (hs : s.Sound)
    {page : List StatusInfo}
    (hpage : ((s.run lease events).table.sorted.infos.drop start).take pageSize = page)
    (hne : page ≠ []) :
    s.Lists lease events (given ++ page) ⟨start + page.length, [], page.length < pageSize⟩ := by
  have hbuffer : ∀ (buffer given : List StatusInfo) start exhausted,
      s.Lists lease events given ⟨start, buffer, exhausted⟩ →
      s.Lists lease events (given ++ buffer) ⟨start, [], exhausted⟩ := by
    intro buffer
    induction buffer with
    | nil =>
        intro given start exhausted hlists
        rw [List.append_nil]
        exact hlists
    | cons i rest ih =>
        intro given start exhausted hlists
        have hgiven := ih (given ++ [i]) start exhausted (hlists.given rfl)
        rwa [List.append_assoc] at hgiven
  have hpull := PageCursor.pull_page (inOrder_sorted (hs.run lease events).apart) start
  rw [hpage, pull_sorted] at hpull
  cases page with
  | nil => exact absurd rfl hne
  | cons i rest =>
      have hgiven := hbuffer rest (given ++ [i]) _ _ (h.given hpull)
      rwa [List.append_assoc] at hgiven

end Traffic
end Table

namespace Backend

open Table

variable {β : Type} [Body β]

/-- A list of all jobs, begun on any store that a run leads to and pulled while drivers do anything on
clocks that read anything, gives the jobs in the order of their first saves, none of them twice, and
each with a status that it had at some moment between the beginning of the list and the pull. If it
is pulled to its end, it has given every job that was there when it was begun. On a table the steps of
the calls may come in any order if the rows that are made meanwhile are made in turn, and so they are
if no two first saves overlap. -/
theorem stream_gives_each_job_once {b₀ : Backend β} (h₀ : b₀.IsNew) :
    (∀ (past others : List (Access β)) given l, (b₀.run past).Streams others given l →
      let b := b₀.run past
      given.map StatusInfo.id <+: b₀.firstSaves (past ++ others) ∧
      (given.map StatusInfo.id).Nodup ∧
      (∀ i l', (b.run others).pull false l = (some i, l') → b.Showed others i) ∧
      (((b.run others).pull false l).1 = none →
        ∀ id ∈ b₀.firstSaves past, (given.map StatusInfo.id).count id = 1)) ∧
    ∀ lastSeq (past others : List Traffic.Event) given c,
      let s := (Traffic.opened lastSeq).run b₀.lease past
      s.Lists b₀.lease others given c →
      let s' := s.run b₀.lease others
      (s.InTurn b₀.lease others →
        given.map StatusInfo.id <+: s'.listed ∧
        (given.map StatusInfo.id).Nodup ∧
        (∀ i c', c.pull s'.table = some (i, c') → s.Showed b₀.lease others i) ∧
        (c.pull s'.table = none →
          ∀ r ∈ s.table.rows, (given.map StatusInfo.id).count r.id = 1)) ∧
      ((Traffic.opened lastSeq).SavesApart b₀.lease (past ++ others) →
        s.InTurn b₀.lease others ∧ s'.listed = s'.table.rows.map Row.id) := by
  refine ⟨fun past others given l hstream => hstream.each_job_once h₀ past, ?_⟩
  intro lastSeq past others given c s hlists s'
  have hs : s.Sound := (Traffic.sound_opened lastSeq).run b₀.lease past
  refine ⟨hlists.each_job_once hs, ?_⟩
  intro hapart
  have hturn := hapart.inTurn
  have horder : s'.table.InOrder := by
    have hwhole := Traffic.inOrder_run (s := .opened lastSeq) List.Pairwise.nil hturn
    rwa [Traffic.run_append] at hwhole
  refine ⟨(Traffic.inTurn_append.mp hturn).2, ?_⟩
  unfold Traffic.listed
  rw [horder.sorted_eq]

/-!
## First saves that overlap
-/

namespace Crowd

def job (i : Nat) : Record := ⟨.named (String.ofList (List.replicate i 'j')) (.named "job" 0), .null⟩

def row (i seq : Nat) : Row := ⟨(job i).id, seq, 0, 0, job i⟩

theorem id_injective {i j : Nat} (h : (job i).id = (job j).id) : i = j := by
  have hlist := congrArg (fun id => id.toList.length) h
  simpa [job, Base.named, Record.id] using hlist

def saves (n : Nat) : List Traffic.Event :=
  (List.range n).flatMap fun i => Traffic.alone (.save (job i)) (.ofNanos 0) i

theorem select_rows_eq_none {n m : Nat} (h : n ≤ m) :
    Table.select ⟨(List.range n).map fun i => row i (i + 1)⟩ (job m).id = none := by
  unfold select
  rw [List.find?_eq_none]
  intro r hr
  rcases List.mem_map.mp hr with ⟨i, hi, rfl⟩
  have hlt := List.mem_range.mp hi
  have hne : (job i).id ≠ (job m).id := by
    intro hid
    have hsame := id_injective hid
    omega
  exact decide_eq_false hne ▸ Bool.false_ne_true

theorem nextSeq_crowd (n : Nat) : nextSeq n (.ofNanos 0) = (n + 1 : Nat) := by
  have hmicros : (Timestamp.ofNanos 0).micros = 0 := by decide
  unfold nextSeq
  omega

theorem run_saves (lease : LeaseSettings) (n : Nat) :
    (Traffic.opened 0).run lease (saves n) =
      ⟨⟨(List.range n).map fun i => row i (i + 1)⟩, n,
        List.replicate n (.ended (.done (.ok ())))⟩ := by
  induction n with
  | zero => rfl
  | succ n ih =>
      have hsaves : saves (n + 1) = saves n ++ Traffic.alone (.save (job n)) (.ofNanos 0) n := by
        unfold saves
        rw [List.range_succ, List.flatMap_append, List.flatMap_singleton]
      have hlast := Traffic.run_alone_of_new lease (.ofNanos 0)
        (s := ⟨_, n, List.replicate n (.ended (.done (.ok ())))⟩)
        (select_rows_eq_none (Nat.le_refl n))
      simp only [List.length_replicate, nextSeq_crowd] at hlast
      rw [hsaves, Traffic.run_append, ih, hlast, List.range_succ, List.map_append,
        List.replicate_succ']
      rfl

/-- After `n` jobs a call has drawn a place, and another one has made the row after it. -/
def overtaken (n : Nat) : List Traffic.Event :=
  saves n ++ .begins (.save (job n)) :: List.replicate 2 (.moves n (.ofNanos 0)) ++
    Traffic.alone (.save (job (n + 1))) (.ofNanos 0) (n + 1)

theorem run_overtaken (lease : LeaseSettings) (n : Nat) :
    (Traffic.opened 0).run lease (overtaken n) =
      ⟨⟨(List.range n).map (fun i => row i (i + 1)) ++ [row (n + 1) (n + 2)]⟩, (n + 2 : Nat),
        List.replicate n (.ended (.done (.ok ()))) ++
          [.create (job n) (n + 1 : Nat), .ended (.done (.ok ()))]⟩ := by
  let t : Table := ⟨(List.range n).map fun i => row i (i + 1)⟩
  let calls : List Exchange := List.replicate n (.ended (.done (.ok ())))
  have hcalls : calls.length = n := List.length_replicate
  have hdrawn : (Exchange.select (job n) false).steps lease (.ofNanos 0) 2 (t, n) =
      (Exchange.create (job n) (n + 1 : Nat), t, ((n + 1 : Nat) : Int)) := by
    simp only [Exchange.steps, Exchange.step, t, select_rows_eq_none (Nat.le_refl n),
      Exchange.settle, nextSeq_crowd]
  have hmoves := Traffic.run_moves lease (.ofNanos 0) 2 (.select (job n) false) t n calls
  rw [hcalls, hdrawn] at hmoves
  have hlast := Traffic.run_alone_of_new lease (.ofNanos 0)
    (s := ⟨t, (n + 1 : Nat), calls ++ [.create (job n) (n + 1 : Nat)]⟩)
    (select_rows_eq_none (Nat.le_succ n))
  rw [List.length_append, hcalls] at hlast
  unfold overtaken
  rw [Traffic.run_append, Traffic.run_append, run_saves, Traffic.run_cons]
  show Traffic.run lease (Traffic.run lease ⟨t, n, calls ++ [.select (job n) false]⟩ _) _ = _
  rw [hmoves]
  refine hlast.trans ?_
  simp only [nextSeq_crowd, List.append_assoc]
  rfl

theorem table_run_caught_up (lease : LeaseSettings) (n : Nat) :
    (((Traffic.opened 0).run lease (overtaken n)).run lease [.moves n (.ofNanos 0)]).table =
      ⟨(List.range n).map (fun i => row i (i + 1)) ++ [row (n + 1) (n + 2)] ++
        [row n (n + 1)]⟩ := by
  let t : Table := ⟨(List.range n).map (fun i => row i (i + 1)) ++ [row (n + 1) (n + 2)]⟩
  have hne : (job (n + 1)).id ≠ (job n).id := by
    intro hid
    exact absurd (id_injective hid) (Nat.succ_ne_self n)
  have hnone : t.select (job n).id = none := by
    show (Table.append ⟨(List.range n).map fun i => row i (i + 1)⟩ (row (n + 1) (n + 2))).select
      (job n).id = none
    rw [select_append, select_rows_eq_none (Nat.le_refl n)]
    exact if_neg hne
  have hcreate : t.create ⟨(job n).id, (n + 1 : Nat), Row.leaseOf (job n).status, 0,
      (job n).stored⟩ = some (t.append (row n (n + 1))) :=
    create_eq hnone
  have hcall : (List.replicate n (Exchange.ended (.done (.ok ()))) ++
      [.create (job n) (n + 1 : Nat), .ended (.done (.ok ()))])[n]? =
        some (.create (job n) (n + 1 : Nat)) := by
    simp
  have hstep : (Exchange.create (job n) (n + 1 : Nat)).step lease (.ofNanos 0)
      (t, ((n + 2 : Nat) : Int)) =
        (.ended (.done (.ok ())), t.append (row n (n + 1)), ((n + 2 : Nat) : Int)) := by
    simp only [Exchange.step, hcreate]
  rw [run_overtaken, Traffic.run_cons]
  simp only [Traffic.handle, hcall, hstep, t]
  rfl

theorem inOrder_rows (n : Nat) : Table.InOrder ⟨(List.range n).map fun i => row i (i + 1)⟩ := by
  refine List.pairwise_map.mpr (List.pairwise_lt_range.imp ?_)
  intro i j hlt
  show ((i + 1 : Nat) : Int) < (j + 1 : Nat)
  omega

theorem inOrder_overtaken (n : Nat) :
    Table.InOrder ⟨(List.range n).map (fun i => row i (i + 1)) ++ [row (n + 1) (n + 2)]⟩ := by
  refine List.pairwise_append.mpr ⟨inOrder_rows n, List.pairwise_singleton _ _, ?_⟩
  intro r hr s hs
  rcases List.mem_map.mp hr with ⟨i, hi, rfl⟩
  cases List.mem_singleton.mp hs
  have hlt := List.mem_range.mp hi
  show ((i + 1 : Nat) : Int) < (n + 2 : Nat)
  omega

theorem sorted_caught_up (n : Nat) :
    Table.sorted ⟨(List.range n).map (fun i => row i (i + 1)) ++ [row (n + 1) (n + 2)] ++
      [row n (n + 1)]⟩ = ⟨(List.range (n + 2)).map fun i => row i (i + 1)⟩ := by
  apply sorted_eq (inOrder_rows (n + 2))
  show ((List.range (n + 2)).map fun i => row i (i + 1)).Perm _
  rw [List.range_succ, List.range_succ, List.map_append, List.map_append, List.append_assoc,
    List.append_assoc]
  exact List.Perm.append_left _ (List.Perm.swap _ _ _)

end Crowd

/-- Of two jobs of a page the second one is locked, and a third job is saved, before the list goes on:
the list gives the two, the second one as it was on the page. So it does if the steps of the two calls
alternate. -/
theorem stream_gives_jobs_of_page :
    let b₀ : Backend Work := (inMemory .empty .byPriority .standard).onTable .inMemory .empty 0
    let save : String → Access Work := fun id => ⟨.save (sampleJob id), false, .ofNanos 0⟩
    let past := [save "first", save "second"]
    let others := [⟨.lock "second" "holder", false, .ofNanos 1000000000⟩, save "third"]
    let untouched : String → StatusInfo := fun id => ⟨id, false, false, false, "", 0, none⟩
    let given := [untouched "first", untouched "second"]
    let s := (Traffic.opened 0).run b₀.lease (Crowd.saves 2)
    let crossed : List Traffic.Event := [.begins (.save (Crowd.job 2)), .moves 2 (.ofNanos 0),
      .begins (.turn false (Crowd.job 1).id "holder" (.ofNanos 0)), .moves 2 (.ofNanos 0),
      .moves 3 (.ofNanos 0), .moves 2 (.ofNanos 0)]
    let shown := [StatusInfo.ofRecord (Crowd.job 0), .ofRecord (Crowd.job 1)]
    (given.map StatusInfo.id <+: b₀.firstSaves (past ++ others) ∧
      (((b₀.run past).run others).pull false (.table ⟨2, [], true⟩)).1 = none ∧
      ∀ id ∈ b₀.firstSaves past, (given.map StatusInfo.id).count id = 1) ∧
    shown.map StatusInfo.id <+: (s.run b₀.lease crossed).table.rows.map Row.id ∧
      ∀ r ∈ s.table.rows, (shown.map StatusInfo.id).count r.id = 1 := by
  intro b₀ save past others untouched given s crossed shown
  have hnew : b₀.IsNew := Or.inr ⟨_, _, rfl⟩
  rcases stream_gives_each_job_once hnew with ⟨hwhole, hcrossed⟩
  constructor
  · let row : String → Int → Row := fun id seq => ⟨id, seq, 0, 0, ⟨(sampleJob id).base, .null⟩⟩
    have hrun : b₀.run past = b₀.onTable .inMemory ⟨[row "first" 1, row "second" 2]⟩ 2 := by
      with_unfolding_all rfl
    have hinOrder : Table.InOrder ⟨[row "first" 1, row "second" 2]⟩ :=
      List.pairwise_pair.mpr (by decide)
    have hpull : (b₀.run past).pull false (.table .first) =
        (some (untouched "first"), .table ⟨2, [untouched "second"], true⟩) := by
      rw [hrun]
      unfold pull PageCursor.first
      simp only [onTable, PageCursor.pull_page hinOrder]
      rfl
    have hfirst : (b₀.run past).Streams [] [untouched "first"]
        (.table ⟨2, [untouched "second"], true⟩) := .given .begun hpull
    have hsecond : (b₀.run past).Streams others given (.table ⟨2, [], true⟩) :=
      .given (.between _ (.between _ hfirst)) rfl
    rcases hwhole past others given _ hsecond with ⟨horder, -, -, hend⟩
    exact ⟨horder, rfl, hend rfl⟩
  · have hs : s.Sound := (Traffic.sound_opened 0).run b₀.lease (Crowd.saves 2)
    have hinfos : s.table.sorted.infos = shown := by
      have hrun : s = _ := Crowd.run_saves b₀.lease 2
      rw [hrun, (Crowd.inOrder_rows 2).sorted_eq]
      rfl
    have hpage : ((s.run b₀.lease []).table.sorted.infos.drop 0).take pageSize = shown := by
      rw [Traffic.run_nil, hinfos]
      rfl
    have hlists : s.Lists b₀.lease crossed shown ⟨2, [], true⟩ :=
      .between _ <| .between _ <| .between _ <| .between _ <| .between _ <| .between _ <|
        Traffic.Lists.begun.page hs hpage (List.cons_ne_nil _ _)
    have hapart : (Traffic.opened 0).SavesApart b₀.lease (Crowd.saves 2 ++ crossed) := by
      have hinits : ∀ first ∈ (Crowd.saves 2 ++ crossed).inits,
          ((Traffic.opened 0).run b₀.lease first).pending.length ≤ 1 := by decide +kernel
      exact fun first hfirst => hinits first ((List.mem_inits first _).mpr hfirst)
    rcases hcrossed 0 (Crowd.saves 2) crossed shown _ hlists with ⟨hlisted, hinTurn⟩
    rcases hinTurn hapart with ⟨hturn, horder⟩
    rcases hlisted hturn with ⟨hfront, -, -, hend⟩
    rw [horder] at hfront
    have hcount := hend rfl
    simp only [s]
    exact ⟨hfront, hcount⟩

/-- The last job of a full page is overtaken: its row was made before one that belongs before it. The
next page begins with the same job. -/
theorem page_repeats_overtaking_job :
    let s := (Traffic.opened 0).run .standard (Crowd.overtaken 99)
    let others : List Traffic.Event := [.moves 99 (.ofNanos 0)]
    ∃ given c, s.Lists .standard others given c ∧
      c.pull (s.run .standard others).table = none ∧
      ∃ r ∈ s.table.rows, (given.map StatusInfo.id).count r.id = 2 := by
  intro s others
  have hs : s.Sound := (Traffic.sound_opened 0).run .standard _
  have hrun : s = _ := Crowd.run_overtaken .standard 99
  have hfirst : s.table.sorted.infos =
      (List.range 99).map (fun i => .ofRecord (Crowd.job i)) ++ [.ofRecord (Crowd.job 100)] := by
    rw [hrun, (Crowd.inOrder_overtaken 99).sorted_eq, Table.infos, List.map_append,
      List.map_map]
    rfl
  have hthen : (s.run .standard others).table.sorted.infos =
      (List.range 101).map fun i => .ofRecord (Crowd.job i) := by
    rw [Crowd.table_run_caught_up, Crowd.sorted_caught_up, Table.infos, List.map_map]
    rfl
  let page : List StatusInfo :=
    (List.range 99).map (fun i => .ofRecord (Crowd.job i)) ++ [.ofRecord (Crowd.job 100)]
  have hlength : page.length = 100 := by simp [page]
  have hread : s.Lists .standard others page ⟨100, [], false⟩ := by
    have hpage : ((s.run .standard []).table.sorted.infos.drop 0).take pageSize = page := by
      rw [Traffic.run_nil, hfirst, List.drop_zero]
      exact List.take_of_length_le (Nat.le_of_eq hlength)
    have hne : page ≠ [] := List.ne_nil_of_length_eq_add_one hlength
    have hbegun : s.Lists .standard [] [] .first := .begun
    have hlists := hbegun.page hs hpage hne
    rw [hlength] at hlists
    exact hlists.between (.moves 99 (.ofNanos 0))
  have hnext : s.Lists .standard others (page ++ [.ofRecord (Crowd.job 100)]) ⟨101, [], true⟩ := by
    have hpage : ((s.run .standard others).table.sorted.infos.drop 100).take pageSize =
        [.ofRecord (Crowd.job 100)] := by
      rw [hthen]
      rfl
    exact hread.page hs hpage (List.cons_ne_nil _ _)
  refine ⟨_, _, hnext, rfl, Crowd.row 100 101, ?_, ?_⟩
  · rw [hrun]
    exact List.mem_append_right _ List.mem_cons_self
  · have hfresh : (Crowd.job 100).id ∉ (List.range 99).map fun i => (Crowd.job i).id := by
      intro hmem
      rcases List.mem_map.mp hmem with ⟨i, hi, hid⟩
      have hlt := List.mem_range.mp hi
      have hsame := Crowd.id_injective hid
      omega
    have hids : (page ++ [StatusInfo.ofRecord (Crowd.job 100)]).map StatusInfo.id =
        (List.range 99).map (fun i => (Crowd.job i).id) ++
          [(Crowd.job 100).id, (Crowd.job 100).id] := by
      simp only [page, List.map_append, List.map_map, List.append_assoc]
      rfl
    show List.count (Crowd.job 100).id _ = 2
    rw [hids, List.count_append, List.count_eq_zero_of_not_mem hfresh]
    simp

end Backend
end LeaseQueue
