import Mathlib.Data.List.Nodup
import LeaseQueue.Proofs.Store.Holdings
/-!
# Lists that are pulled while the store changes

A list of all jobs is pulled job by job, and drivers may do anything in between. A
store in memory is read at a moving place and a table page by page, so a job may
be given with a status that it no longer has. But jobs keep their places and new
ones come last: what was read is always a front part of the jobs in the order of
their first saves.
-/

namespace LeaseQueue

namespace Listing

def buffered : Listing → List StatusInfo
  | .table c => c.buffer
  | _ => []

/-- So many jobs were read, and at least `least` of them if no more are to be read. -/
def Stands (least n : Nat) : Listing → Prop
  | .memory cursor => cursor = n
  | .table c => c.start = n ∧ (c.exhausted = true → least ≤ n)
  | .ended => least ≤ n

end Listing

theorem PageCursor.pull_page {t : Table} (ht : t.InOrder) (start : Nat) :
    (PageCursor.mk start [] false).pull t =
      match (t.infos.drop start).take Table.pageSize with
      | [] => none
      | i :: rest =>
          some (i, ⟨start + (i :: rest).length, rest, (i :: rest).length < Table.pageSize⟩) := by
  unfold pull
  simp only [Bool.false_eq_true, if_false]
  rw [ht.page_eq]
  cases (t.infos.drop start).take Table.pageSize <;> rfl

/-- What one more pull does to a list of a table that had `least` rows when it was begun. -/
inductive PageCursor.Pulls (c : PageCursor) (t : Table) (least : Nat) : Prop where
  /-- There was nothing more to read. -/
  | nothing : c.pull t = none → c.buffer = [] → least ≤ c.start → Pulls c t least
  /-- The next job is given, perhaps after a page was read. -/
  | gives (i : StatusInfo) (c' : PageCursor) (page : List StatusInfo) :
      c.pull t = some (i, c') → c.buffer ++ page = i :: c'.buffer →
      page <+: t.infos.drop c.start → c'.start = c.start + page.length →
      (c'.exhausted = true → least ≤ c'.start) → Pulls c t least

theorem PageCursor.pulls {t : Table} (ht : t.InOrder) {least : Nat} (hleast : least ≤ t.rows.length)
    {c : PageCursor} (hstart : c.start ≤ t.rows.length)
    (hread : c.exhausted = true → least ≤ c.start) : c.Pulls t least := by
  rcases c with ⟨start, buffer, exhausted⟩
  cases buffer with
  | cons i rest =>
      exact .gives i ⟨start, rest, exhausted⟩ [] rfl (List.append_nil (i :: rest))
        List.nil_prefix rfl hread
  | nil =>
      cases exhausted with
      | true => exact .nothing rfl rfl (hread rfl)
      | false =>
          have hpull := PageCursor.pull_page ht start
          have hlength : ((t.infos.drop start).take Table.pageSize).length =
              min Table.pageSize (t.rows.length - start) := by
            rw [List.length_take, List.length_drop, Table.infos, List.length_map]
          cases hpage : (t.infos.drop start).take Table.pageSize with
          | nil =>
              rw [hpage] at hpull hlength
              have hsize : 0 < Table.pageSize := by decide
              have hall : t.rows.length ≤ start := by
                rw [List.length_nil] at hlength
                omega
              exact .nothing hpull rfl (Nat.le_trans hleast hall)
          | cons i rest =>
              rw [hpage] at hpull hlength
              refine .gives i _ (i :: rest) hpull rfl ?_ rfl ?_
              · rw [← hpage]
                exact List.take_prefix _ _
              · -- A short page is the last one.
                intro hshort
                have hlt : (i :: rest).length < Table.pageSize := of_decide_eq_true hshort
                show least ≤ start + (i :: rest).length
                omega

section

variable {given buffer buffer' page all : List StatusInfo} {i : StatusInfo} {n : Nat}

theorem length_page_le (hpage : page <+: all.drop n) : page.length ≤ all.length - n := by
  have hle := hpage.length_le
  rwa [List.length_drop] at hle

/-- What has been read goes on with the page that is read now. -/
theorem ids_of_page (hread : (given ++ buffer).map StatusInfo.id = (all.map StatusInfo.id).take n)
    (hfront : buffer ++ page = i :: buffer') (hpage : page <+: all.drop n) :
    ((given ++ [i]) ++ buffer').map StatusInfo.id =
      (all.map StatusInfo.id).take (n + page.length) := by
  have hids := congrArg (List.map StatusInfo.id) (List.prefix_iff_eq_take.mp hpage)
  rw [List.map_take, List.map_drop] at hids
  rw [List.append_assoc, List.singleton_append, ← hfront, ← List.append_assoc, List.map_append,
    hread, hids, ← List.take_add]

end

namespace Backend

variable {β : Type}

def Lists (b : Backend β) : Listing → Prop
  | .memory _ => ∃ d m, b.storage = .memory d m
  | .table _ => ∃ settings t lastSeq, b.storage = .table settings (some t) lastSeq
  | .ended => True

section

variable {b : Backend β} {records : List Record} {l : Listing} {least n : Nat}

theorem pull_ended (b : Backend β) : b.pull false .ended = (none, .ended) := by
  unfold pull
  cases b.storage <;> rfl

inductive Pulled (b : Backend β) (least n : Nat) (l : Listing) : Prop where
  /-- There was nothing more to read. -/
  | nothing : b.pull false l = (none, .ended) → l.buffered = [] → least ≤ n → Pulled b least n l
  /-- The next job is given, perhaps after a page was read. -/
  | gives (i : StatusInfo) (l' : Listing) (page : List StatusInfo) :
      b.pull false l = (some i, l') → l.buffered ++ page = i :: l'.buffered →
      page <+: (b.infos false).drop n → b.Lists l' → l'.Stands least (n + page.length) →
      Pulled b least n l

/-!
## One pull
-/

theorem pulled_memory {d : Discipline} {m : Memory} (hb : b.storage = .memory d m)
    (hm : m.Indexed) (hleast : least ≤ m.jobs.entries.length) :
    b.Pulled least n (.memory n) := by
  have hpull : b.pull false (.memory n) =
      (m.pull n).elim (none, .ended) fun x => (some x.1, .memory x.2) := by
    unfold pull
    simp only [hb, Bool.false_eq_true, if_false]
    cases m.pull n <;> rfl
  rw [hm.pull_eq] at hpull
  by_cases hlt : n < m.jobs.entries.length
  · rw [List.getElem?_eq_getElem hlt] at hpull
    refine .gives _ _ [_] hpull rfl ?_ ⟨d, m, hb⟩ rfl
    rw [← onMemory_self hb, infos_onMemory b d hm, ← List.map_drop,
      List.drop_eq_getElem_cons hlt]
    exact List.prefix_append [_] _
  · have hle : m.jobs.entries.length ≤ n := Nat.le_of_not_lt hlt
    rw [List.getElem?_eq_none hle] at hpull
    exact .nothing hpull rfl (Nat.le_trans hleast hle)

theorem pulled_table {settings : TableSettings} {t : Table} {lastSeq : Int}
    (hb : b.storage = .table settings (some t) lastSeq) (ht : t.Indexed lastSeq) {c : PageCursor}
    (hleast : least ≤ t.rows.length) (hstart : c.start ≤ t.rows.length)
    (hread : c.exhausted = true → least ≤ c.start) : b.Pulled least c.start (.table c) := by
  have hpull : b.pull false (.table c) =
      (c.pull t).elim (none, .ended) fun x => (some x.1, .table x.2) := by
    unfold pull
    simp only [hb, Bool.false_eq_true, if_false]
    cases c.pull t <;> rfl
  cases PageCursor.pulls ht.inOrder hleast hstart hread with
  | nothing hnone hbuffer hle =>
      rw [hnone] at hpull
      exact .nothing hpull hbuffer hle
  | gives i c' page hsome hfront hpage hnext hread' =>
      rw [hsome] at hpull
      refine .gives i (.table c') page hpull hfront ?_ ⟨settings, t, lastSeq, hb⟩ ⟨hnext, ?_⟩
      · rw [← onTable_self hb, infos_onTable b settings lastSeq ht.inOrder]
        exact hpage
      · exact fun hexhausted => hnext ▸ hread' hexhausted

theorem Holds.pulled (h : b.Holds records) (hlists : b.Lists l) (hstands : l.Stands least n)
    (hleast : least ≤ records.length) (hn : n ≤ records.length) : b.Pulled least n l := by
  cases l with
  | ended => exact .nothing b.pull_ended rfl hstands
  | memory cursor =>
      cases hstands
      rcases hlists with ⟨d, m, hb⟩
      cases h with
      | memory hb' hm =>
          cases hb.symm.trans hb'
          exact pulled_memory hb hm (by simpa using hleast)
      | table hb' ht => cases hb.symm.trans hb'
  | table c =>
      rcases hstands with ⟨rfl, hread⟩
      rcases hlists with ⟨settings, t, lastSeq, hb⟩
      cases h with
      | memory hb' hm => cases hb.symm.trans hb'
      | table hb' ht =>
          cases hb.symm.trans hb'
          exact pulled_table hb ht (by simpa using hleast) (by simpa using hn) hread

end

variable [Body β] {b : Backend β}

theorem Holds.lists_after {records : List Record} (h : b.Holds records) {l : Listing}
    (hlists : b.Lists l) (a : Access β) : (b.after a).Lists l := by
  cases h with
  | @memory d m hb hm =>
      rcases exists_change b d m a with ⟨m', hafter, -⟩
      rw [onMemory_self hb] at hafter
      rw [hafter]
      cases l with
      | ended => trivial
      | memory cursor => exact ⟨d, m', rfl⟩
      | table c =>
          rcases hlists with ⟨_, _, _, hb'⟩
          cases hb.symm.trans hb'
  | @table settings t lastSeq hb ht =>
      rcases exists_change_onTable b settings t lastSeq a with ⟨t', lastSeq', hafter, -⟩
      rw [onTable_self hb] at hafter
      rw [hafter]
      cases l with
      | ended => trivial
      | memory cursor =>
          rcases hlists with ⟨_, _, hb'⟩
          cases hb.symm.trans hb'
      | table c => exact ⟨settings, t', lastSeq', rfl⟩

theorem firstSaves_append (first rest : List (Access β)) :
    b.firstSaves (first ++ rest) = b.firstSaves first ++ (b.run first).firstSaves rest := by
  induction first generalizing b with
  | nil => rfl
  | cons a first ih =>
      show (b.newcomer? a).toList ++ (b.after a).firstSaves (first ++ rest) = _
      rw [ih, ← List.append_assoc]
      rfl

theorem run_concat (accesses : List (Access β)) (a : Access β) :
    b.run (accesses ++ [a]) = (b.run accesses).after a := by
  rw [run_append, run_cons, run_nil]

/-!
## Streams
-/

/-- A list that was begun on a store: what drivers have done since, what the list has given, and
where it stands. -/
inductive Streams (b : Backend β) : List (Access β) → List StatusInfo → Listing → Prop where
  | begun : Streams b [] [] b.listing
  | given {others : List (Access β)} {given : List StatusInfo} {l l' : Listing} {i : StatusInfo} :
      Streams b others given l → (b.run others).pull false l = (some i, l') →
      Streams b others (given ++ [i]) l'
  | ended {others : List (Access β)} {given : List StatusInfo} {l l' : Listing} :
      Streams b others given l → (b.run others).pull false l = (none, l') →
      Streams b others given l'
  /-- A driver does something before the next pull. -/
  | between {others : List (Access β)} {given : List StatusInfo} {l : Listing} (a : Access β) :
      Streams b others given l → Streams b (others ++ [a]) given l

/-- A job had the status at some moment since the run began. -/
def Showed (b : Backend β) (accesses : List (Access β)) (i : StatusInfo) : Prop :=
  ∃ seen, seen <+: accesses ∧ ∃ r, (b.run seen).record? false i.id = some r ∧ .ofRecord r = i

theorem Showed.mono {first rest : List (Access β)} {i : StatusInfo} (h : b.Showed first i)
    (hearlier : first <+: rest) : b.Showed rest i := by
  rcases h with ⟨seen, hseen, hr⟩
  exact ⟨seen, hseen.trans hearlier, hr⟩

theorem Holds.showed {records : List Record} {accesses : List (Access β)}
    (h : (b.run accesses).Holds records) {i : StatusInfo} (hi : i ∈ (b.run accesses).infos false) :
    b.Showed accesses i := by
  rw [h.infos_eq, List.mem_map] at hi
  rcases hi with ⟨r, hr, rfl⟩
  exact ⟨accesses, List.prefix_rfl, r, h.record?_eq_some_iff.mpr ⟨hr, rfl⟩, rfl⟩

/-- How far a list has come that was begun on a store with the jobs `ids`. -/
structure Progress (b : Backend β) (ids : List String) (others : List (Access β))
    (given : List StatusInfo) (l : Listing) (records : List Record) (n : Nat) : Prop where
  holds : (b.run others).Holds records
  jobs : records.map Record.id = ids ++ b.firstSaves others
  lists : (b.run others).Lists l
  stands : l.Stands ids.length n
  within : n ≤ records.length
  read : (given ++ l.buffered).map StatusInfo.id = (records.map Record.id).take n
  showed : ∀ i ∈ l.buffered, b.Showed others i

namespace Progress

variable {ids : List String} {others : List (Access β)} {given : List StatusInfo}
variable {l l' : Listing} {records : List Record} {n : Nat} {i : StatusInfo}

theorem pulled (h : b.Progress ids others given l records n) :
    (b.run others).Pulled ids.length n l := by
  refine h.holds.pulled h.lists h.stands ?_ h.within
  have hlength := congrArg List.length h.jobs
  rw [List.length_map, List.length_append] at hlength
  omega

/-- A job that is given now was read now or waited in the buffer. -/
theorem give (h : b.Progress ids others given l records n)
    (hpull : (b.run others).pull false l = (some i, l')) :
    b.Showed others i ∧ ∃ n', b.Progress ids others (given ++ [i]) l' records n' := by
  cases h.pulled with
  | nothing hnone hbuffer hread => cases hpull.symm.trans hnone
  | gives i₁ l₁ page hsome hfront hpage hlists hstands =>
      cases hpull.symm.trans hsome
      have hshowed : ∀ j ∈ i :: l'.buffered, b.Showed others j := by
        intro j hj
        rw [← hfront] at hj
        rcases List.mem_append.mp hj with hold | hnew
        · exact h.showed j hold
        · exact h.holds.showed (List.mem_of_mem_drop (hpage.subset hnew))
      have hall : ((b.run others).infos false).map StatusInfo.id = records.map Record.id := by
        rw [h.holds.infos_eq, List.map_map]
        rfl
      have hfits := length_page_le hpage
      rw [h.holds.infos_eq, List.length_map] at hfits
      refine ⟨hshowed i List.mem_cons_self, n + page.length, ?_⟩
      constructor
      · exact h.holds
      · exact h.jobs
      · exact hlists
      · exact hstands
      · have hwithin := h.within
        omega
      · have hread := h.read
        rw [← hall] at hread ⊢
        exact ids_of_page hread hfront hpage
      · exact fun j hj => hshowed j (List.mem_cons_of_mem i hj)

theorem finish (h : b.Progress ids others given l records n)
    (hpull : ((b.run others).pull false l).1 = none) :
    (b.run others).pull false l = (none, .ended) ∧ l.buffered = [] ∧ ids.length ≤ n := by
  cases h.pulled with
  | nothing hnone hbuffer hread => exact ⟨hnone, hbuffer, hread⟩
  | gives i l' page hsome =>
      rw [hsome] at hpull
      cases hpull

theorem wait (h : b.Progress ids others given l records n) (a : Access β) :
    ∃ records', b.Progress ids (others ++ [a]) given l records' n := by
  rcases h.holds.after a with ⟨records', hafter, hids⟩
  refine ⟨records', ?_⟩
  constructor
  · rw [run_concat]
    exact hafter
  · rw [hids, h.jobs, firstSaves_append, List.append_assoc]
    show _ = _ ++ (_ ++ (_ ++ []))
    rw [List.append_nil]
  · rw [run_concat]
    exact h.holds.lists_after h.lists a
  · exact h.stands
  · have hlength := congrArg List.length hids
    have hwithin := h.within
    rw [List.length_append, List.length_map, List.length_map] at hlength
    omega
  · have hle : n ≤ (records.map Record.id).length := by
      rw [List.length_map]
      exact h.within
    rw [h.read, hids, List.take_append_of_le_length hle]
  · exact fun i hi => (h.showed i hi).mono (List.prefix_append _ _)

end Progress

theorem Streams.progress {records₀ : List Record} (hb : b.Holds records₀)
    {others : List (Access β)} {given : List StatusInfo} {l : Listing}
    (h : b.Streams others given l) :
    ∃ records n, b.Progress (records₀.map Record.id) others given l records n := by
  induction h with
  | begun =>
      have hjobs : records₀.map Record.id = records₀.map Record.id ++ b.firstSaves [] :=
        (List.append_nil _).symm
      cases hb with
      | @memory d m hm hindexed =>
          have hlisting : b.listing = .memory 0 := by
            unfold listing
            rw [hm]
          refine ⟨_, 0, .memory hm hindexed, hjobs, ?_, ?_, Nat.zero_le _, ?_, ?_⟩ <;> rw [hlisting]
          · exact ⟨d, m, hm⟩
          · rfl
          · rfl
          · intro i hi
            cases hi
      | @table settings t lastSeq ht hindexed =>
          have hlisting : b.listing = .table .first := by
            unfold listing
            rw [ht]
          refine ⟨_, 0, .table ht hindexed, hjobs, ?_, ?_, Nat.zero_le _, ?_, ?_⟩ <;> rw [hlisting]
          · exact ⟨settings, t, lastSeq, ht⟩
          · exact ⟨rfl, fun h => nomatch h⟩
          · rfl
          · intro i hi
            cases hi
  | given _ hpull ih =>
      rcases ih with ⟨records, n, hprogress⟩
      exact ⟨records, (hprogress.give hpull).2⟩
  | ended _ hpull ih =>
      rcases ih with ⟨records, n, hprogress⟩
      rcases hprogress.finish (congrArg Prod.fst hpull) with ⟨hend, hbuffer, hread⟩
      cases hpull.symm.trans hend
      refine ⟨records, n, hprogress.holds, hprogress.jobs, trivial, hread, hprogress.within, ?_, ?_⟩
      · rw [← hprogress.read, hbuffer]
        rfl
      · intro i hi
        cases hi
  | between a _ ih =>
      rcases ih with ⟨records, n, hprogress⟩
      rcases hprogress.wait a with ⟨records', hwait⟩
      exact ⟨records', n, hwait⟩

/-- A list gives the jobs in the order of their first saves and each of them once, whatever whole
operations come in between. -/
theorem Streams.each_job_once {b₀ : Backend β} (h₀ : b₀.IsNew) (past : List (Access β))
    {others : List (Access β)} {given : List StatusInfo} {l : Listing}
    (hstream : (b₀.run past).Streams others given l) :
    let b := b₀.run past
    given.map StatusInfo.id <+: b₀.firstSaves (past ++ others) ∧
    (given.map StatusInfo.id).Nodup ∧
    (∀ i l', (b.run others).pull false l = (some i, l') → b.Showed others i) ∧
    (((b.run others).pull false l).1 = none →
      ∀ id ∈ b₀.firstSaves past, (given.map StatusInfo.id).count id = 1) := by
  intro b
  rcases h₀.run past with ⟨records₀, hb, hids₀⟩
  rcases hstream.progress hb with ⟨records, n, hprogress⟩
  have hread : given.map StatusInfo.id <+: (records.map Record.id).take n := by
    rw [← hprogress.read, List.map_append]
    exact List.prefix_append _ _
  have hfront := hread.trans (List.take_prefix n _)
  have hnodup := hprogress.holds.nodup.sublist hfront.sublist
  refine ⟨?_, hnodup, fun i l' hpull => (hprogress.give hpull).1, ?_⟩
  · rw [firstSaves_append, ← hids₀, ← hprogress.jobs]
    exact hfront
  · intro hend id hid
    rcases hprogress.finish hend with ⟨-, hbuffer, hleast⟩
    have hgiven : given.map StatusInfo.id = (records.map Record.id).take n := by
      rw [← hprogress.read, hbuffer, List.append_nil]
    apply List.count_eq_one_of_mem hnodup
    rw [hgiven, hprogress.jobs, List.take_append, List.take_of_length_le hleast, hids₀]
    exact List.mem_append_left _ hid

end Backend
end LeaseQueue
