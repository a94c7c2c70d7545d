import LeaseQueue.Proofs.Store.Traffic
import LeaseQueue.Work.Basic
/-!
# The dispatch window

Two hand-outs of one job lie at least the dispatch window apart, whatever is asked
of the store in between. The time of a hand-out stands beside the record, and no
operation takes it back.
-/

namespace LeaseQueue

namespace Timestamp

/-!
## Moments that a clock shows
-/

/-- A moment that a clock can show: its date can be written, and it is at most a leap second away
from its second. -/
structure Shown (t : Timestamp) : Prop where
  inRange : t.inRange = true
  nanos : t.nanos < 2 * nanosPerSecond

theorem bounds_of_dateOf {number : Int} (hfirst : -262143 ≤ (Calendar.dateOf number).1)
    (hlast : (Calendar.dateOf number).1 ≤ 262142) :
    -100000000 ≤ number ∧ number ≤ 100000000 := by
  unfold Calendar.dateOf at hfirst hlast
  dsimp only at hfirst hlast
  constructor
  · split at hfirst <;> omega
  · split at hlast <;> omega

theorem Shown.millis_bounds {t : Timestamp} (h : t.Shown) :
    -4000000000000000000 ≤ t.millis ∧ t.millis ≤ 4000000000000000000 := by
  have hnanos := h.nanos
  have hrange := h.inRange
  unfold Timestamp.inRange yearRange at hrange
  simp only [Bool.and_eq_true, decide_eq_true_eq] at hrange
  have hdays := bounds_of_dateOf hrange.1 hrange.2
  unfold millis
  rw [nanosPerSecond] at hnanos
  rw [secondsPerDay] at hdays
  rw [nanosPerMilli]
  omega

end Timestamp

/-!
## Times of hand-outs in memory
-/

namespace Memory

def HandedSince (m : Memory) (id : String) (since : Nat) : Prop :=
  ∃ e t, m.lookup? id = some e ∧ e.dispatchedAt = some t ∧ since ≤ t

section

variable {m m' : Memory} {id other : String} {since : Nat} {e e' : Entry}

theorem handedSince_replace_self {t : Nat} (ht : e.dispatchedAt = some t) (hle : since ≤ t) :
    (m.replace id e).HandedSince id since :=
  ⟨e, t, by rw [lookup?_replace, if_pos rfl], ht, hle⟩

theorem HandedSince.replace_other (h : m.HandedSince id since) (hne : other ≠ id) :
    (m.replace other e).HandedSince id since := by
  rcases h with ⟨e₀, t, he₀, ht, hle⟩
  exact ⟨e₀, t, by rw [lookup?_replace, if_neg hne, he₀], ht, hle⟩

theorem HandedSince.replace (h : m.HandedSince id since) (he : m.lookup? other = some e)
    (hkeeps : e'.dispatchedAt = e.dispatchedAt) : (m.replace other e').HandedSince id since := by
  by_cases hid : other = id
  · subst hid
    rcases h with ⟨e₀, t, he₀, ht, hle⟩
    cases he.symm.trans he₀
    exact handedSince_replace_self (hkeeps.trans ht) hle
  · exact h.replace_other hid

theorem HandedSince.change {β : Type} [Body β] {lease : LeaseSettings} {now : Reading}
    {op : Operation β} (h : m.HandedSince id since) (hnow : since ≤ now.ticks)
    (hchange : Change lease now op m m') : m'.HandedSince id since := by
  cases hchange with
  | none => exact h
  | saved hj he hcheck => exact h.replace he rfl
  | @added j r _ hj hnone =>
      rcases h with ⟨e, t, he, ht, hle⟩
      have hne : r.id ≠ id := by
        intro hid
        rw [hid, he] at hnone
        cases hnone
      exact ⟨e, t, by rw [lookup?_append, if_neg hne, he], ht, hle⟩
  | @handed _ other e hmem heligible =>
      by_cases hid : other = id
      · subst hid
        exact handedSince_replace_self rfl hnow
      · exact h.replace_other hid
  | locked he hs => exact h.replace he rfl
  | lockBroken he hs => exact h.replace he rfl
  | unlocked he hs => exact h.replace he rfl
  | unlockBroken he hs => exact h.replace he rfl

end
end Memory

/-!
## Times of hand-outs in tables
-/

namespace Table

def HandedSince (t : Table) (id : String) (since : Int) : Prop :=
  ∃ r, t.select id = some r ∧ since ≤ r.dispatchedMillis

section

variable {t t' : Table} {id other : String} {since last last' : Int}

theorem handedSince_handOut {r : Row} (hr : t.select id = some r) (millis : Int) :
    (t.change id (Row.handedAt millis)).HandedSince id millis := by
  refine ⟨Row.handedAt millis r, ?_, Int.le_refl _⟩
  rw [select_change, if_pos rfl, hr, Option.map_some]
  exact fun _ => rfl

theorem HandedSince.change_row (h : t.HandedSince id since) {f : Row → Row}
    (hid : ∀ r, (f r).id = r.id)
    (hkeeps : ∀ r, t.select id = some r → other = id → since ≤ r.dispatchedMillis →
      since ≤ (f r).dispatchedMillis) : (t.change other f).HandedSince id since := by
  rcases h with ⟨r, hr, hle⟩
  by_cases hother : other = id
  · refine ⟨f r, ?_, hkeeps r hr hother hle⟩
    rw [select_change hid, if_pos hother, hr, Option.map_some]
  · refine ⟨r, ?_, hle⟩
    rw [select_change hid, if_neg hother, hr]

theorem dispatchAfter_le (lease : LeaseSettings) {now : Timestamp} (hnow : now.Shown) :
    dispatchAfter lease now ≤ now.millis := by
  have hbounds := hnow.millis_bounds
  unfold dispatchAfter windowMillis columnSub
  rw [minColumn, maxColumn]
  omega

/-- Who may be handed out was handed out the window before, if at all after the column's start. -/
theorem add_window_le {lease : LeaseSettings} {earlier now : Timestamp} (hearlier : earlier.Shown)
    (hnow : now.Shown) (h : earlier.millis ≤ dispatchAfter lease now) :
    earlier.millis + lease.windowMillis ≤ now.millis := by
  have hbounds := hearlier.millis_bounds
  have hbounds' := hnow.millis_bounds
  unfold dispatchAfter windowMillis columnSub at h
  rw [minColumn, maxColumn] at h
  omega

theorem dispatchedMillis_le {liveAfter dispatchAfter : Int} {r : Row}
    (h : mayHandOut liveAfter dispatchAfter r = true) : r.dispatchedMillis ≤ dispatchAfter := by
  unfold mayHandOut at h
  simp only [Bool.and_eq_true, decide_eq_true_eq] at h
  exact h.2

theorem next_of_alone (r : Row) (lease : LeaseSettings) (now : Timestamp)
    (hmay : mayHandOut (liveAfter lease now) (dispatchAfter lease now) r = true) (last : Int) :
    (Table.mk [r]).next last lease now = some (r.record, ⟨[r.handedAt now.millis]⟩, last) := by
  have hcandidate : (Table.mk [r]).candidate (liveAfter lease now) (dispatchAfter lease now) =
      some r := by
    unfold candidate
    rw [List.filter_cons_of_pos hmay, List.filter_nil, List.mergeSort_singleton]
    rfl
  rw [next_eq, hcandidate]
  simp [claim, updateWhere, select, Row.handedAt]

theorem HandedSince.change {β : Type} [Body β] {lease : LeaseSettings} {now : Reading}
    {op : Operation β} (h : t.HandedSince id since) (ht : t.Indexed last)
    (hnow : now.wall.Shown) (hchange : Change lease now op (t, last) (t', last')) :
    t'.HandedSince id since := by
  cases hchange with
  | none => exact h
  | saved hj hr hcheck => exact h.change_row (fun _ => rfl) (fun _ _ _ hle => hle)
  | created hj hnone =>
      rcases h with ⟨r, hr, hle⟩
      exact ⟨r, by rw [select_append, hr, Option.some_or], hle⟩
  | @handed _ _ row hmem hmay =>
      apply h.change_row
      · exact fun _ => rfl
      · intro r hr hid hle
        have hrow := select_of_mem ht.nodup hmem
        rw [hid, hr] at hrow
        cases hrow
        -- The time before was within the limit, which is not after the reading; so the new time is no
        -- earlier, even on a clock that has gone back.
        have hbefore := dispatchedMillis_le hmay
        have hlimit := dispatchAfter_le lease hnow
        show since ≤ now.wall.millis
        omega
  | locked hr hfree => exact h.change_row (fun _ => rfl) (fun _ _ _ hle => hle)
  | unlocked hr hheld => exact h.change_row (fun _ => rfl) (fun _ _ _ hle => hle)

end
end Table

namespace Table

/-!
## Hand-outs that steps of other calls come between
-/

namespace Traffic

def Event.Shown : Event → Prop
  | .begins (.next asked) => asked.Shown
  | _ => True

/-- The reading at which a call asked for the job that it is about to claim. -/
def asked? : Exchange → Option Timestamp
  | .claim _ asked => some asked
  | _ => none

def handed? : Exchange → Option String
  | .ended (.handed record) => record.map Record.id
  | _ => none

/-- A step hands a job out to a call that asked at the reading. -/
def HandsOut (lease : LeaseSettings) (s : Traffic) (id : String) (asked : Timestamp)
    (e : Event) : Prop :=
  ∃ i now, e = .moves i now ∧ s.calls[i]?.bind asked? = some asked ∧
    (s.handle lease e).calls[i]?.bind handed? = some id

/-- A call that hands a job out has seen that the window had passed. -/
def Timely (lease : LeaseSettings) : Exchange → Prop
  | .choose asked => asked.Shown
  | .claim chosen asked => asked.Shown ∧ chosen.dispatchedMillis ≤ dispatchAfter lease asked
  | _ => True

variable {lease : LeaseSettings} {s : Traffic} {id : String} {asked : Timestamp} {e : Event}
variable {events : List Event}

theorem timely_opened (lease : LeaseSettings) (lastSeq : Int) :
    ∀ x ∈ (opened lastSeq).calls, Timely lease x := by
  intro x hx
  cases hx

theorem timely_acts {now : Timestamp} {x y : Exchange} {before after : Table × Int}
    (h : Timely lease x) (hacts : Exchange.Acts lease now x before y after) : Timely lease y := by
  cases hacts with
  | looks hplain =>
      cases y with
      | choose asked => exact hplain.elim
      | claim chosen asked => exact hplain.elim
      | _ => trivial
  | chooses hmem hmay => exact ⟨h, dispatchedMillis_le hmay⟩
  | _ => trivial

theorem timely_handle (h : ∀ x ∈ s.calls, Timely lease x) (hshown : e.Shown) :
    ∀ x ∈ (s.handle lease e).calls, Timely lease x := by
  refine forall_calls_handle h ?_ fun _ x hx => timely_acts hx (Exchange.acts_step x _)
  intro request he
  rw [he] at hshown
  cases request with
  | next asked => exact hshown
  | _ => trivial

theorem timely_run (h : ∀ x ∈ s.calls, Timely lease x) (hshown : ∀ e ∈ events, e.Shown) :
    ∀ x ∈ (s.run lease events).calls, Timely lease x := by
  induction events generalizing s with
  | nil => exact h
  | cons e rest ih =>
      exact ih (timely_handle h (hshown e List.mem_cons_self))
        fun e' he' => hshown e' (List.mem_cons_of_mem e he')

theorem exists_claim_of_asked? {x : Exchange} (h : asked? x = some asked) :
    ∃ chosen, x = .claim chosen asked := by
  cases x with
  | claim chosen now =>
      cases h
      exact ⟨chosen, rfl⟩
  | _ => cases h

theorem handed?_of_plain {x : Exchange} (h : x.Plain) : handed? x = none := by
  cases x with
  | ended reply =>
      rcases reply with r | _ | record
      · rfl
      · rfl
      · exact h.elim
  | _ => rfl

theorem HandsOut.exists_row (h : HandsOut lease s id asked e) (hs : s.Sound) :
    ∃ r chosen, s.table.select id = some r ∧ .claim chosen asked ∈ s.calls ∧
      r.dispatchedMillis = chosen.dispatchedMillis ∧
      (s.handle lease e).table = s.table.change id (Row.handedAt asked.millis) := by
  rcases h with ⟨i, now, rfl, hasked, hhanded⟩
  rcases Option.bind_eq_some_iff.mp hasked with ⟨x, hcall, hclaim⟩
  rcases exists_claim_of_asked? hclaim with ⟨chosen, rfl⟩
  have hturns := turns_handle lease s (.moves i now)
  generalize s.handle lease (.moves i now) = s' at hturns hhanded ⊢
  cases hturns with
  | idles hnone => cases hcall.symm.trans hnone
  | @acts _ _ x y t last hcall' hacts =>
      cases hcall.symm.trans hcall'
      have hlt : i < s.calls.length := (List.getElem?_eq_some_iff.mp hcall).1
      rw [List.getElem?_set_self hlt] at hhanded
      cases hacts with
      | looks hplain => cases (handed?_of_plain hplain).symm.trans hhanded
      | @claims _ _ _ _ r hr hseen =>
          rcases mem_of_select hr with ⟨hmem, hrow⟩
          have hchosen : chosen.id = id := by
            rw [← hrow, ← hs.kept.ids r hmem]
            exact Option.some.inj hhanded
          rw [hchosen] at hr ⊢
          exact ⟨r, chosen, hr, List.mem_of_getElem? hcall, hseen, rfl⟩

/-- No step takes the time of a hand-out back. -/
theorem handedSince_handle {since : Int} (h : s.table.HandedSince id since)
    (htimely : ∀ x ∈ s.calls, Timely lease x) (e : Event) :
    (s.handle lease e).table.HandedSince id since := by
  have hturns := turns_handle lease s e
  generalize s.handle lease e = s' at hturns
  cases hturns with
  | begins request => exact h
  | idles hcall => exact h
  | acts hcall hacts =>
      cases hacts with
      | makes hnone =>
          rcases h with ⟨r, hr, hle⟩
          exact ⟨r, by rw [select_append, hr, Option.some_or], hle⟩
      | @claims chosen asked _ _ r hr hseen =>
          apply h.change_row
          · exact fun _ => rfl
          · intro r' hr' hid hle
            rcases htimely _ (List.mem_of_getElem? hcall) with ⟨hshown, hbefore⟩
            rw [hid, hr'] at hr
            cases hr
            have hlimit := dispatchAfter_le lease hshown
            show since ≤ asked.millis
            omega
      | replaces => exact h.change_row (fun _ => rfl) fun _ _ _ hle => hle
      | locks => exact h.change_row (fun _ => rfl) fun _ _ _ hle => hle
      | unlocks => exact h.change_row (fun _ => rfl) fun _ _ _ hle => hle
      | _ => exact h

theorem handedSince_run {since : Int} (h : s.table.HandedSince id since)
    (htimely : ∀ x ∈ s.calls, Timely lease x) (hshown : ∀ e ∈ events, e.Shown) :
    (s.run lease events).table.HandedSince id since := by
  induction events generalizing s with
  | nil => exact h
  | cons e rest ih =>
      apply ih (handedSince_handle h htimely e)
      · exact timely_handle htimely (hshown e List.mem_cons_self)
      · exact fun e' he' => hshown e' (List.mem_cons_of_mem e he')

theorem handsOut_apart {earlier later : Timestamp} {first last : Event} {between : List Event}
    (hs : s.Sound) (htimely : ∀ x ∈ s.calls, Timely lease x)
    (hshown : ∀ e ∈ first :: between, e.Shown)
    (hfirst : HandsOut lease s id earlier first)
    (hlast : HandsOut lease (s.run lease (first :: between)) id later last) :
    earlier.millis + lease.windowMillis ≤ later.millis := by
  rcases hfirst.exists_row hs with ⟨r, chosen, hr, hmem, -, hafter⟩
  have hhanded : (s.handle lease first).table.HandedSince id earlier.millis := by
    rw [hafter]
    exact handedSince_handOut hr earlier.millis
  have htimely₁ := timely_handle htimely (hshown first List.mem_cons_self)
  rcases handedSince_run hhanded htimely₁ (fun e he => hshown e (List.mem_cons_of_mem _ he)) with
    ⟨r₁, hr₁, hle⟩
  rcases hlast.exists_row (hs.run lease _) with ⟨r₂, chosen₂, hr₂, hmem₂, hseen₂, -⟩
  cases hr₁.symm.trans hr₂
  rcases timely_run htimely hshown _ hmem₂ with ⟨hlater, hbefore⟩
  have hearlier := (htimely _ hmem).1
  apply add_window_le hearlier hlater
  omega

end Traffic
end Table

namespace Backend

/-!
## Hand-outs of a run
-/

variable {β : Type} [Body β]

/-- An operation hands a job out. -/
def HandsOut (b : Backend β) (id : String) (a : Access β) : Prop :=
  a.operation = .next ∧ ∃ j, (b.access a).1 = .job (some j) ∧ j.id = id

theorem handsOut_of_given? {b : Backend β} {id : String} {now : Reading}
    (h : (b.access ⟨.next, false, now⟩).1.given? = some (some id)) :
    b.HandsOut id ⟨.next, false, now⟩ := by
  rcases Answer.exists_of_given? h with ⟨j?, hanswer, hid⟩
  rcases Option.map_eq_some_iff.mp hid with ⟨j, rfl, rfl⟩
  exact ⟨rfl, j, hanswer, rfl⟩

section

variable {b : Backend β} {d : Discipline} {m : Memory} {settings : TableSettings} {t : Table}
variable {last : Int} {id : String} {a : Access β}

theorem HandsOut.onMemory (hm : m.Indexed) (h : (b.onMemory d m).HandsOut id a) :
    ∃ e, m.lookup? id = some e ∧ Memory.isEligible e a.reading b.lease = true ∧
      (b.onMemory d m).after a =
        b.onMemory d (m.replace id { e with dispatchedAt := some a.reading.ticks }) := by
  rcases a with ⟨op, cancelled, now⟩
  rcases h with ⟨hop, j, hj, hid⟩
  cases hop
  cases cancelled with
  | true => cases hj
  | false =>
      unfold after
      rw [access_next] at hj ⊢
      cases hnext : m.next d now b.lease with
      | none =>
          rw [hnext] at hj
          cases hj
      | some p =>
          rcases p with ⟨r, m'⟩
          rcases Memory.next_cases hnext with ⟨key, e, hcandidate, rfl, rfl⟩
          rcases Memory.candidate?_cases hcandidate with ⟨hmem, heligible⟩
          rw [hnext] at hj
          injection hj with hbuilt
          have hkey : key = id := by
            have hbase : j.id = e.record.id := congrArg Base.id (Registry.build?_base hbuilt)
            exact (hm.ids _ hmem).symm.trans (hbase.symm.trans hid)
          subst hkey
          exact ⟨e, hm.lookup?_of_mem hmem, heligible, rfl⟩

theorem HandsOut.onTable (ht : t.Kept) (h : (b.onTable settings t last).HandsOut id a) :
    ∃ r, t.select id = some r ∧
      Table.mayHandOut (Table.liveAfter b.lease a.reading.wall)
        (Table.dispatchAfter b.lease a.reading.wall) r = true ∧
      (b.onTable settings t last).after a =
        b.onTable settings (t.change id (Row.handedAt a.reading.wall.millis)) last := by
  rcases a with ⟨op, cancelled, now⟩
  rcases h with ⟨hop, j, hj, hid⟩
  cases hop
  cases cancelled with
  | true => cases hj
  | false =>
      unfold after
      rw [access_next_onTable] at hj ⊢
      cases hnext : t.next last b.lease now.wall with
      | none =>
          rw [hnext] at hj
          cases hj
      | some p =>
          rcases p with ⟨record, t', last'⟩
          rcases Table.next_cases hnext with ⟨r', r, hr', hmem, hmay, -, rfl, rfl, rfl⟩
          have hsame : r = r' := Option.some.inj ((Table.select_of_mem ht.nodup hmem).symm.trans hr')
          subst hsame
          rw [hnext] at hj
          injection hj with hbuilt
          have hrow : r.id = id := by
            have hbase : j.id = r.record.id := congrArg Base.id (Registry.build?_base hbuilt)
            exact (ht.ids r hmem).symm.trans (hbase.symm.trans hid)
          subst hrow
          exact ⟨r, Table.select_of_mem ht.nodup hmem, hmay, rfl⟩

theorem run_handedSince {since : Nat} (hm : m.Indexed) (h : m.HandedSince id since)
    (accesses : List (Access β)) (hclock : ∀ a ∈ accesses, since ≤ a.reading.ticks) :
    ∃ m', (b.onMemory d m).run accesses = b.onMemory d m' ∧ m'.Indexed ∧
      m'.HandedSince id since := by
  induction accesses generalizing m with
  | nil => exact ⟨m, rfl, hm, h⟩
  | cons a rest ih =>
      rcases exists_change b d m a with ⟨m₁, hafter, hchange⟩
      rw [run_cons, hafter]
      apply ih (hm.change hchange)
      · exact h.change (hclock a List.mem_cons_self) hchange
      · exact fun a' ha' => hclock a' (List.mem_cons_of_mem a ha')

theorem run_handedSince_onTable {since : Int} (ht : t.Indexed last) (h : t.HandedSince id since)
    (accesses : List (Access β)) (hclock : ∀ a ∈ accesses, a.reading.wall.Shown) :
    ∃ t' last', (b.onTable settings t last).run accesses = b.onTable settings t' last' ∧
      t'.Indexed last' ∧ t'.HandedSince id since := by
  induction accesses generalizing t last with
  | nil => exact ⟨t, last, rfl, ht, h⟩
  | cons a rest ih =>
      rcases exists_change_onTable b settings t last a with ⟨t₁, last₁, hafter, hchange⟩
      rw [run_cons, hafter]
      apply ih (ht.after_change hchange)
      · exact h.change ht (hclock a List.mem_cons_self) hchange
      · exact fun a' ha' => hclock a' (List.mem_cons_of_mem a ha')

theorem handsOut_apart_onMemory (hm : m.Indexed) {first last : Access β}
    {between : List (Access β)}
    (hclock : ∀ a ∈ between ++ [last], first.reading.ticks ≤ a.reading.ticks)
    (hfirst : (b.onMemory d m).HandsOut id first)
    (hlast : ((b.onMemory d m).run (first :: between)).HandsOut id last) :
    first.reading.ticks + b.lease.windowMillis * nanosPerMilli ≤ last.reading.ticks := by
  rcases hfirst.onMemory hm with ⟨e, he, -, hafter⟩
  have hm₁ : (m.replace id { e with dispatchedAt := some first.reading.ticks }).Indexed := by
    have hid := hm.record_id he
    exact hm.replace he rfl hid
  -- What happens in between keeps a time that is not before the first hand-out.
  rcases run_handedSince hm₁ (Memory.handedSince_replace_self rfl (Nat.le_refl _)) between
    (fun a ha => hclock a (List.mem_append_left _ ha)) with ⟨m₂, hrun₂, hm₂, hhanded⟩
  rw [run_cons, hafter, hrun₂] at hlast
  rcases hlast.onMemory hm₂ with ⟨e₂, he₂, heligible, -⟩
  rcases hhanded with ⟨e₃, t, he₃, ht, hle⟩
  cases he₂.symm.trans he₃
  have hpassed : Memory.windowPassed (some t) last.reading.ticks b.lease.window = true := by
    unfold Memory.isEligible at heligible
    rw [ht] at heligible
    exact (Bool.and_eq_true_iff.mp heligible).2
  have hwindow : b.lease.windowMillis * 1000000 ≤ last.reading.ticks - t :=
    of_decide_eq_true hpassed
  have horder := hclock last (by simp)
  rw [nanosPerMilli]
  omega

theorem handsOut_apart_onTable {lastSeq : Int} (ht : t.Indexed lastSeq) {first last : Access β}
    {between : List (Access β)}
    (hclock : ∀ a ∈ first :: (between ++ [last]), a.reading.wall.Shown)
    (hfirst : (b.onTable settings t lastSeq).HandsOut id first)
    (hlast : ((b.onTable settings t lastSeq).run (first :: between)).HandsOut id last) :
    first.reading.wall.millis + b.lease.windowMillis ≤ last.reading.wall.millis := by
  rcases hfirst.onTable ht.toKept with ⟨r, hr, -, hafter⟩
  have hhanded := Table.handedSince_handOut hr first.reading.wall.millis
  rcases run_handedSince_onTable (ht.handOut id _) hhanded between
    (fun a ha => hclock a (List.mem_cons_of_mem _ (List.mem_append_left _ ha))) with
    ⟨t₂, last₂, hrun₂, ht₂, r₁, hr₁, hle⟩
  rw [run_cons, hafter, hrun₂] at hlast
  rcases hlast.onTable ht₂.toKept with ⟨r₂, hr₂, hmay, -⟩
  cases hr₁.symm.trans hr₂
  have hbefore := Table.dispatchedMillis_le hmay
  exact Table.add_window_le (hclock first List.mem_cons_self) (hclock last (by simp))
    (Int.le_trans hle hbefore)

end

/-- In every run on one store, by however many drivers, two hand-outs of a job are at least the
dispatch window apart: in memory on the clock that never goes back, in a table in whole milliseconds
of the wall clock, also where steps of other calls come between the steps of a call. -/
theorem hand_outs_keep_window (b : Backend β) (past : List (Access β)) (first last : Access β)
    (between : List (Access β)) (id : String) :
    (∀ d, let b' := (b.onMemory d .empty).run past
      ((first :: (between ++ [last])).map fun a => a.reading.ticks).Pairwise (· ≤ ·) →
      b'.HandsOut id first → (b'.run (first :: between)).HandsOut id last →
      first.reading.ticks + b.lease.windowMillis * nanosPerMilli ≤ last.reading.ticks) ∧
    (∀ settings lastSeq, let b' := (b.onTable settings .empty lastSeq).run past
      (∀ a ∈ first :: (between ++ [last]), a.reading.wall.Shown) →
      b'.HandsOut id first → (b'.run (first :: between)).HandsOut id last →
      first.reading.wall.millis + b.lease.windowMillis ≤ last.reading.wall.millis) ∧
    ∀ lastSeq past first last between earlier later,
      let s := (Table.Traffic.opened lastSeq).run b.lease past
      (∀ e ∈ past ++ first :: between, e.Shown) →
      s.HandsOut b.lease id earlier first →
      (s.run b.lease (first :: between)).HandsOut b.lease id later last →
      earlier.millis + b.lease.windowMillis ≤ later.millis := by
  refine ⟨?_, ?_, ?_⟩
  · intro d b' hclock hfirst hlast
    rcases run_onMemory b d Memory.indexed_empty past with ⟨m, hrun, hm⟩
    have hb' : b' = b.onMemory d m := hrun
    rw [hb'] at hfirst hlast
    have hlater : ∀ a ∈ between ++ [last], first.reading.ticks ≤ a.reading.ticks := by
      intro a ha
      exact List.rel_of_pairwise_cons hclock (List.mem_map_of_mem ha)
    exact handsOut_apart_onMemory hm hlater hfirst hlast
  · intro settings lastSeq b' hclock hfirst hlast
    rcases run_onTable b settings (Table.indexed_empty lastSeq) past with ⟨t, last₁, hrun, ht⟩
    have hb' : b' = b.onTable settings t last₁ := hrun
    rw [hb'] at hfirst hlast
    exact handsOut_apart_onTable ht hclock hfirst hlast
  · intro lastSeq past first last between earlier later s hshown hfirst hlast
    have hs := (Table.Traffic.sound_opened lastSeq).run b.lease past
    have hpast : ∀ e ∈ past, e.Shown := fun e he => hshown e (List.mem_append_left _ he)
    have hlater : ∀ e ∈ first :: between, e.Shown :=
      fun e he => hshown e (List.mem_append_right past he)
    have htimely := Table.Traffic.timely_run (Table.Traffic.timely_opened b.lease lastSeq) hpast
    exact Table.Traffic.handsOut_apart hs htimely hlater hfirst hlast

/-- A job that is saved again half a second after it was handed out is handed out again once a window
of a second has passed. So is one that two drivers have chosen at the same time. -/
theorem hand_outs_keep_window_of_saved_again :
    let job : Job Work := ⟨.named "job" (.named "custom" 3), .kept (.object [])⟩
    let b : Backend Work := inMemory Work.registry .byPriority ⟨300, 1000⟩
    let past : List (Access Work) := [⟨.save job, false, .ofNanos 1000000000⟩]
    let first : Access Work := ⟨.next, false, .ofNanos 2000000000⟩
    let between : List (Access Work) := [⟨.save job, false, .ofNanos 2500000000⟩]
    let last : Access Work := ⟨.next, false, .ofNanos 3000000000⟩
    let kept := (b.onMemory .byPriority .empty).run past
    let tabled (settings : TableSettings) := (b.onTable settings .empty 0).run past
    let asked : Timestamp := .ofNanos 2000000000
    let later : Timestamp := .ofNanos 3000000000
    let save : List Table.Traffic.Event := [.begins (.save ⟨job.base, .object []⟩),
      .moves 0 asked, .moves 0 asked, .moves 0 asked]
    let chosen := save ++ [.begins (.next asked), .begins (.next asked), .moves 1 asked, .moves 2 asked]
    let lost : List Table.Traffic.Event := [.moves 2 asked, .begins (.next later), .moves 3 later]
    let s := (Table.Traffic.opened 0).run b.lease chosen
    (kept.HandsOut "job" first ∧ (kept.run (first :: between)).HandsOut "job" last ∧
      first.reading.ticks + 1000 * nanosPerMilli ≤ last.reading.ticks) ∧
    (∀ settings, (tabled settings).HandsOut "job" first ∧
      ((tabled settings).run (first :: between)).HandsOut "job" last ∧
      first.reading.wall.millis + 1000 ≤ last.reading.wall.millis) ∧
    s.HandsOut b.lease "job" asked (.moves 1 asked) ∧
      (s.run b.lease (.moves 1 asked :: lost)).HandsOut b.lease "job" later (.moves 3 later) ∧
      asked.millis + 1000 ≤ later.millis := by
  intro job b past first between last kept tabled asked later save chosen lost s
  have hkeeps := hand_outs_keep_window b past first last between "job"
  refine ⟨?_, ?_, ?_⟩
  · have hfirst : kept.HandsOut "job" first := handsOut_of_given? (by decide +kernel)
    have hlast : (kept.run (first :: between)).HandsOut "job" last :=
      handsOut_of_given? (by decide +kernel)
    exact ⟨hfirst, hlast, hkeeps.1 .byPriority (by decide) hfirst hlast⟩
  · intro settings
    let row (millis : Int) : Row := ⟨"job", 1000000, 0, millis, ⟨job.base, .object []⟩⟩
    have hsaved : tabled settings = b.onTable settings ⟨[row 0]⟩ 1000000 := by
      with_unfolding_all rfl
    have hgiven : (Table.mk [row 0]).next 1000000 b.lease first.reading.wall =
        some ((row 0).record, ⟨[row 2000]⟩, 1000000) := by
      have hmillis : first.reading.wall.millis = 2000 := by decide +kernel
      rw [Table.next_of_alone (row 0) b.lease _ (by decide +kernel), hmillis]
      rfl
    have hgivenAgain : (Table.mk [row 2000]).next 1000000 b.lease last.reading.wall =
        some ((row 2000).record, ⟨[row 3000]⟩, 1000000) := by
      have hmillis : last.reading.wall.millis = 3000 := by decide +kernel
      rw [Table.next_of_alone (row 2000) b.lease _ (by decide +kernel), hmillis]
      rfl
    have hfirst : (tabled settings).HandsOut "job" first := by
      refine ⟨rfl, job, ?_, rfl⟩
      rw [hsaved, access_next_onTable, hgiven]
      rfl
    have hagain : (tabled settings).run (first :: between) =
        b.onTable settings ⟨[row 2000]⟩ 1000000 := by
      rw [hsaved, run_cons]
      unfold after
      rw [access_next_onTable, hgiven]
      with_unfolding_all rfl
    have hlast : ((tabled settings).run (first :: between)).HandsOut "job" last := by
      refine ⟨rfl, job, ?_, rfl⟩
      rw [hagain, access_next_onTable, hgivenAgain]
      rfl
    have hshown : ∀ a ∈ first :: (between ++ [last]), a.reading.wall.Shown := by
      intro a ha
      simp only [between, List.cons_append, List.nil_append, List.mem_cons, List.not_mem_nil,
        or_false] at ha
      rcases ha with rfl | rfl | rfl <;> exact ⟨by decide, by decide⟩
    exact ⟨hfirst, hlast, hkeeps.2.1 settings 0 hshown hfirst hlast⟩
  · have hfirst : s.HandsOut b.lease "job" asked (.moves 1 asked) :=
      ⟨1, asked, rfl, by decide +kernel, by decide +kernel⟩
    have hlast : (s.run b.lease (.moves 1 asked :: lost)).HandsOut b.lease "job" later
        (.moves 3 later) := ⟨3, later, rfl, by decide +kernel, by decide +kernel⟩
    have hshown : ∀ e ∈ chosen ++ .moves 1 asked :: lost, e.Shown := by
      intro e he
      simp only [chosen, save, lost, List.cons_append, List.nil_append, List.mem_cons,
        List.not_mem_nil, or_false] at he
      rcases he with rfl | rfl | rfl | rfl | rfl | rfl | rfl | rfl | rfl | rfl | rfl | rfl <;>
        first | trivial | exact ⟨by decide, by decide⟩
    exact ⟨hfirst, hlast, hkeeps.2.2 0 chosen (.moves 1 asked) (.moves 3 later) lost asked later
      hshown hfirst hlast⟩

end Backend
end LeaseQueue
