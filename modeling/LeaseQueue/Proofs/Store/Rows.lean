import Mathlib.Data.List.Infix
import LeaseQueue.Proofs.Store.Lateness
import LeaseQueue.Proofs.Store.Lease
import LeaseQueue.Proofs.Store.Statements
import LeaseQueue.Proofs.Store.Window
/-!
# Rows of a table

The rows of a table stand in the order of first saves, keep their places and the
times of their hand-outs whatever is saved, locked or released, and exclude
everybody but the holder while a lease is live. The lease is kept twice, in the
record and in a column, and some statements read the one and some the other; that
the two agree is what keeps the exclusion.
-/

namespace LeaseQueue

def Row.mark (r : Row) : String × Int × Int := (r.id, r.seq, r.dispatchedMillis)

/-- An owner holds the row's job, and in whole milliseconds less than a lease has passed since the
lock was taken or renewed. -/
structure Row.Leased (lease : LeaseSettings) (now : Timestamp) (owner : String) (r : Row) :
    Prop where
  inProgress : r.status.inProgress = true
  owner : r.status.owner = owner
  taken : ∃ s, r.status.modTime = some s ∧ s.isLeap = false ∧ s.inRange = true ∧
    now.millis - s.millis < (lease.lockSeconds * 1000 : Nat)

theorem Timestamp.shown_of_not_isLeap {t : Timestamp} (hleap : t.isLeap = false)
    (hrange : t.inRange = true) : t.Shown := by
  refine ⟨hrange, ?_⟩
  have hlt := nanos_lt_of_not_isLeap hleap
  omega

namespace Row

variable {lease : LeaseSettings} {now : Timestamp} {owner other : String} {r : Row}

/-- The lease is live in the record, where saves look. -/
theorem Leased.isLive (h : r.Leased lease now owner) (hne : owner ≠ "")
    (hnow : now.isLeap = false) : r.status.isLive now lease.lockTimeout = true := by
  rcases h.taken with ⟨s, htime, hs, -, hlt⟩
  have hsince := Timestamp.since_lt_of_millis hnow hs hlt
  have htimeout : lease.lockSeconds * 1000 * nanosPerMilli = lease.lockTimeout :=
    Nat.mul_assoc _ _ _
  have hlive : now.since s < lease.lockTimeout := htimeout ▸ hsince
  unfold Status.isLive
  rw [h.inProgress, h.owner, htime]
  simp [hne, hlive]

/-- The lease is live in its column, where locks and hand-outs look. -/
theorem Leased.liveAfter_lt (h : r.Leased lease now owner) (hnow : now.Shown)
    (hlease : r.leaseMillis = leaseOf r.status) : Table.liveAfter lease now < r.leaseMillis := by
  rcases h.taken with ⟨s, htime, hs, hrange, hlt⟩
  have hcolumn : r.leaseMillis = s.millis := by
    rw [hlease, leaseOf, htime]
  have hbounds := hnow.millis_bounds
  have hbounds' := (Timestamp.shown_of_not_isLeap hs hrange).millis_bounds
  unfold Table.liveAfter Table.lockMillis columnSub
  rw [hcolumn, minColumn, maxColumn]
  omega

end Row

namespace Table

variable {t : Table} {r : Row} {lease : LeaseSettings} {now : Timestamp} {owner other : String}

theorem checkSave_of_leased (hheld : r.Leased lease now owner) (hne : owner ≠ "")
    (hnow : now.isLeap = false) {s : Status} (hother : s.owner ≠ owner) (id : String) :
    ∃ err, r.status.checkSave s id now lease.lockTimeout = .error err := by
  have howner : s.owner ≠ r.status.owner := by
    rw [hheld.owner]
    exact hother
  rcases Status.checkSave_of_isLive (hheld.isLive hne hnow) howner with ⟨reason, hcheck⟩
  exact ⟨_, hcheck⟩

theorem save_of_leased (hr : t.select r.id = some r) (hheld : r.Leased lease now owner)
    (hne : owner ≠ "") (hnow : now.isLeap = false) {record : Record} (hid : record.id = r.id)
    (hother : record.status.owner ≠ owner) (lastSeq : Int) :
    ∃ err, t.save lastSeq record now lease = .error err := by
  rcases checkSave_of_leased hheld hne hnow hother r.id with ⟨err, hcheck⟩
  refine ⟨err, ?_⟩
  rw [save_eq, hid, hr]
  simp only [hcheck]
  rfl

theorem explain_of_busy (hr : t.select r.id = some r) (hbusy : r.status.inProgress = true)
    (releasing : Bool) : ∃ err, t.explain releasing r.id = .error err := by
  unfold explain
  rw [hr]
  simp only [hbusy, Bool.not_true, Bool.and_false, Bool.false_eq_true, if_false]
  split
  · exact ⟨_, rfl⟩
  · split <;> exact ⟨_, rfl⟩

theorem answered_of_busy (hr : t.select r.id = some r) (hbusy : r.status.inProgress = true)
    (last : Int) (releasing : Bool) :
    ∃ err, t.answered last releasing r.id (.ok none) = .error err := by
  rcases explain_of_busy hr hbusy releasing with ⟨err, herr⟩
  exact ⟨err, by rw [answered, herr]; rfl⟩

theorem lockWhere_of_leased (hr : t.select r.id = some r) (hheld : r.Leased lease now owner)
    (hnow : now.Shown) (hlease : r.leaseMillis = Row.leaseOf r.status) (hother : other ≠ owner) :
    t.lockWhere r.id other now (liveAfter lease now) = .ok none := by
  have hlate : ¬ r.leaseMillis ≤ liveAfter lease now := Int.not_le.mpr (hheld.liveAfter_lt hnow hlease)
  unfold lockWhere
  rw [turnWhere_eq hr]
  simp [hheld.inProgress, hheld.owner, hother.symm, hlate]

theorem unlockWhere_of_leased (hr : t.select r.id = some r) (hheld : r.Leased lease now owner)
    (hother : other ≠ owner) : t.unlockWhere r.id other now = .ok none := by
  unfold unlockWhere
  rw [turnWhere_eq hr]
  simp [hheld.owner, hother.symm]

theorem lock_of_leased (hr : t.select r.id = some r) (hheld : r.Leased lease now owner)
    (hnow : now.Shown) (hlease : r.leaseMillis = Row.leaseOf r.status) (hother : other ≠ owner)
    (last : Int) : ∃ err, t.lock last lease r.id other now = .error err := by
  rw [lock_eq, lockWhere_of_leased hr hheld hnow hlease hother]
  exact answered_of_busy hr hheld.inProgress last false

theorem unlock_of_leased (hr : t.select r.id = some r) (hheld : r.Leased lease now owner)
    (hother : other ≠ owner) (last : Int) :
    ∃ err, t.unlock last lease r.id other now = .error err := by
  rw [unlock_eq, unlockWhere_of_leased hr hheld hother]
  exact answered_of_busy hr hheld.inProgress last true

theorem not_mayHandOut_of_leased (hheld : r.Leased lease now owner) (hnow : now.Shown)
    (hlease : r.leaseMillis = Row.leaseOf r.status) (dispatchAfter : Int) :
    mayHandOut (liveAfter lease now) dispatchAfter r = false := by
  have hlate : ¬ r.leaseMillis ≤ liveAfter lease now := Int.not_le.mpr (hheld.liveAfter_lt hnow hlease)
  unfold mayHandOut
  simp [hheld.inProgress, hlate]

namespace Traffic

/-!
## Marks
-/

variable {s : Traffic} {i : Nat}

theorem marks_handle (hnone : s.calls[i]?.bind asked? = none) (lease : LeaseSettings)
    (now : Timestamp) :
    s.table.rows.map Row.mark <+: (s.handle lease (.moves i now)).table.rows.map Row.mark := by
  have hsame : ∀ {id f}, (∀ r, Row.mark (f r) = r.mark) →
      s.table.rows.map Row.mark <+: (s.table.change id f).rows.map Row.mark := by
    intro id f hf
    rw [map_change hf]
  have hturns := turns_handle lease s (.moves i now)
  generalize s.handle lease (.moves i now) = s' at hturns
  cases hturns with
  | idles hcall => exact List.prefix_rfl
  | acts hcall hacts =>
      cases hacts with
      | makes hnew =>
          show _ <+: (s.table.rows ++ [_]).map Row.mark
          rw [List.map_append]
          exact List.prefix_append _ _
      | claims hr hseen =>
          rw [hcall] at hnone
          cases hnone
      | replaces => exact hsame fun _ => rfl
      | locks => exact hsame fun _ => rfl
      | unlocks => exact hsame fun _ => rfl
      | _ => exact List.prefix_rfl

theorem lt_of_draws (hs : s.Sound) {now : Timestamp} {seq : Int} (hbefore : s.placeAt i = none)
    (hafter : (s.handle lease (.moves i now)).placeAt i = some seq) :
    ∀ r ∈ s.table.rows, r.seq < seq := by
  have hturns := turns_handle lease s (.moves i now)
  generalize s.handle lease (.moves i now) = s' at hturns hafter
  cases hturns with
  | idles hcall => cases hbefore.symm.trans hafter
  | acts hcall hacts =>
      rcases placeAt_set hafter with ⟨-, hy⟩ | ⟨hne, -⟩
      · cases hacts with
        | looks hplain => cases hplain.place?_eq.symm.trans hy
        | draws =>
            cases hy
            intro r hr
            have hgiven := hs.given r.seq (List.mem_map_of_mem hr)
            exact Int.lt_of_le_of_lt hgiven (lt_nextSeq s.lastSeq now)
        | _ => cases hy
      · exact absurd rfl hne

/-!
## Calls that a live lease bars
-/

def LeasedAt (s : Traffic) (lease : LeaseSettings) (now : Timestamp) (id owner : String) : Prop :=
  ∃ r, s.table.select id = some r ∧ r.Leased lease now owner

/-- Somebody else asks for a change of a job, or anybody asks for the next one, at a reading. -/
def Contends (id owner : String) (now : Timestamp) : Request → Prop
  | .save record => record.id = id ∧ record.status.owner ≠ owner
  | .next asked => asked = now
  | .turn _ id' other asked => id' = id ∧ other ≠ owner ∧ asked = now

/-- A call that will not change the row of a job, nor give the job. -/
def Barred (lease : LeaseSettings) (now : Timestamp) (id owner : String) : Exchange → Prop
  | .select record _ => record.id = id ∧ record.status.owner ≠ owner
  | .weigh record stored _ => record.id = id ∧ record.status.owner ≠ owner ∧
      ∃ r, stored = some r ∧ r.Leased lease now owner
  | .create .. => False
  | .replace .. => False
  | .choose asked => asked = now
  | .claim chosen _ => chosen.id ≠ id
  | .turn _ id' other asked => id' = id ∧ other ≠ owner ∧ asked = now
  | .explain _ id' => id' = id
  | .ended (.done r) => ∃ err, r = .error err
  | .ended (.handed record) => ∀ r, record = some r → r.id ≠ id

theorem barred_begin {id owner : String} {request : Request} (h : Contends id owner now request) :
    Barred lease now id owner request.begin := by
  cases request with
  | save record => exact h
  | next asked => exact h
  | turn releasing id' other asked => exact h

theorem barred_step (ht : t.Kept) (hr : t.select r.id = some r) (hheld : r.Leased lease now owner)
    (hne : owner ≠ "") (hleap : now.isLeap = false) (hnow : now.Shown) (last : Int) {x : Exchange}
    (h : Barred lease now r.id owner x) :
    Barred lease now r.id owner (x.step lease now (t, last)).1 ∧
      (x.step lease now (t, last)).2.1.select r.id = some r := by
  have hlease := ht.leases r (mem_of_select hr).1
  have hnothing : Barred lease now r.id owner (.ended (.handed none)) :=
    fun _ hnone => nomatch hnone
  cases x with
  | select record lost =>
      rcases h with ⟨hid, hother⟩
      refine ⟨⟨hid, hother, r, ?_, hheld⟩, hr⟩
      rw [hid, hr]
  | weigh record stored lost =>
      rcases h with ⟨hid, hother, seen, rfl, hseen⟩
      rcases checkSave_of_leased hseen hne hleap hother record.id with ⟨err, hcheck⟩
      have hsettle : Exchange.settle lease now record (some seen) lost last =
          (.ended (.done (.error err)), last) := by
        simp only [Exchange.settle, hcheck]
      simp only [Exchange.step, hsettle]
      exact ⟨⟨err, rfl⟩, hr⟩
  | create record seq => exact h.elim
  | replace record seen => exact h.elim
  | choose asked =>
      cases h
      simp only [Exchange.step]
      split
      · rename_i chosen hchosen
        refine ⟨?_, hr⟩
        intro hid
        rcases candidate_cases hchosen with ⟨hmem, hmay⟩
        have hsame := select_of_mem ht.nodup hmem
        rw [hid, hr] at hsame
        cases hsame
        rw [not_mayHandOut_of_leased hheld hnow hlease] at hmay
        cases hmay
      · exact ⟨hnothing, hr⟩
  | claim chosen asked =>
      simp only [Exchange.step]
      split
      · rename_i hclaim
        rcases claim_cases hclaim with ⟨row, hrow, -, rfl, hafter⟩
        constructor
        · intro record hrecord
          rw [hafter] at hrecord
          cases hrecord
          rcases mem_of_select hrow with ⟨hmem, hid⟩
          show row.record.id ≠ r.id
          rw [ht.ids row hmem, hid]
          exact h
        · have hkeeps : ∀ row, (Row.handedAt asked.millis row).id = row.id := fun _ => rfl
          show (t.change chosen.id (Row.handedAt asked.millis)).select r.id = some r
          rw [select_change hkeeps, if_neg h, hr]
      · exact ⟨hnothing, hr⟩
  | turn releasing id other asked =>
      rcases h with ⟨rfl, hother, rfl⟩
      cases releasing with
      | false =>
          simp only [Exchange.step, Bool.false_eq_true, if_false,
            lockWhere_of_leased hr hheld hnow hlease hother]
          exact ⟨rfl, hr⟩
      | true =>
          simp only [Exchange.step, if_true, unlockWhere_of_leased hr hheld hother]
          exact ⟨rfl, hr⟩
  | explain releasing id =>
      cases h
      exact ⟨explain_of_busy hr hheld.inProgress releasing, hr⟩
  | ended reply => exact ⟨h, hr⟩

theorem barred_move {id : String} {x : Exchange} (hs : s.Sound) (hne : owner ≠ "")
    (hleap : now.isLeap = false) (hnow : now.Shown) (hcall : s.calls[i]? = some x)
    (hbarred : Barred lease now id owner x) (hleased : s.LeasedAt lease now id owner) :
    (s.handle lease (.moves i now)).table.select id = s.table.select id ∧
      ∃ y, (s.handle lease (.moves i now)).calls[i]? = some y ∧ Barred lease now id owner y := by
  rcases hleased with ⟨r, hr, hheld⟩
  have hid := (mem_of_select hr).2
  rw [← hid] at hbarred hr ⊢
  rcases barred_step hs.kept hr hheld hne hleap hnow s.lastSeq hbarred with ⟨hafter, hrow⟩
  have hlt : i < s.calls.length := (List.getElem?_eq_some_iff.mp hcall).1
  simp only [handle, hcall]
  exact ⟨hrow.trans hr.symm, _, List.getElem?_set_self hlt, hafter⟩

/-- However its steps fall among those of other calls, a call that is barred stays so as long as it
moves under the lease, and leaves the row. -/
theorem barred_run {id : String} {events : List Event} {x : Exchange} (hs : s.Sound)
    (hne : owner ≠ "") (hleap : now.isLeap = false) (hnow : now.Shown)
    (hcall : s.calls[i]? = some x) (hbarred : Barred lease now id owner x)
    (hunder : EachMove lease i (fun s at' => at' = now ∧ s.LeasedAt lease now id owner) s events) :
    EachMove lease i (fun s at' =>
        (s.handle lease (.moves i at')).table.select id = s.table.select id) s events ∧
      ∃ y, (s.run lease events).calls[i]? = some y ∧ Barred lease now id owner y := by
  induction events generalizing s x with
  | nil => exact ⟨trivial, x, hcall, hbarred⟩
  | cons e rest ih =>
      have hstep : (∀ at', e = .moves i at' →
          (s.handle lease (.moves i at')).table.select id = s.table.select id) ∧
          ∃ y, (s.handle lease e).calls[i]? = some y ∧ Barred lease now id owner y := by
        by_cases hmoves : ∃ at', e = .moves i at'
        · rcases hmoves with ⟨at', rfl⟩
          rcases hunder.1 at' rfl with ⟨rfl, hleased⟩
          rcases barred_move hs hne hleap hnow hcall hbarred hleased with ⟨hrow, hafter⟩
          refine ⟨?_, hafter⟩
          intro at' he
          cases he
          exact hrow
        · have hother : ∀ at', e ≠ .moves i at' := fun at' he => hmoves ⟨at', he⟩
          exact ⟨fun at' he => absurd he (hother at'), x, call_handle_of_ne hcall hother, hbarred⟩
      rcases hstep with ⟨hkeeps, y, hcall', hbarred'⟩
      rcases ih (hs.handle lease e) hcall' hbarred' hunder.2 with ⟨hrest, hend⟩
      exact ⟨⟨hkeeps, hrest⟩, hend⟩

end Traffic

end Table

namespace Backend

variable {β : Type} [Body β]

section

variable {b : Backend β} {settings : TableSettings} {t t' : Table} {last last' : Int}

omit [Body β] in
theorem onTable_injective
    (h : b.onTable settings t last = b.onTable settings t' last') : t = t' ∧ last = last' := by
  have hstorage : Storage.table settings (some t) last = .table settings (some t') last' :=
    congrArg Backend.storage h
  injection hstorage with _ ht hlast
  exact ⟨Option.some.inj ht, hlast⟩

theorem ids_after {a : Access β}
    (h : (b.onTable settings t last).after a = b.onTable settings t' last') :
    t'.rows.map Row.id =
      t.rows.map Row.id ++ ((b.onTable settings t last).newcomer? a).toList := by
  -- A change of one row brings no job in.
  have hkeeps : ∀ {id f}, t' = t.change id f → (∀ r, (f r).id = r.id) →
      t'.rows.map Row.id =
        t.rows.map Row.id ++ ((b.onTable settings t last).newcomer? a).toList := by
    intro id f ht' hid
    have hnone : (b.onTable settings t last).newcomer? a = none := by
      apply newcomer?_eq_none
      intro j _ hbefore
      have hselect : t.select j.id = none := Option.map_eq_none_iff.mp hbefore
      rw [h]
      show (t'.select j.id).map Row.record = none
      rw [ht', Table.select_change hid, hselect]
      split <;> rfl
    rw [hnone, ht', Table.map_change hid]
    exact (List.append_nil _).symm
  rcases exists_change_onTable b settings t last a with ⟨t₁, last₁, hafter, hchange⟩
  rcases onTable_injective (h.symm.trans hafter) with ⟨rfl, rfl⟩
  generalize hop : a.operation = op at hchange
  cases hchange with
  | none =>
      have hnone : (b.onTable settings t last).newcomer? a = none := by
        apply newcomer?_eq_none
        intro j _ hbefore
        rw [h]
        exact hbefore
      rw [hnone]
      exact (List.append_nil _).symm
  | saved hj hr hcheck => exact hkeeps rfl (fun _ => rfl)
  | @created j record _ _ hj hnone =>
      have hid : record.id = j.id := Job.toRecord_id hj
      have hnew : (b.onTable settings t last).newcomer? a = some j.id := by
        apply newcomer?_eq_some hop
        · show (t.select j.id).map Row.record = none
          rw [← hid, hnone]
          rfl
        · rw [h]
          show (Table.select _ j.id).map Row.record ≠ none
          rw [Table.select_append, ← hid, hnone, if_pos rfl]
          simp
      rw [hnew, ← hid]
      exact List.map_append
  | handed hmem hmay => exact hkeeps rfl (fun _ => rfl)
  | locked hr hfree => exact hkeeps rfl (fun _ => rfl)
  | unlocked hr hheld => exact hkeeps rfl (fun _ => rfl)

theorem access_contends_onTable {r : Row} {owner : String} {now : Reading}
    (hr : t.select r.id = some r) (hlease : r.leaseMillis = Row.leaseOf r.status)
    (hheld : r.Leased b.lease now.wall owner) (hne : owner ≠ "") (hleap : now.wall.isLeap = false)
    (hnow : now.wall.Shown) {op : Operation β} (hop : op.Contends r.id owner) (cancelled : Bool) :
    ∃ err, (b.onTable settings t last).access ⟨op, cancelled, now⟩ =
      (.done (.error err), b.onTable settings t last) := by
  cases op with
  | save j =>
      rcases hop with ⟨hid, hother⟩
      cases hj : j.toRecord with
      | error reason => exact ⟨_, access_save_onTable_unwritable b settings t last cancelled now hj⟩
      | ok record =>
          cases cancelled with
          | true => exact ⟨_, access_save_onTable_cancelled b settings t last now hj⟩
          | false =>
              have hrecord : record.id = r.id := (Job.toRecord_id hj).trans hid
              have howner : record.status.owner ≠ owner := Job.toRecord_status hj ▸ hother
              rcases Table.save_of_leased hr hheld hne hleap hrecord howner last with ⟨err, hsave⟩
              refine ⟨err, ?_⟩
              rw [access_save_onTable b settings t last now hj, hsave]
              rfl
  | lock id other =>
      rcases hop with ⟨rfl, hother⟩
      cases cancelled with
      | true => exact ⟨.cancelled, rfl⟩
      | false =>
          rcases Table.lock_of_leased hr hheld hnow hlease hother last with ⟨err, hlock⟩
          refine ⟨err, ?_⟩
          rw [access_lock_onTable, hlock]
          rfl
  | unlock id other =>
      rcases hop with ⟨rfl, hother⟩
      cases cancelled with
      | true => exact ⟨.cancelled, rfl⟩
      | false =>
          rcases Table.unlock_of_leased hr hheld hother last with ⟨err, hunlock⟩
          refine ⟨err, ?_⟩
          rw [access_unlock_onTable, hunlock]
          rfl
  | get _ => cases hop
  | next => cases hop
  | tally => cases hop
  | infos => cases hop
  | pull _ => cases hop

theorem access_next_ne_onTable {r : Row} {owner : String} {now : Reading} (ht : t.Kept)
    (hr : r ∈ t.rows) (hheld : r.Leased b.lease now.wall owner) (hnow : now.wall.Shown)
    {cancelled : Bool} {j : Job β}
    (h : ((b.onTable settings t last).access ⟨.next, cancelled, now⟩).1 = .job (some j)) :
    j.id ≠ r.id := by
  intro hid
  have hhands : (b.onTable settings t last).HandsOut r.id ⟨.next, cancelled, now⟩ :=
    ⟨rfl, j, h, hid⟩
  rcases hhands.onTable ht with ⟨r', hr', hmay, -⟩
  cases (Table.select_of_mem ht.nodup hr).symm.trans hr'
  rw [Table.not_mayHandOut_of_leased hheld hnow (ht.leases r hr)] at hmay
  cases hmay

end

/-- Whole operations of others than the owner get errors at the reading and change nothing, and the
job is not handed out. -/
def Excludes (b : Backend β) (id owner : String) (now : Reading) : Prop :=
  (∀ (op : Operation β) cancelled, op.Contends id owner →
    ∃ err, b.access ⟨op, cancelled, now⟩ = (.done (.error err), b)) ∧
  ∀ cancelled (j : Job β), (b.access ⟨.next, cancelled, now⟩).1 = .job (some j) → j.id ≠ id

end Backend

namespace Table
namespace Traffic

/-- However its steps fall among those of other calls, a call of somebody else than the owner that is
made under the lease at the reading leaves the row, and ends in an error or without the job, if it
ends. -/
def Excludes (lease : LeaseSettings) (s : Traffic) (id owner : String) (now : Timestamp) : Prop :=
  ∀ request events, Contends id owner now request →
    let s' := s.handle lease (.begins request)
    let i := s.calls.length
    EachMove lease i (fun s at' => at' = now ∧ s.LeasedAt lease now id owner) s' events →
    EachMove lease i (fun s at' =>
      (s.handle lease (.moves i at')).table.select id = s.table.select id) s' events ∧
    ∀ reply, (s'.run lease events).calls[i]? = some (.ended reply) →
      match reply with
      | .done r => ∃ err, r = .error err
      | .handed record => ∀ r, record = some r → r.id ≠ id

def isDone : Exchange → Bool
  | .ended (.done _) => true
  | _ => false

theorem exists_of_isDone {x : Exchange} (h : isDone x = true) : ∃ r, x = .ended (.done r) := by
  cases x with
  | ended reply =>
      cases reply with
      | done r => exact ⟨r, rfl⟩
      | handed record => cases h
  | _ => cases h

theorem excludes_of_sound {s : Traffic} {lease : LeaseSettings} {id owner : String}
    {now : Timestamp} (hs : s.Sound) (hne : owner ≠ "") (hleap : now.isLeap = false)
    (hnow : now.Shown) : s.Excludes lease id owner now := by
  intro request events hcontends s' i hunder
  have hcall : s'.calls[i]? = some request.begin := by
    show (s.calls ++ [request.begin])[s.calls.length]? = _
    simp
  rcases barred_run (hs.handle lease _) hne hleap hnow hcall (barred_begin hcontends) hunder with
    ⟨hkeeps, y, hend, hbarred⟩
  refine ⟨hkeeps, ?_⟩
  intro reply hover
  cases hend.symm.trans hover
  cases reply with
  | done r => exact hbarred
  | handed record => exact hbarred

end Traffic
end Table

namespace Backend

variable {β : Type} [Body β]

open Table

/-- In every table that the steps of any calls of any drivers lead to, in any order, the column of each
lease is the millisecond of the last change of the lock, or zero. The rows stand in the order in which
they were made and keep their places; no place is given twice, and one that is drawn is beyond those
of all rows that are there, so they grow along the rows if no two first saves overlap. Only the claim
of a hand-out changes when a job was handed out. A save is refused if it has looked at the row before
the lock was last changed; and while the lease in a row is live in whole milliseconds, others than its
holder get errors and change nothing, and the job is not handed out. -/
theorem rows_keep_places_and_exclude (b : Backend β) (settings : TableSettings) (lastSeq : Int)
    (past : List Traffic.Event) :
    let s := (Traffic.opened lastSeq).run b.lease past
    (∀ r ∈ s.table.rows, r.leaseMillis = Row.leaseOf r.status ∧
      r.leaseMillis = match r.status.modTime with
        | some t => t.total / nanosPerMilli
        | none => 0) ∧
    (s.table.rows.map Row.seq).Nodup ∧
    (∀ i now seq, s.placeAt i = none → (s.handle b.lease (.moves i now)).placeAt i = some seq →
      ∀ r ∈ s.table.rows, r.seq < seq) ∧
    ((Traffic.opened lastSeq).SavesApart b.lease past →
      (s.table.rows.map Row.seq).Pairwise (· < ·)) ∧
    (∀ e, s.table.rows.map (fun r => (r.id, r.seq)) <+:
      (s.handle b.lease e).table.rows.map fun r => (r.id, r.seq)) ∧
    (∀ i now, s.calls[i]?.bind Traffic.asked? = none →
      s.table.rows.map Row.mark <+: (s.handle b.lease (.moves i now)).table.rows.map Row.mark) ∧
    (∀ r ∈ s.table.rows, ∀ i x, s.calls[i]? = some x → x.Late r → ∀ events,
      s.Fails b.lease i events) ∧
    ∀ r ∈ s.table.rows, ∀ owner (now : Reading), owner ≠ "" → now.wall.isLeap = false →
      now.wall.inRange = true → r.Leased b.lease now.wall owner →
      (b.onTable settings s.table s.lastSeq).Excludes r.id owner now ∧
        s.Excludes b.lease r.id owner now.wall := by
  intro s
  have hs : s.Sound := (Traffic.sound_opened lastSeq).run b.lease past
  have hmerging : s.Merging := (Traffic.merging_opened lastSeq).run b.lease past
  refine ⟨?_, hs.apart, ?_, ?_, ?_, ?_, ?_, ?_⟩
  · intro r hr
    refine ⟨hs.kept.leases r hr, ?_⟩
    rw [hs.kept.leases r hr, Row.leaseOf]
    cases r.status.modTime with
    | some t => exact t.millis_eq_total_div
    | none => rfl
  · exact fun i now seq hbefore hafter => Traffic.lt_of_draws hs hbefore hafter
  · intro hapart
    exact List.pairwise_map.mpr (Traffic.inOrder_run List.Pairwise.nil hapart.inTurn)
  · exact fun e => Traffic.places_handle b.lease s e
  · exact fun i now hnone => Traffic.marks_handle hnone b.lease now
  · intro r hr i x hcall hlate events
    exact Traffic.fails_of_late hmerging hcall (select_of_mem hs.kept.nodup hr) hlate
  · intro r hr owner now hne hleap hrange hheld
    have hnow := Timestamp.shown_of_not_isLeap hleap hrange
    refine ⟨⟨?_, ?_⟩, Traffic.excludes_of_sound hs hne hleap hnow⟩
    · intro op cancelled hop
      exact access_contends_onTable (select_of_mem hs.kept.nodup hr) (hs.kept.leases r hr) hheld hne
        hleap hnow hop cancelled
    · intro cancelled j hj
      exact access_next_ne_onTable hs.kept hr hheld hnow hj

/-- Two drivers save their first jobs at the same time. Who draws the first place makes its row last. -/
theorem first_saves_cross :
    let s := (Traffic.opened 0).run .standard [
      .begins (.save ⟨.named "early" (.named "sample" 0), .null⟩),
      .begins (.save ⟨.named "late" (.named "sample" 0), .null⟩),
      .moves 0 (.ofNanos 0), .moves 0 (.ofNanos 0), .moves 1 (.ofNanos 0), .moves 1 (.ofNanos 0),
      .moves 1 (.ofNanos 0), .moves 0 (.ofNanos 0)]
    s.table.rows.map (fun r => (r.id, r.seq)) = [("late", 2), ("early", 1)] ∧
      ¬ (s.table.rows.map Row.seq).Pairwise (· < ·) := by
  intro s
  have hrows : s.table.rows.map (fun r => (r.id, r.seq)) = [("late", 2), ("early", 1)] := by
    decide +kernel
  refine ⟨hrows, ?_⟩
  have hseqs : s.table.rows.map Row.seq = [2, 1] := by
    have hmap := congrArg (List.map Prod.snd) hrows
    rwa [List.map_map] at hmap
  rw [hseqs]
  decide

/-- Two jobs are saved one after the other. Of the first one, which is locked, a rival that asks for
the lock is refused, and so is one whose save has begun when the holder asks to renew the lock, and
one whose save has looked at the row before the lock was taken. -/
theorem rows_exclude_rival :
    let b : Backend Work := inMemory .empty .byPriority .standard
    let now : Reading := .ofNanos 181000000000
    let job : String → Record := fun id => ⟨(sampleJob id).base, .null⟩
    let first : List Traffic.Event := [.begins (.save (job "job")), .moves 0 (.ofNanos 0),
      .moves 0 (.ofNanos 0), .moves 0 (.ofNanos 0)]
    let both : List Traffic.Event := first ++ [.begins (.save (job "other")),
      .moves 1 (.ofNanos 0), .moves 1 (.ofNanos 0), .moves 1 (.ofNanos 0)]
    let locked : List Traffic.Event := first ++
      [.begins (.turn false "job" "holder" (.ofNanos 1000000000)), .moves 1 (.ofNanos 1000000000)]
    let raced : List Traffic.Event := first ++
      [.begins (.save (job "job")), .moves 1 (.ofNanos 0), .moves 1 (.ofNanos 0),
        .begins (.turn false "job" "holder" (.ofNanos 0)), .moves 2 (.ofNanos 0)]
    let s := (Traffic.opened 0).run b.lease locked
    let races : List Traffic.Event := [.moves 2 now.wall,
      .begins (.turn false "job" "holder" now.wall), .moves 2 now.wall]
    ∀ settings, let b' := b.onTable settings s.table s.lastSeq
    (((Traffic.opened 0).run b.lease both).table.rows.map Row.seq).Pairwise (· < ·) ∧
    (∃ err, b'.access ⟨.lock "job" "rival", false, now⟩ = (.done (.error err), b')) ∧
    (∃ err, ((s.handle b.lease (.begins (.save (job "job")))).run b.lease races).calls[2]? =
      some (.ended (.done (.error err)))) ∧
    ∃ err, (((Traffic.opened 0).run b.lease raced).run b.lease [.moves 1 (.ofNanos 0)]).calls[1]? =
      some (.ended (.done (.error err))) := by
  intro b now job first both locked raced s races settings b'
  have hapart : (Traffic.opened 0).SavesApart b.lease both := by
    have hinits : ∀ past ∈ both.inits,
        ((Traffic.opened 0).run b.lease past).pending.length ≤ 1 := by decide +kernel
    exact fun past hpast => hinits past ((List.mem_inits past both).mpr hpast)
  rcases rows_keep_places_and_exclude b settings 0 both with ⟨-, -, -, horder, -, -, -, -⟩
  let row : Row := ⟨"job", 1, 1000, 0, ⟨{ (sampleJob "job").base with
    status := ⟨false, false, true, "holder", 1, some (.ofNanos 1000000000)⟩ }, .null⟩⟩
  have hlive : row.Leased b.lease now.wall "holder" :=
    ⟨rfl, rfl, .ofNanos 1000000000, rfl, rfl, by decide, by decide⟩
  have hmem : row ∈ s.table.rows := List.mem_cons_self
  rcases rows_keep_places_and_exclude b settings 0 locked with ⟨-, -, -, -, -, -, -, hexcludes⟩
  rcases hexcludes row hmem "holder" now (by decide) rfl (by decide) hlive with ⟨hwhole, hraces⟩
  have hunder : Traffic.EachMove b.lease 2
      (fun s at' => at' = now.wall ∧ s.LeasedAt b.lease now.wall "job" "holder")
      (s.handle b.lease (.begins (.save (job "job")))) races := by
    refine ⟨?_, nofun, ?_, trivial⟩
    · intro at' he
      cases he
      exact ⟨rfl, row, rfl, hlive⟩
    · intro at' he
      cases he
      exact ⟨rfl, row, rfl, hlive⟩
  have hends : ((s.handle b.lease (.begins (.save (job "job")))).run b.lease races).calls[2]?.any
      Traffic.isDone = true := by decide +kernel
  rcases (Option.any_eq_true _ _).mp hends with ⟨x, hend, hdone⟩
  rcases Traffic.exists_of_isDone hdone with ⟨r, rfl⟩
  rcases (hraces (.save (job "job")) races ⟨rfl, by decide⟩ hunder).2 (.done r) hend with
    ⟨err, rfl⟩
  rcases rows_keep_places_and_exclude b settings 0 raced with ⟨-, -, -, -, -, -, hlate, -⟩
  have hrefused : (((Traffic.opened 0).run b.lease raced).run b.lease
      [.moves 1 (.ofNanos 0)]).calls[1]?.any Traffic.isDone = true := by decide +kernel
  rcases (Option.any_eq_true _ _).mp hrefused with ⟨y, hlast, hdone'⟩
  rcases Traffic.exists_of_isDone hdone' with ⟨r', rfl⟩
  have hbehind : (((Traffic.opened 0).run b.lease raced).table.select "job").any (fun r =>
      ((Traffic.opened 0).run b.lease raced).calls[1]?.any fun x => x.Late r) = true := by
    decide +kernel
  rcases (Option.any_eq_true _ _).mp hbehind with ⟨seen, hselect, hany⟩
  rcases (Option.any_eq_true _ _).mp hany with ⟨save, hcall, hbefore⟩
  rcases (hlate seen (mem_of_select hselect).1 1 save hcall (of_decide_eq_true hbefore)
    [.moves 1 (.ofNanos 0)]).2 (.done r') hlast with ⟨err', herr⟩
  cases herr
  exact ⟨horder hapart, hwhole.1 (.lock "job" "rival") false ⟨rfl, by decide⟩, ⟨err, hend⟩,
    err', hlast⟩

end Backend
end LeaseQueue
