import LeaseQueue.Proofs.Job.Lock
import LeaseQueue.Proofs.Store.Traffic
/-!
# Saves that are late

A save looks at the row of its job before it replaces the record there. If the lock
of the job is taken, renewed or released in between, the count of such changes gives
the save away: it is refused, whatever the clocks show, and changes nothing.
-/

namespace LeaseQueue

namespace Table

namespace Exchange

/-- A save writes no smaller a count than it has seen. -/
def Merging : Exchange → Prop
  | .replace record seen => seen.modCount ≤ record.status.modCount
  | _ => True

/-- A save has looked at the row when fewer changes of its lock were counted, or was refused. -/
def Late (r : Row) : Exchange → Prop
  | .weigh record (some seen) _ => record.id = r.id ∧ seen.status.modCount < r.status.modCount
  | .replace record seen => record.id = r.id ∧ seen.modCount < r.status.modCount
  | .ended (.done (.error _)) => True
  | _ => False

instance (r : Row) : ∀ x : Exchange, Decidable (x.Late r)
  | .weigh _ none _ => inferInstanceAs (Decidable False)
  | .weigh record (some seen) _ =>
      inferInstanceAs (Decidable (record.id = r.id ∧ seen.status.modCount < r.status.modCount))
  | .replace record seen =>
      inferInstanceAs (Decidable (record.id = r.id ∧ seen.modCount < r.status.modCount))
  | .ended (.done (.error _)) => inferInstanceAs (Decidable True)
  | .ended (.done (.ok _)) => inferInstanceAs (Decidable False)
  | .ended (.handed _) => inferInstanceAs (Decidable False)
  | .select .. => inferInstanceAs (Decidable False)
  | .create .. => inferInstanceAs (Decidable False)
  | .choose _ => inferInstanceAs (Decidable False)
  | .claim .. => inferInstanceAs (Decidable False)
  | .turn .. => inferInstanceAs (Decidable False)
  | .explain .. => inferInstanceAs (Decidable False)

variable {x : Exchange} {r r' : Row}

theorem Late.exists_error {reply : Reply} (h : (ended reply).Late r) :
    ∃ err, reply = .done (.error err) := by
  cases reply with
  | handed record => exact h.elim
  | done answer =>
      cases answer with
      | ok _ => exact h.elim
      | error err => exact ⟨err, rfl⟩

theorem Late.mono (h : x.Late r) (hid : r'.id = r.id)
    (hcount : r.status.modCount ≤ r'.status.modCount) : x.Late r' := by
  cases x with
  | weigh record stored lost =>
      cases stored with
      | none => exact h.elim
      | some seen => exact ⟨h.1.trans hid.symm, UInt64.lt_of_lt_of_le h.2 hcount⟩
  | replace record seen => exact ⟨h.1.trans hid.symm, UInt64.lt_of_lt_of_le h.2 hcount⟩
  | ended reply =>
      rcases h.exists_error with ⟨err, rfl⟩
      trivial
  | _ => exact h.elim

theorem merging_step (x : Exchange) (lease : LeaseSettings) (now : Timestamp) (s : Table × Int) :
    (x.step lease now s).1.Merging := by
  rcases s with ⟨t, last⟩
  cases x with
  | weigh record stored lost =>
      cases stored with
      | none => cases lost <;> trivial
      | some row =>
          simp only [step, settle]
          split
          · exact Status.modCount_le_merge row.status record.status
          · trivial
  | turn releasing id owner asked =>
      simp only [step]
      split <;> trivial
  | select record lost => trivial
  | explain releasing id => trivial
  | ended reply => trivial
  | _ =>
      simp only [step]
      split <;> trivial

theorem Late.step (h : x.Late r) {t : Table} (hr : t.select r.id = some r)
    (lease : LeaseSettings) (now : Timestamp) (last : Int) :
    ∃ y, x.step lease now (t, last) = (y, t, last) ∧ y.Late r := by
  cases x with
  | weigh record stored lost =>
      cases stored with
      | none => exact h.elim
      | some seen =>
          simp only [Exchange.step, settle]
          split
          · exact ⟨_, rfl, h⟩
          · exact ⟨_, rfl, trivial⟩
  | replace record seen =>
      rcases h with ⟨hid, hcount⟩
      have hne : r.status.modCount ≠ seen.modCount := fun heq => UInt64.lt_irrefl _ (heq ▸ hcount)
      have hrefused : t.replace record.id record seen = none := by
        unfold Table.replace updateWhere
        rw [hid, hr]
        simp [hne]
      simp only [Exchange.step, hrefused]
      exact ⟨_, rfl, trivial⟩
  | ended reply => exact ⟨_, rfl, h⟩
  | _ => exact h.elim

end Exchange

namespace Traffic

open Exchange

def Merging (s : Traffic) : Prop := ∀ x ∈ s.calls, x.Merging

variable {lease : LeaseSettings} {s : Traffic} {e : Event} {events : List Event}
variable {i : Nat} {id : String} {x : Exchange} {r : Row}

theorem merging_opened (lastSeq : Int) : Merging (opened lastSeq) := by
  intro x hx
  cases hx

theorem Merging.handle (h : s.Merging) (lease : LeaseSettings) (e : Event) :
    (s.handle lease e).Merging := by
  refine forall_calls_handle h ?_ fun now x _ => merging_step x lease now _
  intro request _
  cases request <;> trivial

theorem Merging.run (h : s.Merging) (lease : LeaseSettings) (events : List Event) :
    (s.run lease events).Merging := by
  induction events generalizing s with
  | nil => exact h
  | cons e rest ih => exact ih (h.handle lease e)

/-- The count in a row never goes back. -/
theorem Merging.exists_row (h : s.Merging) (hr : s.table.select id = some r) (lease : LeaseSettings)
    (e : Event) :
    ∃ r', (s.handle lease e).table.select id = some r' ∧
      r.status.modCount ≤ r'.status.modCount := by
  have hchanged : ∀ {other f}, (∀ r, (f r).id = r.id) →
      (other = id → r.status.modCount ≤ (f r).status.modCount) →
      ∃ r', (s.table.change other f).select id = some r' ∧
        r.status.modCount ≤ r'.status.modCount := by
    intro other f hid hle
    rw [select_change hid]
    split
    · rename_i hsame
      exact ⟨f r, by rw [hr]; rfl, hle hsame⟩
    · exact ⟨r, hr, UInt64.le_refl _⟩
  have hraised : ∀ {other row}, s.table.select other = some row →
      row.status.modCount.toNat < maxColumn →
      other = id → r.status.modCount ≤ r.status.modCount + 1 := by
    intro other row hrow hroom hsame
    rw [hsame, hr] at hrow
    cases hrow
    apply UInt64.le_of_lt
    apply Status.modCount_lt_succ
    unfold maxColumn at hroom
    unfold maxUInt64
    omega
  have hturns := turns_handle lease s e
  generalize s.handle lease e = s' at hturns
  cases hturns with
  | begins request => exact ⟨r, hr, UInt64.le_refl _⟩
  | idles hcall => exact ⟨r, hr, UInt64.le_refl _⟩
  | acts hcall hacts =>
      cases hacts with
      | makes hnone =>
          refine ⟨r, ?_, UInt64.le_refl _⟩
          rw [select_append, hr]
          rfl
      | @replaces record seen _ _ row hrow hcount howner hbusy =>
          refine hchanged (fun _ => rfl) ?_
          intro hsame
          rw [hsame, hr] at hrow
          cases hrow
          show r.status.modCount ≤ record.status.modCount
          rw [hcount]
          exact h _ (List.mem_of_getElem? hcall)
      | claims => exact hchanged (fun _ => rfl) fun _ => UInt64.le_refl _
      | locks hrow hfree hroom => exact hchanged (fun _ => rfl) (hraised hrow hroom)
      | unlocks hrow hheld hroom => exact hchanged (fun _ => rfl) (hraised hrow hroom)
      | _ => exact ⟨r, hr, UInt64.le_refl _⟩

/-- However a run goes on, a call changes nothing by its steps, and fails if it ends. -/
def Fails (lease : LeaseSettings) (s : Traffic) (i : Nat) (events : List Event) : Prop :=
  EachMove lease i (fun s now => (s.handle lease (.moves i now)).table = s.table) s events ∧
  ∀ reply, (s.run lease events).calls[i]? = some (.ended reply) → ∃ err, reply = .done (.error err)

theorem fails_of_late (h : s.Merging) (hcall : s.calls[i]? = some x)
    (hr : s.table.select id = some r) (hlate : x.Late r) : s.Fails lease i events := by
  induction events generalizing s x r with
  | nil =>
      refine ⟨trivial, ?_⟩
      intro reply hended
      cases hcall.symm.trans hended
      exact hlate.exists_error
  | cons e rest ih =>
      have hid := (mem_of_select hr).2
      by_cases hmoves : ∃ now, e = .moves i now
      · rcases hmoves with ⟨now, rfl⟩
        have hrow : s.table.select r.id = some r := by rw [hid, hr]
        rcases hlate.step hrow lease now s.lastSeq with ⟨y, hstep, hlate'⟩
        have hafter : s.handle lease (.moves i now) = ⟨s.table, s.lastSeq, s.calls.set i y⟩ := by
          simp only [Traffic.handle, hcall, hstep]
        have hcall' : (s.handle lease (.moves i now)).calls[i]? = some y := by
          rw [hafter]
          exact List.getElem?_set_self (List.getElem?_eq_some_iff.mp hcall).1
        have hr' : (s.handle lease (.moves i now)).table.select id = some r := by
          rw [hafter]
          exact hr
        rcases ih (h.handle lease _) hcall' hr' hlate' with ⟨hsame, hended⟩
        refine ⟨⟨?_, hsame⟩, hended⟩
        intro now' he
        cases he
        rw [hafter]
      · have hother : ∀ now, e ≠ .moves i now := fun now he => hmoves ⟨now, he⟩
        rcases h.exists_row hr lease e with ⟨r', hr', hcount⟩
        have hsameId : r'.id = r.id := (mem_of_select hr').2.trans hid.symm
        rcases ih (h.handle lease e) (call_handle_of_ne hcall hother) hr'
          (hlate.mono hsameId hcount) with ⟨hsame, hended⟩
        exact ⟨⟨fun now he => absurd he (hother now), hsame⟩, hended⟩

end Traffic
end Table
end LeaseQueue
