import Mathlib.Data.List.Infix
import LeaseQueue.Proofs.Store.Mirror
/-!
# Tables and stores in memory agree

Whoever works on an open table gets the answers that a store in memory with
hand-outs by priority would give, for every run of operations on clocks that both
kinds of stores can follow. Only the reason why a lock is not released may be
another one.
-/

namespace LeaseQueue

variable {β : Type}

/-- Answers to an operation that agree: they are the same, or both refuse to release a lock. -/
def Answer.Agree (op : Operation β) (x y : Answer β) : Prop :=
  x = y ∨ ∃ id owner c c', op = .unlock id owner ∧
    x = .done (.error (.lock c)) ∧ y = .done (.error (.lock c'))

namespace Operation

variable [Body β]

/-- An operation that both kinds of stores can keep track of: a saved record is one that a table
stores unchanged, with a status that it can keep track of, and a lock has an owner. Lists of all
jobs are not left half way. -/
def Exact : Operation β → Prop
  | .save j => ∀ r, j.toRecord = .ok r → r.stored = r ∧ r.status.Exact
  | .lock _ owner => owner ≠ ""
  | .pull _ => False
  | _ => True

end Operation

/-- An access that both kinds of stores can keep track of, on clocks that run together. -/
structure Access.Exact [Body β] (lease : LeaseSettings) (offset : Int) (a : Access β) : Prop where
  live : a.cancelled = false
  operation : a.operation.Exact
  fits : lease.Fits a.reading.wall
  lockstep : (a.reading.ticks : Int) = a.reading.wall.total + offset

namespace Backend

variable [Body β]

/-!
## Backends that mirror each other
-/

/-- A backend with an open table and one with a store in memory that the table mirrors. -/
def Twins (lease : LeaseSettings) (offset : Int) (clock : Nat) (x y : Backend β) : Prop :=
  ∃ b settings m t lastSeq, b.lease = lease ∧ x = onTable b settings t lastSeq ∧
    y = b.onMemory .byPriority m ∧ Mirrors offset clock m t lastSeq

variable {lease : LeaseSettings} {offset : Int} {clock : Nat} {x y : Backend β}

def CountsFit (b : Backend β) : Prop :=
  ∀ i ∈ b.infos false, (i.modCount.toNat : Int) ≤ maxColumn

omit [Body β] in
theorem CountsFit.onMemory {b : Backend β} {d : Discipline} {m : Memory} (hm : m.Indexed)
    (h : (b.onMemory d m).CountsFit) : m.CountsFit := by
  intro id e he
  rw [CountsFit, infos_onMemory b d hm] at h
  exact h _ (List.mem_map_of_mem (f := fun p => StatusInfo.ofRecord p.2.record)
    (Keyed.mem_of_find he))

/-- An access leaves backends that mirror each other in that state, and gets answers that agree. -/
theorem Twins.access (h : Twins lease offset clock x y) {a : Access β}
    (ha : a.Exact lease offset) (hclock : clock ≤ a.reading.ticks) (hfits : y.CountsFit)
    (hafter : (y.after a).CountsFit) :
    Answer.Agree a.operation (x.access a).1 (y.access a).1 ∧
      Twins lease offset a.reading.ticks (x.after a) (y.after a) := by
  rcases h with ⟨b, settings, m, t, lastSeq, rfl, rfl, rfl, hmirrors⟩
  have hnow : Follows b.lease offset clock a.reading := ⟨ha.fits, ha.lockstep, hclock⟩
  have hop := ha.operation
  have hlive := ha.live
  rcases a with ⟨op, cancelled, now⟩
  have hnow' : Follows b.lease offset clock now := hnow
  have hmake : ∀ {m' t' lastSeq'}, Mirrors offset now.ticks m' t' lastSeq' →
      Twins b.lease offset now.ticks (b.onTable settings t' lastSeq')
        (b.onMemory .byPriority m') :=
    fun hmirrors' => ⟨b, settings, _, _, _, rfl, rfl, rfl, hmirrors'⟩
  have hsame := hmake (hmirrors.later hnow'.past)
  have hcounts := hfits.onMemory hmirrors.indexed
  cases hlive
  unfold after at hafter ⊢
  cases op with
  | save j =>
      cases hj : j.toRecord with
      | error reason =>
          rw [access_save_onTable_unwritable b settings t lastSeq false now hj,
            access_save_unwritable b _ m false now hj]
          exact ⟨Or.inl rfl, hsame⟩
      | ok r =>
          have hexact := hop r hj
          rw [access_save_onTable b settings t lastSeq now hj, access_save b _ m false now hj]
          rcases hmirrors.save hnow' hexact.1 hexact.2 with
            ⟨err, hm, ht⟩ | ⟨m', t', lastSeq', hm, ht, hmirrors'⟩
          · rw [hm, ht]
            exact ⟨Or.inl rfl, hsame⟩
          · rw [hm, ht]
            exact ⟨Or.inl rfl, hmake hmirrors'⟩
  | next =>
      rw [access_next_onTable, access_next]
      rcases hmirrors.next hnow' with ⟨hm, ht⟩ | ⟨record, m', t', hm, ht, hmirrors'⟩
      · rw [hm, ht]
        exact ⟨Or.inl rfl, hsame⟩
      · rw [hm, ht]
        exact ⟨Or.inl rfl, hmake hmirrors'⟩
  | lock id owner =>
      rw [access_lock] at hafter
      rw [access_lock_onTable, access_lock]
      have hturned : ∀ m', m.lock id owner now.wall b.lease.lockTimeout = .made m' →
          m'.CountsFit := by
        intro m' hm
        rw [hm] at hafter
        rcases Memory.lock_cases hm with ⟨e, s, he, hs, rfl⟩
        have hid := hmirrors.indexed.record_id he
        exact hafter.onMemory (hmirrors.indexed.replace he rfl hid)
      rcases hmirrors.lock hnow' hop hcounts hturned with ⟨err, hm, ht⟩ | ⟨m', t', hm, ht, hmirrors'⟩
      · rw [hm, ht]
        exact ⟨Or.inl rfl, hsame⟩
      · rw [hm, ht]
        exact ⟨Or.inl rfl, hmake hmirrors'⟩
  | unlock id owner =>
      rw [access_unlock] at hafter
      rw [access_unlock_onTable, access_unlock]
      have hturned : ∀ m', m.unlock id owner now.wall = .made m' → m'.CountsFit := by
        intro m' hm
        rw [hm] at hafter
        rcases Memory.unlock_cases hm with ⟨e, s, he, hs, rfl⟩
        have hid := hmirrors.indexed.record_id he
        exact hafter.onMemory (hmirrors.indexed.replace he rfl hid)
      rcases hmirrors.unlock hnow' hcounts hturned with
        ⟨err, hm, ht⟩ | ⟨c, c', hm, ht⟩ | ⟨m', t', hm, ht, hmirrors'⟩
      · rw [hm, ht]
        exact ⟨Or.inl rfl, hsame⟩
      · rw [hm, ht]
        exact ⟨Or.inr ⟨id, owner, c', c, rfl, rfl, rfl⟩, hsame⟩
      · rw [hm, ht]
        exact ⟨Or.inl rfl, hmake hmirrors'⟩
  | get id =>
      refine ⟨Or.inl ?_, hsame⟩
      show Answer.job (((t.select id).map Row.record).bind b.registry.build?) =
        Answer.job (((m.lookup? id).map Entry.record).bind b.registry.build?)
      rcases hmirrors.lookup id with ⟨he, hr⟩ | ⟨e, r, he, hr, hrow⟩
      · rw [he, hr]
        rfl
      · have hrecord : r.record = e.record := hrow.record
        rw [he, hr, Option.map_some, Option.map_some, hrecord]
  | tally =>
      refine ⟨Or.inl ?_, hsame⟩
      show Answer.tally t.tally = Answer.tally ((b.onMemory .byPriority m).tally false)
      rw [tally_onMemory b _ hmirrors.indexed, Table.tally_eq, Table.infos, infos_mirrored hmirrors.rows]
  | infos =>
      refine ⟨Or.inl ?_, hsame⟩
      show Answer.infos ((b.onTable settings t lastSeq).infos false) =
        Answer.infos ((b.onMemory .byPriority m).infos false)
      rw [infos_onTable b settings lastSeq hmirrors.inOrder,
        infos_onMemory b _ hmirrors.indexed, Table.infos, infos_mirrored hmirrors.rows]
  | pull l => cases hop

theorem Twins.run (h : Twins lease offset clock x y) {past : List (Access β)} {a : Access β}
    (hexact : ∀ a' ∈ past ++ [a], a'.Exact lease offset)
    (hclock : (clock :: (past ++ [a]).map fun a' => a'.reading.ticks).Pairwise (· ≤ ·))
    (hfits : ∀ seen, seen <+: past ++ [a] → (y.run seen).CountsFit) :
    Answer.Agree a.operation ((x.run past).access a).1 ((y.run past).access a).1 := by
  induction past generalizing clock x y with
  | nil =>
      have hle := List.rel_of_pairwise_cons hclock List.mem_cons_self
      exact (h.access (hexact a List.mem_cons_self) hle (hfits [] List.nil_prefix)
        (hfits [a] List.prefix_rfl)).1
  | cons first past ih =>
      have hle := List.rel_of_pairwise_cons hclock List.mem_cons_self
      have hfirst : [first] <+: first :: past ++ [a] := ⟨past ++ [a], rfl⟩
      have hstep := h.access (hexact first List.mem_cons_self) hle (hfits [] List.nil_prefix)
        (hfits [first] hfirst)
      rw [run_cons, run_cons]
      apply ih hstep.2 (fun a' ha' => hexact a' (List.mem_cons_of_mem first ha')) hclock.of_cons
      intro seen hseen
      exact hfits (first :: seen) (List.cons_prefix_cons.mpr ⟨rfl, hseen⟩)

/-!
## Whole runs
-/

/-- Accesses on clocks that both kinds of stores can follow: the clock that never goes back runs
together with the wall clock. -/
structure Steady (lease : LeaseSettings) (accesses : List (Access β)) : Prop where
  exact : ∃ offset : Int, ∀ a ∈ accesses, a.Exact lease offset
  ordered : (accesses.map fun a => a.reading.ticks).Pairwise (· ≤ ·)

def openTable (registry : Registry β) (settings : TableSettings) (lease : LeaseSettings) :
    Backend β :=
  ⟨registry, lease, .table settings (some .empty) 0⟩

/-- An open table answers every run of operations as a store in memory with hand-outs by priority
does, as long as no count outgrows its column. -/
theorem table_agrees_with_memory (registry : Registry β) (settings : TableSettings)
    (lease : LeaseSettings) (past : List (Access β)) (a : Access β)
    (hsteady : Steady lease (past ++ [a]))
    (hfits : ∀ seen, seen <+: past ++ [a] →
      ((inMemory registry .byPriority lease).run seen).CountsFit) :
    Answer.Agree a.operation
      (((openTable registry settings lease).run past).access a).1
      (((inMemory registry .byPriority lease).run past).access a).1 := by
  rcases hsteady.exact with ⟨offset, hexact⟩
  have htwins : Twins lease offset 0 (openTable registry settings lease)
      (inMemory registry .byPriority lease) :=
    ⟨inMemory registry .byPriority lease, settings, .empty, .empty, 0, rfl, rfl, rfl,
      mirrors_empty offset⟩
  exact htwins.run hexact (List.pairwise_cons.mpr ⟨fun t _ => Nat.zero_le t, hsteady.ordered⟩) hfits

/-- While a lease of a second lasts, a rival of the holder gets from a table the refusal that it would
get from a store in memory. -/
theorem table_agrees_with_memory_on_rival :
    let past : List (Access Work) :=
      [⟨.save (sampleJob "job"), false, .ofNanos 4000000000⟩,
        ⟨.lock "job" "holder", false, .ofNanos 4000000000⟩]
    let a : Access Work := ⟨.lock "job" "rival", false, .ofNanos 4500000000⟩
    ∀ settings, (((openTable .empty settings ⟨1, 1⟩).run past).access a).1 =
      .done (.error (.lock (.held "job" "holder"))) := by
  intro past a settings
  have hsteady : Steady ⟨1, 1⟩ (past ++ [a]) := by
    refine ⟨⟨0, ?_⟩, by decide⟩
    intro a' ha'
    simp only [past, a, List.cons_append, List.nil_append, List.mem_cons, List.not_mem_nil,
      or_false] at ha'
    rcases ha' with rfl | rfl | rfl
    · refine ⟨rfl, ?_, ⟨⟨rfl, rfl⟩, by decide, by decide, by decide⟩, by decide⟩
      intro r hr
      cases hr
      exact ⟨rfl, Status.exact_blank⟩
    · have howner : "holder" ≠ "" := by decide
      exact ⟨rfl, howner, ⟨⟨rfl, rfl⟩, by decide, by decide, by decide⟩, by decide⟩
    · have howner : "rival" ≠ "" := by decide
      exact ⟨rfl, howner, ⟨⟨rfl, rfl⟩, by decide, by decide, by decide⟩, by decide⟩
  have hfits : ∀ seen, seen <+: past ++ [a] →
      ((inMemory .empty .byPriority ⟨1, 1⟩).run seen : Backend Work).CountsFit := by
    have hall : ∀ seen ∈ (past ++ [a]).inits, ∀ i ∈
        ((inMemory .empty .byPriority ⟨1, 1⟩).run seen : Backend Work).infos false,
        (i.modCount.toNat : Int) ≤ maxColumn := by
      decide +kernel
    exact fun seen hseen => hall seen ((List.mem_inits seen _).mpr hseen)
  have hmemory : (((inMemory .empty .byPriority ⟨1, 1⟩).run past).access a).1 =
      .done (.error (.lock (.held "job" "holder"))) :=
    Answer.eq_of_refusal? (by decide +kernel)
  have hagree := table_agrees_with_memory .empty settings ⟨1, 1⟩ past a hsteady hfits
  rcases hagree with hsame | ⟨_, _, _, _, hop, -, -⟩
  · exact hsame.trans hmemory
  · cases hop

end Backend
end LeaseQueue
