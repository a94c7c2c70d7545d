import LeaseQueue.Proofs.Store.HandOuts
/-!
# The first in line

A hand-out takes the first of the jobs that may be handed out and only then turns
its record into a job. If that fails, nothing is given, whatever stands behind. The
record has been handed out all the same, so a dispatch window lets the next call
go past it; without a window it stays the first.
-/

namespace LeaseQueue

namespace Memory

variable {m : Memory} {d : Discipline} {now : Reading} {lease : LeaseSettings}
variable {l rest : List (String × Entry)} {id : String} {e e' : Entry}

theorem perm_filter_replace_of_both {condition : String × Entry → Bool}
    (he : m.lookup? id = some e) (hold : condition (id, e) = true)
    (hnew : condition (id, e') = true)
    (hperm : ((id, e) :: rest).Perm (m.jobs.entries.filter condition)) :
    ((id, e') :: rest).Perm ((m.replace id e').jobs.entries.filter condition) := by
  rcases Keyed.exists_split_of_find he with ⟨front, back, hl, hplace⟩
  have hentries : (m.replace id e').jobs.entries = front ++ (id, e') :: back := hplace e'
  rw [hl, List.filter_append, List.filter_cons_of_pos hold] at hperm
  rw [hentries, List.filter_append, List.filter_cons_of_pos hnew]
  exact ((hperm.trans List.perm_middle).cons_inv.cons _).trans List.perm_middle.symm

theorem isEligible_handed (hwindow : lease.windowMillis = 0)
    (heligible : isEligible e now lease = true) (ticks : Nat) :
    isEligible { e with dispatchedAt := some ticks } now lease = true := by
  have hpassed : windowPassed (some ticks) now.ticks lease.window = true := by
    apply decide_eq_true
    rw [LeaseSettings.window, hwindow]
    omega
  unfold isEligible at heligible ⊢
  rw [hpassed, Bool.and_true]
  exact (Bool.and_eq_true_iff.mp heligible).1

end Memory

namespace Backend

variable {β : Type} [Body β]

section

variable {b : Backend β} {d : Discipline} {now : Reading} {m m' : Memory}
variable {l : List (String × Entry)}

theorem answer_next_arranged (hsorted : l.Pairwise (Memory.Before d))
    (hperm : l.Perm (m.jobs.entries.filter fun p => Memory.isEligible p.2 now b.lease)) :
    ((b.onMemory d m).access ⟨.next, false, now⟩).1 = .job (l.head?.bind b.jobOf?) := by
  rw [access_next, Memory.next_arranged hsorted hperm]
  cases l <;> rfl

/-- Without a window the first in line stays the first when it is handed out. -/
theorem access_next_arranged_again (hm : m.Filed) (hwindow : b.lease.windowMillis = 0)
    (hsorted : l.Pairwise (Memory.Before d))
    (hperm : l.Perm (m.jobs.entries.filter fun p => Memory.isEligible p.2 now b.lease))
    (h : (b.onMemory d m).after ⟨.next, false, now⟩ = b.onMemory d m') :
    m'.Filed ∧ ∃ l' : List (String × Entry), l'.Pairwise (Memory.Before d) ∧
      l'.Perm (m'.jobs.entries.filter fun p => Memory.isEligible p.2 now b.lease) ∧
      l'.head?.bind b.jobOf? = l.head?.bind b.jobOf? := by
  unfold after at h
  rw [access_next, Memory.next_arranged hsorted hperm] at h
  cases l with
  | nil =>
      cases onMemory_injective h
      exact ⟨hm, [], hsorted, hperm, rfl⟩
  | cons p rest =>
      rcases p with ⟨id, e⟩
      cases onMemory_injective h
      rcases List.mem_filter.mp (hperm.subset List.mem_cons_self) with ⟨hmem, heligible⟩
      have he : m.lookup? id = some e := hm.lookup?_of_mem hmem
      have hagain := Memory.isEligible_handed hwindow heligible now.ticks
      -- The time of the hand-out is no part of the key, so the order is as before.
      refine ⟨hm.replace he (hm.ids _ hmem), (id, { e with dispatchedAt := some now.ticks }) :: rest,
        ?_, Memory.perm_filter_replace_of_both he heligible hagain hperm, rfl⟩
      rcases List.pairwise_cons.mp hsorted with ⟨hfirst, hrest⟩
      exact List.pairwise_cons.mpr ⟨hfirst, hrest⟩

theorem Asks.answers_again {answers : List (Option (Job β))} (h : Asks b d now m answers m')
    (hm : m.Filed) (hwindow : b.lease.windowMillis = 0) (hsorted : l.Pairwise (Memory.Before d))
    (hperm : l.Perm (m.jobs.entries.filter fun p => Memory.isEligible p.2 now b.lease)) :
    ∀ answer ∈ answers, answer = l.head?.bind b.jobOf? := by
  induction h generalizing l with
  | done m =>
      intro answer hanswer
      cases hanswer
  | @ask m m₁ m₂ m₃ answer rest hshuffled hnext _ ih =>
      have hperm₁ := hperm.trans (hshuffled.entries.filter _)
      have hanswer := answer_next_arranged hsorted hperm₁
      rw [hnext] at hanswer
      injection hanswer with hanswer
      have hafter : (b.onMemory d m₁).after ⟨.next, false, now⟩ = b.onMemory d m₂ :=
        congrArg Prod.snd hnext
      rcases access_next_arranged_again (hm.shuffle hshuffled) hwindow hsorted hperm₁ hafter with
        ⟨hm₂, l', hsorted', hperm', hhead⟩
      intro other hother
      rcases List.mem_cons.mp hother with rfl | hrest
      · exact hanswer
      · rw [← hhead]
        exact ih hm₂ hsorted' hperm' other hrest

theorem mem_arrange {r : Record} {records : List Record} :
    r ∈ d.arrange records ↔ r ∈ records := by
  cases d with
  | oldestFirst => exact Iff.rfl
  | byPriority => exact List.mem_mergeSort

end

/-- A store in memory answers `next` with the job of the record that is first in line: the records
that may be handed out, in the order of the discipline. If this one cannot be turned into a job,
nothing is given, whichever records follow. Asked again at the same reading of the clocks, with a
dispatch window the store goes down the line, and without one it gives the first answer for ever. -/
theorem next_gives_first_in_line {registry : Registry β} {d : Discipline} {lease : LeaseSettings}
    {past : List (Access β)} {m : Memory}
    (hm : (inMemory registry d lease).run past = (inMemory registry d lease).onMemory d m)
    (now : Reading) :
    let b := inMemory registry d lease
    let inLine := d.arrange (eligible lease now m (b.firstSaves past))
    (∀ r, r ∈ inLine ↔
      ∃ id e, m.lookup? id = some e ∧ Memory.isEligible e now lease = true ∧ e.record = r) ∧
    ((b.run past).access ⟨.next, false, now⟩).1 = .job (inLine.head?.bind registry.build?) ∧
    (∀ answers m', Asks b d now m answers m' →
      (1 ≤ lease.windowMillis →
        ∀ i < answers.length, answers[i]? = some (inLine[i]?.bind registry.build?)) ∧
      (lease.windowMillis = 0 →
        ∀ answer ∈ answers, answer = inLine.head?.bind registry.build?)) := by
  intro b inLine
  have hindexed : m.Indexed := indexed_of_run hm
  have hrecords := eligible_firstSaves hm now
  rcases Memory.exists_arranged d (hindexed.pairwise_seq.filter
    fun p => Memory.isEligible p.2 now lease) with ⟨l, hperm, hsorted, hmap⟩
  have hline : inLine = l.map fun p => p.2.record := by rw [hmap, ← hrecords]
  have hfirst : inLine.head?.bind registry.build? = l.head?.bind b.jobOf? := by
    rw [hline, List.head?_map, Option.bind_map]
    rfl
  refine ⟨?_, ?_, ?_⟩
  · intro r
    show r ∈ d.arrange _ ↔ _
    rw [mem_arrange, hrecords, List.mem_map]
    constructor
    · rintro ⟨⟨id, e⟩, hp, rfl⟩
      rcases List.mem_filter.mp hp with ⟨hmem, heligible⟩
      exact ⟨id, e, hindexed.lookup?_of_mem hmem, heligible, rfl⟩
    · rintro ⟨id, e, he, heligible, rfl⟩
      exact ⟨(id, e), List.mem_filter.mpr ⟨Keyed.mem_of_find he, heligible⟩, rfl⟩
  · rw [hm, hfirst]
    exact answer_next_arranged hsorted hperm
  · intro answers m' hasks
    constructor
    · intro hwindow i hi
      rw [(hasks.answers hindexed.filed hwindow hsorted hperm).1 i hi, hline, List.getElem?_map,
        Option.bind_map]
      rfl
    · intro hwindow
      rw [hfirst]
      exact hasks.answers_again hindexed.filed hwindow hsorted hperm

/-- Behind a job of an unknown type stands one that can be read: the first call gives nothing, and
with a window the second one gives the second job. -/
theorem next_gives_first_in_line_of_unknown :
    let b : Backend Work := inMemory Work.registry .oldestFirst .standard
    let past : List (Access Work) := [⟨.save (sampleJob "unknown"), false, .ofNanos 0⟩,
      ⟨.save (plainJob "known"), false, .ofNanos 0⟩]
    ∃ m, b.run past = b.onMemory .oldestFirst m ∧
      ∀ first second m', Asks b .oldestFirst (.ofNanos 0) m [first, second] m' →
        first = none ∧ second = some (plainJob "known") := by
  intro b past
  have hm : b.run past = b.onMemory .oldestFirst
      ⟨⟨[("unknown", ⟨0, ⟨(sampleJob "unknown").base, .null⟩, none⟩),
        ("known", ⟨1, ⟨(plainJob "known").base, .object []⟩, none⟩)]⟩,
        [(0, "unknown"), (1, "known")], 2⟩ := rfl
  refine ⟨_, hm, ?_⟩
  intro first second m' hasks
  have hanswers := ((next_gives_first_in_line hm (.ofNanos 0)).2.2 _ _ hasks).1 (by decide)
  have hfirst := hanswers 0 (Nat.zero_lt_succ 1)
  have hsecond := hanswers 1 (Nat.lt_succ_self 1)
  exact ⟨Option.some.inj hfirst, Option.some.inj hsecond⟩

/-- A job that may be handed out and can be read is not handed out, since one of an unknown type
was saved before it. Without a window asking again does not help. -/
theorem unknown_type_withholds_next_in_line :
    let b : Backend Work := inMemory Work.registry .oldestFirst ⟨300, 0⟩
    let past : List (Access Work) := [⟨.save (sampleJob "unknown"), false, .ofNanos 0⟩,
      ⟨.save (plainJob "known"), false, .ofNanos 0⟩]
    ∃ m e, b.run past = b.onMemory .oldestFirst m ∧ m.lookup? "known" = some e ∧
      Memory.isEligible e (.ofNanos 0) b.lease = true ∧
      b.registry.build? e.record = some (plainJob "known") ∧
      ((b.run past).access ⟨.next, false, .ofNanos 0⟩).1 = .job none ∧
      (((b.run past).after ⟨.next, false, .ofNanos 0⟩).access ⟨.next, false, .ofNanos 0⟩).1 =
        .job none := by
  intro b past
  have hm : b.run past = b.onMemory .oldestFirst
      ⟨⟨[("unknown", ⟨0, ⟨(sampleJob "unknown").base, .null⟩, none⟩),
        ("known", ⟨1, ⟨(plainJob "known").base, .object []⟩, none⟩)]⟩,
        [(0, "unknown"), (1, "known")], 2⟩ := rfl
  refine ⟨_, _, hm, rfl, rfl, rfl, ?_, ?_⟩
  · rw [hm]
    rfl
  · rw [hm]
    cbv

end Backend
end LeaseQueue
