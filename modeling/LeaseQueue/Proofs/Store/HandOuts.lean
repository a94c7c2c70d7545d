import Mathlib.Data.List.Forall2
import Mathlib.Data.List.Permutation
import LeaseQueue.Proofs.Store.Arrivals
import LeaseQueue.Work.Basic
/-!
# Handing out every job

Asked again and again at one reading of the clocks, a store in memory hands out
each job that may be handed out once, in the order of its discipline, and then no
more. In which order the map gives its entries makes no difference.
-/

namespace LeaseQueue

namespace Discipline

/-- Records in the order in which they are handed out, from the order in which they were saved. -/
def arrange (d : Discipline) (records : List Record) : List Record :=
  match d with
  | .oldestFirst => records
  | .byPriority => records.mergeSort fun r s => s.base.priority ≤ r.base.priority

end Discipline

namespace Memory

/-!
## The least entry
-/

def Before (d : Discipline) (p q : String × Entry) : Prop :=
  Discipline.keyBefore (keyOf d p.2) (keyOf d q.2) = true

section

variable {d : Discipline} {l : List (String × Entry)} {p q : String × Entry}

theorem eq_nil_of_least (h : least d l = none) : l = [] := by
  cases l with
  | nil => rfl
  | cons p rest =>
      unfold least at h
      split at h
      · cases h
      · split at h <;> cases h

theorem not_before_least (h : least d l = some q) (hp : p ∈ l) : ¬ Before d p q := by
  induction l generalizing q with
  | nil => cases h
  | cons r rest ih =>
      unfold least at h
      cases hrest : least d rest with
      | none =>
          rw [hrest] at h
          cases h
          rw [eq_nil_of_least hrest, List.mem_singleton] at hp
          subst hp
          simp [Before, keyBefore_iff]
      | some s =>
          have hs : p ∈ rest → ¬ Before d p s := ih hrest
          simp only [hrest] at h
          unfold Before at *
          rw [keyBefore_iff] at *
          split at h
          · rename_i hbefore
            cases h
            rw [keyBefore_iff] at hbefore
            rcases List.mem_cons.mp hp with rfl | hp
            · omega
            · exact hs hp
          · rename_i hnot
            cases h
            rw [keyBefore_iff] at hnot
            rcases List.mem_cons.mp hp with rfl | hp
            · omega
            · have hs := hs hp
              omega

theorem least_of_perm (hsorted : (p :: l).Pairwise (Before d)) {l' : List (String × Entry)}
    (hperm : (p :: l).Perm l') : least d l' = some p := by
  have hp : p ∈ l' := hperm.subset List.mem_cons_self
  cases hq : least d l' with
  | none =>
      rw [eq_nil_of_least hq] at hp
      cases hp
  | some q =>
      rcases List.mem_cons.mp (hperm.symm.subset (least_mem hq)) with rfl | hrest
      · rfl
      · exact absurd (List.rel_of_pairwise_cons hsorted hrest) (not_before_least hq hp)

theorem next_arranged {m : Memory} {now : Reading} {lease : LeaseSettings}
    (hsorted : l.Pairwise (Before d))
    (hperm : l.Perm (m.jobs.entries.filter fun p => isEligible p.2 now lease)) :
    m.next d now lease = l.head?.map fun p =>
      (p.2.record, m.replace p.1 { p.2 with dispatchedAt := some now.ticks }) := by
  unfold next candidate?
  cases l with
  | nil =>
      rw [← hperm.nil_eq]
      rfl
  | cons p rest =>
      rw [least_of_perm hsorted hperm]
      rfl

/-!
## The order of a discipline
-/

def outranks (p q : String × Entry) : Bool :=
  q.2.record.base.priority ≤ p.2.record.base.priority

theorem outranks_iff :
    outranks p q = true ↔ q.2.record.base.priority.toInt ≤ p.2.record.base.priority.toInt := by
  unfold outranks
  rw [decide_eq_true_iff, Int32.le_iff_toInt_le]

theorem outranks_trans (p q r : String × Entry) (hpq : outranks p q = true)
    (hqr : outranks q r = true) : outranks p r = true := by
  rw [outranks_iff] at *
  omega

theorem outranks_total (p q : String × Entry) : (outranks p q || outranks q p) = true := by
  rw [Bool.or_eq_true, outranks_iff, outranks_iff]
  omega

theorem pairwise_mergeSort_outranks (hseq : l.Pairwise fun p q => p.2.seq < q.2.seq) :
    (l.mergeSort outranks).Pairwise (Before .byPriority) := by
  induction l with
  | nil => simp
  | cons p rest ih =>
      have hsorted := List.pairwise_mergeSort outranks_trans outranks_total (p :: rest)
      have hfirst : ∀ q ∈ rest, p.2.seq < q.2.seq :=
        fun q hq => List.rel_of_pairwise_cons hseq hq
      have hrest := ih hseq.of_cons
      rcases List.mergeSort_cons outranks_trans outranks_total p rest with
        ⟨front, back, hwith, hwithout, hfront⟩
      have hmem : ∀ q ∈ back, q ∈ rest := by
        intro q hq
        apply List.mem_mergeSort.mp
        rw [hwithout]
        exact List.mem_append_right front hq
      rw [hwith] at hsorted ⊢
      rw [hwithout] at hrest
      rw [List.pairwise_append] at hsorted hrest ⊢
      refine ⟨hrest.1, List.pairwise_cons.mpr ⟨?_, hrest.2.1⟩, ?_⟩
      · intro q hq
        have hrank := outranks_iff.mp (List.rel_of_pairwise_cons hsorted.2.1 hq)
        have hlt := hfirst q (hmem q hq)
        apply (keyBefore_iff _ _).mpr
        simp only [keyOf, Discipline.key]
        omega
      · intro q hq r hr
        rcases List.mem_cons.mp hr with rfl | hr
        · have hrank : ¬ outranks r q = true := by simpa using hfront q hq
          rw [outranks_iff] at hrank
          apply (keyBefore_iff _ _).mpr
          simp only [keyOf, Discipline.key]
          omega
        · exact hrest.2.2 q hq r hr

/-- Entries in the order of their places can be put in the order of a discipline, and it is the one
in which the discipline arranges their records. -/
theorem exists_arranged (d : Discipline) (hseq : l.Pairwise fun p q => p.2.seq < q.2.seq) :
    ∃ l' : List (String × Entry), l'.Perm l ∧ l'.Pairwise (Before d) ∧
      (l'.map fun p => p.2.record) = d.arrange (l.map fun p => p.2.record) := by
  cases d with
  | oldestFirst =>
      refine ⟨l, .refl l, hseq.imp ?_, rfl⟩
      intro p q hlt
      exact (keyBefore_iff _ _).mpr (Or.inr ⟨rfl, hlt⟩)
  | byPriority =>
      refine ⟨l.mergeSort outranks, l.mergeSort_perm _, pairwise_mergeSort_outranks hseq, ?_⟩
      exact List.map_mergeSort fun _ _ _ _ => rfl

end

/-!
## Stores apart from the times of hand-outs
-/

end Memory

def Entry.undated (e : Entry) : Entry := { e with dispatchedAt := none }

namespace Memory

/-- Two stores differ at most in the times of hand-outs, and in the order in which their maps list
the entries. -/
structure SameJobs (m m' : Memory) : Prop where
  jobs : ∀ id, (m'.lookup? id).map Entry.undated = (m.lookup? id).map Entry.undated
  order : m'.order = m.order
  nextSeq : m'.nextSeq = m.nextSeq

structure Shuffled (m m' : Memory) : Prop where
  entries : m.jobs.entries.Perm m'.jobs.entries
  order : m'.order = m.order
  nextSeq : m'.nextSeq = m.nextSeq

structure Filed (m : Memory) : Prop where
  nodup : m.jobs.keys.Nodup
  ids : ∀ p ∈ m.jobs.entries, p.2.record.id = p.1

section

variable {m m' m'' : Memory} {id : String} {e e' : Entry}

theorem Indexed.filed (h : m.Indexed) : m.Filed := ⟨h.nodup, h.ids⟩

theorem SameJobs.refl (m : Memory) : m.SameJobs m := ⟨fun _ => rfl, rfl, rfl⟩

theorem SameJobs.trans (h : m.SameJobs m') (h' : m'.SameJobs m'') : m.SameJobs m'' where
  jobs := fun id => (h'.jobs id).trans (h.jobs id)
  order := h'.order.trans h.order
  nextSeq := h'.nextSeq.trans h.nextSeq

theorem Filed.lookup?_of_mem (h : m.Filed) (hmem : (id, e) ∈ m.jobs.entries) :
    m.lookup? id = some e :=
  Keyed.find_of_mem h.nodup hmem

theorem Filed.shuffle (h : m.Filed) (hm : m.Shuffled m') : m'.Filed where
  nodup := (hm.entries.map Prod.fst).nodup_iff.mp h.nodup
  ids := fun p hp => h.ids p (hm.entries.symm.subset hp)

theorem Filed.lookup?_shuffle (h : m.Filed) (hm : m.Shuffled m') (id : String) :
    m'.lookup? id = m.lookup? id := by
  cases he : m.lookup? id with
  | some e =>
      apply (h.shuffle hm).lookup?_of_mem
      exact hm.entries.subset (Keyed.mem_of_find he)
  | none =>
      cases he' : m'.lookup? id with
      | none => rfl
      | some e =>
          have hmem : (id, e) ∈ m.jobs.entries :=
            hm.entries.symm.subset (Keyed.mem_of_find he')
          cases he.symm.trans (h.lookup?_of_mem hmem)

theorem Filed.sameJobs (h : m.Filed) (hm : m.Shuffled m') : m.SameJobs m' where
  jobs := fun id => by rw [h.lookup?_shuffle hm]
  order := hm.order
  nextSeq := hm.nextSeq

theorem Filed.replace (h : m.Filed) (he : m.lookup? id = some e) (hid : e'.record.id = id) :
    (m.replace id e').Filed := by
  rcases Keyed.exists_split_of_find he with ⟨front, back, hl, hplace⟩
  have hentries : (m.replace id e').jobs.entries = front ++ (id, e') :: back := hplace e'
  constructor
  · have hkeys : (m.replace id e').jobs.keys = m.jobs.keys := Keyed.keys_put_of_get? he e'
    rw [hkeys]
    exact h.nodup
  · intro p hp
    have hids := h.ids
    rw [hl] at hids
    rw [hentries] at hp
    rcases List.mem_append.mp hp with hfront | hback
    · exact hids p (List.mem_append_left _ hfront)
    · rcases List.mem_cons.mp hback with rfl | hback
      · exact hid
      · exact hids p (List.mem_append_right _ (List.mem_cons_of_mem _ hback))

theorem sameJobs_replace (he : m.lookup? id = some e) (hsame : e'.undated = e.undated) :
    m.SameJobs (m.replace id e') := by
  refine ⟨?_, rfl, rfl⟩
  intro other
  rw [lookup?_replace]
  split
  · rename_i hid
    rw [← hid, he, Option.map_some, Option.map_some, hsame]
  · rfl

theorem perm_filter_replace {condition : String × Entry → Bool} {rest : List (String × Entry)}
    (he : m.lookup? id = some e) (hold : condition (id, e) = true)
    (hnew : condition (id, e') = false)
    (hperm : ((id, e) :: rest).Perm (m.jobs.entries.filter condition)) :
    rest.Perm ((m.replace id e').jobs.entries.filter condition) := by
  rcases Keyed.exists_split_of_find he with ⟨front, back, hl, hplace⟩
  have hentries : (m.replace id e').jobs.entries = front ++ (id, e') :: back := hplace e'
  rw [hl, List.filter_append, List.filter_cons_of_pos hold] at hperm
  rw [hentries, List.filter_append, List.filter_cons_of_neg (by simp [hnew])]
  exact (hperm.trans List.perm_middle).cons_inv

end

end Memory

namespace Backend

/-!
## Asking again and again
-/

variable {β : Type} [Body β]

/-- Calls of `next` at one reading of the clocks, one after the other, with their answers. Before
each call the entries may come to stand in another order. -/
inductive Asks (b : Backend β) (d : Discipline) (now : Reading) :
    Memory → List (Option (Job β)) → Memory → Prop where
  | done (m : Memory) : Asks b d now m [] m
  | ask {m m₁ m₂ m₃ : Memory} {answer : Option (Job β)} {rest : List (Option (Job β))} :
      m.Shuffled m₁ →
      (b.onMemory d m₁).access ⟨.next, false, now⟩ = (.job answer, b.onMemory d m₂) →
      Asks b d now m₂ rest m₃ → Asks b d now m (answer :: rest) m₃

theorem exists_asks (b : Backend β) (d : Discipline) (now : Reading) (m : Memory) (n : Nat) :
    ∃ answers m', Asks b d now m answers m' ∧ answers.length = n := by
  induction n generalizing m with
  | zero => exact ⟨[], m, .done m, rfl⟩
  | succ n ih =>
      rcases exists_change b d m ⟨.next, false, now⟩ with ⟨m₁, hafter, -⟩
      rcases ih m₁ with ⟨answers, m', hasks, hlength⟩
      have hnext : (b.onMemory d m).access ⟨.next, false, now⟩ =
          (.job ((b.onMemory d m).next false now).1, b.onMemory d m₁) :=
        Prod.ext rfl hafter
      refine ⟨_ :: answers, m', .ask ⟨.refl _, rfl, rfl⟩ hnext hasks, ?_⟩
      rw [List.length_cons, hlength]

def jobOf? (b : Backend β) (p : String × Entry) : Option (Job β) :=
  b.registry.build? p.2.record

section

variable {b : Backend β} {d : Discipline} {now : Reading} {m m' : Memory}
variable {l : List (String × Entry)}

theorem access_next_arranged (hm : m.Filed) (hwindow : 1 ≤ b.lease.windowMillis)
    (hsorted : l.Pairwise (Memory.Before d))
    (hperm : l.Perm (m.jobs.entries.filter fun p => Memory.isEligible p.2 now b.lease))
    {answer : Option (Job β)}
    (h : (b.onMemory d m).access ⟨.next, false, now⟩ = (.job answer, b.onMemory d m')) :
    answer = l.head?.bind b.jobOf? ∧ m'.Filed ∧ m.SameJobs m' ∧
      l.tail.Perm (m'.jobs.entries.filter fun p => Memory.isEligible p.2 now b.lease) := by
  rw [access_next, Memory.next_arranged hsorted hperm] at h
  cases l with
  | nil =>
      injection h with hanswer hbackend
      injection hanswer with hanswer
      cases onMemory_injective hbackend
      exact ⟨hanswer.symm, hm, .refl m, hperm⟩
  | cons p rest =>
      rcases p with ⟨id, e⟩
      rcases List.mem_filter.mp (hperm.subset List.mem_cons_self) with ⟨hmem, heligible⟩
      have he : m.lookup? id = some e := hm.lookup?_of_mem hmem
      -- The window has not passed at the very moment of the hand-out.
      have hhanded : Memory.isEligible { e with dispatchedAt := some now.ticks } now b.lease =
          false := by
        have hpast : Memory.windowPassed (some now.ticks) now.ticks b.lease.window = false := by
          apply decide_eq_false
          rw [LeaseSettings.window]
          omega
        unfold Memory.isEligible
        rw [hpast, Bool.and_false]
      injection h with hanswer hbackend
      injection hanswer with hanswer
      cases onMemory_injective hbackend
      refine ⟨hanswer.symm, hm.replace he (hm.ids _ hmem), Memory.sameJobs_replace he rfl, ?_⟩
      exact Memory.perm_filter_replace he heligible hhanded hperm

/-- Calls hand out the entries that may be handed out one after the other. -/
theorem Asks.answers {answers : List (Option (Job β))} (h : Asks b d now m answers m')
    (hm : m.Filed) (hwindow : 1 ≤ b.lease.windowMillis)
    (hsorted : l.Pairwise (Memory.Before d))
    (hperm : l.Perm (m.jobs.entries.filter fun p => Memory.isEligible p.2 now b.lease)) :
    (∀ i < answers.length, answers[i]? = some (l[i]?.bind b.jobOf?)) ∧ m.SameJobs m' := by
  induction h generalizing l with
  | done m =>
      constructor
      · intro i hi
        cases hi
      · exact .refl m
  | @ask m m₁ m₂ m₃ answer rest hshuffled hnext _ ih =>
      have hperm₁ := hperm.trans (hshuffled.entries.filter _)
      rcases access_next_arranged (hm.shuffle hshuffled) hwindow hsorted hperm₁ hnext with
        ⟨hanswer, hm₂, hsame, hperm₂⟩
      rcases ih hm₂ hsorted.tail hperm₂ with ⟨hrest, hsame'⟩
      constructor
      · intro i hi
        cases i with
        | zero => simp [hanswer, List.head?_eq_getElem?]
        | succ i =>
            have hi' : i < rest.length := by simpa using hi
            simpa using hrest i hi'
      · exact ((hm.sameJobs hshuffled).trans hsame).trans hsame'

end

/-!
## Every job once
-/

/-- The records of the jobs that may be handed out, in the order in which a run saved them first. -/
def eligible (lease : LeaseSettings) (now : Reading) (m : Memory) (ids : List String) :
    List Record :=
  ((ids.filterMap m.lookup?).filter fun e => Memory.isEligible e now lease).map Entry.record

theorem eligible_firstSaves {registry : Registry β} {d : Discipline} {lease : LeaseSettings}
    {past : List (Access β)} {m : Memory}
    (hm : (inMemory registry d lease).run past = (inMemory registry d lease).onMemory d m)
    (now : Reading) :
    eligible lease now m ((inMemory registry d lease).firstSaves past) =
      (m.jobs.entries.filter fun p => Memory.isEligible p.2 now lease).map
        fun p => p.2.record := by
  unfold eligible
  rw [filterMap_firstSaves hm, List.filter_map, List.map_map]
  rfl

theorem exists_forall₂ {α γ : Type} {R : α → γ → Prop} {l : List α}
    (h : ∀ a ∈ l, ∃ c, R a c) : ∃ l', List.Forall₂ R l l' := by
  induction l with
  | nil => exact ⟨[], .nil⟩
  | cons a rest ih =>
      rcases h a List.mem_cons_self with ⟨c, hc⟩
      rcases ih (fun a ha => h a (List.mem_cons_of_mem _ ha)) with ⟨l', hl'⟩
      exact ⟨c :: l', .cons hc hl'⟩

omit [Body β] in
theorem map_id_of_built {registry : Registry β} {records : List Record} {jobs : List (Job β)}
    (h : List.Forall₂ (fun r j => registry.build? r = some j) records jobs) :
    jobs.map Job.id = records.map Record.id := by
  induction h with
  | nil => rfl
  | cons hj _ ih =>
      rw [List.map_cons, List.map_cons, ih]
      congr 1
      exact congrArg Base.id (Registry.build?_base hj)

omit [Body β] in
theorem getElem?_built {registry : Registry β} {records : List Record} {jobs : List (Job β)}
    (h : List.Forall₂ (fun r j => registry.build? r = some j) records jobs) (i : Nat) :
    records[i]?.bind registry.build? = jobs[i]? := by
  induction h generalizing i with
  | nil => rfl
  | cons hj _ ih =>
      cases i with
      | zero => exact hj
      | succ i => simpa using ih i

/-- Asked again and again at one reading of the clocks, a store in memory gives every job that may be
handed out once, in the order of first saves or by descending priority and then in that order, and
nothing after that. Only times of hand-outs change. -/
theorem next_hands_out_every_job {registry : Registry β} {d : Discipline} {lease : LeaseSettings}
    {past : List (Access β)} {m : Memory}
    (hm : (inMemory registry d lease).run past = (inMemory registry d lease).onMemory d m)
    (hwindow : 1 ≤ lease.windowMillis) (now : Reading)
    (hdecodes : ∀ id e, m.lookup? id = some e → Memory.isEligible e now lease = true →
      ∃ j, registry.build? e.record = some j) :
    ∃ jobs : List (Job β),
      List.Forall₂ (fun r j => registry.build? r = some j)
        (d.arrange (eligible lease now m ((inMemory registry d lease).firstSaves past))) jobs ∧
      (jobs.map Job.id).Nodup ∧
      (∀ n, ∃ answers m', Asks (inMemory registry d lease) d now m answers m' ∧
        answers.length = n) ∧
      ∀ answers m', Asks (inMemory registry d lease) d now m answers m' →
        (∀ i < answers.length, answers[i]? = some jobs[i]?) ∧ m.SameJobs m' := by
  have hindexed : m.Indexed := indexed_of_run hm
  rcases Memory.exists_arranged d (hindexed.pairwise_seq.filter
    fun p => Memory.isEligible p.2 now lease) with ⟨l, hperm, hsorted, hmap⟩
  rw [eligible_firstSaves hm, ← hmap]
  have hentry : ∀ p ∈ l, p ∈ m.jobs.entries ∧ Memory.isEligible p.2 now lease = true := by
    intro p hp
    exact List.mem_filter.mp (hperm.subset hp)
  have hbuilt : ∀ r ∈ l.map (fun p => p.2.record), ∃ j, registry.build? r = some j := by
    intro r hr
    rcases List.mem_map.mp hr with ⟨p, hp, rfl⟩
    rcases hentry p hp with ⟨hmem, heligible⟩
    exact hdecodes p.1 p.2 (hindexed.lookup?_of_mem hmem) heligible
  rcases exists_forall₂ hbuilt with ⟨jobs, hjobs⟩
  refine ⟨jobs, hjobs, ?_, exists_asks _ d now m, ?_⟩
  · rw [map_id_of_built hjobs, List.map_map]
    have hids : l.map (Record.id ∘ fun p => p.2.record) = l.map Prod.fst :=
      List.map_congr_left fun p hp => hindexed.ids p (hentry p hp).1
    rw [hids]
    apply (hperm.map Prod.fst).nodup_iff.mpr
    exact hindexed.nodup.sublist (List.filter_sublist.map Prod.fst)
  · intro answers m' hasks
    rcases hasks.answers hindexed.filed hwindow hsorted hperm with ⟨hanswers, hsame⟩
    refine ⟨?_, hsame⟩
    intro i hi
    rw [hanswers i hi, ← getElem?_built hjobs i, List.getElem?_map, Option.bind_map]
    rfl

/-- Of three jobs, saved with the least priority there is, with none and with the greatest, the last
one is handed out first and the first one last. -/
theorem next_hands_out_extremes_of_priority :
    let job (id : String) (priority : Int32) : Job Work :=
      ⟨{ Base.named id (.named "custom" 3) with priority := priority }, .kept (.object [])⟩
    let b : Backend Work := inMemory Work.registry .byPriority .standard
    let past : List (Access Work) := [⟨.save (job "least" (-2147483648)), false, .ofNanos 0⟩,
      ⟨.save (job "none" 0), false, .ofNanos 0⟩,
      ⟨.save (job "greatest" 2147483647), false, .ofNanos 0⟩]
    ∃ (m : Memory) (jobs : List (Job Work)), b.run past = b.onMemory .byPriority m ∧
      jobs.map Job.id = ["greatest", "none", "least"] ∧
      ∀ answers m', Asks b .byPriority (.ofNanos 0) m answers m' →
        ∀ i < answers.length, answers[i]? = some jobs[i]? := by
  intro job b past
  have hm : b.run past = b.onMemory .byPriority
      ⟨⟨[("least", ⟨0, ⟨(job "least" (-2147483648)).base, .object []⟩, none⟩),
        ("none", ⟨1, ⟨(job "none" 0).base, .object []⟩, none⟩),
        ("greatest", ⟨2, ⟨(job "greatest" 2147483647).base, .object []⟩, none⟩)]⟩,
        [(0, "least"), (1, "none"), (2, "greatest")], 3⟩ := rfl
  rcases next_hands_out_every_job hm (by decide) (.ofNanos 0) (by
    intro id e he _
    have hmem := Keyed.mem_of_find he
    simp only [List.mem_cons, Prod.mk.injEq, List.not_mem_nil, or_false] at hmem
    rcases hmem with ⟨-, rfl⟩ | ⟨-, rfl⟩ | ⟨-, rfl⟩ <;> exact ⟨_, rfl⟩) with
    ⟨jobs, hjobs, -, -, hanswers⟩
  refine ⟨_, jobs, hm, ?_, fun answers m' hasks => (hanswers answers m' hasks).1⟩
  rw [map_id_of_built hjobs]
  cbv

end Backend
end LeaseQueue
