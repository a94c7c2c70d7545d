import LeaseQueue.Proofs.Queue.Evidence
import LeaseQueue.Proofs.Queue.Turns
import LeaseQueue.Proofs.Store.Counting
/-!
# Calls for progress

A call for progress looks at a queue again and again while others go on. When it
says that all jobs are finished, each job that was there at the beginning of its
last count was finished when the count came to it. Only a token that is
cancelled in the middle of a count cuts the count short, and what was counted
till then may be finished although the rest is not.
-/

namespace LeaseQueue

variable {β : Type}

namespace Tally

theorem isComplete_iff_finished (l : List StatusInfo) :
    (ofInfos l).isComplete = true ↔ ∀ i ∈ l, (i.completed || i.failed) = true :=
  (isComplete_iff_active l).trans (active_eq_zero_iff l)

theorem ofInfos_concat (l : List StatusInfo) (i : StatusInfo) :
    ofInfos (l ++ [i]) = (ofInfos l).record i := by
  unfold ofInfos
  rw [List.foldl_append]
  rfl

end Tally

namespace Backend

theorem pull_of_entry (b : Backend β) (d : Discipline) {m : Memory} (hm : m.Indexed) {n : Nat}
    {p : String × Entry} (hp : m.jobs.entries[n]? = some p) :
    (b.onMemory d m).pull false (.memory n) =
      (some (.ofRecord p.2.record), .memory (n + 1)) := by
  have hpull := hm.pull_eq n
  rw [hp] at hpull
  unfold pull
  simp only [onMemory, hpull]
  rfl

theorem pull_of_end (b : Backend β) (d : Discipline) {m : Memory} (hm : m.Indexed) {n : Nat}
    (hend : m.jobs.entries.length ≤ n) :
    (b.onMemory d m).pull false (.memory n) = (none, .ended) := by
  have hpull := hm.pull_eq n
  rw [List.getElem?_eq_none hend] at hpull
  unfold pull
  simp only [onMemory, hpull]
  rfl

end Backend

namespace System

variable {s s' s₀ : System β} {past since : List (System β × Event β)} {e : Event β}
variable {q token interval c k k' : Nat} {limit : Option Nat} {id : String}
variable {l l' : Listing} {t t' : Tally} {stage : LeaseQueue.Stage} {i : StatusInfo}

/-!
## Counts
-/

/-- A call began to count all jobs in a system, and has been counting ever since. -/
structure Count (past : List (System β × Event β)) (c : Nat) (waits : LeaseQueue.Stage → Call β)
    (s₀ : System β) (since : List (System β × Event β)) : Prop where
  log : ∃ before, past = since ++ (s₀, .move (.call c .proceed)) :: before
  began : s₀.calls[c]? = some (waits .looking)
  goesOn : ∀ x ∈ since, ∃ k l t, x.1.calls[c]? = some (waits (.counting k l t))

theorem Count.after {waits : LeaseQueue.Stage → Call β} (h : Count past c waits s₀ since)
    (hcall : s.calls[c]? = some (waits (.counting k l t))) (e : Event β) :
    Count ((s, e) :: past) c waits s₀ ((s, e) :: since) := by
  rcases h with ⟨⟨before, rfl⟩, hbegan, hgoesOn⟩
  exact ⟨⟨before, rfl⟩, hbegan, List.forall_mem_cons.mpr ⟨⟨k, l, t, hcall⟩, hgoesOn⟩⟩

/-- A store in memory has become that of the backend, and has neither lost a job nor moved one. -/
def Became (k : Nat) (b : Backend β) (d : Discipline) (m₀ : Memory) (s : System β) : Prop :=
  ∃ m, s.backends[k]? = some (b.onMemory d m) ∧ m.Indexed ∧ m₀.Keeps m

theorem Became.handle [Body β] {b : Backend β} {d : Discipline} {m₀ : Memory}
    (h : s.Became k b d m₀) (hhandle : s.handle e = some s') : s'.Became k b d m₀ := by
  rcases h with ⟨m, hb, hm, hkeeps⟩
  rcases stores_handle hhandle hb hm with ⟨m', hb', hm', hkeeps'⟩
  exact ⟨m', hb', hm', hkeeps.trans hkeeps'⟩

def Seen (k : Nat) (since : List (System β × Event β)) (id : String) (i : StatusInfo) : Prop :=
  ∃ x ∈ since, ∃ r, x.1.recordIn k id = some r ∧ i = .ofRecord r

theorem Seen.after (h : Seen k since id i) (x : System β × Event β) : Seen k (x :: since) id i := by
  rcases h with ⟨y, hy, r, hr, hi⟩
  exact ⟨y, List.mem_cons_of_mem x hy, r, hr, hi⟩

/-- A list of the jobs of a store has come to a place and has been counted so far. Each job before that
place is in the list as it was stored at some moment. -/
def Listed (k : Nat) (m₀ : Memory) (since : List (System β × Event β)) (l : Listing) (t : Tally) :
    Prop :=
  ∃ infos : List StatusInfo, l = .memory infos.length ∧ t = .ofInfos infos ∧
    ∀ id seq, m₀.Stands id seq → seq < infos.length → ∃ i ∈ infos, Seen k since id i

theorem Listed.after {m₀ : Memory} (h : Listed k m₀ since l t) (x : System β × Event β) :
    Listed k m₀ (x :: since) l t := by
  rcases h with ⟨infos, hl, ht, hseen⟩
  refine ⟨infos, hl, ht, fun id seq hstands hlt => ?_⟩
  rcases hseen id seq hstands hlt with ⟨i, hi, hsight⟩
  exact ⟨i, hi, hsight.after x⟩

theorem recordIn_onMemory {b : Backend β} {d : Discipline} {m : Memory}
    (hb : s.backends[k]? = some (b.onMemory d m)) (id : String) :
    s.recordIn k id = (m.lookup? id).map Entry.record := by
  unfold recordIn
  rw [hb]
  rfl

theorem Listed.pulled {b : Backend β} {d : Discipline} {m₀ : Memory} (h : Listed k m₀ since l t)
    (hbecame : s.Became k b d m₀) {b' : Backend β} (hb' : s.backends[k]? = some b')
    {cancelled : Bool} (hpull : b'.pull cancelled l = (some i, l')) (e : Event β) :
    Listed k m₀ ((s, e) :: since) l' (t.record i) := by
  rcases h with ⟨infos, rfl, rfl, hseen⟩
  rcases hbecame with ⟨m, hb, hm, hkeeps⟩
  cases hb'.symm.trans hb
  cases cancelled with
  | true => cases hpull
  | false =>
      cases hp : m.jobs.entries[infos.length]? with
      | none =>
          rw [Backend.pull_of_end b d hm (List.getElem?_eq_none_iff.mp hp)] at hpull
          cases hpull
      | some p =>
          rw [Backend.pull_of_entry b d hm hp] at hpull
          cases hpull
          refine ⟨infos ++ [_], by rw [List.length_append]; rfl, (Tally.ofInfos_concat _ _).symm, ?_⟩
          intro id seq hstands hlt
          by_cases hold : seq < infos.length
          · rcases hseen id seq hstands hold with ⟨i, hi, hsight⟩
            exact ⟨i, List.mem_append_left _ hi, hsight.after _⟩
          · have hnew : seq = infos.length := by
              rw [List.length_append, List.length_singleton] at hlt
              omega
            subst hnew
            rcases hm.getElem?_of_stands (hkeeps id _ hstands) with ⟨e', he', hplace⟩
            cases hp.symm.trans hplace
            refine ⟨_, List.mem_append_right _ List.mem_cons_self, _, List.mem_cons_self, e'.record,
              ?_, rfl⟩
            rw [recordIn_onMemory hb, he']
            rfl

/-- A list that gives nothing more, and was not called off, has come to the end of the store; so if what
it has given is finished, each job was finished at some moment. -/
theorem Listed.ended {b : Backend β} {d : Discipline} {m₀ : Memory} (h : Listed k m₀ since l t)
    (hbecame : s.Became k b d m₀) {b' : Backend β} (hb' : s.backends[k]? = some b')
    (hpull : b'.pull false l = (none, l')) (hcomplete : t.isComplete = true) {seq : Nat}
    (hstands : m₀.Stands id seq) :
    ∃ x ∈ since, ∃ r, x.1.recordIn k id = some r ∧ r.status.isFinished = true := by
  rcases h with ⟨infos, rfl, rfl, hseen⟩
  rcases hbecame with ⟨m, hb, hm, hkeeps⟩
  cases hb'.symm.trans hb
  have hend : m.jobs.entries[infos.length]? = none := by
    cases hp : m.jobs.entries[infos.length]? with
    | none => rfl
    | some p =>
        rw [Backend.pull_of_entry b d hm hp] at hpull
        cases hpull
  have hlt : seq < infos.length := by
    rcases hm.getElem?_of_stands (hkeeps id seq hstands) with ⟨e', -, hplace⟩
    exact Nat.lt_of_lt_of_le (List.getElem?_eq_some_iff.mp hplace).1
      (List.getElem?_eq_none_iff.mp hend)
  rcases hseen id seq hstands hlt with ⟨i, hi, x, hx, r, hr, rfl⟩
  exact ⟨x, hx, r, hr, (Tally.isComplete_iff_finished infos).mp hcomplete _ hi⟩

/-!
## Counts along a history
-/

/-- What a call in the middle of a count knows: it began to count the jobs of the backend that the queue
worked on, and if that was a store in memory, it has listed the jobs up to a place. -/
def Counted (past : List (System β × Event β)) (c q token interval : Nat) (limit : Option Nat)
    (k : Nat) (l : Listing) (t : Tally) (s : System β) : Prop :=
  ∃ s₀ since, Count past c (.waitAll q token interval limit) s₀ since ∧ s₀.queueBackend q = some k ∧
    ∀ b d m₀, s₀.backends[k]? = some (b.onMemory d m₀) → m₀.Indexed →
      s.Became k b d m₀ ∧ Listed k m₀ since l t

theorem exists_of_lookAtAll (h : s.lookAtAll q token = .ok stage) :
    ∃ k b, s.queueBackend q = some k ∧ s.backends[k]? = some b ∧
      stage = .counting k b.listing .zero := by
  unfold lookAtAll at h
  split at h
  · cases h
  · split at h
    · cases h
    · rename_i k hk
      split at h
      · cases h
      · rename_i b hb
        cases h
        exact ⟨k, b, hk, hb, rfl⟩

theorem exists_of_countOn (h : s.countOn token interval k l t = .ok (.counting k' l' t')) :
    ∃ b i, s.backends[k]? = some b ∧ b.pull (s.isCancelled token) l = (some i, l') ∧ k' = k ∧
      t' = t.record i := by
  unfold countOn at h
  dsimp only at h
  split at h
  · cases h
  · rename_i b hb
    split at h
    · split at h <;> cases h
    · split at h
      · rename_i i l₁ hpull
        cases h
        exact ⟨b, i, hb, hpull, rfl, rfl⟩
      · split at h <;> cases h

theorem Counted.begin (hcall : s.calls[c]? = some (.waitAll q token interval limit .looking))
    (hlook : s.lookAtAll q token = .ok (.counting k l t)) {call : Call β} :
    Counted ((s, .move (.call c .proceed)) :: past) c q token interval limit k l t
      (s.setCall c call) := by
  rcases exists_of_lookAtAll hlook with ⟨k₀, b₀, hk, hb₀, heq⟩
  cases heq
  refine ⟨s, [], ⟨⟨past, rfl⟩, hcall, fun x hx => nomatch hx⟩, hk, ?_⟩
  intro b d m₀ hb hm
  cases hb₀.symm.trans hb
  refine ⟨⟨m₀, hb, hm, .refl m₀⟩, [], rfl, rfl, ?_⟩
  intro id seq _ hlt
  cases hlt

theorem Counted.after [Body β] (h : Counted past c q token interval limit k l t s)
    (hcall : s.calls[c]? = some (.waitAll q token interval limit (.counting k l t)))
    (hhandle : s.handle e = some s') :
    Counted ((s, e) :: past) c q token interval limit k l t s' := by
  rcases h with ⟨s₀, since, hcount, hk, hlisted⟩
  refine ⟨s₀, _, hcount.after hcall e, hk, ?_⟩
  intro b d m₀ hb hm
  rcases hlisted b d m₀ hb hm with ⟨hbecame, hlist⟩
  exact ⟨hbecame.handle hhandle, hlist.after (s, e)⟩

theorem Counted.pulled [Body β] (h : Counted past c q token interval limit k l t s)
    (hcall : s.calls[c]? = some (.waitAll q token interval limit (.counting k l t)))
    (hcount : s.countOn token interval k l t = .ok (.counting k' l' t'))
    (hhandle : s.handle e = some s') :
    Counted ((s, e) :: past) c q token interval limit k' l' t' s' := by
  rcases exists_of_countOn hcount with ⟨b', i, hb', hpull, rfl, rfl⟩
  rcases h with ⟨s₀, since, hsince, hk, hlisted⟩
  refine ⟨s₀, _, hsince.after hcall e, hk, ?_⟩
  intro b d m₀ hb hm
  rcases hlisted b d m₀ hb hm with ⟨hbecame, hlist⟩
  exact ⟨hbecame.handle hhandle, hlist.pulled hbecame hb' hpull e⟩

theorem History.counted [Body β] {clock : Nat} (h : History clock past s)
    (hcall : s.calls[c]? = some (.waitAll q token interval limit (.counting k l t))) :
    Counted past c q token interval limit k l t s := by
  induction h generalizing k l t with
  | empty => cases hcall
  | clock time _ ih => exact ih hcall
  | @event past s s' e hpast hhandle ih =>
      have hstale : ¬ (Call.waitAll q token interval limit (.counting k l t) : Call β).IsFresh :=
        fun hfresh => nomatch hfresh.2
      rcases own_move_of_stale hhandle hcall hstale with hsame | ⟨move, rfl, hstep⟩
      · exact (ih hsame).after hsame hhandle
      · rcases exists_waitAll_of_callStep hstep hcall with ⟨stage, hcall₀⟩
        rcases turns_of_callStep hcall₀ hstep with ⟨call, rfl, hturns⟩
        cases (calls_setCall hcall₀).symm.trans hcall
        rcases hturns.counting with ⟨rfl, ⟨rfl, hlook⟩ | ⟨k₀, l₀, t₀, rfl, hcount⟩⟩
        · exact .begin hcall₀ hlook
        · exact (ih hcall₀).pulled hcall₀ hcount hhandle

/-!
## What calls for progress say in the end
-/

/-- A queue works on a backend, and that is what operations have made of an empty store in memory. -/
def OnMemory [Body β] (s : System β) (q k : Nat) : Prop :=
  s.queueBackend q = some k ∧
    ∃ registry d lease b, s.backends[k]? = some b ∧ Backend.Reachable registry d lease b

theorem OnMemory.exists_memory [Body β] (h : s.OnMemory q k) :
    ∃ (b : Backend β) (d : Discipline) (m : Memory),
      s.backends[k]? = some (b.onMemory d m) ∧ m.Indexed := by
  rcases h with ⟨-, registry, d, lease, b, hb, hreachable⟩
  rcases hreachable.exists_memory with ⟨m, rfl, hm⟩
  exact ⟨_, d, m, hb, hm⟩

theorem cancelled_of_lookAtAll (h : s.lookAtAll q token = .error false) :
    s.isCancelled token = true := by
  unfold lookAtAll at h
  split at h
  · rename_i hcancelled
    exact hcancelled
  · split at h
    · cases h
    · split at h <;> cases h

theorem not_onMemory_of_lookAtAll [Body β] (h : s.lookAtAll q token = .error true) (k : Nat) :
    ¬ s.OnMemory q k := by
  rintro ⟨hk, registry, d, lease, b, hb, -⟩
  unfold lookAtAll at h
  split at h
  · cases h
  · simp only [hk, hb] at h
    cases h

theorem countOn_ne_false (s : System β) (token interval k : Nat) (l : Listing) (t : Tally) :
    s.countOn token interval k l t ≠ .error false := by
  intro h
  unfold countOn at h
  dsimp only at h
  split at h
  · cases h
  · split at h
    · split at h <;> cases h
    · split at h
      · cases h
      · split at h <;> cases h

theorem complete_of_countOn {b : Backend β} {d : Discipline} {m : Memory} {answer : Bool}
    (hb : s.backends[k]? = some (b.onMemory d m))
    (h : s.countOn token interval k l t = .error answer) :
    ∃ l', (b.onMemory d m).pull (s.isCancelled token) l = (none, l') ∧ t.isComplete = true := by
  unfold countOn at h
  simp only [hb] at h
  split at h
  · rename_i hstorage
    cases hstorage
  · split at h
    · cases h
    · rename_i l' hpull
      split at h
      · rename_i hcomplete
        exact ⟨l', hpull, hcomplete⟩
      · cases h

variable [Body β] {clock : Nat} {answer : Bool}

theorem turns_of_answer (hhandle : s.handle e = some s')
    (hcall : s.calls[c]? = some (.waitAll q token interval limit stage))
    (hover : s'.calls[c]? = some (.over (.truth answer))) :
    ∃ move, e = .move (.call c move) ∧
      Turns s q token interval limit stage move (.over (.truth answer)) := by
  have hstale : ¬ (Call.over (.truth answer) : Call β).IsFresh := fun hfresh => nomatch hfresh.1
  rcases own_move_of_stale hhandle hover hstale with hsame | ⟨move, rfl, hstep⟩
  · cases hsame.symm.trans hcall
  · rcases turns_of_callStep hcall hstep with ⟨call, rfl, hturns⟩
    cases (calls_setCall hcall).symm.trans hover
    exact ⟨move, rfl, hturns⟩

theorem cancelled_of_waitAll (hhandle : s.handle e = some s')
    (hcall : s.calls[c]? = some (.waitAll q token interval limit stage))
    (hover : s'.calls[c]? = some (.over (.truth false))) : s.isCancelled token = true := by
  rcases turns_of_answer hhandle hcall hover with ⟨move, -, hturns⟩
  rcases hturns.answer with ⟨-, -, hlook⟩ | ⟨k, l, t, -, -, hcount⟩ | ⟨-, hcancelled⟩
  · exact cancelled_of_lookAtAll hlook
  · exact absurd hcount (countOn_ne_false s _ _ k l t)
  · exact hcancelled

theorem Counted.finished (h : Counted past c q token interval limit k l t s)
    (hlive : s.isCancelled token = false)
    (hcount : s.countOn token interval k l t = .error true) :
    ∃ s₀ since, Count past c (.waitAll q token interval limit) s₀ since ∧
      ∀ k, s₀.OnMemory q k → ∀ id r₀, s₀.recordIn k id = some r₀ →
        ∃ x ∈ since, ∃ r, x.1.recordIn k id = some r ∧ r.status.isFinished = true := by
  rcases h with ⟨s₀, since, hsince, hk, hlisted⟩
  refine ⟨s₀, since, hsince, ?_⟩
  intro k' hmemory id r₀ hr₀
  cases hmemory.1.symm.trans hk
  rcases hmemory.exists_memory with ⟨b, d, m₀, hb, hm₀⟩
  rcases hlisted b d m₀ hb hm₀ with ⟨hbecame, hlist⟩
  have hbecame' := hbecame
  rcases hbecame' with ⟨m, hb', -, -⟩
  rcases complete_of_countOn hb' hcount with ⟨l', hpull, hcomplete⟩
  rw [hlive] at hpull
  rw [recordIn_onMemory hb] at hr₀
  rcases Option.map_eq_some_iff.mp hr₀ with ⟨e₀, he₀, -⟩
  exact hlist.ended hbecame hb' hpull hcomplete ⟨e₀, he₀, rfl⟩

/-- All jobs that were there when a call began its last count were seen finished since, unless the token
was cancelled before the count came to its end. -/
theorem History.finished_of_waitAll (h : History clock past s) (hhandle : s.handle e = some s')
    (hcall : s.calls[c]? = some (.waitAll q token interval limit stage))
    (hover : s'.calls[c]? = some (.over (.truth true))) :
    s.isCancelled token = true ∨
      ∃ s₀ since, Count ((s, e) :: past) c (.waitAll q token interval limit) s₀ since ∧
        ∀ k, s₀.OnMemory q k → ∀ id r₀, s₀.recordIn k id = some r₀ →
          ∃ x ∈ since, ∃ r, x.1.recordIn k id = some r ∧ r.status.isFinished = true := by
  rcases turns_of_answer hhandle hcall hover with ⟨move, rfl, hturns⟩
  rcases hturns.answer with ⟨rfl, rfl, hlook⟩ | ⟨k, l, t, rfl, rfl, hcount⟩ | ⟨hfalse, -⟩
  · refine Or.inr ⟨s, [], ⟨⟨past, rfl⟩, hcall, fun x hx => nomatch hx⟩, ?_⟩
    intro k hmemory
    exact absurd hmemory (not_onMemory_of_lookAtAll hlook k)
  · cases hcancelled : s.isCancelled token with
    | true => exact Or.inl rfl
    | false =>
        rcases (h.counted hcall).finished hcancelled hcount with ⟨s₀, since, hsince, hseen⟩
        refine Or.inr ⟨s₀, _, hsince.after hcall _, ?_⟩
        intro k' hmemory id r₀ hr₀
        rcases hseen k' hmemory id r₀ hr₀ with ⟨x, hx, hfinished⟩
        exact ⟨x, List.mem_cons_of_mem _ hx, hfinished⟩
  · cases hfalse

/-- What a call for one job says in the end: that its token is cancelled, that its time is up, or the
job, finished, as the driver of the queue finds it. -/
inductive Answers (s : System β) (q token : Nat) (id : String) : Outcome β → Prop where
  | cancelled : s.isCancelled token = true → Answers s q token id (.job none)
  | late : Answers s q token id .timedOut
  | finds (k : Nat) (r : Record) (j : Job β) : s.queueDriver q = some k → s.HasJob k id r j →
      r.status.isFinished = true → Answers s q token id (.job (some j))

omit [Body β] in
theorem answers_of_lookAtJob {o : Outcome β} (hlt : c < s.calls.length)
    (hover : (s.lookAtJob c q token id interval limit).calls[c]? = some (.over o)) :
    Answers s q token id o := by
  have hset : ∀ {s₁ : System β} {call : Call β}, s₁.calls = s.calls →
      (s₁.setCall c call).calls[c]? = some call := by
    intro s₁ call hcalls
    exact List.getElem?_set_self (hcalls ▸ hlt)
  unfold lookAtJob at hover
  split at hover
  · rename_i hcancelled
    cases (hset rfl).symm.trans hover
    exact .cancelled hcancelled
  · split at hover
    rename_i j s₁ hlook
    split at hlook
    · cases hlook
      cases (hset rfl).symm.trans hover
    · rename_i k hdriver
      have hcalls : s₁.calls = s.calls := by
        rcases exists_of_viaDriver hlook with ⟨drivers, backends, rfl⟩
        rfl
      dsimp only at hover
      split at hover
      · rename_i j
        split at hover
        · rename_i hfinished
          cases (hset hcalls).symm.trans hover
          rcases hasJob_of_driverGet (congrArg Prod.fst hlook) with ⟨r, hjob⟩
          refine .finds k r j hdriver hjob ?_
          rcases hjob with ⟨b, -, -, hbuilt⟩
          have hstatus : j.status = r.status := congrArg Base.status (Registry.build?_base hbuilt)
          rw [← hstatus]
          exact hfinished
        · cases (hset hcalls).symm.trans hover
      · cases (hset hcalls).symm.trans hover

theorem answers_of_waitJob {o : Outcome β} (hhandle : s.handle e = some s')
    (hcall : s.calls[c]? = some (.waitJob q token id interval limit stage))
    (hover : s'.calls[c]? = some (.over o)) : Answers s q token id o := by
  have hlt : c < s.calls.length := (List.getElem?_eq_some_iff.mp hcall).1
  have hstale : ¬ (Call.over o : Call β).IsFresh := fun hfresh => nomatch hfresh.1
  rcases own_move_of_stale hhandle hover hstale with hsame | ⟨move, rfl, hstep⟩
  · cases hsame.symm.trans hcall
  · unfold callStep at hstep
    rw [hcall] at hstep
    cases move with
    | proceed =>
        have hproceed : s.proceedCall c (.waitJob q token id interval limit stage) = some s' := hstep
        unfold proceedCall at hproceed
        dsimp only at hproceed
        split at hproceed
        · split at hproceed <;> cases hproceed
          cases (calls_setCall hcall).symm.trans hover
        · cases hproceed
          exact answers_of_lookAtJob hlt hover
    | timeOut =>
        have htimeOut : s.timeOutCall c (.waitJob q token id interval limit stage) = some s' := hstep
        unfold timeOutCall at htimeOut
        cases stage with
        | looking => cases htimeOut
        | counting k l t => cases htimeOut
        | resting deadline =>
            dsimp only at htimeOut
            split at htimeOut <;> cases htimeOut
            cases (calls_setCall hcall).symm.trans hover
            exact .late
    | giveUp =>
        have hgiveUp : s.giveUpCall c (.waitJob q token id interval limit stage) = some s' := hstep
        unfold giveUpCall at hgiveUp
        cases stage with
        | looking => cases hgiveUp
        | counting k l t => cases hgiveUp
        | resting deadline =>
            dsimp only at hgiveUp
            split at hgiveUp <;> cases hgiveUp
            rename_i hcancelled
            cases (calls_setCall hcall).symm.trans hover
            exact .cancelled hcancelled

theorem HasJob.id_eq {r : Record} {j : Job β} {n : Nat} (h : s.HasJob k id r j)
    (hdriver : s.queueDriver q = some k) (hmemory : s.OnMemory q n) : j.id = id := by
  rcases h with ⟨b, hb, hr, hbuilt⟩
  rcases hmemory.exists_memory with ⟨b', d, m, hb', hm⟩
  have hbackend : s.backendOf? k = some (b'.onMemory d m) := by
    have hn := hmemory.1
    unfold queueBackend at hn
    rcases Option.bind_eq_some_iff.mp hn with ⟨k', hk, hn⟩
    cases hk.symm.trans hdriver
    rcases Option.bind_eq_some_iff.mp hn with ⟨driver, hdriver', heq⟩
    cases heq
    unfold backendOf?
    rw [hdriver']
    exact hb'
  cases hb.symm.trans hbackend
  rw [Backend.record?_onMemory] at hr
  rcases Option.map_eq_some_iff.mp hr with ⟨e, he, rfl⟩
  exact (congrArg Base.id (Registry.build?_base hbuilt)).trans (hm.record_id he)

/-- What a call for progress says in the end is true. A call for all jobs says that they are finished
only if each job that was there when its last count began was finished at some moment since, or if
its token was cancelled before the count came to its end; and it says that they are not only if its
token is cancelled. A call for one job gives it only under its id and as it is stored, finished, at that
moment; and nothing it gives only if its token is cancelled. -/
theorem waits_say_what_they_saw (h : History clock past s) (hhandle : s.handle e = some s')
    {call : Call β} {o : Outcome β} (hcall : s.calls[c]? = some call)
    (hover : s'.calls[c]? = some (.over o)) :
    (∀ q token interval limit stage, call = .waitAll q token interval limit stage →
      (o = .truth true → s.isCancelled token = true ∨
        ∃ s₀ since, Count ((s, e) :: past) c (.waitAll q token interval limit) s₀ since ∧
          ∀ k, s₀.OnMemory q k → ∀ id r₀, s₀.recordIn k id = some r₀ →
            ∃ x ∈ since, ∃ r, x.1.recordIn k id = some r ∧ r.status.isFinished = true) ∧
      (o = .truth false → s.isCancelled token = true)) ∧
    (∀ q token id interval limit stage, call = .waitJob q token id interval limit stage →
      (∀ j, o = .job (some j) → ∃ k r, s.queueDriver q = some k ∧ s.HasJob k id r j ∧
        r.status.isFinished = true ∧ ∀ n, s.OnMemory q n → j.id = id) ∧
      (o = .job none → s.isCancelled token = true)) := by
  constructor
  · rintro q token interval limit stage rfl
    refine ⟨?_, ?_⟩
    · rintro rfl
      exact h.finished_of_waitAll hhandle hcall hover
    · rintro rfl
      exact cancelled_of_waitAll hhandle hcall hover
  · rintro q token id interval limit stage rfl
    have hanswers := answers_of_waitJob hhandle hcall hover
    refine ⟨?_, ?_⟩
    · rintro j rfl
      cases hanswers with
      | finds k r _ hdriver hjob hfinished =>
          exact ⟨k, r, hdriver, hjob, hfinished, fun n hmemory => hjob.id_eq hdriver hmemory⟩
    · rintro rfl
      cases hanswers with
      | cancelled hcancelled => exact hcancelled

/-- A job is put into a queue on a store in memory, and a call begins to wait for all jobs. -/
def watched (j : Job Work) : List (Event Work) :=
  [.request (.addBackend (.inMemory Work.registry .oldestFirst .standard) ⟨"one", 0, []⟩),
    .request (.addQueue ⟨1, 600, 16⟩), .request (.setDriver 0 0), .request (.put 0 0 j),
    .request (.waitAll 0 1 10 none)]

/-- A call that looks at a finished job and counts it says that all jobs are finished, and it was. -/
theorem waits_say_what_they_saw_of_finished :
    let done : Job Work := (Backend.sampleJob "job").withStatus ⟨true, false, false, "", 1, none⟩
    let looks : Event Work := .move (.call 0 .proceed)
    ∃ past s s', History 0 past s ∧ past.map Prod.snd = looks :: looks :: (watched done).reverse ∧
      s.handle looks = some s' ∧ s'.calls[0]? = some (.over (.truth true)) ∧
      ∃ s₀ since, Count ((s, looks) :: past) 0 (.waitAll 0 1 10000000 none) s₀ since ∧
        ∀ k, s₀.OnMemory 0 k → ∀ id r₀, s₀.recordIn k id = some r₀ →
          ∃ x ∈ since, ∃ r, x.1.recordIn k id = some r ∧ r.status.isFinished = true := by
  intro done looks
  have hrun : ∃ (s s' : System Work) (stage : LeaseQueue.Stage),
      (watched done ++ [looks, looks]).foldlM handle (.empty 0) = some s ∧
      s.calls[0]? = some (.waitAll 0 1 10000000 none stage) ∧ s.handle looks = some s' ∧
      s'.calls[0]? = some (.over (.truth true)) ∧ s.isCancelled 1 = false :=
    ⟨_, _, _, rfl, rfl, rfl, rfl, rfl⟩
  rcases hrun with ⟨s, s', stage, hs, hcall, hhandle, hover, hlive⟩
  rcases History.empty.events hs with ⟨past, hpast, hhistory⟩
  rw [List.append_nil] at hhistory
  refine ⟨past, s, s', hhistory, hpast, hhandle, hover, ?_⟩
  rcases ((waits_say_what_they_saw hhistory hhandle hcall hover).1 0 1 10000000 none stage rfl).1 rfl
    with hcancelled | hseen
  · rw [hlive] at hcancelled
    cases hcancelled
  · exact hseen

/-- The token of a call is cancelled after the call has looked at it and before it counts the first job.
The call says that all jobs are finished, although the only one has not been from beginning to end. -/
theorem call_cancelled_in_count_says_finished :
    ∃ s₀ s₁ s₂ s₃ : System Work,
      (watched (Backend.sampleJob "job")).foldlM handle (.empty 0) = some s₀ ∧
      s₀.handle (.move (.call 0 .proceed)) = some s₁ ∧
      s₁.handle (.request (.cancel 1)) = some s₂ ∧
      s₂.handle (.move (.call 0 .proceed)) = some s₃ ∧
      s₀.calls[0]? = some (.waitAll 0 1 10000000 none .looking) ∧
      s₃.calls[0]? = some (.over (.truth true)) ∧ s₀.OnMemory 0 0 ∧
      ∀ s ∈ [s₀, s₁, s₂, s₃], ∃ r, s.recordIn 0 "job" = some r ∧ r.status.isFinished = false := by
  refine ⟨_, _, _, _, rfl, rfl, rfl, rfl, rfl, rfl, ?_, ?_⟩
  · exact ⟨rfl, Work.registry, .oldestFirst, .standard, _, rfl,
      [⟨.save (Backend.sampleJob "job"), false, .ofNanos 0⟩], rfl⟩
  · intro s hs
    rcases List.mem_cons.mp hs with rfl | hs
    · exact ⟨_, rfl, rfl⟩
    rcases List.mem_cons.mp hs with rfl | hs
    · exact ⟨_, rfl, rfl⟩
    rcases List.mem_cons.mp hs with rfl | hs
    · exact ⟨_, rfl, rfl⟩
    cases List.mem_singleton.mp hs
    exact ⟨_, rfl, rfl⟩

end System
end LeaseQueue
