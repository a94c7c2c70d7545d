import LeaseQueue.Proofs.Queue.Outline
/-!
# Histories

A history is all that has happened in a system since it was empty, in any order
and by the clock as it likes. Whatever has happened, a pool that has workers has
started, and a request to start a queue has done all of it or nothing.
-/

namespace LeaseQueue
namespace System

variable {β : Type}

/-!
## Starting a queue
-/

section

variable {s s' : System β} {p q token : Nat} {queue : Queue β}

theorem startPool_cases (s : System β) (p token : Nat) (source : Source β) :
    (s.startPool p token source).2 = s ∨
      s.startPool p token source = (.ok (), s.modifyPool p fun pool => pool.start token source) := by
  unfold startPool
  split
  · exact Or.inl rfl
  · split
    · exact Or.inl rfl
    · split
      · exact Or.inl rfl
      · exact Or.inr rfl

theorem parts_startPool (s : System β) (p token : Nat) (source : Source β) :
    (s.startPool p token source).2.queues = s.queues ∧
      (s.startPool p token source).2.calls = s.calls := by
  rcases startPool_cases s p token source with hsame | hstarted
  · rw [hsame]
    exact ⟨rfl, rfl⟩
  · rw [hstarted]
    exact ⟨rfl, rfl⟩

theorem startRunner_error {r : Runner} {e : RunnerError}
    (h : s.startRunner r token q = (.error e, s')) : s' = s := by
  cases r with
  | broken =>
      cases h
      rfl
  | pool p =>
      have hpool : s.startPool p token (.queue q) = (.error e, s') := h
      rcases startPool_cases s p token (.queue q) with hsame | hstarted
      · rw [hpool] at hsame
        exact hsame
      · rw [hpool] at hstarted
        cases hstarted

theorem parts_startRunner (s : System β) (r : Runner) (token q : Nat) :
    (s.startRunner r token q).2.queues = s.queues ∧
      (s.startRunner r token q).2.calls = s.calls := by
  cases r with
  | broken => exact ⟨rfl, rfl⟩
  | pool p => exact parts_startPool s p token (.queue q)

theorem parts_of_started {s₁ s₂ : System β} {d : Nat} {r : Runner}
    (hopen : s.driverOpen d token = (.ok (), s₁))
    (hrun : (s₁.setStarted q true).startRunner r token q = (.ok (), s₂)) :
    (s₂.queues = s.queues.modify q fun queue => { queue with started := true }) ∧
      s₂.calls = s.calls := by
  have hrunning := parts_startRunner (s₁.setStarted q true) r token q
  rw [hrun] at hrunning
  rw [hrunning.1, hrunning.2]
  rcases exists_of_viaDriver hopen with ⟨drivers, backends, rfl⟩
  exact ⟨rfl, rfl⟩

/-- A queue that was marked as started and is not is the queue that it was. -/
theorem setStarted_back (hqueue : s.queues[q]? = some queue) (hidle : queue.started = false) :
    ((s.setStarted q true).setStarted q false).queues = s.queues := by
  show (s.queues.modify q _).modify q _ = s.queues
  rw [List.modify_modify_eq]
  have hback := map_modify_of_eq (g := id) (l := s.queues) (i := q)
    (f := (fun queue : Queue β => { queue with started := false }) ∘
      fun queue => { queue with started := true })
    (by
      intro queue' hqueue'
      cases hqueue.symm.trans hqueue'
      show { queue with started := false } = queue
      rw [← hidle])
  rw [List.map_id, List.map_id] at hback
  exact hback

variable (s q token queue) in
inductive Starting : Prop where
  /-- It fails, and neither queues nor pools nor calls have changed. -/
  | fails (e : QueueError) (s' : System β) :
      s.start q token = (.done (.error e), s') → s'.queues = s.queues → s'.pools = s.pools →
      s'.calls = s.calls →
      (queue.started = true → queue.driver = none ∨ queue.runner = none) → Starting
  /-- The queue has started, and nothing happens. -/
  | idles : queue.started = true → s.start q token = (.done (.ok ()), s) → Starting
  /-- The driver opens, the runner starts, and a dispatch loop is called for. -/
  | succeeds (d : Nat) (r : Runner) (s₁ s₂ : System β) :
      queue.started = false → queue.driver = some d → queue.runner = some r →
      s.driverOpen d token = (.ok (), s₁) →
      (s₁.setStarted q true).startRunner r token q = (.ok (), s₂) →
      s.start q token = s₂.beginCall (.launch q d token) → Starting

theorem starting (hqueue : s.queues[q]? = some queue) (token : Nat) : s.Starting q token queue := by
  have hstart : s.start q token = s.start q token := rfl
  conv at hstart => rhs; unfold System.start
  simp only [hqueue] at hstart
  cases hdriver : queue.driver with
  | none =>
      simp only [hdriver] at hstart
      exact .fails _ s hstart rfl rfl rfl fun _ => Or.inl hdriver
  | some d =>
      cases hrunner : queue.runner with
      | none =>
          simp only [hdriver, hrunner] at hstart
          exact .fails _ s hstart rfl rfl rfl fun _ => Or.inr hrunner
      | some r =>
          simp only [hdriver, hrunner] at hstart
          cases hstarted : queue.started with
          | true =>
              rw [if_pos hstarted] at hstart
              exact .idles hstarted hstart
          | false =>
              have hnot : ¬ queue.started = true := by simp [hstarted]
              have hready : queue.started = true → queue.driver = none ∨ queue.runner = none :=
                fun h => absurd h hnot
              rw [if_neg hnot] at hstart
              split at hstart
              · exact .fails _ s hstart rfl rfl rfl hready
              · split at hstart
                · rename_i hopen
                  rcases parts_of_viaDriver hopen with ⟨hqueues, hpools⟩
                  have hcalls := calls_of_viaDriver hopen
                  exact .fails _ _ hstart hqueues hpools hcalls hready
                · rename_i s₁ hopen
                  rcases parts_of_viaDriver hopen with ⟨hqueues, hpools⟩
                  have hcalls := calls_of_viaDriver hopen
                  split at hstart
                  · rename_i hrun
                    cases startRunner_error hrun
                    rw [← hqueues] at hqueue
                    exact .fails _ _ hstart ((setStarted_back hqueue hstarted).trans hqueues) hpools
                      hcalls hready
                  · rename_i s₂ hrun
                    exact .succeeds d r s₁ s₂ hstarted hdriver hrunner hopen hrun hstart

end

/-!
## Histories
-/

variable [Body β]

/-- The systems and events that have led to a system, the latest first. -/
inductive History (clock : Nat) : List (System β × Event β) → System β → Prop where
  | empty : History clock [] (.empty clock)
  | event {past : List (System β × Event β)} {s s' : System β} {e : Event β} :
      History clock past s → s.handle e = some s' → History clock ((s, e) :: past) s'
  /-- The clock is set to any moment. -/
  | clock {past : List (System β × Event β)} {s : System β} (t : Nat) :
      History clock past s → History clock past { s with clock := t }

theorem History.events {clock : Nat} {past : List (System β × Event β)} {s s' : System β}
    {events : List (Event β)} (h : History clock past s)
    (hevents : events.foldlM handle s = some s') :
    ∃ since, since.map Prod.snd = events.reverse ∧ History clock (since ++ past) s' := by
  induction events generalizing past s with
  | nil =>
      cases hevents
      exact ⟨[], rfl, h⟩
  | cons e rest ih =>
      rcases Option.bind_eq_some_iff.mp hevents with ⟨s₁, hhandle, hrest⟩
      rcases ih (h.event hhandle) hrest with ⟨since, hsince, hhistory⟩
      refine ⟨since ++ [(s, e)], ?_, ?_⟩
      · rw [List.map_append, hsince, List.reverse_cons]
        rfl
      · rw [List.append_assoc]
        exact hhistory

def Manned (s : System β) : Prop := ∀ pool ∈ s.pools, pool.started = false → pool.workers = []

variable {s s' : System β}

omit [Body β] in
theorem Manned.of_outline (h : s.Manned) (houtline : s'.outline = s.outline) : s'.Manned := by
  intro pool hpool hidle
  have hpools : s'.pools.map (fun pool => (pool.started, pool.workers.length)) =
      s.pools.map fun pool => (pool.started, pool.workers.length) := congrArg Prod.snd houtline
  have hmem := List.mem_map_of_mem (f := fun pool : Pool β => (pool.started, pool.workers.length)) hpool
  rw [hpools] at hmem
  rcases List.mem_map.mp hmem with ⟨pool', hpool', hsame⟩
  injection hsame with hstarted hlength
  have hnone := h pool' hpool' (hstarted.trans hidle)
  rw [hnone] at hlength
  exact List.length_eq_zero_iff.mp hlength.symm

omit [Body β] in
theorem Manned.of_pools (h : s.Manned) (hpools : s'.pools = s.pools) : s'.Manned := by
  unfold Manned
  rw [hpools]
  exact h

omit [Body β] in
theorem Manned.addPool (h : s.Manned) (size millis : Nat)
    (hpools : s'.pools = s.pools ++ [.idle size millis]) : s'.Manned := by
  intro pool hpool hidle
  rw [hpools] at hpool
  rcases List.mem_append.mp hpool with hold | hnew
  · exact h pool hold hidle
  · cases List.mem_singleton.mp hnew
    rfl

omit [Body β] in
theorem Manned.startPool (h : s.Manned) (p token : Nat) (source : Source β) :
    (s.startPool p token source).2.Manned := by
  rcases startPool_cases s p token source with hsame | hstarted
  · rw [hsame]
    exact h
  · rw [hstarted]
    intro pool hpool hidle
    have hmem : pool ∈ s.pools.modify p fun pool => pool.start token source := hpool
    rcases List.mem_iff_getElem?.mp hmem with ⟨p', hp'⟩
    rw [List.getElem?_modify] at hp'
    rcases Option.map_eq_some_iff.mp hp' with ⟨pool', hpool', hpool''⟩
    split at hpool''
    · subst hpool''
      cases hidle
    · subst hpool''
      exact h pool' (List.mem_of_getElem? hpool') hidle

omit [Body β] in
theorem Manned.start (h : s.Manned) (q token : Nat) : (s.start q token).2.Manned := by
  cases hqueue : s.queues[q]? with
  | none =>
      unfold System.start
      rw [hqueue]
      exact h
  | some queue =>
      cases starting hqueue token with
      | fails e s' hstart _ hpools =>
          rw [hstart]
          exact h.of_pools hpools
      | idles _ hstart =>
          rw [hstart]
          exact h
      | succeeds d r s₁ s₂ _ _ _ hopen hrun hstart =>
          rw [hstart]
          have hopened : (s₁.setStarted q true).Manned := h.of_pools (parts_of_viaDriver hopen).2
          have hrunning : s₂.Manned := by
            cases r with
            | broken => cases hrun
            | pool p =>
                have hpool := hopened.startPool p token (.queue q)
                have hrun' : (s₁.setStarted q true).startPool p token (.queue q) = (.ok (), s₂) := hrun
                rw [hrun'] at hpool
                exact hpool
          exact hrunning.of_pools rfl

theorem Manned.handle (h : s.Manned) {e : Event β} (hhandle : s.handle e = some s') :
    s'.Manned := by
  cases e with
  | tick =>
      exact h.of_outline (outline_handle (by simp) (by simp [Event.Launches]) (by simp) hhandle)
  | files present =>
      exact h.of_outline (outline_handle (by simp) (by simp [Event.Launches]) (by simp) hhandle)
  | move move =>
      by_cases hlaunch : ∃ q d token, Event.Launches s (.move move) q d token
      · rcases hlaunch with ⟨q, d, token, hlaunches⟩
        rcases handle_launches hlaunches hhandle with ⟨c, rfl⟩
        exact h.of_pools rfl
      have hkeeps : ∀ q d token, ¬ Event.Launches s (.move move) q d token :=
        fun q d token hlaunches => hlaunch ⟨q, d, token, hlaunches⟩
      by_cases hend : ∃ q i, move = .loop q i .giveUp
      · rcases hend with ⟨q, i, rfl⟩
        have hstep : s.loopStep q i .giveUp = some s' := hhandle
        unfold loopStep at hstep
        simp only [Option.bind_eq_bind, Option.bind_eq_some_iff] at hstep
        rcases hstep with ⟨queue, -, l, -, hstep⟩
        split at hstep <;> cases hstep
        exact h.of_pools rfl
      · refine h.of_outline (outline_handle (by simp) hkeeps ?_ hhandle)
        intro q i heq
        cases heq
        exact hend ⟨q, i, rfl⟩
  | request r =>
      by_cases hr : r.Shapes
      · cases hhandle
        cases r with
        | addPool size millis => exact h.addPool size millis rfl
        | addQueue settings => exact h.addPool settings.workers settings.effectivePollMillis rfl
        | setDriver q d =>
            show (s.setDriver q d).2.Manned
            unfold setDriver
            split
            · split <;> exact h.of_pools rfl
            · exact h
        | setRunner q r =>
            show (s.setRunner q r).2.Manned
            unfold setRunner
            split
            · split <;> exact h.of_pools rfl
            · exact h
        | start q token => exact h.start q token
        | dispatch q token =>
            show (s.dispatch q token).2.Manned
            unfold dispatch
            split
            · exact h
            · split
              · rename_i hopen
                exact h.of_pools (parts_of_viaDriver hopen).2
              · rename_i hopen
                exact h.of_pools (parts_of_viaDriver hopen).2
        | startPool p token jobs d =>
            have hpool := h.startPool p token (.jobs jobs d)
            unfold perform
            dsimp only
            split
            · rename_i hcall
              rw [hcall] at hpool
              exact hpool
            · rename_i hcall
              rw [hcall] at hpool
              exact hpool
        | _ => exact hr.elim
      · refine h.of_outline (outline_handle ?_ (by simp [Event.Launches]) (by simp) hhandle)
        intro r' heq
        cases heq
        exact hr

theorem History.manned {clock : Nat} {past : List (System β × Event β)}
    (h : History clock past s) : s.Manned := by
  induction h with
  | empty =>
      intro pool hpool
      cases hpool
  | event _ hhandle ih => exact ih.handle hhandle
  | clock t _ ih => exact ih.of_pools rfl

theorem History.hasStarted {clock : Nat} {past : List (System β × Event β)}
    (h : History clock past s) {p i : Nat} (hclaim : s.phaseAt p i ≠ none) : s.HasStarted p := by
  unfold phaseAt workerAt at hclaim
  cases hpool : s.pools[p]? with
  | none => simp [hpool] at hclaim
  | some pool =>
      refine ⟨pool, hpool, ?_⟩
      cases hstarted : pool.started with
      | true => rfl
      | false =>
          have hnone := h.manned pool (List.mem_of_getElem? hpool) hstarted
          simp [hpool, hnone] at hclaim

end System
end LeaseQueue
