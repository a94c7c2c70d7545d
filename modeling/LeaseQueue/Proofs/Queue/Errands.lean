import LeaseQueue.Proofs.Queue.History
/-!
# Calls with an errand

A call may run an errand for a queue: it launches the dispatch loop, or it asks the driver for a job.
A start leaves the one behind, and who asks a queue without a loop becomes the other. No errand begins
in any other way, and the next move of such a call is its last.
-/

namespace LeaseQueue

variable {β : Type}

namespace System

variable {s s' : System β} {e : Event β} {mover : Option Waiter} {call : Call β} {p i q c : Nat}

/-!
## Single changes
-/

theorem errand_of_setCall {call' : Call β} {c' : Nat} (hset : call'.errand? = none)
    (hcall : call.errand? = some q) (hat : (s.setCall c' call').calls[c]? = some call) :
    s.calls[c]? = some call := by
  change (s.calls.set c' call')[c]? = some call at hat
  rw [List.getElem?_set] at hat
  split at hat
  · split at hat
    · cases hat
      rw [hset] at hcall
      cases hcall
    · cases hat
  · exact hat

theorem Touches.errand (h : Touches mover s s') (hcall : call.errand? = some q)
    (hat : s'.calls[c]? = some call) :
    s.calls[c]? = some call ∨ (∃ token, call = .fetch q token) ∧ s.Loopless q := by
  induction h with
  | refl s => exact Or.inl hat
  | outside _ _ hcalls =>
      rw [hcalls] at hat
      exact Or.inl hat
  | line => exact Or.inl hat
  | pool => exact Or.inl hat
  | worker => exact Or.inl hat
  | call s c' call' hset _ => exact Or.inl (errand_of_setCall hset hcall hat)
  | begins s call' hbegin _ =>
      rcases getElem?_concat_cases hat with hbefore | ⟨-, rfl⟩
      · exact Or.inl hbefore
      · exact Or.inr (hbegin q hcall)
  | trans hfirst _ ih ih' =>
      rcases ih' hat with hbetween | ⟨hfetch, hidle⟩
      · exact ih hbetween
      · exact Or.inr ⟨hfetch, hidle.of_inventory hfirst.inventory⟩

theorem calls_takeFromBuffer {pool : Pool β} (h : s.takeFromBuffer p i pool = some s') :
    s'.calls = s.calls := by
  unfold takeFromBuffer at h
  split at h
  · simp only [Option.bind_eq_bind, Option.bind_eq_some_iff] at h
    rcases h with ⟨queue, -, h⟩
    split at h
    · split at h <;> cases h
      rfl
    · cases h
  · cases h

theorem calls_loopStep {m : LoopMove} (h : s.loopStep q i m = some s') : s'.calls = s.calls := by
  unfold loopStep at h
  simp only [Option.bind_eq_bind, Option.bind_eq_some_iff] at h
  rcases h with ⟨queue, -, l, -, h⟩
  split at h
  · split at h <;> cases h
    rfl
  · split at h
    · split at h <;> cases h
      unfold askForLoop
      split
      · rename_i hcall
        have hcalls := calls_of_viaDriver hcall
        exact hcalls
      · rename_i hcall
        have hcalls := calls_of_viaDriver hcall
        exact hcalls
    · split at h <;> cases h
      rfl
    · split at h <;> cases h
      rfl

theorem errand_of_takeForCall {c' q' : Nat} (h : s.takeForCall c' q' = some s')
    (hcall : call.errand? = some q) (hat : s'.calls[c]? = some call) : s.calls[c]? = some call := by
  unfold takeForCall at h
  simp only [Option.bind_eq_bind, Option.bind_eq_some_iff] at h
  rcases h with ⟨queue, -, h⟩
  split at h
  · split at h <;> cases h
    exact errand_of_setCall (s := s.modifyQueue q' _) rfl hcall hat
  · cases h

theorem calls_perform_of_shapes [Body β] {r : Request β} (hr : r.Shapes)
    (hstart : ∀ q token, r ≠ .start q token) : (s.perform r).2.calls = s.calls := by
  cases r with
  | addPool size millis => rfl
  | addQueue settings => rfl
  | setDriver q d =>
      show (s.setDriver q d).2.calls = _
      unfold setDriver
      split
      · split <;> rfl
      · rfl
  | setRunner q r =>
      show (s.setRunner q r).2.calls = _
      unfold setRunner
      split
      · split <;> rfl
      · rfl
  | start q token => exact absurd rfl (hstart q token)
  | dispatch q token =>
      show (s.dispatch q token).2.calls = _
      unfold dispatch
      split
      · rfl
      · split
        · rename_i hopen
          exact calls_of_viaDriver hopen
        · rename_i hopen
          have hcalls := calls_of_viaDriver hopen
          exact hcalls
  | startPool p token jobs d =>
      have hpool := (parts_startPool s p token (.jobs jobs d)).2
      unfold perform
      dsimp only
      split
      · rename_i hcall
        rw [hcall] at hpool
        exact hpool
      · rename_i hcall
        rw [hcall] at hpool
        exact hpool
  | _ => exact hr.elim

theorem errand_of_start {q' token : Nat} (hat : (s.start q' token).2.calls[c]? = some call) :
    s.calls[c]? = some call ∨ ∃ d queue, call = .launch q' d token ∧
      s.queues[q']? = some queue ∧ queue.driver = some d ∧
      (s.start q' token).2.queues = s.queues.modify q' fun queue => { queue with started := true } := by
  cases hqueue : s.queues[q']? with
  | none =>
      unfold System.start at hat
      rw [hqueue] at hat
      exact Or.inl hat
  | some queue =>
      cases starting hqueue token with
      | fails err s' hstart _ _ hcalls _ =>
          rw [hstart] at hat
          rw [← hcalls]
          exact Or.inl hat
      | idles _ hstart =>
          rw [hstart] at hat
          exact Or.inl hat
      | succeeds d r s₁ s₂ _ hdriver _ hopen hrun hstart =>
          rcases parts_of_started hopen hrun with ⟨hqueues, hcalls⟩
          rw [hstart] at hat ⊢
          rcases getElem?_concat_cases hat with hbefore | ⟨-, rfl⟩
          · rw [hcalls] at hbefore
            exact Or.inl hbefore
          · exact Or.inr ⟨d, queue, rfl, rfl, hdriver, hqueues⟩

/-!
## All events
-/

variable [Body β]

theorem errand_of_move {m : Move} (hstirs : Event.Stirs s (.move m)) (h : s.step m = some s')
    (hcall : call.errand? = some q) (hat : s'.calls[c]? = some call) : s.calls[c]? = some call := by
  cases m with
  | alarm p i => cases hstirs
  | watch p => cases hstirs
  | worker p i m =>
      cases hstirs
      have hstep : s.workerStep p i .take = some s' := h
      unfold workerStep at hstep
      simp only [Option.bind_eq_bind, Option.bind_eq_some_iff] at hstep
      rcases hstep with ⟨pool, -, w, -, hstep⟩
      split at hstep
      any_goals contradiction
      · rw [calls_takeFromBuffer hstep] at hat
        exact hat
  | loop q i m =>
      rw [calls_loopStep h] at hat
      exact hat
  | call c' m =>
      rcases hstirs with ⟨rfl, call', hcall', hstirring⟩
      have hstep : s.callStep c' .proceed = some s' := h
      unfold callStep at hstep
      rw [hcall'] at hstep
      cases call' with
      | launch q' d token =>
          cases hstep
          exact errand_of_setCall (s := s.launchLoop q' d token) rfl hcall hat
      | next q' token deadline => exact errand_of_takeForCall hstep hcall hat
      | _ => cases hstirring

/-- How an errand begins: someone asks a queue without a loop, or a queue is started. -/
theorem errand_of_handle (h : s.handle e = some s') (hcall : call.errand? = some q)
    (hat : s'.calls[c]? = some call) :
    s.calls[c]? = some call ∨ ((∃ token, call = .fetch q token) ∧ s.Loopless q) ∨
      ∃ d token queue, call = .launch q d token ∧ s.queues[q]? = some queue ∧
        queue.driver = some d ∧
        s'.queues = s.queues.modify q fun queue => { queue with started := true } := by
  by_cases hstirs : e.Stirs s
  · cases e with
    | tick => cases hstirs
    | files present => cases hstirs
    | move m => exact Or.inl (errand_of_move hstirs h hcall hat)
    | request r =>
        cases h
        by_cases hstart : ∃ q' token, r = .start q' token
        · rcases hstart with ⟨q', token, rfl⟩
          rcases errand_of_start hat with hbefore | ⟨d, queue, rfl, hqueue, hdriver, hqueues⟩
          · exact Or.inl hbefore
          · cases hcall
            exact Or.inr (Or.inr ⟨d, token, queue, rfl, hqueue, hdriver, hqueues⟩)
        · rw [calls_perform_of_shapes hstirs fun q' token hr => hstart ⟨q', token, hr⟩] at hat
          exact Or.inl hat
  · exact ((touches_handle hstirs h).errand hcall hat).imp_right Or.inl

end System
end LeaseQueue
