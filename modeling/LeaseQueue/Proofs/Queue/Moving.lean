import LeaseQueue.Queue.Step
import LeaseQueue.Proofs.Queue.Working
/-!
# Moves as steps of a crew

Dispatch loops, calls, alarms and those that watch for a cancellation hold no
lock: whatever they do eases the crew. With the moves of workers, every move in
a system is a step of its crew.
-/

namespace LeaseQueue
namespace System

variable {β : Type} {b : Backend β} {d : Discipline} {owners : String → Prop}
variable {s s' : System β} {m : Memory} {p i q c : Nat}

/-!
## Alarms and watches
-/

theorem eases_ringAlarm (h : s.ringAlarm p i = some s') : s.Eases s' := by
  unfold ringAlarm at h
  simp only [Option.bind_eq_bind, Option.bind_eq_some_iff] at h
  rcases h with ⟨pool, -, w, -, alarms, -, h⟩
  cases h
  apply eases_modifyWorker s p i _
  intro w _
  exact Or.inl (Worker.tell_phase _ .poll)

theorem eases_watchPool (h : s.watchPool p = some s') : s.Eases s' := by
  unfold watchPool at h
  simp only [Option.bind_eq_bind, Option.bind_eq_some_iff] at h
  rcases h with ⟨pool, -, h⟩
  split at h
  · cases h
    refine eases_modifyPool s p _ ?_ ?_
    · intro pool
      simp [Pool.staff]
    · intro pool i
      rw [List.getElem?_map]
      cases pool.workers[i]? with
      | none => rfl
      | some w => exact congrArg some w.halt_phase
  · cases h

/-!
## Calls
-/

theorem eases_setCall (s : System β) (c : Nat) (call : Call β) : s.Eases (s.setCall c call) :=
  eases_calls s _

theorem eases_takeForCall (h : s.takeForCall c q = some s') : s.Eases s' := by
  unfold takeForCall at h
  simp only [Option.bind_eq_bind, Option.bind_eq_some_iff] at h
  rcases h with ⟨queue, -, h⟩
  split at h
  · split at h
    · cases h
    · cases h
      refine (eases_modifyQueue s q _ ?_).trans (eases_setCall _ c _)
      intro queue
      rfl
  · cases h

theorem eases_leaveForCall (s : System β) (c q : Nat) : s.Eases (s.leaveForCall c q) := by
  refine (eases_modifyQueue s q _ ?_).trans (eases_setCall _ c _)
  intro queue
  rfl

theorem eases_countIdle {n : Nat} {asked : Option Nat} {answer : Option Bool}
    (h : s.countIdle c p i n asked answer = some s') : s.Eases s' := by
  unfold countIdle at h
  simp only [Option.bind_eq_bind, Option.bind_eq_some_iff] at h
  rcases h with ⟨pool, -, h⟩
  split at h
  · cases h
    exact eases_setCall s c _
  · split at h
    · cases h
      exact eases_setCall s c _
    · split at h
      · cases h
        exact eases_setCall s c _
      · cases h
        exact (eases_tell s p i _).trans (eases_setCall _ c _)
    · split at h
      · cases h
        exact eases_setCall s c _
      · cases h

theorem eases_timeOutCall {call : Call β} (h : s.timeOutCall c call = some s') : s.Eases s' := by
  unfold timeOutCall at h
  split at h
  · split at h
    · cases h
      exact eases_leaveForCall s c _
    · cases h
  · split at h
    · cases h
      exact eases_setCall s c _
    · cases h
  · split at h
    · cases h
      exact eases_setCall s c _
    · cases h
  · split at h
    · cases h
      exact eases_setCall s c _
    · cases h
  · cases h

theorem eases_giveUpCall {call : Call β} (h : s.giveUpCall c call = some s') : s.Eases s' := by
  unfold giveUpCall at h
  split at h
  · split at h
    · cases h
      exact eases_leaveForCall s c _
    · cases h
  · split at h
    · cases h
      exact eases_setCall s c _
    · cases h
  · split at h
    · cases h
      exact eases_setCall s c _
    · cases h
  · cases h

variable [Body β]

omit [Body β] in
theorem Placed.eases_lookAtJob (h : Placed b d owners s m) (c q token : Nat) (id : String)
    (interval : Nat) (limit : Option Nat) :
    s.Eases (s.lookAtJob c q token id interval limit) := by
  unfold lookAtJob
  split
  · exact eases_setCall s c _
  · cases hdriver : s.queueDriver q with
    | none => exact eases_setCall s c _
    | some k =>
        have hsnd := h.driverGet_snd k token id
        rcases hget : s.driverGet k token id with ⟨j, s₁⟩
        rw [hget] at hsnd
        subst hsnd
        simp only [hget]
        cases j with
        | none => exact eases_setCall s₁ c _
        | some j =>
            dsimp only
            split
            · exact eases_setCall s₁ c _
            · exact eases_setCall s₁ c _

theorem Placed.advances_fetchForCall (h : Placed b d owners s m) {saved : Option (Job β)}
    (c q token : Nat) : Advances b d owners saved s (s.fetchForCall c q token) m := by
  unfold fetchForCall
  split
  · exact h.advances_of_eases (eases_setCall s c _)
  · rename_i k hdriver
    rcases h.driverNext_cases k token with ⟨m', hchange, hnext⟩
    have hspares : ∀ o, owners o → (Operation.next : Operation β).Spares o := fun _ _ => trivial
    rcases hcall : s.driverNext k token with ⟨j, s₁⟩
    rw [hcall] at hnext
    cases hnext
    exact h.advances hspares (fun _ hop => nomatch hop) hchange (eases_setCall _ c _)

theorem Placed.advances_proceedCall (h : Placed b d owners s m) {saved : Option (Job β)}
    {call : Call β} (hcall : s.proceedCall c call = some s') :
    Advances b d owners saved s s' m := by
  cases call with
  | launch q k token =>
      cases hcall
      exact h.advances_of_eases ((eases_launchLoop s q k token).trans (eases_setCall _ c _))
  | fetch q token =>
      cases hcall
      exact h.advances_fetchForCall c q token
  | next q token deadline => exact h.advances_of_eases (eases_takeForCall hcall)
  | sleep deadline =>
      unfold proceedCall at hcall
      dsimp only at hcall
      split at hcall
      · cases hcall
        exact h.advances_of_eases (eases_setCall s c _)
      · cases hcall
  | idle p i n asked answer => exact h.advances_of_eases (eases_countIdle hcall)
  | waitAll q token interval limit stage =>
      apply h.advances_of_eases
      unfold proceedCall at hcall
      dsimp only at hcall
      split at hcall
      · cases hcall
        split <;> exact eases_setCall s c _
      · cases hcall
        split <;> exact eases_setCall s c _
      · split at hcall
        · cases hcall
          exact eases_setCall s c _
        · cases hcall
  | waitJob q token id interval limit stage =>
      apply h.advances_of_eases
      unfold proceedCall at hcall
      dsimp only at hcall
      split at hcall
      · split at hcall
        · cases hcall
          exact eases_setCall s c _
        · cases hcall
      · cases hcall
        exact h.eases_lookAtJob c q token id interval limit
  | _ => cases hcall

theorem Placed.advances_callStep (h : Placed b d owners s m) {saved : Option (Job β)}
    {move : CallMove} (hstep : s.callStep c move = some s') :
    Advances b d owners saved s s' m := by
  unfold callStep at hstep
  simp only [Option.bind_eq_bind, Option.bind_eq_some_iff] at hstep
  rcases hstep with ⟨call, -, hstep⟩
  cases move with
  | proceed => exact h.advances_proceedCall hstep
  | timeOut => exact h.advances_of_eases (eases_timeOutCall hstep)
  | giveUp => exact h.advances_of_eases (eases_giveUpCall hstep)

/-!
## Dispatch loops
-/

theorem Placed.advances_askForLoop (h : Placed b d owners s m) {saved : Option (Job β)}
    (q i : Nat) (queue : Queue β) (l : Loop β) :
    Advances b d owners saved s (s.askForLoop q i queue l) m := by
  rcases h.driverNext_cases l.driver l.token with ⟨m', hchange, hnext⟩
  have hspares : ∀ o, owners o → (Operation.next : Operation β).Spares o := fun _ _ => trivial
  unfold askForLoop
  rcases hcall : s.driverNext l.driver l.token with ⟨j, s₁⟩
  rw [hcall] at hnext
  cases hnext
  cases j with
  | none =>
      refine h.advances hspares (fun _ hop => nomatch hop) hchange (eases_modifyQueue _ q _ ?_)
      intro queue
      rfl
  | some j =>
      refine h.advances hspares (fun _ hop => nomatch hop) hchange (eases_modifyQueue _ q _ ?_)
      intro queue
      rfl

theorem Placed.advances_loopStep (h : Placed b d owners s m) {saved : Option (Job β)}
    {move : LoopMove} (hstep : s.loopStep q i move = some s') :
    Advances b d owners saved s s' m := by
  have hqueue : ∀ f : Queue β → Queue β, (∀ queue, (f queue).post = queue.post) →
      Advances b d owners saved s (s.modifyQueue q f) m :=
    fun f hf => h.advances_of_eases (eases_modifyQueue s q f hf)
  unfold loopStep at hstep
  simp only [Option.bind_eq_bind, Option.bind_eq_some_iff] at hstep
  rcases hstep with ⟨queue, -, l, -, hstep⟩
  cases move with
  | giveUp =>
      dsimp only at hstep
      split at hstep
      · cases hstep
        exact hqueue _ fun _ => rfl
      · cases hstep
  | proceed =>
      dsimp only at hstep
      split at hstep
      · split at hstep
        · cases hstep
        · cases hstep
          exact h.advances_askForLoop q i queue l
      · split at hstep
        · cases hstep
          exact hqueue _ fun _ => rfl
        · cases hstep
      · split at hstep
        · cases hstep
          exact hqueue _ fun _ => rfl
        · cases hstep

/-!
## All moves
-/

/-- A move in a placed system is a step of its crew, in which no client saves a job. -/
theorem Placed.advances_step (h : Placed b d owners s m) {move : Move}
    (hstep : s.step move = some s') : Advances b d owners none s s' m := by
  cases move with
  | worker p i move => exact h.advances_workerStep hstep
  | alarm p i => exact h.advances_of_eases (eases_ringAlarm hstep)
  | watch p => exact h.advances_of_eases (eases_watchPool hstep)
  | loop q i move => exact h.advances_loopStep hstep
  | call c move => exact h.advances_callStep hstep

end System
end LeaseQueue
