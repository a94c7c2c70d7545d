import LeaseQueue.Proofs.Queue.Receipts
/-!
# What becomes of a call

Others begin calls and answer what a call has asked them, but a call goes on and
comes to its end by its own moves. What a call waits for stays the same till
then; only the point changes to which it has come.
-/

namespace LeaseQueue

variable {β : Type}

namespace System

variable {s s' : System β} {e : Event β}
variable {q token interval c : Nat} {limit : Option Nat} {id : String}
variable {stage stage' : LeaseQueue.Stage}

/-!
## Turns of a call for all jobs
-/

def settled (q token interval : Nat) (limit : Option Nat) : Except Bool LeaseQueue.Stage → Call β
  | .error b => .over (.truth b)
  | .ok stage => .waitAll q token interval limit stage

/-- What a call for all jobs may do at a stage. -/
inductive Turns (s : System β) (q token interval : Nat) (limit : Option Nat) :
    LeaseQueue.Stage → CallMove → Call β → Prop where
  | looks : Turns s q token interval limit .looking .proceed
      (settled q token interval limit (s.lookAtAll q token))
  | counts (k : Nat) (l : Listing) (t : Tally) :
      Turns s q token interval limit (.counting k l t) .proceed
        (settled q token interval limit (s.countOn token interval k l t))
  | wakes (deadline : Nat) :
      Turns s q token interval limit (.resting deadline) .proceed
        (.waitAll q token interval limit .looking)
  | timesOut (deadline : Nat) :
      Turns s q token interval limit (.resting deadline) .timeOut (.over .timedOut)
  | givesUp (deadline : Nat) : s.isCancelled token = true →
      Turns s q token interval limit (.resting deadline) .giveUp (.over (.truth false))

theorem turns_of_callStep {move : CallMove}
    (hcall : s.calls[c]? = some (.waitAll q token interval limit stage))
    (h : s.callStep c move = some s') :
    ∃ call, s' = s.setCall c call ∧ Turns s q token interval limit stage move call := by
  unfold callStep at h
  rw [hcall] at h
  cases move with
  | proceed =>
      have hproceed : s.proceedCall c (.waitAll q token interval limit stage) = some s' := h
      unfold proceedCall at hproceed
      cases stage with
      | looking =>
          cases hproceed
          refine ⟨_, ?_, .looks⟩
          cases s.lookAtAll q token <;> rfl
      | counting k l t =>
          cases hproceed
          refine ⟨_, ?_, .counts k l t⟩
          cases s.countOn token interval k l t <;> rfl
      | resting deadline =>
          dsimp only at hproceed
          split at hproceed <;> cases hproceed
          exact ⟨_, rfl, .wakes deadline⟩
  | timeOut =>
      have htimeOut : s.timeOutCall c (.waitAll q token interval limit stage) = some s' := h
      unfold timeOutCall at htimeOut
      cases stage with
      | looking => cases htimeOut
      | counting k l t => cases htimeOut
      | resting deadline =>
          dsimp only at htimeOut
          split at htimeOut <;> cases htimeOut
          exact ⟨_, rfl, .timesOut deadline⟩
  | giveUp =>
      have hgiveUp : s.giveUpCall c (.waitAll q token interval limit stage) = some s' := h
      unfold giveUpCall at hgiveUp
      cases stage with
      | looking => cases hgiveUp
      | counting k l t => cases hgiveUp
      | resting deadline =>
          dsimp only at hgiveUp
          split at hgiveUp <;> cases hgiveUp
          rename_i hcancelled
          exact ⟨_, rfl, .givesUp deadline hcancelled⟩

theorem settled_eq {r : Except Bool LeaseQueue.Stage}
    (h : settled (β := β) q token interval limit r = .waitAll q token interval limit stage) :
    r = .ok stage := by
  cases r with
  | error b => cases h
  | ok stage' =>
      cases h
      rfl

theorem settled_eq_over {r : Except Bool LeaseQueue.Stage} {answer : Bool}
    (h : settled (β := β) q token interval limit r = .over (.truth answer)) :
    r = .error answer := by
  cases r with
  | error b =>
      cases h
      rfl
  | ok stage => cases h

theorem Turns.counting {move : CallMove} {k : Nat} {l : Listing} {t : Tally}
    (h : Turns s q token interval limit stage move
      (.waitAll q token interval limit (.counting k l t))) :
    move = .proceed ∧ ((stage = .looking ∧ s.lookAtAll q token = .ok (.counting k l t)) ∨
      ∃ k₀ l₀ t₀, stage = .counting k₀ l₀ t₀ ∧
        s.countOn token interval k₀ l₀ t₀ = .ok (.counting k l t)) := by
  generalize hcall : Call.waitAll q token interval limit (.counting k l t) = call at h
  cases h with
  | looks => exact ⟨rfl, .inl ⟨rfl, settled_eq hcall.symm⟩⟩
  | counts k₀ l₀ t₀ => exact ⟨rfl, .inr ⟨k₀, l₀, t₀, rfl, settled_eq hcall.symm⟩⟩
  | wakes deadline => cases hcall
  | timesOut deadline => cases hcall
  | givesUp deadline _ => cases hcall

theorem Turns.answer {move : CallMove} {answer : Bool}
    (h : Turns s q token interval limit stage move (.over (.truth answer))) :
    (move = .proceed ∧ stage = .looking ∧ s.lookAtAll q token = .error answer) ∨
    (∃ k l t, move = .proceed ∧ stage = .counting k l t ∧
      s.countOn token interval k l t = .error answer) ∨
    (answer = false ∧ s.isCancelled token = true) := by
  generalize hcall : (Call.over (.truth answer) : Call β) = call at h
  cases h with
  | looks => exact .inl ⟨rfl, rfl, settled_eq_over hcall.symm⟩
  | counts k l t => exact .inr (.inl ⟨k, l, t, rfl, rfl, settled_eq_over hcall.symm⟩)
  | wakes deadline => cases hcall
  | timesOut deadline => cases hcall
  | givesUp deadline hcancelled =>
      cases hcall
      exact .inr (.inr ⟨rfl, hcancelled⟩)

theorem calls_setCall {call call' : Call β} (hcall : s.calls[c]? = some call) :
    (s.setCall c call').calls[c]? = some call' :=
  List.getElem?_set_self (List.getElem?_eq_some_iff.mp hcall).1

/-!
## What follows a call
-/

/-- What may become of a call: its end, or the same call at another point. -/
inductive Follows : Call β → Call β → Prop where
  | over (call : Call β) (o : Outcome β) : Follows call (.over o)
  | idle (p i n i' n' : Nat) (asked asked' : Option Nat) (answer answer' : Option Bool) :
      Follows (.idle p i n asked answer) (.idle p i' n' asked' answer')
  | waitAll (q token interval : Nat) (limit : Option Nat) (stage stage' : LeaseQueue.Stage) :
      Follows (.waitAll q token interval limit stage) (.waitAll q token interval limit stage')
  | waitJob (q token : Nat) (id : String) (interval : Nat) (limit : Option Nat)
      (stage stage' : LeaseQueue.Stage) :
      Follows (.waitJob q token id interval limit stage) (.waitJob q token id interval limit stage')

theorem Turns.follows {move : CallMove} {call : Call β}
    (h : Turns s q token interval limit stage move call) :
    Follows (.waitAll q token interval limit stage) call := by
  have hsettled : ∀ (r : Except Bool LeaseQueue.Stage),
      Follows (.waitAll q token interval limit stage) (settled (β := β) q token interval limit r) := by
    intro r
    cases r with
    | error b => exact .over _ _
    | ok stage' => exact .waitAll q token interval limit stage stage'
  cases h with
  | looks => exact hsettled _
  | counts k l t => exact hsettled _
  | wakes deadline => exact .waitAll q token interval limit _ _
  | timesOut deadline => exact .over _ _
  | givesUp deadline _ => exact .over _ _

theorem follows_lookAtJob (s : System β) (c : Nat) :
    ∃ call, (s.lookAtJob c q token id interval limit).calls = s.calls.set c call ∧
      Follows (.waitJob q token id interval limit stage) call := by
  unfold lookAtJob
  split
  · exact ⟨_, rfl, .over _ _⟩
  · split
    rename_i j s₁ hlook
    have hcalls : s₁.calls = s.calls := by
      split at hlook
      · cases hlook
        rfl
      · rcases exists_of_viaDriver hlook with ⟨drivers, backends, rfl⟩
        rfl
    dsimp only
    rw [← hcalls]
    split
    · split
      · exact ⟨_, rfl, .over _ _⟩
      · exact ⟨_, rfl, .waitJob q token id interval limit _ _⟩
    · exact ⟨_, rfl, .waitJob q token id interval limit _ _⟩

theorem follows_takeForCall (h : s.takeForCall c q = some s') {deadline : Nat} :
    ∃ call, s'.calls = s.calls.set c call ∧ Follows (.next q token deadline) call := by
  unfold takeForCall at h
  simp only [Option.bind_eq_bind, Option.bind_eq_some_iff] at h
  rcases h with ⟨queue, -, h⟩
  split at h
  · split at h <;> cases h
    exact ⟨_, rfl, .over _ _⟩
  · cases h

theorem follows_fetchForCall (s : System β) (c : Nat) :
    ∃ call, (s.fetchForCall c q token).calls = s.calls.set c call ∧ Follows (.fetch q token) call := by
  unfold fetchForCall
  split
  · exact ⟨_, rfl, .over _ _⟩
  · rename_i d _
    have hcalls : (s.driverNext d token).2.calls = s.calls := calls_of_viaDriver rfl
    rw [← hcalls]
    exact ⟨_, rfl, .over _ _⟩

theorem follows_countIdle {p i n : Nat} {asked : Option Nat} {answer : Option Bool}
    (h : s.countIdle c p i n asked answer = some s') :
    ∃ call, s'.calls = s.calls.set c call ∧ Follows (.idle p i n asked answer) call := by
  unfold countIdle at h
  simp only [Option.bind_eq_bind, Option.bind_eq_some_iff] at h
  rcases h with ⟨pool, -, h⟩
  split at h
  · cases h
    exact ⟨_, rfl, .over _ _⟩
  · split at h
    · cases h
      exact ⟨_, rfl, .idle p i n _ _ _ _ _ _⟩
    · split at h <;> cases h
      · exact ⟨_, rfl, .idle p i n _ _ _ _ _ _⟩
      · exact ⟨_, rfl, .idle p i n _ _ _ _ _ _⟩
    · split at h <;> cases h
      exact ⟨_, rfl, .idle p i n _ _ _ _ _ _⟩

theorem follows_of_proceedCall {call : Call β}
    (hopen : ∀ q token interval limit stage, call ≠ .waitAll q token interval limit stage)
    (h : s.proceedCall c call = some s') :
    ∃ call', s'.calls = s.calls.set c call' ∧ Follows call call' := by
  cases call with
  | launch q d token =>
      cases h
      exact ⟨_, rfl, .over _ _⟩
  | fetch q token =>
      cases h
      exact follows_fetchForCall s c
  | next q token deadline => exact follows_takeForCall h
  | idle p i n asked answer => exact follows_countIdle h
  | waitAll q token interval limit stage => exact absurd rfl (hopen q token interval limit stage)
  | sleep deadline =>
      unfold proceedCall at h
      dsimp only at h
      split at h <;> cases h
      exact ⟨_, rfl, .over _ _⟩
  | waitJob q token id interval limit stage =>
      unfold proceedCall at h
      dsimp only at h
      split at h
      · split at h <;> cases h
        exact ⟨_, rfl, .waitJob q token id interval limit _ _⟩
      · cases h
        exact follows_lookAtJob s c
  | _ => cases h

theorem follows_of_timeOutCall {call : Call β} (h : s.timeOutCall c call = some s') :
    ∃ call', s'.calls = s.calls.set c call' ∧ Follows call call' := by
  unfold timeOutCall at h
  split at h
  · split at h <;> cases h
    exact ⟨_, rfl, .over _ _⟩
  · split at h <;> cases h
    exact ⟨_, rfl, .idle _ _ _ _ _ _ _ _ _⟩
  · split at h <;> cases h
    exact ⟨_, rfl, .over _ _⟩
  · split at h <;> cases h
    exact ⟨_, rfl, .over _ _⟩
  · cases h

theorem follows_of_giveUpCall {call : Call β} (h : s.giveUpCall c call = some s') :
    ∃ call', s'.calls = s.calls.set c call' ∧ Follows call call' := by
  unfold giveUpCall at h
  split at h
  · split at h <;> cases h
    exact ⟨_, rfl, .over _ _⟩
  · split at h <;> cases h
    exact ⟨_, rfl, .over _ _⟩
  · split at h <;> cases h
    exact ⟨_, rfl, .over _ _⟩
  · cases h

theorem follows_of_callStep {move : CallMove} {call : Call β} (hcall : s.calls[c]? = some call)
    (h : s.callStep c move = some s') :
    ∃ call', s'.calls = s.calls.set c call' ∧ Follows call call' := by
  by_cases hwaits : ∃ q token interval limit stage, call = .waitAll q token interval limit stage
  · rcases hwaits with ⟨q, token, interval, limit, stage, rfl⟩
    rcases turns_of_callStep hcall h with ⟨call', rfl, hturns⟩
    exact ⟨call', rfl, hturns.follows⟩
  · unfold callStep at h
    rw [hcall] at h
    cases move with
    | proceed =>
        refine follows_of_proceedCall ?_ h
        intro q token interval limit stage heq
        exact hwaits ⟨q, token, interval, limit, stage, heq⟩
    | timeOut => exact follows_of_timeOutCall h
    | giveUp => exact follows_of_giveUpCall h

theorem exists_waitAll_of_callStep {move : CallMove} (h : s.callStep c move = some s')
    (hcall' : s'.calls[c]? = some (.waitAll q token interval limit stage')) :
    ∃ stage, s.calls[c]? = some (.waitAll q token interval limit stage) := by
  cases hcall : s.calls[c]? with
  | none =>
      unfold callStep at h
      rw [hcall] at h
      cases h
  | some call =>
      rcases follows_of_callStep hcall h with ⟨call', hcalls, hfollows⟩
      have hset : s'.calls[c]? = some call' := by
        rw [hcalls]
        exact calls_setCall hcall
      cases hset.symm.trans hcall'
      cases hfollows with
      | waitAll _ _ _ _ stage _ => exact ⟨stage, rfl⟩

/-- A call comes to an end, and goes on with a count, by its own moves alone. -/
theorem own_move_of_stale [Body β] {call : Call β} (hhandle : s.handle e = some s')
    (hcall : s'.calls[c]? = some call) (hstale : ¬ call.IsFresh) :
    s.calls[c]? = some call ∨
      ∃ move, e = .move (.call c move) ∧ s.callStep c move = some s' := by
  by_cases hmover : e.mover = some (.call c)
  · cases e with
    | request r => cases hmover
    | tick => cases hmover
    | files present => cases hmover
    | move move =>
        cases move with
        | call c' m =>
            cases hmover
            exact Or.inr ⟨m, rfl, hhandle⟩
        | worker p i m => cases hmover
        | alarm p i => cases hmover
        | watch p => cases hmover
        | loop q i m => cases hmover
  · exact Or.inl ((spares_handle hhandle hmover).calls c call rfl hstale hcall)

end System
end LeaseQueue
