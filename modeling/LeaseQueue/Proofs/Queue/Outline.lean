import LeaseQueue.Proofs.Queue.Inventory
/-!
# Outlines

What a queue is set up with, whether it has started, which of its loops are alive,
and which pools have workers: that is the outline of a system. Only clients change
it, calls that launch a loop, and loops that end; all other moves only change what
queues and workers hold.
-/

namespace LeaseQueue

variable {β : Type}

def Loop.outline (l : Loop β) : Loop β := { l with phase := .asking }

/-- A queue without its jobs, those who wait for them, and what its loops are about to do. -/
def Queue.outline (queue : Queue β) : Queue β :=
  { queue with loops := queue.loops.map Loop.outline, buffer := [], waiters := [] }

theorem Queue.outline_setLoop (queue : Queue β) (index : Nat) (phase : LoopPhase β) :
    (queue.setLoop index phase).outline = queue.outline := by
  have hloops : (queue.setLoop index phase).loops.map Loop.outline =
      queue.loops.map Loop.outline := System.map_modify_of_eq fun _ _ => rfl
  unfold outline
  rw [hloops]
  rfl

theorem Queue.setup_of_outline {queue queue' : Queue β} (h : queue'.outline = queue.outline) :
    queue'.driver = queue.driver ∧ queue'.runner = queue.runner ∧ queue'.started = queue.started ∧
      queue'.dispatching = queue.dispatching ∧ queue'.loops.length = queue.loops.length := by
  unfold outline at h
  injection h with _ hdriver hrunner hstarted hdispatching hloops
  have hlength := congrArg List.length hloops
  rw [List.length_map, List.length_map] at hlength
  exact ⟨hdriver, hrunner, hstarted, hdispatching, hlength⟩

def Event.Launches (s : System β) (e : Event β) (q d token : Nat) : Prop :=
  ∃ c, e = .move (.call c .proceed) ∧ s.calls[c]? = some (.launch q d token)

theorem Event.Launches.not_start {s : System β} {e : Event β} {q d token : Nat}
    (h : e.Launches s q d token) (q' token' : Nat) : e ≠ .request (.start q' token') := by
  rcases h with ⟨c, rfl, -⟩
  simp

namespace System

/-- The queues in outline, and of each pool whether it has started and the number of its workers. -/
def outline (s : System β) : List (Queue β) × List (Bool × Nat) :=
  (s.queues.map Queue.outline, s.pools.map fun pool => (pool.started, pool.workers.length))

variable {s s' : System β} {p i q c : Nat}

theorem Touches.outline {mover : Option Waiter} (h : Touches mover s s') :
    s'.outline = s.outline := by
  rcases Prod.ext_iff.mp h.inventory with ⟨hqueues, hpools⟩
  have houtlines := congrArg (List.map Queue.outline) hqueues
  simp only [System.inventory, List.map_map] at houtlines
  exact Prod.ext_iff.mpr ⟨houtlines, hpools⟩

theorem outline_of_viaDriver {α : Type} {k : Nat} {call : DriverCall} {failed a : α}
    {f : Backend β → α × Backend β} (h : s.viaDriver k call failed f = (a, s')) :
    s'.outline = s.outline := by
  have htouches : Touches none s s' := touches_of_viaDriver h
  exact htouches.outline

/-!
## Jobs that come and go
-/

theorem outline_modifyQueue (s : System β) (q : Nat) {f : Queue β → Queue β}
    (hf : ∀ queue, (f queue).outline = queue.outline) :
    (s.modifyQueue q f).outline = s.outline := by
  unfold outline modifyQueue
  rw [map_modify_of_eq fun queue _ => hf queue]

theorem outline_takeJob (s : System β) (q : Nat) (w : Waiter) (buffer : List (Job β)) :
    (s.modifyQueue q fun queue => { queue.leaveLine w with buffer := buffer }).outline = s.outline :=
  outline_modifyQueue s q fun _ => rfl

theorem outline_setLoop (s : System β) (q i : Nat) (phase : LoopPhase β) :
    (s.modifyQueue q fun queue => queue.setLoop i phase).outline = s.outline :=
  outline_modifyQueue s q fun queue => queue.outline_setLoop i phase

theorem outline_takeFromBuffer {pool : Pool β} (h : s.takeFromBuffer p i pool = some s') :
    s'.outline = s.outline := by
  unfold takeFromBuffer at h
  split at h
  · simp only [Option.bind_eq_bind, Option.bind_eq_some_iff] at h
    rcases h with ⟨queue, -, h⟩
    split at h
    · split at h
      · cases h
      · cases h
        exact (touches_turn _ p i _).outline.trans (outline_takeJob s _ _ _)
    · cases h
  · cases h

theorem outline_takes [Body β] (h : s.workerStep p i .take = some s') :
    s'.outline = s.outline := by
  unfold workerStep at h
  simp only [Option.bind_eq_bind, Option.bind_eq_some_iff] at h
  rcases h with ⟨pool, -, w, -, h⟩
  split at h
  any_goals contradiction
  · exact outline_takeFromBuffer h

theorem outline_loopStep [Body β] (h : s.loopStep q i .proceed = some s') :
    s'.outline = s.outline := by
  unfold loopStep at h
  simp only [Option.bind_eq_bind, Option.bind_eq_some_iff] at h
  rcases h with ⟨queue, -, l, -, h⟩
  split at h
  · split at h <;> cases h
    unfold askForLoop
    split
    · rename_i hcall
      exact (outline_setLoop _ q i _).trans (outline_of_viaDriver hcall)
    · rename_i hcall
      exact (outline_setLoop _ q i _).trans (outline_of_viaDriver hcall)
  · split at h <;> cases h
    exact outline_modifyQueue s q fun queue => Queue.outline_setLoop { queue with buffer := _ } i .asking
  · split at h <;> cases h
    exact outline_setLoop s q i .asking

theorem outline_takeForCall (h : s.takeForCall c q = some s') : s'.outline = s.outline := by
  unfold takeForCall at h
  simp only [Option.bind_eq_bind, Option.bind_eq_some_iff] at h
  rcases h with ⟨queue, -, h⟩
  split at h
  · split at h <;> cases h
    exact (touches_settle _ c rfl).outline.trans (outline_takeJob s q _ _)
  · cases h

theorem outline_takesForCall {token deadline : Nat}
    (hcall : s.calls[c]? = some (.next q token deadline))
    (h : s.callStep c .proceed = some s') : s'.outline = s.outline := by
  unfold callStep at h
  rw [hcall] at h
  exact outline_takeForCall h

theorem handle_launches [Body β] {e : Event β} {d token : Nat} (he : e.Launches s q d token)
    (h : s.handle e = some s') : ∃ c, s' = (s.launchLoop q d token).endCall c .started := by
  rcases he with ⟨c, rfl, hcall⟩
  have hstep : s.callStep c .proceed = some s' := h
  unfold callStep at hstep
  rw [hcall] at hstep
  exact ⟨c, (Option.some.inj hstep).symm⟩

/-- Only requests that set up or start something, calls that launch a loop, and loops that end change
the outline. -/
theorem outline_handle [Body β] {e : Event β} (hrequest : ∀ r, e = .request r → ¬ r.Shapes)
    (hlaunch : ∀ q d token, ¬ e.Launches s q d token)
    (hend : ∀ q i, e ≠ .move (.loop q i .giveUp)) (h : s.handle e = some s') :
    s'.outline = s.outline := by
  by_cases hstirs : e.Stirs s
  · cases e with
    | request r => exact absurd hstirs (hrequest r rfl)
    | tick => cases hstirs
    | files present => cases hstirs
    | move move =>
        cases move with
        | worker p i move =>
            cases hstirs
            exact outline_takes h
        | alarm p i => cases hstirs
        | watch p => cases hstirs
        | loop q i move =>
            cases move with
            | proceed => exact outline_loopStep h
            | giveUp => exact absurd rfl (hend q i)
        | call c move =>
            rcases hstirs with ⟨rfl, call, hcall, hstirring⟩
            cases call with
            | launch q d token => exact absurd ⟨c, rfl, hcall⟩ (hlaunch q d token)
            | next q token deadline => exact outline_takesForCall hcall h
            | _ => cases hstirring
  · exact (touches_handle hstirs h).outline

end System
end LeaseQueue
