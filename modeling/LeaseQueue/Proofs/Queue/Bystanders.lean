import LeaseQueue.Proofs.Queue.Course
import LeaseQueue.Proofs.Queue.Frame
/-!
# What everything else leaves to a worker

Loops, calls, clients and the clock leave a worker that is at a job as it is: only
its own moves change what it is about to do.
-/

namespace LeaseQueue
namespace System

variable {β : Type} [Body β] {p i p' i' : Nat} {s s' : System β}

/-!
## Loops, calls and keepers
-/

theorem frames_loopStep {q n : Nat} {move : LoopMove} (hstep : s.loopStep q n move = some s') :
    s.Frames p i s' := by
  unfold loopStep at hstep
  simp only [Option.bind_eq_bind, Option.bind_eq_some_iff] at hstep
  rcases hstep with ⟨queue, -, l, -, hstep⟩
  cases move with
  | giveUp =>
      dsimp only at hstep
      split at hstep
      · cases hstep
        exact frames_modifyQueue s q _
      · cases hstep
  | proceed =>
      dsimp only at hstep
      split at hstep
      · split at hstep
        · cases hstep
        · cases hstep
          have hnext : s.Frames p i (s.driverNext l.driver l.token).2 :=
            frames_driverNext s l.driver l.token
          unfold askForLoop
          split
          · rename_i hcall
            exact (hnext.answer hcall).trans (frames_modifyQueue _ q _)
          · rename_i hcall
            exact (hnext.answer hcall).trans (frames_modifyQueue _ q _)
      · split at hstep
        · cases hstep
          exact frames_modifyQueue s q _
        · cases hstep
      · split at hstep
        · cases hstep
          exact frames_modifyQueue s q _
        · cases hstep

omit [Body β] in
theorem frames_lookAtJob (s : System β) (c q token : Nat) (id : String) (interval : Nat)
    (limit : Option Nat) : s.Frames p i (s.lookAtJob c q token id interval limit) := by
  unfold lookAtJob
  split
  · exact frames_setCall s c _
  · split
    rename_i j s₁ hlook
    have hlooked : s.Frames p i s₁ := by
      split at hlook
      · cases hlook
        exact .refl s
      · rename_i k hdriver
        exact (frames_driverGet s k token id).answer hlook
    dsimp only
    split
    · split
      · exact hlooked.trans (frames_setCall s₁ c _)
      · exact hlooked.trans (frames_setCall s₁ c _)
    · exact hlooked.trans (frames_setCall s₁ c _)

theorem frames_fetchForCall (s : System β) (c q token : Nat) :
    s.Frames p i (s.fetchForCall c q token) := by
  unfold fetchForCall
  split
  · exact frames_setCall s c _
  · rename_i k hdriver
    exact (frames_driverNext s k token).trans (frames_setCall _ c _)

theorem frames_proceedCall {c : Nat} {call : Call β} (hcall : s.proceedCall c call = some s') :
    s.Frames p i s' := by
  cases call with
  | launch q k token =>
      cases hcall
      exact (frames_modifyQueue s q _).trans (frames_setCall _ c _)
  | fetch q token =>
      cases hcall
      exact frames_fetchForCall s c q token
  | next q token deadline => exact .of_eases (eases_takeForCall hcall)
  | idle p i n asked answer => exact .of_eases (eases_countIdle hcall)
  | sleep deadline =>
      unfold proceedCall at hcall
      dsimp only at hcall
      split at hcall
      · cases hcall
        exact frames_setCall s c _
      · cases hcall
  | waitAll q token interval limit stage =>
      unfold proceedCall at hcall
      dsimp only at hcall
      split at hcall
      · cases hcall
        split <;> exact frames_setCall s c _
      · cases hcall
        split <;> exact frames_setCall s c _
      · split at hcall
        · cases hcall
          exact frames_setCall s c _
        · cases hcall
  | waitJob q token id interval limit stage =>
      unfold proceedCall at hcall
      dsimp only at hcall
      split at hcall
      · split at hcall
        · cases hcall
          exact frames_setCall s c _
        · cases hcall
      · cases hcall
        exact frames_lookAtJob s c q token id interval limit
  | _ => cases hcall

theorem frames_callStep {c : Nat} {move : CallMove} (hstep : s.callStep c move = some s') :
    s.Frames p i s' := by
  unfold callStep at hstep
  simp only [Option.bind_eq_bind, Option.bind_eq_some_iff] at hstep
  rcases hstep with ⟨call, -, hstep⟩
  cases move with
  | proceed => exact frames_proceedCall hstep
  | timeOut => exact .of_eases (eases_timeOutCall hstep)
  | giveUp => exact .of_eases (eases_giveUpCall hstep)

/-!
## Requests
-/

omit [Body β] in
theorem frames_addPool (s : System β) (size millis : Nat) :
    s.Frames p i { s with pools := s.pools ++ [.idle size millis] } := by
  have hphase := phaseAt_addPool s size millis p i
  refine ⟨?_, fun _ _ => hphase, fun _ => hphase, fun _ _ hdriver _ => hdriver,
    fun _ _ _ m hb hm => ⟨m, hb, hm, .refl m⟩⟩
  rintro ⟨pool, hpool, hstarted⟩
  have hp := (List.getElem?_eq_some_iff.mp hpool).1
  exact ⟨pool, (List.getElem?_append_left hp).trans hpool, hstarted⟩

omit [Body β] in
theorem frames_addDriver (s : System β) (driver : Driver) :
    s.Frames p i { s with drivers := s.drivers ++ [driver] } := by
  refine ⟨id, fun _ _ => rfl, fun _ => rfl, ?_, fun _ _ _ m hb hm => ⟨m, hb, hm, .refl m⟩⟩
  intro k driver' hdriver _
  have hk := (List.getElem?_eq_some_iff.mp hdriver).1
  exact (List.getElem?_append_left hk).trans hdriver

omit [Body β] in
theorem frames_addBackend (s : System β) (b : Backend β) :
    s.Frames p i { s with backends := s.backends ++ [b] } := by
  refine ⟨id, fun _ _ => rfl, fun _ => rfl, fun _ _ hdriver _ => hdriver, ?_⟩
  intro k b' d m hb hm
  have hk := (List.getElem?_eq_some_iff.mp hb).1
  exact ⟨m, (List.getElem?_append_left hk).trans hb, hm, .refl m⟩

omit [Body β] in
theorem claim?_start (pool : Pool β) (token : Nat) (source : Source β) (i : Nat) :
    (((pool.start token source).workers[i]?).map Worker.phase).bind Phase.claim? = none := by
  show (((List.replicate pool.size Worker.fresh)[i]?).map Worker.phase).bind Phase.claim? = none
  rw [List.getElem?_replicate]
  split <;> rfl

omit [Body β] in
theorem frames_startPool (s : System β) (p' token : Nat) (source : Source β) :
    s.Frames p i (s.startPool p' token source).2 := by
  unfold startPool
  split
  · exact .refl s
  · rename_i pool hpool
    split
    · exact .refl s
    · split
      · exact .refl s
      · rename_i hidle
        apply frames_modifyPool
        intro pool' hpool'
        rw [hpool] at hpool'
        cases hpool'
        have hidle' : pool.started = false := by simpa using hidle
        refine ⟨fun hstarted => absurd hstarted hidle, fun _ => Or.inr ⟨hidle', ?_⟩⟩
        exact claim?_start pool token source i

omit [Body β] in
theorem frames_start (s : System β) (q token : Nat) : s.Frames p i (s.start q token).2 := by
  unfold System.start
  split
  · exact .refl s
  · split
    · exact .refl s
    · exact .refl s
    · rename_i k r hdriver hrunner
      split
      · exact .refl s
      · split
        · exact .refl s
        · have hopen : s.Frames p i (s.driverOpen k token).2 := frames_driverOpen s k token
          split
          · rename_i hcall
            exact hopen.answer hcall
          · rename_i s₁ hcall
            have hbegun : s.Frames p i ((s₁.setStarted q true).startRunner r token q).2 := by
              have hmarked : s.Frames p i (s₁.setStarted q true) :=
                (hopen.answer hcall).trans (frames_modifyQueue s₁ q _)
              refine hmarked.trans ?_
              cases r with
              | pool p' => exact frames_startPool _ p' token _
              | broken => exact .refl _
            split
            · rename_i hrun
              exact (hbegun.answer hrun).trans (frames_modifyQueue _ q _)
            · rename_i hrun
              exact (hbegun.answer hrun).trans (.of_eq rfl rfl rfl)

theorem frames_perform (s : System β) (r : Request β) : s.Frames p i (s.perform r).2 := by
  have hcall : ∀ call, s.Frames p i (s.beginCall call).2 := fun _ => .of_eq rfl rfl rfl
  cases r with
  | addBackend b driver => exact (frames_addBackend s b).trans (frames_addDriver _ _)
  | addDriver driver => exact frames_addDriver s driver
  | addPool size millis => exact frames_addPool s size millis
  | addQueue settings => exact (frames_addPool s _ _).trans (.of_eq rfl rfl rfl)
  | setDriver q k =>
      show s.Frames p i (s.setDriver q k).2
      unfold setDriver
      split
      · split
        · exact .refl s
        · exact frames_modifyQueue s q _
      · exact .refl s
  | setRunner q runner =>
      show s.Frames p i (s.setRunner q runner).2
      unfold setRunner
      split
      · split
        · exact .refl s
        · exact frames_modifyQueue s q _
      · exact .refl s
  | start q token => exact frames_start s q token
  | dispatch q token =>
      show s.Frames p i (s.dispatch q token).2
      unfold dispatch
      split
      · exact .refl s
      · rename_i k hdriver
        have hopen : s.Frames p i (s.driverOpen k token).2 := frames_driverOpen s k token
        split
        · rename_i hcall
          exact hopen.answer hcall
        · rename_i hcall
          exact (hopen.answer hcall).trans (frames_modifyQueue _ q _)
  | put q token j =>
      unfold perform
      dsimp only
      split
      · exact .refl s
      · rw [stored_snd]
        exact frames_driverSave s _ token j
  | get q token id =>
      unfold perform
      dsimp only
      split
      · exact .refl s
      · exact frames_driverGet s _ token id
  | tally q token =>
      unfold perform
      dsimp only
      split <;> exact .refl s
  | infos q token =>
      unfold perform
      dsimp only
      split <;> exact .refl s
  | startPool p' token jobs driver =>
      have hpool := frames_startPool (p := p) (i := i) s p' token (.jobs jobs driver)
      unfold perform
      dsimp only
      split
      · rename_i hcall
        exact hpool.answer hcall
      · rename_i hcall
        exact hpool.answer hcall
  | shutdown p' =>
      apply frames_modifyPool
      intro pool _
      refine ⟨id, fun _ => Or.inl ?_⟩
      rw [List.getElem?_map]
      cases pool.workers[i]? with
      | none => rfl
      | some w => exact congrArg some (w.tell_phase .shutdown)
  | cancel token => exact .of_eq rfl rfl rfl
  | openDriver k token =>
      show s.Frames p i (stored (s.driverOpen k token)).2
      rw [stored_snd]
      exact frames_driverOpen s k token
  | closeDriver k => exact frames_driverClose s k
  | saveVia k token j =>
      show s.Frames p i (stored (s.driverSave k token j)).2
      rw [stored_snd]
      exact frames_driverSave s k token j
  | getVia k token id => exact frames_driverGet s k token id
  | nextVia k token => exact frames_driverNext s k token
  | lockVia k token id owner =>
      show s.Frames p i (turned (s.driverLock k token id owner)).2
      rw [turned_snd]
      exact frames_driverLock s k token id owner
  | unlockVia k token id owner =>
      show s.Frames p i (turned (s.driverUnlock k token id owner)).2
      rw [turned_snd]
      exact frames_driverUnlock s k token id owner
  | tallyVia k token => exact .refl s
  | next q token =>
      show s.Frames p i (s.beginNext q token).2
      unfold beginNext
      split
      · exact .refl s
      · split
        · exact .of_eq rfl rfl rfl
        · exact hcall _
  | sleep millis => exact hcall _
  | countIdle p' => exact hcall _
  | waitAll q token interval limit => exact hcall _
  | waitJob q token id interval limit => exact hcall _

/-!
## All events
-/

/-- Only the worker's own moves change what it is about to do. -/
theorem frames_handle {e : Event β} (hothers : ∀ move, e ≠ .move (.worker p i move))
    (hhandle : s.handle e = some s') : s.Frames p i s' := by
  cases e with
  | request r =>
      cases hhandle
      exact frames_perform s r
  | tick =>
      have htick : s.tick = some s' := hhandle
      unfold tick at htick
      split at htick
      · rcases Option.map_eq_some_iff.mp htick with ⟨t, -, rfl⟩
        exact .of_eq rfl rfl rfl
      · cases htick
  | files present =>
      cases hhandle
      exact .of_eq rfl rfl rfl
  | move move =>
      cases move with
      | worker p' i' move =>
          have hne : ¬ (p = p' ∧ i = i') := by
            rintro ⟨rfl, rfl⟩
            exact hothers move rfl
          exact frames_workerStep hne hhandle
      | alarm p' i' => exact .of_eases (eases_ringAlarm hhandle)
      | watch p' => exact .of_eases (eases_watchPool hhandle)
      | loop q n move => exact frames_loopStep hhandle
      | call c move => exact frames_callStep hhandle

/-- Whatever happens, a store in memory stays one, and neither loses a job nor moves one. -/
theorem stores_handle {e : Event β} (hhandle : s.handle e = some s') {k : Nat} {b : Backend β}
    {d : Discipline} {m : Memory} (hb : s.backends[k]? = some (b.onMemory d m)) (hm : m.Indexed) :
    ∃ m', s'.backends[k]? = some (b.onMemory d m') ∧ m'.Indexed ∧ m.Keeps m' := by
  -- Some worker does not move, so its frame holds.
  have hstill : ∃ p i, ∀ move, e ≠ .move (.worker p i move) := by
    by_cases hfirst : ∀ move, e ≠ .move (.worker 0 0 move)
    · exact ⟨0, 0, hfirst⟩
    · refine ⟨0, 1, fun move he => hfirst fun move' he' => ?_⟩
      rw [he] at he'
      cases he'
  rcases hstill with ⟨p, i, hothers⟩
  have hframes : s.Frames p i s' := frames_handle hothers hhandle
  exact hframes.stores k b d m hb hm

end System
end LeaseQueue
