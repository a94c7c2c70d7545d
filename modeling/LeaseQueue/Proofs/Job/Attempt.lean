import LeaseQueue.Job.Live
/-!
# Attempts at jobs

An attempt changes the body of a job and its error, and nothing else. The job is
finished when the attempt has ended.
-/

namespace LeaseQueue

def Attempt.error {β : Type} (a : Attempt β) : Option String :=
  if a.errors.isEmpty then none else some ("; ".intercalate a.errors)

namespace Job

variable {β : Type}

theorem exists_foldl_addError (errors : List String) (j : Job β) :
    ∃ error, errors.foldl addError j = { j with base := { j.base with error := error } } := by
  induction errors generalizing j with
  | nil => exact ⟨j.base.error, rfl⟩
  | cons first rest ih =>
      rcases ih (j.addError first) with ⟨error, herror⟩
      exact ⟨error, herror⟩

theorem exists_attempted [Body β] (j : Job β) :
    ∃ error, j.attempted = ⟨{ j.base with error := error }, (Body.attempt j.body).body⟩ :=
  exists_foldl_addError _ _

theorem foldl_addError_of_some {j : Job β} {earlier : String} (h : j.base.error = some earlier)
    (errors : List String) :
    errors.foldl addError j =
      { j with base := { j.base with error := some ("; ".intercalate (earlier :: errors)) } } := by
  induction errors generalizing j earlier with
  | nil =>
      rcases j with ⟨base, body⟩
      cases base
      cases h
      rfl
  | cons first rest ih =>
      have hfirst : (j.addError first).base.error = some (earlier ++ "; " ++ first) := by
        show some _ = _
        rw [h]
      exact ih hfirst

theorem attempted_eq [Body β] {j : Job β} (h : j.base.error = none) :
    j.attempted =
      ⟨{ j.base with error := (Body.attempt j.body).error }, (Body.attempt j.body).body⟩ := by
  unfold attempted Attempt.error
  cases herrors : (Body.attempt j.body).errors with
  | nil =>
      simp only [herrors, List.foldl_nil, List.isEmpty_nil, if_true]
      rw [← h]
  | cons first rest =>
      have hfirst : ({ j with body := (Body.attempt j.body).body }.addError first).base.error =
          some first := by
        show some _ = _
        rw [h]
      simp only [herrors, List.foldl_cons, foldl_addError_of_some hfirst]
      rfl

theorem attempted_ended_eq [Body β] {j : Job β} (h : j.base.error = none) (now : Timestamp) :
    j.attempted.ended now =
      ⟨{ j.base with
        status := { j.status with
          completed := j.status.completed || (Body.attempt j.body).errors.isEmpty
          failed := j.status.failed || !(Body.attempt j.body).errors.isEmpty }
        times := { j.base.times with finish := some now }
        error := (Body.attempt j.body).error }, (Body.attempt j.body).body⟩ := by
  rw [attempted_eq h]
  unfold ended Attempt.error status
  cases (Body.attempt j.body).errors <;> simp

theorem ended_isFinished (j : Job β) (now : Timestamp) :
    (j.ended now).status.isFinished = true := by
  unfold ended
  cases j.base.error <;> simp [Status.isFinished, status]

theorem ended_owner (j : Job β) (now : Timestamp) :
    (j.ended now).status.owner = j.status.owner := by
  unfold ended
  cases j.base.error <;> rfl

end Job
end LeaseQueue
