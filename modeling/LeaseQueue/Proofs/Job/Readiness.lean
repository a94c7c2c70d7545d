import LeaseQueue.Job.Dependency
/-!
# Readiness of jobs that wait for others

Other jobs are looked up one after the other, and the first unknown one ends it.
What they say together is the same in any order all the same, however often one of
them is listed: an unknown job outweighs all others, and an unfinished one all that
are completed.
-/

namespace LeaseQueue
namespace Dependency

variable {fileExists : String → Bool} {lookup lookup' : String → Option Bool}
variable {ids ids' : List String}

/-!
## Looking up one job after the other
-/

theorem examine_snd (lookup : String → Option Bool) (blocked : Bool) (ids : List String) :
    (examine lookup blocked ids).2 =
      if ∃ id ∈ ids, lookup id = none then .unresolved
      else if blocked = true ∨ ∃ id ∈ ids, lookup id = some false then .blocked
      else .ready := by
  induction ids generalizing blocked with
  | nil => simp [examine]
  | cons id rest ih =>
      unfold examine
      cases hid : lookup id with
      | none => simp [hid]
      | some completed =>
          dsimp only
          rw [ih]
          cases completed <;> simp [hid]

theorem examine_ne_passed (lookup : String → Option Bool) (blocked : Bool)
    (ids : List String) : (examine lookup blocked ids).2 ≠ .passed := by
  rw [examine_snd]
  split
  · exact nofun
  · split <;> exact nofun

theorem examine_fst (lookup : String → Option Bool) (blocked : Bool) (ids : List String) :
    (examine lookup blocked ids).1 = ids.take (ids.findIdx (fun id => lookup id = none) + 1) := by
  induction ids generalizing blocked with
  | nil => rfl
  | cons id rest ih =>
      unfold examine
      rw [List.findIdx_cons]
      cases hid : lookup id with
      | none => simp
      | some completed =>
          dsimp only
          rw [ih]
          simp

theorem examine_congr {blocked : Bool}
    (h : ∀ id ∈ (examine lookup blocked ids).1, lookup' id = lookup id) :
    examine lookup' blocked ids = examine lookup blocked ids := by
  induction ids generalizing blocked with
  | nil => rfl
  | cons id rest ih =>
      unfold examine at h ⊢
      cases hid : lookup id with
      | none =>
          rw [hid] at h
          rw [h id List.mem_cons_self, hid]
      | some completed =>
          rw [hid] at h
          rw [h id List.mem_cons_self, hid]
          dsimp only at h ⊢
          rw [ih fun id' hmem => h id' (List.mem_cons_of_mem id hmem)]

/-!
## What the jobs say together
-/

theorem state_edges_eq (fileExists : String → Bool) (lookup : String → Option Bool)
    (ids : List String) :
    (edges ids).state fileExists lookup =
      if ∃ id ∈ ids, lookup id = none then .unresolved
      else if ∃ id ∈ ids, lookup id = some false then .blocked
      else .ready := by
  show (examine lookup false ids).2 = _
  rw [examine_snd]
  simp

theorem state_edges_eq_unresolved (fileExists : String → Bool) (lookup : String → Option Bool)
    (ids : List String) :
    (edges ids).state fileExists lookup = .unresolved ↔ ∃ id ∈ ids, lookup id = none := by
  rw [state_edges_eq]
  split
  · rename_i hunknown
    exact iff_of_true rfl hunknown
  · rename_i hknown
    refine iff_of_false ?_ hknown
    split <;> exact nofun

theorem state_edges_eq_blocked (fileExists : String → Bool) (lookup : String → Option Bool)
    (ids : List String) :
    (edges ids).state fileExists lookup = .blocked ↔
      (∀ id ∈ ids, lookup id ≠ none) ∧ ∃ id ∈ ids, lookup id = some false := by
  rw [state_edges_eq]
  split
  · rename_i hunknown
    rcases hunknown with ⟨id, hmem, hnone⟩
    exact iff_of_false nofun fun h => h.1 id hmem hnone
  · rename_i hknown
    have hall : ∀ id ∈ ids, lookup id ≠ none := fun id hmem hnone => hknown ⟨id, hmem, hnone⟩
    split
    · rename_i hopen
      exact iff_of_true rfl ⟨hall, hopen⟩
    · rename_i hdone
      exact iff_of_false nofun fun h => hdone h.2

/-- A job is ready when all others that it waits for are known to be completed. -/
theorem state_edges (fileExists : String → Bool) (lookup : String → Option Bool)
    (ids : List String) :
    (edges ids).state fileExists lookup = .ready ↔ ∀ id ∈ ids, lookup id = some true := by
  have hanswer : ∀ id, lookup id = some true ↔ ¬ lookup id = none ∧ ¬ lookup id = some false := by
    intro id
    cases lookup id with
    | none => simp
    | some completed => cases completed <;> simp
  rw [state_edges_eq]
  simp only [hanswer]
  split
  · rename_i hunknown
    rcases hunknown with ⟨id, hmem, hnone⟩
    exact iff_of_false nofun fun h => (h id hmem).1 hnone
  · rename_i hknown
    split
    · rename_i hopen
      rcases hopen with ⟨id, hmem, hfalse⟩
      exact iff_of_false nofun fun h => (h id hmem).2 hfalse
    · rename_i hdone
      exact iff_of_true rfl fun id hmem =>
        ⟨fun hnone => hknown ⟨id, hmem, hnone⟩, fun hfalse => hdone ⟨id, hmem, hfalse⟩⟩

theorem state_edges_congr (fileExists : String → Bool) (lookup : String → Option Bool)
    (h : ∀ id, id ∈ ids' ↔ id ∈ ids) :
    (edges ids').state fileExists lookup = (edges ids).state fileExists lookup := by
  rw [state_edges_eq, state_edges_eq]
  simp only [h]

theorem state_eq_passed {dependency : Dependency}
    (h : dependency.state fileExists lookup = .passed) :
    ∃ path, dependency = .createsFile path ∧ fileExists path = true := by
  cases dependency with
  | always => cases h
  | edges ids => exact absurd h (examine_ne_passed lookup false ids)
  | createsFile path =>
      have hstate : (if fileExists path then Readiness.passed else .ready) = .passed := h
      cases hexists : fileExists path with
      | true => exact ⟨path, rfl, hexists⟩
      | false =>
          rw [hexists] at hstate
          cases hstate

/-- A job that waits for others is unresolved if one of them is unknown, blocked if all are known and
one is not completed, and ready if all are completed. So all lists of the same jobs give the same,
whatever their order and however often a job is listed. The jobs are asked for as listed, up to the
first unknown one and that one too, and no other answer makes a difference. A job that is ready stays
ready when others turn out to be completed. -/
theorem readiness_ignores_order (fileExists : String → Bool) (lookup : String → Option Bool)
    (ids : List String) :
    ((edges ids).state fileExists lookup = .unresolved ↔ ∃ id ∈ ids, lookup id = none) ∧
    ((edges ids).state fileExists lookup = .blocked ↔
      (∀ id ∈ ids, lookup id ≠ none) ∧ ∃ id ∈ ids, lookup id = some false) ∧
    ((edges ids).state fileExists lookup = .ready ↔ ∀ id ∈ ids, lookup id = some true) ∧
    (∀ ids', (∀ id, id ∈ ids' ↔ id ∈ ids) →
      (edges ids').state fileExists lookup = (edges ids).state fileExists lookup) ∧
    (edges ids).asked lookup = ids.take (ids.findIdx (fun id => lookup id = none) + 1) ∧
    (∀ lookup', (∀ id ∈ (edges ids).asked lookup, lookup' id = lookup id) →
      (edges ids).state fileExists lookup' = (edges ids).state fileExists lookup) ∧
    ∀ lookup', (∀ id, lookup' id = lookup id ∨ lookup' id = some true) →
      (edges ids).state fileExists lookup = .ready →
      (edges ids).state fileExists lookup' = .ready := by
  refine ⟨state_edges_eq_unresolved fileExists lookup ids,
    state_edges_eq_blocked fileExists lookup ids, state_edges fileExists lookup ids, ?_, ?_, ?_, ?_⟩
  · intro ids' hsame
    exact state_edges_congr fileExists lookup hsame
  · exact examine_fst lookup false ids
  · intro lookup' hasked
    exact congrArg Prod.snd (examine_congr hasked)
  · intro lookup' hlater hready
    rw [state_edges] at hready ⊢
    intro id hmem
    rcases hlater id with hsame | hcompleted
    · exact hsame.trans (hready id hmem)
    · exact hcompleted

/-- Two jobs are listed three times, and an unknown one between them ends the search. -/
theorem readiness_ignores_order_of_repeated :
    let lookup : String → Option Bool := fun id => [("a", true), ("b", false)].lookup id
    let finished : String → Option Bool := fun id => if id = "b" then some true else lookup id
    let noFile : String → Bool := fun _ => false
    (edges ["b", "a", "b"]).state noFile lookup = (edges ["a", "b"]).state noFile lookup ∧
    (edges ["a", "b"]).state noFile lookup = .blocked ∧
    (edges ["a", "c", "b"]).state noFile lookup = .unresolved ∧
    (edges ["a", "c", "b"]).asked lookup = ["a", "c"] ∧
    (edges ["a", "a"]).state noFile finished = .ready := by
  intro lookup finished noFile
  have hsame : ∀ id, id ∈ ["b", "a", "b"] ↔ id ∈ ["a", "b"] := by
    intro id
    grind
  have hlater : ∀ id, finished id = lookup id ∨ finished id = some true := by
    intro id
    by_cases hid : id = "b"
    · exact Or.inr (if_pos hid)
    · exact Or.inl (if_neg hid)
  rcases readiness_ignores_order noFile lookup ["a", "b"] with ⟨-, hblocked, -, hany, -⟩
  rcases readiness_ignores_order noFile lookup ["a", "c", "b"] with ⟨hunknown, -, -, -, hasked, -⟩
  rcases readiness_ignores_order noFile lookup ["a", "a"] with ⟨-, -, hready, -, -, -, hstays⟩
  refine ⟨hany _ hsame, hblocked.mpr (by decide), hunknown.mpr (by decide), hasked, ?_⟩
  exact hstays finished hlater (hready.mpr (by decide))

end Dependency
end LeaseQueue
