import LeaseQueue.Queue.Worker
/-!
# Names of workers

The owner name of a worker ends in the place of the worker, behind the last
slash, so that it gives the driver's name and the place away.
-/

namespace LeaseQueue

theorem eq_of_append_cons_eq {α : Type} {c : α} {front front' back back' : List α}
    (h : front ++ c :: back = front' ++ c :: back') (hback : c ∉ back) (hback' : c ∉ back') :
    front = front' ∧ back = back' := by
  rcases List.append_eq_append_iff.mp h with ⟨mid, hfront, hmid⟩ | ⟨mid, hfront, hmid⟩
  · cases mid with
    | nil =>
        cases hmid
        exact ⟨by simp [hfront], rfl⟩
    | cons a mid =>
        injection hmid with _ hmem
        exact absurd (by rw [hmem]; simp) hback
  · cases mid with
    | nil =>
        cases hmid
        exact ⟨by simp [hfront], rfl⟩
    | cons a mid =>
        injection hmid with _ hmem
        exact absurd (by rw [hmem]; simp) hback'

theorem workerName_toList (i : Nat) :
    (Pool.workerName i).toList = "worker-".toList ++ Nat.toDigits 10 i := by
  simp [Pool.workerName, Nat.repr]

theorem slash_not_mem_workerName (i : Nat) : '/' ∉ (Pool.workerName i).toList := by
  rw [workerName_toList]
  intro hmem
  rcases List.mem_append.mp hmem with hword | hdigit
  · simp at hword
  · have hisDigit := Nat.isDigit_of_mem_toDigits (by decide) (by decide) hdigit
    cases hisDigit

theorem workerName_inj {i j : Nat} (h : Pool.workerName i = Pool.workerName j) : i = j := by
  have hdigits := congrArg String.toList h
  rw [workerName_toList, workerName_toList] at hdigits
  have hnat := congrArg (fun l => Nat.ofDigitChars 10 l 0) (List.append_cancel_left hdigits)
  simpa [Nat.ofDigitChars_toDigits] using hnat

theorem ownerName_inj {a b : String} {i j : Nat} (h : ownerName a i = ownerName b j) :
    a = b ∧ i = j := by
  have hlist := congrArg String.toList h
  have hslash : "/".toList = ['/'] := rfl
  simp only [ownerName, String.toList_append] at hlist
  rw [hslash, List.append_assoc, List.append_assoc] at hlist
  rcases eq_of_append_cons_eq hlist (slash_not_mem_workerName i) (slash_not_mem_workerName j) with
    ⟨hname, hworker⟩
  exact ⟨String.toList_inj.mp hname, workerName_inj (String.toList_inj.mp hworker)⟩

theorem ownerName_ne_empty (a : String) (i : Nat) : ownerName a i ≠ "" := by
  intro h
  have hlist := congrArg String.toList h
  simp [ownerName] at hlist

end LeaseQueue
