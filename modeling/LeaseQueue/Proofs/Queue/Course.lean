import LeaseQueue.Proofs.Queue.Attempts
import LeaseQueue.Proofs.Queue.Requests
import LeaseQueue.Proofs.Queue.Resting
/-!
# Courses of a system

A course is any order of moves, requests and ticks of the clock in which clients
keep to the rules. Along a course the system stays one over its store, and what
the phases of the workers say about the store stays so.
-/

namespace LeaseQueue

variable {β : Type}

/-- What happens in a system. -/
inductive Event (β : Type) where
  | move (m : Move)
  /-- Nothing can move, and time passes. -/
  | tick
  | request (r : Request β)
  /-- Files come and go. -/
  | files (present : String → Bool)

namespace Event

def saved? : Event β → Option (Job β)
  | .request r => r.saved?
  | _ => none

def Saves (e : Event β) (id : String) : Prop := ∃ j, e.saved? = some j ∧ j.id = id

theorem not_saves_of_eq_none {e : Event β} (h : e.saved? = none) (id : String) : ¬ e.Saves id := by
  rintro ⟨j, hj, -⟩
  rw [h] at hj
  cases hj

def Cancels : Event β → Prop
  | .request r => r.Cancels
  | _ => False

def Orderly (owners : String → Prop) (s : System β) : Event β → Prop
  | .request r => r.Orderly owners s
  | _ => True

end Event

namespace System

variable [Body β]

def handle (s : System β) : Event β → Option (System β)
  | .move m => s.step m
  | .tick => s.tick
  | .request r => some (s.perform r).2
  | .files present => some { s with files := present }

def founded (registry : Registry β) (d : Discipline) (lease : LeaseSettings) (clock : Nat)
    (driver : Driver) : System β :=
  ((empty clock).perform (.addBackend (.inMemory registry d lease) driver)).2

inductive Course (owners : String → Prop) : System β → List (Event β) → System β → Prop where
  | nil {s : System β} : Course owners s [] s
  | cons {s s' s'' : System β} {e : Event β} {rest : List (Event β)} :
      e.Orderly owners s → s.handle e = some s' → Course owners s' rest s'' →
      Course owners s (e :: rest) s''

def Occurs (owners : String → Prop) (s : System β) (events : List (Event β))
    (P : System β → Event β → Prop) : Prop :=
  ∃ front e back s', events = front ++ e :: back ∧ Course owners s front s' ∧ P s' e

variable {b : Backend β} {d : Discipline} {owners : String → Prop} {s s' : System β} {m : Memory}
variable {e : Event β} {events : List (Event β)} {P : System β → Event β → Prop}

theorem Course.request {r : Request β} (hr : r.Orderly owners s)
    (hrest : Course owners (s.perform r).2 events s') :
    Course owners s (.request r :: events) s' :=
  .cons hr rfl hrest

theorem Occurs.head (h : P s e) : Occurs owners s (e :: events) P :=
  ⟨[], e, events, s, rfl, .nil, h⟩

theorem Occurs.tail (horderly : e.Orderly owners s) (hhandle : s.handle e = some s')
    (h : Occurs owners s' events P) : Occurs owners s (e :: events) P := by
  rcases h with ⟨front, e', back, t, rfl, hcourse, hP⟩
  exact ⟨e :: front, e', back, t, rfl, .cons horderly hhandle hcourse, hP⟩

theorem not_occurs_request {r : Request β} (hP : ¬ P s (.request r))
    (h : ¬ Occurs owners (s.perform r).2 events P) : ¬ Occurs owners s (.request r :: events) P := by
  rintro ⟨front, e, back, t, hsplit, hcourse, hP'⟩
  cases hcourse with
  | nil =>
      cases hsplit
      exact hP hP'
  | cons horderly hhandle hrest =>
      injection hsplit with he htail
      subst he
      cases hhandle
      exact h ⟨_, e, back, t, htail, hrest, hP'⟩

theorem not_occurs_of_forall (h : ∀ e ∈ events, ∀ t, ¬ P t e) : ¬ Occurs owners s events P := by
  rintro ⟨front, e, back, t, rfl, -, hP⟩
  exact h e (by simp) t hP

theorem course_of_foldlM (hevents : ∀ e ∈ events, ∀ t, e.Orderly owners t)
    (h : events.foldlM handle s = some s') : Course owners s events s' := by
  induction events generalizing s with
  | nil =>
      cases h
      exact .nil
  | cons e rest ih =>
      rcases Option.bind_eq_some_iff.mp h with ⟨s₁, hhandle, hrest⟩
      have hrest' : ∀ e' ∈ rest, ∀ t, e'.Orderly owners t :=
        fun e' hmem => hevents e' (List.mem_cons_of_mem e hmem)
      exact .cons (hevents e List.mem_cons_self s) hhandle (ih hrest' hrest)

/-!
## What stays along a course
-/

variable (b d owners) in
/-- A system over one store in which what the phases of the workers say is so. -/
structure Upheld (s : System β) (m : Memory) : Prop where
  placed : Placed b d owners s m
  sound : (s.crew m).Sound b.registry b.lease owners

theorem Placed.cancel (h : Placed b d owners s m) (token : Nat) :
    ∃ m', Placed b d owners (s.perform (.cancel token)).2 m' ∧
      Crew.Step b.registry b.lease owners none (s.crew m)
        ((s.perform (.cancel token)).2.crew m') := by
  have heases : (s.crew m).Eases ((s.perform (.cancel token)).2.crew m) :=
    ⟨rfl, rfl, fun _ _ => Or.inl rfl, fun _ _ _ => rfl⟩
  have hspares : ∀ o, owners o → (Operation.tally : Operation β).Spares o := fun _ _ => trivial
  refine ⟨m, ⟨h.wiring, h.backends, h.claims⟩, ?_⟩
  exact .ease .tally heases hspares (fun _ hop => nomatch hop) (.none .tally m)

/-- An event is a step of the crew. -/
theorem Placed.handle (h : Placed b d owners s m) (horderly : e.Orderly owners s)
    (hhandle : s.handle e = some s') :
    ∃ m', Placed b d owners s' m' ∧
      Crew.Step b.registry b.lease owners e.saved? (s.crew m) (s'.crew m') ∧
      (¬ e.Cancels → s'.cancelled = s.cancelled) := by
  have hadvances : ∀ {saved : Option (Job β)}, Advances b d owners saved s s' m →
      ∃ m', Placed b d owners s' m' ∧
        Crew.Step b.registry b.lease owners saved (s.crew m) (s'.crew m') ∧
        (¬ e.Cancels → s'.cancelled = s.cancelled) := by
    rintro saved ⟨m', hplaced, hcancelled, hstep⟩
    exact ⟨m', hplaced, hstep, fun _ => hcancelled⟩
  cases e with
  | move move => exact hadvances (h.advances_step hhandle)
  | tick => exact hadvances (h.advances_tick hhandle)
  | request r =>
      cases hhandle
      by_cases hr : r.Cancels
      · cases r with
        | cancel token =>
            rcases h.cancel token with ⟨m', hplaced, hstep⟩
            exact ⟨m', hplaced, hstep, fun hnot => absurd hr hnot⟩
        | _ => exact hr.elim
      · exact hadvances (h.advances_perform horderly hr)
  | files present =>
      cases hhandle
      have heases : s.Eases { s with files := present } :=
        ⟨rfl, rfl, rfl, rfl, rfl, fun _ _ => Or.inl rfl⟩
      exact hadvances (h.advances_of_eases heases)

theorem Upheld.handle (h : Upheld b d owners s m) (hlease : 1 ≤ b.lease.lockSeconds)
    (horderly : e.Orderly owners s) (hhandle : s.handle e = some s') :
    ∃ m', Upheld b d owners s' m' ∧
      Crew.Step b.registry b.lease owners e.saved? (s.crew m) (s'.crew m') ∧
      (¬ e.Cancels → s'.cancelled = s.cancelled) := by
  rcases h.placed.handle horderly hhandle with ⟨m', hplaced, hstep, hcancelled⟩
  have hsound := h.sound.step hlease hstep (named_of_wiring hplaced.wiring m')
  exact ⟨m', ⟨hplaced, hsound⟩, hstep, hcancelled⟩

theorem Upheld.course (h : Upheld b d owners s m) (hlease : 1 ≤ b.lease.lockSeconds)
    (hcourse : Course owners s events s') : ∃ m', Upheld b d owners s' m' := by
  induction hcourse generalizing m with
  | nil => exact ⟨m, h⟩
  | cons horderly hhandle hrest ih =>
      rcases h.handle hlease horderly hhandle with ⟨m', hupheld, -, -⟩
      exact ih hupheld

theorem upheld_founded (owners : String → Prop) (registry : Registry β) (d : Discipline) (lease : LeaseSettings)
    (clock : Nat) {driver : Driver} (houtages : driver.outages = []) :
    Upheld (.inMemory registry d lease) d owners (founded registry d lease clock driver)
      .empty := by
  have hwiring : (founded registry d lease clock driver).wiring.Sound owners := by
    constructor
    · intro driver' hmem
      cases List.mem_singleton.mp hmem
      exact ⟨rfl, houtages⟩
    · intro k k' one other hone hother _
      have hk : k < 1 := (List.getElem?_eq_some_iff.mp hone).1
      have hk' : k' < 1 := (List.getElem?_eq_some_iff.mp hother).1
      omega
    · intro q k hq
      cases hq
    · intro q q' k hq _
      cases hq
    · intro p staff hstaff
      cases hstaff
    · intro p p' staff staff' q hstaff
      cases hstaff
  refine ⟨⟨hwiring, rfl, ?_⟩, ⟨named_of_wiring hwiring _, Memory.indexed_empty, ?_⟩⟩
  · intro p i claim hclaim
    cases hclaim
  · intro p i phase hphase
    cases hphase

end System

end LeaseQueue
