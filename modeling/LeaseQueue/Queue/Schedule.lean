import LeaseQueue.Queue.Request
import LeaseQueue.Queue.Step
/-!
# Schedules

One order of moves among all that are possible: the tasks that can move stand
in line, the first one moves until it has to wait, and those it has woken join
the line behind the others. A client's call comes first when time has passed,
else after all tasks. A client goes on with its next request as soon as its
call is over, whoever still stands in line.
-/

namespace LeaseQueue

/-- A system with the tasks that can move, in the order in which they will. -/
structure Schedule (β : Type) where
  system : System β
  line : List Task

namespace Schedule

variable {β : Type} [Body β]

def rounds : Nat := 10000000

def stretch : Nat := 100000

def exhaust (t : Task) : Nat → System β → System β
  | 0, s => s
  | fuel + 1, s =>
      match s.advance t with
      | some s => exhaust t fuel s
      | none => s

/-- The tasks in the order in which they join the line after a client or a task has moved. Whom a
worker wakes first is the loop that had no room. -/
def joining (s : System β) : Option Task → List Task
  | some (.worker _ _) => s.watchTasks ++ s.loopTasks ++ s.workerTasks ++ s.alarmTasks
  | _ => s.watchTasks ++ s.workerTasks ++ s.alarmTasks ++ s.loopTasks

/-- The line after a client or a task has moved: those who can still move stay, and those who can move
now join. -/
def settle (line : List Task) (mover : Option Task) (s : System β) : Schedule β :=
  let stay := line.filter s.canMove
  ⟨s, stay ++ (joining s mover).filter fun t => !stay.contains t && s.canMove t⟩

/-- Goes on until a call is over. `timePassed` says whether the clock was put forward last. -/
def drive (c : Nat) : Nat → Bool → Schedule β → Schedule β
  | 0, _, x => x
  | fuel + 1, timePassed, x =>
      let x :=
        if timePassed || x.line.isEmpty then
          settle x.line none (exhaust (.call c) stretch x.system)
        else x
      match x.system.calls[c]? with
      | some (.over _) | none => x
      | _ =>
          match x.line with
          | t :: line => drive c fuel false (settle line (some t) (exhaust t stretch x.system))
          | [] =>
              match x.system.tick with
              | some s => drive c fuel true (settle [] none s)
              | none => x

def request (x : Schedule β) (r : Request β) : Response β × Schedule β :=
  let (answer, s) := x.system.perform r
  let x := settle x.line none s
  match answer with
  | .call c => (answer, drive c rounds true x)
  | _ => (answer, x)

end Schedule
end LeaseQueue
