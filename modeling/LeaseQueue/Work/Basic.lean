import LeaseQueue.Job.Registry
import LeaseQueue.Work.ShellCommand
import LeaseQueue.Work.Drill
/-!
# Kinds of work

The bodies that jobs are made of: shell commands, drills, payloads that are kept
as they are, and one that cannot be written.
-/

namespace LeaseQueue

inductive Work where
  | command (c : ShellCommand)
  | drill (d : Drill)
  /-- A payload that is kept as it is. -/
  | kept (payload : Json)
  /-- A body that cannot be written as a payload. -/
  | refusing

namespace Work

def payload : Work → Except String Json
  | .command c => .ok c.toJson
  | .drill d => .ok d.toJson
  | .kept v => .ok v
  | .refusing => .error "payload refused"

def attempt : Work → Attempt Work
  | .command c =>
      let a := c.attempt
      ⟨.command a.body, a.errors, a.lasts⟩
  | .drill d =>
      let a := d.attempt
      ⟨.drill a.body, a.errors, a.lasts⟩
  | w => ⟨w, [], 0⟩

instance : Body Work where
  payload := payload
  attempt := attempt

def kind : Work → String
  | .command _ => "shell"
  | .drill _ => "mock"
  | _ => "raw"

def isLogged : Work → Bool
  | .command _ => false
  | _ => true

def commandType : JobType := .named "shell" 0

def readCommand (payload : Json) : Option Work :=
  (ShellCommand.ofDocument nestingLimit (.ofJson payload)).toOption.map .command

def readDrill (payload : Json) : Option Work :=
  (Drill.ofDocument nestingLimit (.ofJson payload)).toOption.map .drill

def readKept (payload : Json) : Option Work :=
  match payload with
  | .object _ => some (.kept payload)
  | _ => none

def builtIn : Registry Work :=
  Registry.empty.register "shell" 0 readCommand

def registry : Registry Work :=
  (builtIn.register "mock" 0 readDrill).register "custom" 3 readKept

/-- Whether a body heeds, before it does anything, that it is called off. A shell command does so
unless there is nothing to run. -/
def heedsCancel : Work → Bool
  | .command c => !Text.allBlank c.command.toList
  | _ => false

def commandJob (id : String) (c : ShellCommand) : Job Work :=
  ⟨.named id commandType, .command c⟩

def ofRecord (r : Record) : Job Work := ⟨r.base, .kept r.payload⟩

def refusingRecord (r : Record) : Job Work := ⟨r.base, .refusing⟩

end Work

def Job.attemptedUnless (j : Job Work) (cancelled : Bool) : Job Work :=
  if cancelled && j.body.heedsCancel then j else j.attempted

end LeaseQueue
