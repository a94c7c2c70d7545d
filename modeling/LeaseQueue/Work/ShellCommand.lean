import LeaseQueue.Text.Blank
import LeaseQueue.Job.Live
import LeaseQueue.Shell.Run
/-!
# Shell commands

A body that runs a command through the shell and keeps what it puts out. A
command that ends badly, or cannot be started, is an error of the attempt.
-/

namespace LeaseQueue

structure ShellCommand where
  command : String
  /-- The directory to run in; empty stands for the current one. -/
  workingDir : String
  /-- Variables of the environment, sorted by name. -/
  environment : List (String × String)
  /-- What the last run put out. -/
  output : Option String
deriving Repr, DecidableEq

inductive ExitStatus where
  | code (n : Nat)
  | signal (n : Nat)
deriving Repr, DecidableEq

namespace ExitStatus

def describe : ExitStatus → String
  | .code n => "exit status: " ++ toString n
  | .signal n =>
      "signal: " ++ toString n ++
        match Shell.signalNames[n - 1]? with
        | some name => if n = 0 then "" else " (SIG" ++ name ++ ")"
        | none => ""

end ExitStatus

namespace ShellCommand

def ofText (command : String) : ShellCommand := ⟨command, "", [], none⟩

def withVariable (c : ShellCommand) (name value : String) : ShellCommand :=
  { c with environment := Sorted.insert name value c.environment }

def toJson (c : ShellCommand) : Json :=
  .ofMembers <| [("command", .string c.command), ("working_dir", .string c.workingDir)] ++
    (if c.environment.isEmpty then []
      else [("env", .object (c.environment.map fun (k, v) => (k, .string v)))]) ++
    match c.output with
    | some s => [("output", .string s)]
    | none => []

def toEnvironment (room : Nat) : Document → Except Failure (List (String × String))
  | .object members tail => do
      let _ ← Document.enter room
      let pairs ← Document.toKeyedMembers Document.toText members
      Document.endOf tail
      return Sorted.ofPairs pairs
  | d => .error d.refusal

def fields : List (Document.Field ShellCommand) := [
  .required "command" Document.toText fun v c => { c with command := v },
  .optional "working_dir" Document.toText fun v c => { c with workingDir := v },
  .optionalDeep "env" toEnvironment fun v c => { c with environment := v },
  .optional "output" (Document.toOption Document.toText) fun v c => { c with output := v }]

def ofDocument : Nat → Document → Except Failure ShellCommand :=
  Document.toRecord fields (ofText "")

/-! ## Running -/

def holdsNul (s : String) : Bool := s.toList.contains (Char.ofNat 0)

def startPlace (c : ShellCommand) : Except String (List String) :=
  if holdsNul c.command || holdsNul c.workingDir ||
      c.environment.any (fun (k, v) => holdsNul k || holdsNul v) then
    .error "nul byte found in provided data"
  else if c.workingDir.isEmpty then .ok Files.home
  else match Files.resolve [] Files.home c.workingDir with
    | .ok (place, .directory) => .ok place
    | .ok _ => .error Files.PathError.notDirectory.message
    | .error e => .error e.message

def stepLimit : Nat := 1000000

/-- Runs the command from a directory: its output, the standard one first, and how it ended. -/
def execute (c : ShellCommand) (place : List String) : String × ExitStatus :=
  let machine := Shell.Machine.start ⟨c.environment⟩ place
  let (machine, status) : Shell.Machine × ExitStatus :=
    match Shell.parseScript c.command with
    | .error e => (machine.complain e 2, .code 2)
    | .ok script =>
        match Shell.run stepLimit false script machine with
        | (m, .killed n) => (m, .signal n)
        | (m, _) => (m, .code m.status)
  (Text.ofBytes machine.allOut ++ Text.ofBytes machine.allErr, status)

/-- Runs the command and keeps what it puts out. A run takes no time on the clock of the queue. -/
def attempt (c : ShellCommand) : Attempt ShellCommand :=
  if Text.allBlank c.command.toList then ⟨c, ["empty command"], 0⟩
  else
    match c.startPlace with
    | .error e => ⟨c, ["failed to spawn command: " ++ e], 0⟩
    | .ok place =>
        let (output, status) := c.execute place
        let errors := if status = .code 0 then [] else ["command exited with " ++ status.describe]
        ⟨{ c with output := some output }, errors, 0⟩

end ShellCommand
end LeaseQueue
