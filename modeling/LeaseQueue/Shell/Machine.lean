import LeaseQueue.Files
import LeaseQueue.Keyed
import LeaseQueue.Shell.Format
/-!
# The state of a shell

What a running script has: its variables and arguments, the directory it runs
in, what its descriptors stand for, and all that it has put out so far.
-/

namespace LeaseQueue
namespace Shell

inductive Sink where
  | out
  | err
  /-- The output is kept for the command that asked for it. -/
  | kept
  | nowhere
  | file (path : String)
  | closed
deriving Repr, DecidableEq

/-- The state of a running script. -/
structure Machine where
  bindings : Keyed String
  exported : List String
  /-- The name the script goes by in complaints. -/
  title : String
  arguments : List String
  place : List String
  descriptors : List (Nat × Sink)
  /-- Standard output so far, last part first. -/
  out : List (List UInt8)
  /-- Standard error so far, last part first. -/
  err : List (List UInt8)
  /-- Output that is kept, last part first. -/
  kept : List (List UInt8)
  /-- What is left of the input. -/
  input : List UInt8
  /-- Files written by the script. -/
  files : Keyed (List UInt8)
  functions : List (String × Command)
  /-- The status of the last command. -/
  status : Nat
  /-- The number that the script's process goes by. -/
  process : Nat
  /-- Whether a failing command ends the script. -/
  strict : Bool

inductive Flow where
  | next
  | exit
  | killed (signal : Nat)
  | leave (loops : Nat)
  | again (loops : Nat)
  | back

namespace Machine

def start (bindings : Keyed String) (place : List String) : Machine where
  bindings := bindings
  exported := bindings.keys
  title := "sh"
  arguments := []
  place := place
  descriptors := [(0, .nowhere), (1, .out), (2, .err)]
  out := []
  err := []
  kept := []
  input := []
  files := .empty
  functions := []
  status := 0
  process := 4711
  strict := false

def sink (m : Machine) (fd : Nat) : Sink :=
  (m.descriptors.lookup fd).getD .closed

def direct (m : Machine) (fd : Nat) (s : Sink) : Machine :=
  { m with descriptors := (fd, s) :: m.descriptors.filter fun p => p.1 ≠ fd }

def put? (m : Machine) (fd : Nat) (bytes : List UInt8) : Option Machine :=
  if bytes.isEmpty then some m
  else match m.sink fd with
    | .out => some { m with out := bytes :: m.out }
    | .err => some { m with err := bytes :: m.err }
    | .kept => some { m with kept := bytes :: m.kept }
    | .nowhere => some m
    | .file path => some { m with files := m.files.put path ((m.files.get? path).getD [] ++ bytes) }
    | .closed => none

def put (m : Machine) (fd : Nat) (bytes : List UInt8) : Machine := (m.put? fd bytes).getD m

def withStatus (m : Machine) (n : Nat) : Machine := { m with status := n }

def complain (m : Machine) (text : String) (status : Nat) : Machine :=
  (m.put 2 (Text.toBytes (m.title ++ ": 1: " ++ text ++ "\n"))).withStatus status

def allOut (m : Machine) : List UInt8 := m.out.reverse.flatten

def allErr (m : Machine) : List UInt8 := m.err.reverse.flatten

def parameter (m : Machine) (name : String) : Option String :=
  match name with
  | "?" => some (toString m.status)
  | "$" => some (toString m.process)
  | "#" => some (toString m.arguments.length)
  | "@" => if m.arguments.isEmpty then none else some (" ".intercalate m.arguments)
  | "*" => if m.arguments.isEmpty then none else some (" ".intercalate m.arguments)
  | "!" => none
  | "-" => some ""
  | "0" => some m.title
  | _ =>
      match name.toNat? with
      | some n => m.arguments[n - 1]?
      | none => m.bindings.get? name

def assign (m : Machine) (name value : String) : Machine :=
  { m with bindings := m.bindings.put name value }

def unset (m : Machine) (name : String) : Machine :=
  { m with
    bindings := ⟨m.bindings.entries.filter fun p => p.1 ≠ name⟩
    exported := m.exported.filter (· ≠ name) }

def environment (m : Machine) : Keyed String :=
  ⟨m.bindings.entries.filter fun p => m.exported.contains p.1⟩

def writtenPlaces (m : Machine) : List (List String) :=
  m.files.keys.map fun path => (Files.split path).filter (· ≠ "")

def resolve (m : Machine) (path : String) : Except Files.PathError (List String × Files.Node) :=
  Files.resolve m.writtenPlaces m.place path

/-- What a file to be written is: the sink for it, unless its directory does not exist. -/
def sinkFor (m : Machine) (path : String) : Option Sink :=
  match m.resolve path with
  | .ok (["dev", "null"], _) => some .nowhere
  | .ok (["dev", "stdout"], _) => some (m.sink 1)
  | .ok (["dev", "stderr"], _) => some (m.sink 2)
  | .ok (place, .file) => some (.file (Files.pathOf place))
  | .ok (_, .device) => some .nowhere
  | .ok (_, .directory) => none
  | .error _ =>
      let names := Files.split path
      match names.getLast? with
      | some name =>
          if name = "" then none
          else
            let parent := "/".intercalate names.dropLast
            let parent :=
              if names.length ≤ 1 then "." else if parent.isEmpty then "/" else parent
            match m.resolve parent with
            | .ok (place, .directory) => some (.file (Files.pathOf (place ++ [name])))
            | _ => none
      | none => none

def contents (m : Machine) (path : String) : Option (List UInt8) :=
  match m.resolve path with
  | .ok (place, .file) => some ((m.files.get? (Files.pathOf place)).getD [])
  | .ok (_, .device) => some []
  | _ => none

end Machine

/-! ## Conditions -/

namespace Condition

def unary (m : Machine) (op arg : String) : Option Bool :=
  let node := (m.resolve arg).toOption.map Prod.snd
  if op = "-n" then some (!arg.isEmpty)
  else if op = "-z" then some arg.isEmpty
  else if op = "-e" || op = "-r" || op = "-w" then some node.isSome
  else if op = "-f" then some (node = some .file)
  else if op = "-d" then some (node = some .directory)
  else if op = "-x" then some (node = some .directory)
  else if op = "-s" then some (node.isSome && arg != "/dev/null")
  else if op = "-L" || op = "-h" || op = "-t" || op = "-p" || op = "-S" || op = "-b" then some false
  else none

def binary (a op b : String) : Option (Except String Bool) :=
  let compare (test : Int → Int → Bool) : Option (Except String Bool) :=
    match Format.argument a.trimAscii.toString, Format.argument b.trimAscii.toString with
    | some x, some y =>
        if a.isEmpty then some (.error ("Illegal number: " ++ a))
        else if b.isEmpty then some (.error ("Illegal number: " ++ b))
        else some (.ok (test x y))
    | none, _ => some (.error ("Illegal number: " ++ a))
    | _, none => some (.error ("Illegal number: " ++ b))
  if op = "=" || op = "==" then some (.ok (a = b))
  else if op = "!=" then some (.ok (a ≠ b))
  else if op = "<" then some (.ok (a < b))
  else if op = ">" then some (.ok (b < a))
  else if op = "-eq" then compare (· == ·)
  else if op = "-ne" then compare (· != ·)
  else if op = "-lt" then compare fun x y => x < y
  else if op = "-le" then compare fun x y => x ≤ y
  else if op = "-gt" then compare fun x y => y < x
  else if op = "-ge" then compare fun x y => y ≤ x
  else none

def eval (m : Machine) : Nat → List String → Except String Bool
  | 0, _ => .error "too many arguments"
  | _, [] => .ok false
  | _, [a] => .ok (!a.isEmpty)
  | fuel + 1, [a, b] =>
      if a = "!" then (eval m fuel [b]).map not
      else match unary m a b with
        | some r => .ok r
        | none => .error (a ++ ": unexpected operator")
  | fuel + 1, args =>
      match args with
      | [a, op, b] =>
          match binary a op b with
          | some r => r
          | none =>
              if op = "-a" then .ok (!a.isEmpty && !b.isEmpty)
              else if op = "-o" then .ok (!a.isEmpty || !b.isEmpty)
              else if a = "!" then (eval m fuel [op, b]).map not
              else if a = "(" && b = ")" then eval m fuel [op]
              else .error (op ++ ": unexpected operator")
      | _ =>
          match args.span (· ≠ "-o") with
          | (left, _ :: right) => do
              let x ← eval m fuel left
              let y ← eval m fuel right
              return x || y
          | (_, []) =>
              match args.span (· ≠ "-a") with
              | (left, _ :: right) => do
                  let x ← eval m fuel left
                  let y ← eval m fuel right
                  return x && y
              | (_, []) =>
                  match args with
                  | "!" :: rest => (eval m fuel rest).map not
                  | _ => .error "unexpected operator"

end Condition

/-! ## Signals -/

def signalNames : List String := [
  "HUP", "INT", "QUIT", "ILL", "TRAP", "ABRT", "BUS", "FPE", "KILL", "USR1", "SEGV", "USR2", "PIPE",
  "ALRM", "TERM", "STKFLT", "CHLD", "CONT", "STOP", "TSTP", "TTIN", "TTOU", "URG", "XCPU", "XFSZ",
  "VTALRM", "PROF", "WINCH", "IO", "PWR", "SYS"]

def signalNumber (s : String) : Option Nat :=
  match s.toNat? with
  | some n => if n ≤ 64 then some n else none
  | none =>
      let name := if s.startsWith "SIG" then (s.drop 3).toString else s
      if name = "EXIT" then some 0 else (signalNames.idxOf? name).map (· + 1)

def isHarmless (n : Nat) : Bool := n = 0 || n = 17 || n = 18 || n = 23 || n = 28

def signalNotice (n : Nat) : Option String :=
  match n with
  | 1 => some "Hangup"
  | 3 => some "Quit"
  | 4 => some "Illegal instruction"
  | 6 => some "Aborted"
  | 8 => some "Floating point exception"
  | 9 => some "Killed"
  | 11 => some "Segmentation fault"
  | 14 => some "Alarm clock"
  | 15 => some "Terminated"
  | _ => none

end Shell
end LeaseQueue
