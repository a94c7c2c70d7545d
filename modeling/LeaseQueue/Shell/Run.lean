import LeaseQueue.Shell.Machine
/-!
# Running scripts

Scripts are run on a state, command by command. The programs known besides the
commands of the shell itself are a few that work on texts and files. They stand
for those of the system, and so does the fixed tree of files that scripts see. A
script that goes on for too long is cut off.
-/

namespace LeaseQueue
namespace Shell

/-- A part of an expanded word: a character that may split the word if it is blank, or the mark of a
quoted part that may be empty. -/
inductive Atom where
  | char (c : Char) (splits : Bool)
  | quote
deriving Repr, DecidableEq

namespace Atom

def ofText (s : String) (splits : Bool) : List Atom := s.toList.map fun c => .char c splits

def text (atoms : List Atom) : String :=
  String.ofList (atoms.filterMap fun a => match a with
    | .char c _ => some c
    | .quote => none)

/-- Splits atoms into fields: the finished ones, last one first, and the one being read. -/
def splitFrom (fields : List String) (current : Option (List Char)) : List Atom → List String
  | [] =>
      match current with
      | some cs => (String.ofList cs.reverse :: fields).reverse
      | none => fields.reverse
  | .quote :: rest => splitFrom fields (some (current.getD [])) rest
  | .char c splits :: rest =>
      if splits && (c = ' ' || c = '\t' || c = '\n') then
        match current with
        | some cs => splitFrom (String.ofList cs.reverse :: fields) none rest
        | none => splitFrom fields none rest
      else splitFrom fields (some (c :: current.getD [])) rest

def fields (atoms : List Atom) : List String := splitFrom [] none atoms

end Atom

def dropLineEnds (s : String) : String :=
  String.ofList (s.toList.reverse.dropWhile (· = '\n')).reverse

def isMatch : Nat → List Char → List Char → Bool
  | 0, _, _ => false
  | _, [], [] => true
  | _, [], _ :: _ => false
  | fuel + 1, '*' :: ps, [] => isMatch fuel ps []
  | fuel + 1, '*' :: ps, c :: cs => isMatch fuel ps (c :: cs) || isMatch fuel ('*' :: ps) cs
  | _, _ :: _, [] => false
  | fuel + 1, p :: ps, c :: cs => (p = '?' || p = c) && isMatch fuel ps cs

def firstLine (bytes : List UInt8) : List UInt8 × List UInt8 :=
  (bytes.takeWhile (· ≠ 10), (bytes.dropWhile (· ≠ 10)).drop 1)

def firstLines : Nat → List UInt8 → List UInt8
  | 0, _ => []
  | n + 1, bytes =>
      if bytes.isEmpty then []
      else
        let (line, rest) := firstLine bytes
        line ++ (if line.length < bytes.length then [10] else []) ++ firstLines n rest

def countWords (bytes : List UInt8) : Nat × Nat × Nat :=
  let blank (b : UInt8) : Bool := b = 32 || (9 ≤ b && b ≤ 13)
  let words := (bytes.foldl (fun (n, inWord) b =>
    if blank b then (n, false) else (if inWord then n else n + 1, true)) (0, false)).1
  (bytes.count 10, words, bytes.length)

namespace Machine

def redirect (m : Machine) (fd : Nat) (mode : String) (target : String) : Except String Machine :=
  if mode = "dup" then
    if target = "-" then .ok (m.direct fd .closed)
    else match target.toNat? with
      | some n =>
          if m.sink n = .closed then .error (target ++ ": Bad file descriptor")
          else .ok (m.direct fd (m.sink n))
      | none => .error "Bad fd number"
  else if mode = "read" then
    match m.contents target with
    | some bytes => .ok { m.direct fd .nowhere with input := if fd = 0 then bytes else m.input }
    | none =>
        match m.resolve target with
        | .ok _ => .ok (m.direct fd .nowhere)
        | .error _ => .error ("cannot open " ++ target ++ ": No such file")
  else
    match m.sinkFor target with
    | some (.file path) =>
        let m := m.direct fd (.file path)
        if mode = "append" then
          .ok { m with files := m.files.put path ((m.files.get? path).getD []) }
        else .ok { m with files := m.files.put path [] }
    | some s => .ok (m.direct fd s)
    | none =>
        match m.resolve target with
        | .ok _ => .error ("cannot create " ++ target ++ ": Is a directory")
        | .error _ => .error ("cannot create " ++ target ++ ": Directory nonexistent")

/-- Puts output out and sets the status: zero, or one if the descriptor is closed. -/
def answer (m : Machine) (name : String) (bytes : List UInt8) (status : Nat) : Machine :=
  match m.put? 1 bytes with
  | some m => m.withStatus status
  | none => m.complain (name ++ ": write error: Bad file descriptor") 1

end Machine

/-- A command of the shell or a program, given its name and arguments; none if it is not known. -/
def builtin (m : Machine) (name : String) (args : List String) : Option (Machine × Flow) :=
  let next (m : Machine) : Option (Machine × Flow) := some (m, .next)
  let number (fallback : Nat) : Except String Nat :=
    match args with
    | [] => .ok fallback
    | a :: _ =>
        match a.toNat? with
        | some n => .ok n
        | none => .error ("Illegal number: " ++ a)
  match name with
  | ":" => next (m.withStatus 0)
  | "true" => next (m.withStatus 0)
  | "false" => next (m.withStatus 1)
  | "wait" => next (m.withStatus 0)
  | "sleep" => next (m.withStatus 0)
  | "trap" => next (m.withStatus 0)
  | "echo" =>
      let (line, args) := match args with
        | "-n" :: rest => (false, rest)
        | _ => (true, args)
      let text := " ".intercalate args
      let (bytes, stop) := Format.echoed (text.length + 1) text.toList
      next (m.answer "echo" (if line && !stop then bytes ++ [10] else bytes) 0)
  | "printf" =>
      match args with
      | [] => next (m.complain "printf: usage: printf format [arg ...]" 2)
      | format :: args =>
          let (bytes, complaints) := Format.all (args.length + 2) format.toList args
          let m := m.answer "printf" bytes 0
          next (complaints.foldl (fun m c => m.complain ("printf: " ++ c) 1) m)
  | "test" =>
      match Condition.eval m (args.length + 2) args with
      | .ok b => next (m.withStatus (if b then 0 else 1))
      | .error e => next (m.complain ("test: " ++ e) 2)
  | "[" =>
      if args.getLast? = some "]" then
        match Condition.eval m (args.length + 2) args.dropLast with
        | .ok b => next (m.withStatus (if b then 0 else 1))
        | .error e => next (m.complain ("[: " ++ e) 2)
      else next (m.complain "[: missing ]" 2)
  | "pwd" => next (m.answer "pwd" (Text.toBytes (Files.pathOf m.place ++ "\n")) 0)
  | "cd" =>
      let target := args.head?.getD ((m.bindings.get? "HOME").getD "/")
      match m.resolve target with
      | .ok (place, .directory) => next { (m.withStatus 0) with place := place }
      | _ => next (m.complain ("cd: can't cd to " ++ target) 2)
  | "exit" =>
      match number m.status with
      | .ok n => some (m.withStatus (n % 256), .exit)
      | .error e => some (m.complain ("exit: " ++ e) 2, .exit)
  | "return" =>
      match number m.status with
      | .ok n => some (m.withStatus (n % 256), .back)
      | .error e => some (m.complain ("return: " ++ e) 2, .exit)
  | "break" =>
      match number 1 with
      | .ok n => some (m.withStatus 0, .leave n)
      | .error e => some (m.complain ("break: " ++ e) 2, .exit)
  | "continue" =>
      match number 1 with
      | .ok n => some (m.withStatus 0, .again n)
      | .error e => some (m.complain ("continue: " ++ e) 2, .exit)
  | "shift" =>
      match number 1 with
      | .ok n =>
          if m.arguments.length < n then some (m.complain "shift: can't shift that many" 2, .exit)
          else next { (m.withStatus 0) with arguments := m.arguments.drop n }
      | .error e => some (m.complain ("shift: " ++ e) 2, .exit)
  | "unset" => next (args.foldl unsetOne (m.withStatus 0))
  | "export" => next (args.foldl exportOne (m.withStatus 0))
  | "readonly" => next (args.foldl exportOne (m.withStatus 0))
  | "set" =>
      match args with
      | "-e" :: rest => next (setArguments { m with strict := true } rest)
      | "+e" :: rest => next (setArguments { m with strict := false } rest)
      | "--" :: rest => next { (m.withStatus 0) with arguments := rest }
      | rest => next (setArguments m rest)
  | "read" =>
      let names := args.filter fun a => !a.startsWith "-"
      let (line, rest) := firstLine m.input
      let ended := !m.input.contains 10
      let words := Atom.fields (Atom.ofText (Text.ofBytes line) true)
      next ((assignWords { m with input := rest } names words).withStatus (if ended then 1 else 0))
  | "kill" => kill args
  | "cat" =>
      let files := args.filter (· ≠ "-u")
      if files.isEmpty then next ({ m with input := [] }.answer "cat" m.input 0)
      else next (files.foldl catOne (m.withStatus 0))
  | "printenv" =>
      match args with
      | [a] =>
          match m.environment.get? a with
          | some v => next (m.answer "printenv" (Text.toBytes (v ++ "\n")) 0)
          | none => next (m.withStatus 1)
      | _ => none
  | "seq" =>
      match args.mapM String.toInt? with
      | some [b] => next (m.answer "seq" (sequence 1 1 b) 0)
      | some [a, b] => next (m.answer "seq" (sequence a 1 b) 0)
      | some [a, s, b] => if s = 0 then none else next (m.answer "seq" (sequence a s b) 0)
      | _ => none
  | "wc" =>
      let (l, w, c) := countWords m.input
      let asLine (n : Nat) : List UInt8 := Text.toBytes (toString n ++ "\n")
      let m := { m with input := [] }
      match args with
      | ["-l"] => next (m.answer "wc" (asLine l) 0)
      | ["-w"] => next (m.answer "wc" (asLine w) 0)
      | ["-c"] => next (m.answer "wc" (asLine c) 0)
      | _ => none
  | "head" =>
      let lines : Option Nat := match args with
        | [] => some 10
        | ["-n", n] => n.toNat?
        | [a] => if a.startsWith "-n" then (a.drop 2).toNat? else
            if a.startsWith "-" then (a.drop 1).toNat? else none
        | _ => none
      lines.bind fun n => next ({ m with input := [] }.answer "head" (firstLines n m.input) 0)
  | _ => none
where
  unsetOne (m : Machine) (name : String) : Machine := m.unset name
  exportOne (m : Machine) (arg : String) : Machine :=
    match Grammar.readAssignment arg.toList with
    | some (name, value) =>
        let m := m.assign name (String.ofList value)
        { m with exported := name :: m.exported }
    | none => { m with exported := arg :: m.exported }
  setArguments (m : Machine) (rest : List String) : Machine :=
    let m := m.withStatus 0
    if rest.isEmpty then m else { m with arguments := rest }
  assignWords (m : Machine) : List String → List String → Machine
    | [], _ => m
    | [name], words => m.assign name (" ".intercalate words)
    | name :: names, words => assignWords (m.assign name (words.head?.getD "")) names words.tail
  catOne (m : Machine) (path : String) : Machine :=
    if path = "-" then m.put 1 m.input
    else match m.contents path with
      | some bytes => m.put 1 bytes
      | none =>
          let why := match m.resolve path with
            | .ok _ => "Is a directory"
            | .error .notDirectory => "Not a directory"
            | .error .nameTooLong => "File name too long"
            | .error .missing => "No such file or directory"
          (m.put 2 (Text.toBytes ("cat: " ++ path ++ ": " ++ why ++ "\n"))).withStatus 1
  sequence (first step last : Int) : List UInt8 :=
    let count := if 0 < step then (last - first) / step + 1 else (first - last) / (-step) + 1
    (List.range count.toNat).flatMap fun (i : Nat) =>
      Text.toBytes (toString (first + step * (i : Int)) ++ "\n")
  kill (args : List String) : Option (Machine × Flow) :=
    let (signal, targets) : Option Nat × List String := match args with
      | "-s" :: s :: rest => (signalNumber s, rest)
      | "--" :: rest => (some 15, rest)
      | a :: rest =>
          if a.startsWith "-" then (signalNumber (a.drop 1).toString, rest) else (some 15, args)
      | [] => (some 15, [])
    match signal with
    | none => some (m.complain "kill: Illegal option" 2, .next)
    | some n =>
        match targets with
        | [] => some (m.complain "kill: Usage: kill [-s sigspec | -signum] pid" 2, .next)
        | t :: _ =>
            if t.toNat? = some m.process then
              if isHarmless n then some (m.withStatus 0, .next) else some (m, .killed n)
            else some (m.complain "kill: No such process" 1, .next)

/-- Keeps of a state after a script of its own only what it has put out. -/
def Machine.afterSubshell (before after : Machine) : Machine :=
  { after with
    bindings := before.bindings, exported := before.exported, arguments := before.arguments,
    title := before.title, place := before.place, descriptors := before.descriptors,
    functions := before.functions, process := before.process, strict := before.strict }

def assignAll (m : Machine) (pairs : List (String × String)) : Machine :=
  pairs.foldl (fun m (k, v) => m.assign k v) m

/-- The state in which a command runs that has assignments before its name. -/
def withTemporary (m : Machine) (pairs : List (String × String)) : Machine :=
  { assignAll m pairs with exported := pairs.map Prod.fst ++ m.exported }

def dropTemporary (before after : Machine) (pairs : List (String × String)) : Machine :=
  pairs.foldl (fun m (k, _) =>
    match before.bindings.get? k with
    | some v => { m.assign k v with exported := before.exported }
    | none => { m.unset k with exported := before.exported }) after

def isSubstitution : Piece → Bool
  | .substitution _ _ => true
  | _ => false

def redirectsInput (rs : List Redirection) : Bool :=
  rs.any fun r => match r with
    | .read 0 _ => true
    | _ => false

mutual
def expandPiece (fuel : Nat) (m : Machine) (p : Piece) : Except Machine (List Atom × Machine) :=
  match fuel with
  | 0 => .error (m.complain "out of time" 2)
  | fuel + 1 =>
      let plain (s : String) (quoted : Bool) : List Atom :=
        if quoted then .quote :: Atom.ofText s false else Atom.ofText s true
      match p with
      | .text s quoted => .ok (if quoted then .quote :: Atom.ofText s false else Atom.ofText s false, m)
      | .parameter name quoted =>
          if name = "@" && quoted then
            if m.arguments.isEmpty then .ok ([], m)
            else
              let parts := m.arguments.map fun a => Atom.quote :: Atom.ofText a false
              .ok ((parts.intersperse [Atom.char ' ' true]).flatten, m)
          else .ok (plain ((m.parameter name).getD "") quoted, m)
      | .length name quoted => .ok (plain (toString ((m.parameter name).getD "").length) quoted, m)
      | .guarded name orEmpty fallback word quoted =>
          let value := m.parameter name
          let given := match value with
            | some v => !(orEmpty && v.isEmpty)
            | none => false
          match fallback with
          | .use => if given then .ok (plain (value.getD "") quoted, m) else expandWord fuel m word
          | .replace => if given then expandWord fuel m word else .ok (plain "" quoted, m)
          | .assign =>
              if given then .ok (plain (value.getD "") quoted, m)
              else do
                let (atoms, m) ← expandWord fuel m word
                let s := Atom.text atoms
                return (plain s quoted, m.assign name s)
          | .fail =>
              if given then .ok (plain (value.getD "") quoted, m)
              else do
                let (atoms, m) ← expandWord fuel m word
                let s := Atom.text atoms
                throw (m.complain (name ++ ": " ++
                  (if s.isEmpty then "parameter not set" else s)) 2)
      | .arithmetic source quoted =>
          let lookup (name : String) : String := (m.parameter name).getD ""
          match Arithmetic.evaluate lookup source with
          | some (some name, n) => .ok (plain (toString n) quoted, m.assign name (toString n))
          | some (none, n) => .ok (plain (toString n) quoted, m)
          | none => .error (m.complain ("arithmetic expression: expecting primary: \"" ++ source ++
              "\"") 2)
      | .substitution source quoted =>
          match parseScript source with
          | .error e => .error (m.complain e 2)
          | .ok c =>
              let inner := { m.direct 1 .kept with kept := [] }
              let (after, flow) := run fuel false c inner
              let text := dropLineEnds (Text.ofBytes after.kept.reverse.flatten)
              let m' := { m.afterSubshell after with kept := m.kept }
              match flow with
              | .killed n => .error (m'.withStatus (128 + n))
              | _ => .ok (plain text quoted, m')

def expandWord (fuel : Nat) (m : Machine) (word : List Piece) :
    Except Machine (List Atom × Machine) :=
  match fuel with
  | 0 => .error (m.complain "out of time" 2)
  | fuel + 1 =>
      match word with
      | [] => .ok ([], m)
      | p :: rest => do
          let (atoms, m) ← expandPiece fuel m p
          let (more, m) ← expandWord fuel m rest
          return (atoms ++ more, m)

def expandWords (fuel : Nat) (m : Machine) (words : List Word) :
    Except Machine (List String × Machine) :=
  match fuel with
  | 0 => .error (m.complain "out of time" 2)
  | fuel + 1 =>
      match words with
      | [] => .ok ([], m)
      | w :: rest => do
          let (atoms, m) ← expandWord fuel m w
          let (more, m) ← expandWords fuel m rest
          return (Atom.fields atoms ++ more, m)

def expandAssignments (fuel : Nat) (m : Machine) (as : List (String × Word)) :
    Except Machine (List (String × String) × Machine) :=
  match fuel with
  | 0 => .error (m.complain "out of time" 2)
  | fuel + 1 =>
      match as with
      | [] => .ok ([], m)
      | (name, w) :: rest => do
          let (atoms, m) ← expandWord fuel m w
          let s := Atom.text atoms
          let (more, m) ← expandAssignments fuel m rest
          return ((name, s) :: more, m)

def redirectAll (fuel : Nat) (m : Machine) (rs : List Redirection) : Except Machine Machine :=
  match fuel with
  | 0 => .error (m.complain "out of time" 2)
  | fuel + 1 =>
      match rs with
      | [] => .ok m
      | r :: rest => do
          let (fd, mode, w) := match r with
            | .write fd append w => (fd, if append then "append" else "write", w)
            | .read fd w => (fd, "read", w)
            | .duplicate fd w => (fd, "dup", w)
          let (atoms, m) ← expandWord fuel m w
          match m.redirect fd mode (Atom.text atoms) with
          | .ok m => redirectAll fuel m rest
          | .error e => throw (m.complain e 2)

def call (fuel : Nat) (m : Machine) (name : String) (args : List String) : Machine × Flow :=
  match fuel with
  | 0 => (m.complain "out of time" 2, .exit)
  | fuel + 1 =>
      match m.functions.lookup name with
      | some body =>
          let (after, flow) := run fuel false body { m with arguments := args }
          let after := { after with arguments := m.arguments }
          match flow with
          | .back => (after, .next)
          | flow => (after, flow)
      | none =>
          match name with
          | "eval" =>
              match parseScript (" ".intercalate args) with
              | .ok c => run fuel false c (m.withStatus 0)
              | .error e => (m.complain e 2, .exit)
          | "exec" =>
              match args with
              | [] => (m.withStatus 0, .next)
              | name :: args =>
                  let (m, flow) := call fuel m name args
                  match flow with
                  | .killed n => (m, .killed n)
                  | _ => (m, .exit)
          | "command" =>
              match args with
              | [] => (m.withStatus 0, .next)
              | name :: args => call fuel m name args
          | "sh" =>
              match args with
              | "-c" :: source :: rest =>
                  let inner := { m with
                    bindings := m.environment, exported := m.environment.keys,
                    title := rest.head?.getD "sh", arguments := rest.tail, functions := [],
                    strict := false, status := 0, process := m.process + 1 }
                  match parseScript source with
                  | .error e => (m.afterSubshell (inner.complain e 2), .next)
                  | .ok c =>
                      let (after, flow) := run fuel false c inner
                      let m' := m.afterSubshell after
                      match flow with
                      | .killed n => (m'.withStatus (128 + n), .killed n)
                      | _ => (m', .next)
              | _ => (m.withStatus 0, .next)
          | _ =>
              match builtin m name args with
              | some r => r
              | none =>
                  if name.toList.contains '/' then
                    match m.resolve name with
                    | .ok _ => (m.complain (name ++ ": Permission denied") 126, .next)
                    | .error _ => (m.complain (name ++ ": not found") 127, .next)
                  else (m.complain (name ++ ": not found") 127, .next)

def runSimple (fuel : Nat) (as : List (String × Word)) (words : List Word)
    (rs : List Redirection) (m : Machine) : Machine × Flow :=
  match fuel with
  | 0 => (m.complain "out of time" 2, .exit)
  | fuel + 1 =>
      match expandWords fuel m words with
      | .error m => (m, .exit)
      | .ok (fields, m) =>
          match expandAssignments fuel m as with
          | .error m => (m, .exit)
          | .ok (pairs, m) =>
              match redirectAll fuel m rs with
              | .error m' =>
                  ({ m' with descriptors := m.descriptors }, .next)
              | .ok inner =>
                  match fields with
                  | [] =>
                      let status := if words.isEmpty && as.isEmpty then 0 else
                        if (as.map Prod.snd).flatten.any isSubstitution then m.status else 0
                      ({ (assignAll inner pairs).withStatus status with
                        descriptors := m.descriptors, input := m.input }, .next)
                  | ["exec"] => (inner.withStatus 0, .next)
                  | name :: args =>
                      let (after, flow) := call fuel (withTemporary inner pairs) name args
                      let after := dropTemporary inner after pairs
                      let after := { after with
                        descriptors := m.descriptors
                        input := if redirectsInput rs then m.input else after.input }
                      match flow with
                      | .killed n =>
                          if name = "sh" && after.process = m.process then
                            let after := match signalNotice n with
                              | some s => after.put 2 (Text.toBytes (s ++ "\n"))
                              | none => after
                            (after.withStatus (128 + n), .next)
                          else (after, .killed n)
                      | flow => (after, flow)

def run (fuel : Nat) (tested : Bool) (c : Command) (m : Machine) : Machine × Flow :=
  match fuel with
  | 0 => (m.complain "out of time" 2, .exit)
  | fuel + 1 =>
      let settle (r : Machine × Flow) : Machine × Flow :=
        match r with
        | (m, .next) => if m.strict && !tested && m.status ≠ 0 then (m, .exit) else (m, .next)
        | r => r
      match c with
      | .nothing => (m, .next)
      | .simple as words rs => settle (runSimple fuel as words rs m)
      | .group body rs =>
          match redirectAll fuel m rs with
          | .error m' => ({ m' with descriptors := m.descriptors }, .next)
          | .ok inner =>
              let (after, flow) := run fuel tested body inner
              ({ after with
                descriptors := if rs.isEmpty then after.descriptors else m.descriptors
                input := if redirectsInput rs then m.input else after.input }, flow)
      | .subshell body rs =>
          match redirectAll fuel m rs with
          | .error m' => ({ m' with descriptors := m.descriptors }, .next)
          | .ok inner =>
              let (after, flow) := run fuel tested body inner
              let m' := m.afterSubshell after
              match flow with
              | .killed n => (m', .killed n)
              | _ => settle (m', .next)
      | .sequence first second =>
          match run fuel tested first m with
          | (m, .next) => run fuel tested second m
          | r => r
      | .both first second =>
          match run fuel true first m with
          | (m, .next) => if m.status = 0 then run fuel tested second m else (m, .next)
          | r => r
      | .either first second =>
          match run fuel true first m with
          | (m, .next) => if m.status = 0 then (m, .next) else run fuel tested second m
          | r => r
      | .negation body =>
          match run fuel true body m with
          | (m, .next) => (m.withStatus (if m.status = 0 then 1 else 0), .next)
          | r => r
      | .pipe first second =>
          let left := { m.direct 1 .kept with kept := [] }
          let (after, flow) := run fuel true first left
          let passed := after.kept.reverse.flatten
          let m1 := { m.afterSubshell after with kept := m.kept }
          match flow with
          | .killed n => (m1, .killed n)
          | _ =>
              let (after, flow) := run fuel tested second { m1 with input := passed }
              let m2 := { m1.afterSubshell after with input := m.input }
              match flow with
              | .killed n => (m2, .killed n)
              | _ => settle (m2, .next)
      | .conditional test body otherwise =>
          match run fuel true test m with
          | (m, .next) =>
              if m.status = 0 then run fuel tested body m
              else run fuel tested otherwise (m.withStatus 0)
          | r => r
      | .loop onFailure test body =>
          match run fuel true test m with
          | (m, .next) =>
              if (m.status = 0) = !onFailure then
                match run fuel tested body m with
                | (m, .next) => run fuel tested (.loop onFailure test body) m
                | (m, .again n) =>
                    if n ≤ 1 then run fuel tested (.loop onFailure test body) m
                    else (m, .again (n - 1))
                | (m, .leave n) => if n ≤ 1 then (m, .next) else (m, .leave (n - 1))
                | r => r
              else (m.withStatus 0, .next)
          | r => r
      | .each name words body =>
          match expandWords fuel m words with
          | .error m => (m, .exit)
          | .ok (fields, m) => runEach fuel tested name fields body (m.withStatus 0)
      | .choice w branches =>
          match expandWord fuel m w with
          | .error m => (m, .exit)
          | .ok (atoms, m) => runChoice fuel tested (Atom.text atoms) branches (m.withStatus 0)
      | .definition name body =>
          ({ (m.withStatus 0) with functions := (name, body) :: m.functions }, .next)

def runEach (fuel : Nat) (tested : Bool) (name : String) (values : List String) (body : Command)
    (m : Machine) : Machine × Flow :=
  match fuel with
  | 0 => (m.complain "out of time" 2, .exit)
  | fuel + 1 =>
      match values with
      | [] => (m, .next)
      | v :: rest =>
          match run fuel tested body (m.assign name v) with
          | (m, .next) => runEach fuel tested name rest body m
          | (m, .again n) =>
              if n ≤ 1 then runEach fuel tested name rest body m else (m, .again (n - 1))
          | (m, .leave n) => if n ≤ 1 then (m, .next) else (m, .leave (n - 1))
          | r => r

def runChoice (fuel : Nat) (tested : Bool) (text : String)
    (branches : List (List Word × Command)) (m : Machine) : Machine × Flow :=
  match fuel with
  | 0 => (m.complain "out of time" 2, .exit)
  | fuel + 1 =>
      match branches with
      | [] => (m, .next)
      | (patterns, body) :: rest =>
          match matchAny fuel text patterns m with
          | .error m => (m, .exit)
          | .ok (true, m) => run fuel tested body m
          | .ok (false, m) => runChoice fuel tested text rest m

def matchAny (fuel : Nat) (text : String) (patterns : List Word) (m : Machine) :
    Except Machine (Bool × Machine) :=
  match fuel with
  | 0 => .error (m.complain "out of time" 2)
  | fuel + 1 =>
      match patterns with
      | [] => .ok (false, m)
      | w :: rest => do
          let (atoms, m) ← expandWord fuel m w
          let pattern := (Atom.text atoms).toList
          if isMatch (pattern.length + text.length + 2) pattern text.toList then return (true, m)
          else matchAny fuel text rest m
end

end Shell
end LeaseQueue
