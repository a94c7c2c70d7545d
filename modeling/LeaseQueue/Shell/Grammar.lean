import LeaseQueue.Shell.Script
/-!
# Reading scripts

A script is read from its characters by one function for each construct of the
grammar. Each gives the rest of the text, or the complaint of the shell.
-/

namespace LeaseQueue
namespace Shell

namespace Grammar

def isNameStart (c : Char) : Bool := c.isAlpha || c = '_'

def isNameChar (c : Char) : Bool := c.isAlphanum || c = '_'

def endsWord (c : Char) : Bool :=
  c = ' ' || c = '\t' || c = '\n' || c = ';' || c = '&' || c = '|' || c = '<' || c = '>' ||
    c = '(' || c = ')'

def takeName (cs : List Char) : List Char × List Char :=
  match cs with
  | c :: _ => if isNameStart c then (cs.takeWhile isNameChar, cs.dropWhile isNameChar) else ([], cs)
  | [] => ([], [])

def isName (cs : List Char) : Bool :=
  match cs with
  | c :: _ => isNameStart c && cs.all isNameChar
  | [] => false

def openQuote : String := "Syntax error: Unterminated quoted string"

def unexpectedEnd : String := "Syntax error: end of file unexpected"

def unexpectedToken (s : String) : String := "Syntax error: \"" ++ s ++ "\" unexpected"

def takeSingleQuoted : List Char → List Char → Except String ((List Char) × List Char)
  | _, [] => .error openQuote
  | acc, '\x27' :: rest => .ok (acc.reverse, rest)
  | acc, c :: rest => takeSingleQuoted (c :: acc) rest

/-- Characters up to the parenthesis that closes the one before them. Quoted ones do not count. -/
def takeBalanced (depth : Nat) (acc : List Char) : List Char → Except String ((List Char) × List Char)
  | [] => .error "Syntax error: end of file unexpected (expecting \")\")"
  | '\\' :: c :: rest => takeBalanced depth (c :: '\\' :: acc) rest
  | '(' :: rest => takeBalanced (depth + 1) ('(' :: acc) rest
  | ')' :: rest =>
      match depth with
      | 0 => .ok (acc.reverse, rest)
      | d + 1 => takeBalanced d (')' :: acc) rest
  | c :: rest => takeBalanced depth (c :: acc) rest

def takeBackquoted (acc : List Char) : List Char → Except String ((List Char) × List Char)
  | [] => .error "Syntax error: EOF in backquote substitution"
  | '\x60' :: rest => .ok (acc.reverse, rest)
  | '\\' :: c :: rest =>
      if c = '\x60' || c = '\\' || c = '$' then takeBackquoted (c :: acc) rest
      else takeBackquoted (c :: '\\' :: acc) rest
  | c :: rest => takeBackquoted (c :: acc) rest

def isSpecial (c : Char) : Bool :=
  c = '?' || c = '$' || c = '#' || c = '@' || c = '*' || c = '!' || c = '-' || c.isDigit

def fallbackOf (c : Char) : Option Fallback :=
  if c = '-' then some .use
  else if c = '=' then some .assign
  else if c = '+' then some .replace
  else if c = '?' then some .fail
  else none

mutual
def readDollar (fuel : Nat) (quoted : Bool) (cs : List Char) : Except String (Piece × List Char) :=
  match fuel with
  | 0 => .error unexpectedEnd
  | fuel + 1 =>
      match cs with
      | '(' :: '(' :: rest => do
          let (body, rest) ← takeBalanced 0 [] rest
          match rest with
          | ')' :: rest => return (.arithmetic (String.ofList body) quoted, rest)
          | _ => throw "Syntax error: missing '))'"
      | '(' :: rest => do
          let (body, rest) ← takeBalanced 0 [] rest
          return (.substitution (String.ofList body) quoted, rest)
      | '\x7b' :: rest => readBraces fuel quoted rest
      | c :: rest =>
          let (name, after) := takeName cs
          if !name.isEmpty then .ok (.parameter (String.ofList name) quoted, after)
          else if isSpecial c then .ok (.parameter (String.ofList [c]) quoted, rest)
          else .ok (.text "$" quoted, cs)
      | [] => .ok (.text "$" quoted, [])

def readBraces (fuel : Nat) (quoted : Bool) (cs : List Char) : Except String (Piece × List Char) :=
  match fuel with
  | 0 => .error unexpectedEnd
  | fuel + 1 =>
      let nameOf (cs : List Char) : List Char × List Char :=
        match cs with
        | c :: rest => if isSpecial c then ([c], rest) else takeName cs
        | [] => ([], [])
      let close (p : Piece) (rest : List Char) : Except String (Piece × List Char) :=
        match rest with
        | '\x7d' :: rest => .ok (p, rest)
        | _ => .error "Bad substitution"
      match cs with
      | '#' :: '\x7d' :: rest => .ok (.parameter "#" quoted, rest)
      | '#' :: rest =>
          let (name, rest) := nameOf rest
          close (.length (String.ofList name) quoted) rest
      | _ =>
          let (name, rest) := nameOf cs
          if name.isEmpty then .error "Bad substitution"
          else
            let name := String.ofList name
            let (orEmpty, rest) := match rest with
              | ':' :: more => (true, more)
              | _ => (false, rest)
            match rest with
            | c :: more =>
                match fallbackOf c with
                | some f => do
                    let (word, rest) ← readPieces fuel quoted true more
                    close (.guarded name orEmpty f word quoted) rest
                | none => if orEmpty then .error "Bad substitution"
                    else close (.parameter name quoted) rest
            | [] => .error "Syntax error: Missing '\x7d'"

/-- Reads the pieces of a word up to its end, up to the closing double quote if `quoted`, or up to
the closing brace if `braced`. -/
def readPieces (fuel : Nat) (quoted braced : Bool) (cs : List Char) : Except String ((List Piece) × List Char) :=
  match fuel with
  | 0 => .error unexpectedEnd
  | fuel + 1 =>
      let more (p : Piece) (rest : List Char) : Except String ((List Piece) × List Char) := do
        let (ps, rest) ← readPieces fuel quoted braced rest
        return (p :: ps, rest)
      match cs with
      | [] => if quoted && !braced then .error openQuote else .ok ([], [])
      | '$' :: rest => do
          let (p, rest) ← readDollar fuel quoted rest
          more p rest
      | '\x60' :: rest => do
          let (body, rest) ← takeBackquoted [] rest
          more (.substitution (String.ofList body) quoted) rest
      | '\\' :: '\n' :: rest => readPieces fuel quoted braced rest
      | '\\' :: c :: rest =>
          if quoted && !(c = '$' || c = '\x60' || c = '"' || c = '\\') then
            more (.text (String.ofList ['\\', c]) true) rest
          else more (.text (String.ofList [c]) true) rest
      | '"' :: rest =>
          if quoted && !braced then .ok ([], cs)
          else do
            let (inner, rest) ← readPieces fuel true false rest
            match rest with
            | '"' :: rest => do
                let (ps, rest) ← readPieces fuel quoted braced rest
                return (.text "" true :: inner ++ ps, rest)
            | _ => throw openQuote
      | '\x27' :: rest =>
          if quoted then more (.text "'" true) rest
          else do
            let (body, rest) ← takeSingleQuoted [] rest
            more (.text (String.ofList body) true) rest
      | c :: rest =>
          if braced && c = '\x7d' then .ok ([], cs)
          else if !quoted && !braced && endsWord c then .ok ([], cs)
          else more (.text (String.ofList [c]) quoted) rest
end

def readWord (fuel : Nat) (cs : List Char) : Except String (Word × List Char) := readPieces fuel false false cs

/-- The text from its first character that is neither blank nor in a comment. -/
def skipBlanks (cs : List Char) : List Char :=
  let rest := cs.dropWhile fun c => c = ' ' || c = '\t'
  match rest with
  | '#' :: more => more.dropWhile (· ≠ '\n')
  | _ => rest

def skipLines : Nat → List Char → List Char
  | 0, cs => cs
  | fuel + 1, cs =>
      match skipBlanks cs with
      | '\n' :: rest => skipLines fuel rest
      | '\\' :: '\n' :: rest => skipLines fuel rest
      | rest => rest

def peekWord (cs : List Char) : String :=
  let w := cs.takeWhile fun c => !endsWord c
  String.ofList w

def closers : List String := ["then", "else", "elif", "fi", "do", "done", "esac", "\x7d"]

def expect (fuel : Nat) (word : String) (cs : List Char) : Except String (List Char) :=
  let cs := skipLines fuel cs
  if peekWord cs = word then .ok (cs.drop word.length)
  else match cs with
    | [] => .error (unexpectedEnd ++ " (expecting \"" ++ word ++ "\")")
    | c :: _ =>
        let w := peekWord cs
        .error (unexpectedToken (if w.isEmpty then String.ofList [c] else w) ++
          " (expecting \"" ++ word ++ "\")")

def readRedirection (fuel : Nat) (cs : List Char) : Except String (Option (Redirection × List Char)) :=
  let digits := cs.takeWhile Char.isDigit
  let rest := cs.dropWhile Char.isDigit
  let fd (standard : Nat) : Nat :=
    if digits.isEmpty then standard
    else digits.foldl (fun n c => 10 * n + (c.toNat - '0'.toNat)) 0
  let target (make : Word → Redirection) (rest : List Char) :
      Except String (Option (Redirection × List Char)) := do
    let rest := skipBlanks rest
    let (w, after) ← readWord fuel rest
    if w.isEmpty then throw (if rest.isEmpty then unexpectedEnd else unexpectedToken "newline")
    return some (make w, after)
  match rest with
  | '>' :: '>' :: rest => target (.write (fd 1) true) rest
  | '>' :: '&' :: rest => target (.duplicate (fd 1)) rest
  | '>' :: '|' :: rest => target (.write (fd 1) false) rest
  | '>' :: rest => target (.write (fd 1) false) rest
  | '<' :: '&' :: rest => target (.duplicate (fd 0)) rest
  | '<' :: '<' :: _ => .error unexpectedEnd
  | '<' :: rest => target (.read (fd 0)) rest
  | _ => .ok none

def readRedirections : Nat → List Char → Except String ((List Redirection) × List Char)
  | 0, cs => .ok ([], cs)
  | fuel + 1, cs => do
      match ← readRedirection fuel (skipBlanks cs) with
      | some (r, rest) => do
          let (rs, rest) ← readRedirections fuel rest
          return (r :: rs, rest)
      | none => return ([], cs)

/-- An assignment at the front of the text: the name, and where the value starts. -/
def readAssignment (cs : List Char) : Option (String × List Char) :=
  let (name, rest) := takeName cs
  match rest with
  | '=' :: rest => if name.isEmpty then none else some (String.ofList name, rest)
  | _ => none

def readSimple : Nat → List (String × Word) → List Word → List Redirection → List Char →
    Except String (Command × List Char)
  | 0, _, _, _, _ => .error unexpectedEnd
  | fuel + 1, as, ws, rs, cs => do
      let cs := skipBlanks cs
      match ← readRedirection fuel cs with
      | some (r, rest) => readSimple fuel as ws (r :: rs) rest
      | none =>
          match cs with
          | '\\' :: '\n' :: rest => readSimple fuel as ws rs rest
          | [] => return (.simple as.reverse ws.reverse rs.reverse, [])
          | c :: _ =>
              if endsWord c then return (.simple as.reverse ws.reverse rs.reverse, cs)
              else
                match (if ws.isEmpty then readAssignment cs else none) with
                | some (name, rest) => do
                    let (w, rest) ← readWord fuel rest
                    readSimple fuel ((name, w) :: as) ws rs rest
                | none => do
                    let (w, rest) ← readWord fuel cs
                    readSimple fuel as (w :: ws) rs rest

def readWords : Nat → List Char → Except String ((List Word) × List Char)
  | 0, cs => .ok ([], cs)
  | fuel + 1, cs =>
      match skipBlanks cs with
      | [] => .ok ([], [])
      | c :: rest =>
          if endsWord c then .ok ([], c :: rest)
          else do
            let (w, rest) ← readWord fuel (c :: rest)
            let (ws, rest) ← readWords fuel rest
            return (w :: ws, rest)

def readPatterns : Nat → List Char → Except String ((List Word) × List Char)
  | 0, _ => .error unexpectedEnd
  | fuel + 1, cs => do
      let (w, rest) ← readWord fuel (skipBlanks cs)
      match skipBlanks rest with
      | '|' :: rest => do
          let (ws, rest) ← readPatterns fuel rest
          return (w :: ws, rest)
      | ')' :: rest => return ([w], rest)
      | _ => throw unexpectedEnd

mutual
def readList (fuel : Nat) (cs : List Char) : Except String (Command × List Char) :=
  match fuel with
  | 0 => .error unexpectedEnd
  | fuel + 1 =>
      let cs := skipLines fuel cs
      match cs with
      | [] => .ok (.nothing, [])
      | ')' :: _ => .ok (.nothing, cs)
      | ';' :: _ => .ok (.nothing, cs)
      | _ =>
          if closers.contains (peekWord cs) then .ok (.nothing, cs)
          else do
            let (first, rest) ← readChain fuel cs
            match skipBlanks rest with
            | ';' :: ';' :: _ => return (first, skipBlanks rest)
            | ';' :: rest => do
                let (second, rest) ← readList fuel rest
                return (.sequence first second, rest)
            | '\n' :: rest => do
                let (second, rest) ← readList fuel rest
                return (.sequence first second, rest)
            | '&' :: rest => do
                let (second, rest) ← readList fuel rest
                return (.sequence (.sequence (.subshell first []) (.simple [] [[.text ":" false]] []))
                  second, rest)
            | rest => return (first, rest)

def readChain (fuel : Nat) (cs : List Char) : Except String (Command × List Char) :=
  match fuel with
  | 0 => .error unexpectedEnd
  | fuel + 1 => do
      let (first, rest) ← readPipeline fuel cs
      readChainFrom fuel first rest

def readChainFrom (fuel : Nat) (first : Command) (cs : List Char) : Except String (Command × List Char) :=
  match fuel with
  | 0 => .error unexpectedEnd
  | fuel + 1 =>
      match skipBlanks cs with
      | '&' :: '&' :: rest => do
          let (second, rest) ← readPipeline fuel (skipLines fuel rest)
          readChainFrom fuel (.both first second) rest
      | '|' :: '|' :: rest => do
          let (second, rest) ← readPipeline fuel (skipLines fuel rest)
          readChainFrom fuel (.either first second) rest
      | _ => .ok (first, cs)

def readPipeline (fuel : Nat) (cs : List Char) : Except String (Command × List Char) :=
  match fuel with
  | 0 => .error unexpectedEnd
  | fuel + 1 =>
      let cs := skipBlanks cs
      if peekWord cs = "!" then do
        let (body, rest) ← readPipeline fuel (cs.drop 1)
        return (.negation body, rest)
      else do
        let (first, rest) ← readCommand fuel cs
        match skipBlanks rest with
        | '|' :: '|' :: _ => return (first, rest)
        | '|' :: rest => do
            let (second, rest) ← readPipeline fuel (skipLines fuel rest)
            return (.pipe first second, rest)
        | _ => return (first, rest)

def readCommand (fuel : Nat) (cs : List Char) : Except String (Command × List Char) :=
  match fuel with
  | 0 => .error unexpectedEnd
  | fuel + 1 =>
      let word := peekWord cs
      let after := cs.drop word.length
      if closers.contains word then .error (unexpectedToken word)
      else if word = "\x7b" then do
        let (body, rest) ← readList fuel after
        let rest ← expect fuel "\x7d" rest
        let (rs, rest) ← readRedirections fuel rest
        return (.group body rs, rest)
      else if word = "if" then do
        let (c, rest) ← readIf fuel after
        let (rs, rest) ← readRedirections fuel rest
        return (.group c rs, rest)
      else if word = "while" || word = "until" then do
        let (test, rest) ← readList fuel after
        let rest ← expect fuel "do" rest
        let (body, rest) ← readList fuel rest
        let rest ← expect fuel "done" rest
        let (rs, rest) ← readRedirections fuel rest
        return (.group (.loop (word = "until") test body) rs, rest)
      else if word = "for" then do
        let (name, rest) := takeName (skipBlanks after)
        if name.isEmpty then throw "Syntax error: Bad for loop variable"
        let rest ← expect fuel "in" rest
        let (ws, rest) ← readWords fuel rest
        let rest := match skipBlanks rest with
          | ';' :: rest => rest
          | rest => rest
        let rest ← expect fuel "do" rest
        let (body, rest) ← readList fuel rest
        let rest ← expect fuel "done" rest
        let (rs, rest) ← readRedirections fuel rest
        return (.group (.each (String.ofList name) ws body) rs, rest)
      else if word = "case" then do
        let (w, rest) ← readWord fuel (skipBlanks after)
        let rest ← expect fuel "in" rest
        let (branches, rest) ← readBranches fuel rest
        let (rs, rest) ← readRedirections fuel rest
        return (.group (.choice w branches) rs, rest)
      else
        match cs with
        | '(' :: rest => do
            let (body, rest) ← readList fuel rest
            match skipLines fuel rest with
            | ')' :: rest => do
                let (rs, rest) ← readRedirections fuel rest
                return (.subshell body rs, rest)
            | [] => throw (unexpectedEnd ++ " (expecting \")\")")
            | c :: _ => throw (unexpectedToken (String.ofList [c]))
        | _ =>
            match skipBlanks after with
            | '(' :: ')' :: rest =>
                if isName word.toList then do
                  let (body, rest) ← readCommand fuel (skipLines fuel rest)
                  return (.definition word body, rest)
                else throw "Syntax error: Bad function name"
            | _ => do
                let (c, rest) ← readSimple fuel [] [] [] cs
                match c, rest with
                | .simple [] [] [], [] => throw unexpectedEnd
                | .simple [] [] [], c :: _ =>
                    throw (unexpectedToken (if c = '\n' then "newline" else String.ofList [c]))
                | _, '(' :: _ => throw (unexpectedToken "(")
                | c, rest => return (c, rest)

def readIf (fuel : Nat) (cs : List Char) : Except String (Command × List Char) :=
  match fuel with
  | 0 => .error unexpectedEnd
  | fuel + 1 => do
      let (test, rest) ← readList fuel cs
      let rest ← expect fuel "then" rest
      let (body, rest) ← readList fuel rest
      let rest := skipLines fuel rest
      let word := peekWord rest
      if word = "elif" then do
        let (other, rest) ← readIf fuel (rest.drop 4)
        return (.conditional test body other, rest)
      else if word = "else" then do
        let (other, rest) ← readList fuel (rest.drop 4)
        let rest ← expect fuel "fi" rest
        return (.conditional test body other, rest)
      else do
        let rest ← expect fuel "fi" rest
        return (.conditional test body .nothing, rest)

def readBranches (fuel : Nat) (cs : List Char) : Except String ((List (List Word × Command)) × List Char) :=
  match fuel with
  | 0 => .error unexpectedEnd
  | fuel + 1 =>
      let cs := skipLines fuel cs
      if peekWord cs = "esac" then .ok ([], cs.drop 4)
      else do
        let cs := match cs with
          | '(' :: rest => rest
          | _ => cs
        let (patterns, rest) ← readPatterns fuel cs
        let (body, rest) ← readList fuel rest
        match skipLines fuel rest with
        | ';' :: ';' :: rest => do
            let (bs, rest) ← readBranches fuel rest
            return ((patterns, body) :: bs, rest)
        | rest => do
            let rest ← expect fuel "esac" rest
            return ([(patterns, body)], rest)
end

end Grammar

def parseScript (source : String) : Except String Command := do
  let cs := source.toList
  let (c, rest) ← Grammar.readList (8 * cs.length + 16) cs
  match rest with
  | [] => return c
  | ch :: _ =>
      let w := Grammar.peekWord rest
      throw (Grammar.unexpectedToken (if w.isEmpty then String.ofList [ch] else w))

end Shell
end LeaseQueue
