import LeaseQueue.Shell.Grammar
/-!
# Arithmetic of scripts

Expressions over whole numbers of 64 bits, with the operators and the binding
strengths that the shell has. A name stands for its value, an unset one for
zero.
-/

namespace LeaseQueue
namespace Shell
namespace Arithmetic

inductive Token where
  | number (n : Int)
  | name (s : String)
  | mark (s : String)
deriving Repr, DecidableEq

def marks : List String :=
  ["<<", ">>", "<=", ">=", "==", "!=", "&&", "||", "+", "-", "*", "/", "%", "<", ">", "!", "~", "&",
    "|", "^", "(", ")", "?", ":", "=", ","]

def markAt (cs : List Char) : Option String :=
  marks.find? fun m => m.toList.isPrefixOf cs

def digitsIn (base : Nat) (ds : List Char) : Option Int :=
  ds.foldlM (fun (n : Int) c =>
    let v := if c.isDigit then c.toNat - '0'.toNat
      else if 'a' ≤ c && c ≤ 'f' then c.toNat - 'a'.toNat + 10
      else if 'A' ≤ c && c ≤ 'F' then c.toNat - 'A'.toNat + 10 else 99
    if v < base then some (n * base + v) else none) 0

/-- The value of a numeral: decimal, octal after a zero, hexadecimal after `0x`. -/
def numeral (ds : List Char) : Option Int :=
  match ds with
  | '0' :: 'x' :: rest => digitsIn 16 rest
  | '0' :: 'X' :: rest => digitsIn 16 rest
  | '0' :: rest => digitsIn 8 rest
  | _ => digitsIn 10 ds

def tokens : Nat → List Char → Option (List Token)
  | 0, _ => none
  | fuel + 1, cs =>
      match cs with
      | [] => some []
      | c :: rest =>
          if c = ' ' || c = '\t' || c = '\n' || c = '$' then tokens fuel rest
          else if c.isDigit then do
            let ds := cs.takeWhile Char.isAlphanum
            let n ← numeral ds
            let ts ← tokens fuel (cs.drop ds.length)
            return .number n :: ts
          else if Grammar.isNameStart c then do
            let name := cs.takeWhile Grammar.isNameChar
            let ts ← tokens fuel (cs.drop name.length)
            return .name (String.ofList name) :: ts
          else do
            let m ← markAt cs
            let ts ← tokens fuel (cs.drop m.length)
            return .mark m :: ts

def strength (m : String) : Option Nat :=
  if m = "||" then some 1
  else if m = "&&" then some 2
  else if m = "|" then some 3
  else if m = "^" then some 4
  else if m = "&" then some 5
  else if m = "==" || m = "!=" then some 6
  else if m = "<" || m = ">" || m = "<=" || m = ">=" then some 7
  else if m = "<<" || m = ">>" then some 8
  else if m = "+" || m = "-" then some 9
  else if m = "*" || m = "/" || m = "%" then some 10
  else none

def wrap (n : Int) : Int := Int.bmod n UInt64.size

def truth (b : Bool) : Int := if b then 1 else 0

def apply (m : String) (a b : Int) : Option Int :=
  if m = "||" then some (truth (a ≠ 0 || b ≠ 0))
  else if m = "&&" then some (truth (a ≠ 0 && b ≠ 0))
  else if m = "|" then some (Int64.ofInt a ||| Int64.ofInt b).toInt
  else if m = "^" then some (Int64.ofInt a ^^^ Int64.ofInt b).toInt
  else if m = "&" then some (Int64.ofInt a &&& Int64.ofInt b).toInt
  else if m = "==" then some (truth (a = b))
  else if m = "!=" then some (truth (a ≠ b))
  else if m = "<" then some (truth (a < b))
  else if m = ">" then some (truth (b < a))
  else if m = "<=" then some (truth (a ≤ b))
  else if m = ">=" then some (truth (b ≤ a))
  else if m = "<<" then some (Int64.ofInt a <<< Int64.ofInt b).toInt
  else if m = ">>" then some (Int64.ofInt a >>> Int64.ofInt b).toInt
  else if m = "+" then some (wrap (a + b))
  else if m = "-" then some (wrap (a - b))
  else if m = "*" then some (wrap (a * b))
  else if m = "/" then if b = 0 then none else some (wrap (Int.tdiv a b))
  else if m = "%" then if b = 0 then none else some (wrap (Int.tmod a b))
  else none

def valueOf (s : String) : Int :=
  let cs := s.toList.filter fun c => c ≠ ' '
  match cs with
  | '-' :: ds => -((numeral ds).getD 0)
  | [] => 0
  | ds => (numeral ds).getD 0

mutual
/-- The value of an expression whose operators bind at least as strongly as `level`, and the tokens
after it. -/
def value (lookup : String → String) (fuel level : Nat) (ts : List Token) :
    Option (Int × List Token) :=
  match fuel with
  | 0 => none
  | fuel + 1 => do
      let (a, rest) ← operand lookup fuel ts
      valueFrom lookup fuel level a rest

def valueFrom (lookup : String → String) (fuel level : Nat) (a : Int) (ts : List Token) :
    Option (Int × List Token) :=
  match fuel with
  | 0 => none
  | fuel + 1 =>
      match ts with
      | .mark "?" :: rest =>
          if level = 0 then do
            let (b, rest) ← value lookup fuel 0 rest
            match rest with
            | .mark ":" :: rest => do
                let (c, rest) ← value lookup fuel 0 rest
                return (if a ≠ 0 then b else c, rest)
            | _ => none
          else some (a, ts)
      | .mark m :: rest =>
          match strength m with
          | some s =>
              if level ≤ s then do
                let (b, rest) ← value lookup fuel (s + 1) rest
                let c ← apply m a b
                valueFrom lookup fuel level c rest
              else some (a, ts)
          | none => some (a, ts)
      | _ => some (a, ts)

def operand (lookup : String → String) (fuel : Nat) (ts : List Token) :
    Option (Int × List Token) :=
  match fuel with
  | 0 => none
  | fuel + 1 =>
      match ts with
      | .number n :: rest => some (wrap n, rest)
      | .name s :: rest => some (wrap (valueOf (lookup s)), rest)
      | .mark "-" :: rest => do
          let (a, rest) ← operand lookup fuel rest
          return (wrap (-a), rest)
      | .mark "+" :: rest => operand lookup fuel rest
      | .mark "!" :: rest => do
          let (a, rest) ← operand lookup fuel rest
          return (truth (a = 0), rest)
      | .mark "~" :: rest => do
          let (a, rest) ← operand lookup fuel rest
          return (-a - 1, rest)
      | .mark "(" :: rest => do
          let (a, rest) ← value lookup fuel 0 rest
          match rest with
          | .mark ")" :: rest => return (a, rest)
          | _ => none
      | _ => none
end

/-- The value of the text of an expression, and the name it is assigned to if there is one. -/
def evaluate (lookup : String → String) (source : String) : Option (Option String × Int) := do
  let cs := source.toList
  let ts ← tokens (cs.length + 1) cs
  let fuel := 4 * ts.length + 8
  match ts with
  | [] => return (none, 0)
  | .name s :: .mark "=" :: rest => do
      let (a, rest) ← value lookup fuel 0 rest
      if rest.isEmpty then return (some s, a) else none
  | _ => do
      let (a, rest) ← value lookup fuel 0 ts
      if rest.isEmpty then return (none, a) else none

end Arithmetic
end Shell
end LeaseQueue
