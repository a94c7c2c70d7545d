import LeaseQueue.Text.Utf8
import LeaseQueue.Shell.Arithmetic
/-!
# Formatted output of scripts

The escapes of `echo`, and the formats of `printf`: escapes, and conversions
with flags, a width and a precision. A format is used again as long as arguments
are left.
-/

namespace LeaseQueue
namespace Shell
namespace Format

def isOctal (c : Char) : Bool := '0' ≤ c && c ≤ '7'

def octal (width : Nat) (cs : List Char) : UInt8 × List Char :=
  let ds := (cs.take width).takeWhile isOctal
  (UInt8.ofNat (ds.foldl (fun n c => 8 * n + (c.toNat - '0'.toNat)) 0), cs.drop ds.length)

def letterEscape (c : Char) : Option UInt8 :=
  if c = 'a' then some 7
  else if c = 'b' then some 8
  else if c = 'f' then some 12
  else if c = 'n' then some 10
  else if c = 'r' then some 13
  else if c = 't' then some 9
  else if c = 'v' then some 11
  else if c = '\\' then some 92
  else none

def charBytes (c : Char) : List UInt8 := Text.toBytes (String.ofList [c])

/-- The bytes of a text with escapes as `echo` reads them, and whether it ended with the escape that
stops all output. Octal digits follow a zero. -/
def echoed : Nat → List Char → List UInt8 × Bool
  | 0, _ => ([], false)
  | _, [] => ([], false)
  | fuel + 1, '\\' :: 'c' :: _ => let _ := fuel; ([], true)
  | fuel + 1, '\\' :: '0' :: rest =>
      let (b, rest) := octal 3 rest
      let (bs, stop) := echoed fuel rest
      (b :: bs, stop)
  | fuel + 1, '\\' :: c :: rest =>
      match letterEscape c with
      | some b =>
          let (bs, stop) := echoed fuel rest
          (b :: bs, stop)
      | none =>
          let (bs, stop) := echoed fuel (c :: rest)
          (92 :: bs, stop)
  | fuel + 1, c :: rest =>
      let (bs, stop) := echoed fuel rest
      (charBytes c ++ bs, stop)

structure Conversion where
  left : Bool
  zeros : Bool
  plus : Bool
  space : Bool
  alternate : Bool
  width : Nat
  precision : Option Nat

def readFlags (c : Conversion) : List Char → Conversion × List Char
  | '-' :: rest => readFlags { c with left := true } rest
  | '0' :: rest => readFlags { c with zeros := true } rest
  | '+' :: rest => readFlags { c with plus := true } rest
  | ' ' :: rest => readFlags { c with space := true } rest
  | '#' :: rest => readFlags { c with alternate := true } rest
  | rest => (c, rest)

def pad (c : Conversion) (bytes : List UInt8) : List UInt8 :=
  let blanks := List.replicate (c.width - bytes.length) (32 : UInt8)
  if c.left then bytes ++ blanks else blanks ++ bytes

def argument (s : String) : Option Int :=
  match s.toList with
  | [] => some 0
  | '"' :: c :: _ => some c.toNat
  | '\x27' :: c :: _ => some c.toNat
  | '-' :: ds => (Arithmetic.numeral ds).map (- ·)
  | '+' :: ds => Arithmetic.numeral ds
  | ds => Arithmetic.numeral ds

def number (c : Conversion) (kind : Char) (n : Int) : List UInt8 :=
  let signed := kind = 'd' || kind = 'i'
  let magnitude := if signed then n.natAbs else (n % UInt64.size).toNat
  let base := if kind = 'o' then 8 else if kind = 'x' || kind = 'X' then 16 else 10
  let digits := Nat.toDigits base magnitude
  let digits := if kind = 'X' then digits.map Char.toUpper else digits
  let digits := match c.precision with
    | some p => List.replicate (p - digits.length) '0' ++ digits
    | none => digits
  let sign :=
    if signed && n < 0 then ['-']
    else if signed && c.plus then ['+']
    else if signed && c.space then [' ']
    else if c.alternate && base = 16 && magnitude ≠ 0 then ['0', kind]
    else if c.alternate && base = 8 && digits.head? ≠ some '0' then ['0']
    else []
  let digits :=
    if c.zeros && !c.left && c.precision.isNone then
      List.replicate (c.width - sign.length - digits.length) '0' ++ digits
    else digits
  pad c (Text.toBytes (String.ofList (sign ++ digits)))

structure Progress where
  out : List UInt8
  arguments : List String
  /-- All output stops here. -/
  stopped : Bool
  /-- Complaints about arguments, in order. -/
  complaints : List String

def once (fuel : Nat) (cs : List Char) (arguments : List String) : Progress :=
  match fuel with
  | 0 => ⟨[], arguments, true, []⟩
  | fuel + 1 =>
      let emit (bytes : List UInt8) (p : Progress) : Progress := { p with out := bytes ++ p.out }
      match cs with
      | [] => ⟨[], arguments, false, []⟩
      | '\\' :: c :: rest =>
          if isOctal c then
            let (b, rest) := octal 3 (c :: rest)
            emit [b] (once fuel rest arguments)
          else
            match letterEscape c with
            | some b => emit [b] (once fuel rest arguments)
            | none => emit [92] (once fuel (c :: rest) arguments)
      | '%' :: '%' :: rest => emit [37] (once fuel rest arguments)
      | '%' :: rest =>
          let (c, rest) := readFlags ⟨false, false, false, false, false, 0, none⟩ rest
          let takeCount (rest : List Char) (arguments : List String) :
              Int × List Char × List String :=
            match rest with
            | '*' :: rest => (((arguments.head?).bind argument).getD 0, rest, arguments.tail)
            | _ =>
                let ds := rest.takeWhile Char.isDigit
                ((Arithmetic.digitsIn 10 ds).getD 0, rest.drop ds.length, arguments)
          let (w, rest, arguments) := takeCount rest arguments
          let c := { c with width := w.natAbs, left := c.left || w < 0 }
          let (c, rest, arguments) := match rest with
            | '.' :: rest =>
                let (p, rest, arguments) := takeCount rest arguments
                ({ c with precision := if p < 0 then none else some p.toNat }, rest, arguments)
            | _ => (c, rest, arguments)
          let arg := arguments.head?.getD ""
          let others := arguments.tail
          match rest with
          | [] => ⟨[], arguments, true, ["%: invalid directive"]⟩
          | kind :: rest =>
              let clip (bytes : List UInt8) : List UInt8 :=
                match c.precision with
                | some p => bytes.take p
                | none => bytes
              if kind = 's' then emit (pad c (clip (Text.toBytes arg))) (once fuel rest others)
              else if kind = 'c' then
                emit (pad c ((Text.toBytes arg).take 1)) (once fuel rest others)
              else if kind = 'b' then
                let (bytes, stop) := echoed (arg.length + 1) arg.toList
                if stop then ⟨pad c (clip bytes), others, true, []⟩
                else emit (pad c (clip bytes)) (once fuel rest others)
              else if kind = 'd' || kind = 'i' || kind = 'u' || kind = 'o' || kind = 'x' ||
                  kind = 'X' then
                match argument arg with
                | some n => emit (number c kind n) (once fuel rest others)
                | none =>
                    let p := emit (number c kind 0) (once fuel rest others)
                    { p with complaints := (arg ++ ": expected numeric value") :: p.complaints }
              else ⟨[], arguments, true, ["%" ++ String.ofList [kind] ++ ": invalid directive"]⟩
      | c :: rest => emit (charBytes c) (once fuel rest arguments)

/-- Uses a format as long as arguments are left: the bytes, and the complaints. -/
def all (fuel : Nat) (format : List Char) (arguments : List String) :
    List UInt8 × List String :=
  match fuel with
  | 0 => ([], [])
  | fuel + 1 =>
      let p := once (format.length + 1) format arguments
      if p.stopped || p.arguments.isEmpty || p.arguments.length = arguments.length then
        (p.out, p.complaints)
      else
        let (more, complaints) := all fuel format p.arguments
        (p.out ++ more, p.complaints ++ complaints)

end Format
end Shell
end LeaseQueue
