/-!
# Unique ids

An id is a word and, after a dash, the time in milliseconds and a random number
in digits of 32, so that ids of one word sort by the time they were made.
-/

namespace LeaseQueue
namespace Ident

def alphabet : List Char := "0123456789ABCDEFGHJKMNPQRSTVWXYZ".toList

def digit (n : Nat) : Char := alphabet.getD (n % 32) '0'

/-- A number in `width` digits of 32, the last ones if there are more. -/
def digits : Nat → Nat → List Char
  | 0, _ => []
  | width + 1, n => digits width (n / 32) ++ [digit n]

def timeWidth : Nat := 10

def randomWidth : Nat := 16

def suffix (millis random : Nat) : List Char :=
  digits timeWidth millis ++ digits randomWidth random

def generate (word : String) (millis random : Nat) : String :=
  String.ofList (word.toList ++ '-' :: suffix millis random)

end Ident
end LeaseQueue
