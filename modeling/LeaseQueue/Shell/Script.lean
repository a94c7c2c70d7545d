/-!
# Scripts

Commands of the POSIX shell: words with their expansions, redirections, and the
ways of joining commands.

The shell stands for the one of the system that a job's command is given to. It is
a part of the bodies that a queue can be run with, and is reached only through
them: what is proved of stores and queues holds of any bodies, and none of it
rests on what a script does.
-/

namespace LeaseQueue
namespace Shell

inductive Fallback where
  /-- Another word is used. -/
  | use
  /-- Another word is used and assigned. -/
  | assign
  /-- Another word is used if the parameter is set. -/
  | replace
  /-- The script stops. -/
  | fail
deriving Repr, DecidableEq

inductive Piece where
  /-- Characters as they stand. -/
  | text (s : String) (quoted : Bool)
  /-- The value of a parameter. -/
  | parameter (name : String) (quoted : Bool)
  /-- The length of a parameter's value. -/
  | length (name : String) (quoted : Bool)
  /-- The value of a parameter with a fallback; an empty value may count as unset. -/
  | guarded (name : String) (orEmpty : Bool) (fallback : Fallback) (word : List Piece)
      (quoted : Bool)
  /-- The value of an expression. -/
  | arithmetic (source : String) (quoted : Bool)
  /-- The output of a script. -/
  | substitution (source : String) (quoted : Bool)
deriving Repr, Inhabited

abbrev Word := List Piece

inductive Redirection where
  | write (fd : Nat) (append : Bool) (target : Word)
  | read (fd : Nat) (source : Word)
  | duplicate (fd : Nat) (target : Word)
deriving Repr, Inhabited

inductive Command where
  | nothing
  | simple (assignments : List (String × Word)) (words : List Word)
      (redirections : List Redirection)
  | group (body : Command) (redirections : List Redirection)
  | subshell (body : Command) (redirections : List Redirection)
  | sequence (first second : Command)
  | both (first second : Command)
  | either (first second : Command)
  | negation (body : Command)
  | pipe (first second : Command)
  | conditional (test body otherwise : Command)
  | loop (onFailure : Bool) (test body : Command)
  | each (name : String) (words : List Word) (body : Command)
  | choice (word : Word) (branches : List (List Word × Command))
  | definition (name : String) (body : Command)
deriving Repr, Inhabited

end Shell
end LeaseQueue
