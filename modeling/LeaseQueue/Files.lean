/-!
# Files

The part of a file tree that every system has: its directories and some files
that are always there. Paths are followed name by name; a name may only follow a
directory.
-/

namespace LeaseQueue
namespace Files

inductive Node where
  | directory
  | file
  | device
deriving Repr, DecidableEq

inductive PathError where
  | missing
  | notDirectory
  | nameTooLong
deriving Repr, DecidableEq

namespace PathError

def message : PathError → String
  | .missing => "No such file or directory (os error 2)"
  | .notDirectory => "Not a directory (os error 20)"
  | .nameTooLong => "File name too long (os error 36)"

end PathError

def directories : List (List String) := [
  [], ["bin"], ["boot"], ["dev"], ["dev", "pts"], ["dev", "shm"], ["etc"], ["home"], ["lib"],
  ["lib64"], ["media"], ["mnt"], ["opt"], ["proc"], ["proc", "self"], ["root"], ["run"], ["sbin"],
  ["srv"], ["sys"], ["tmp"], ["usr"], ["usr", "bin"], ["usr", "games"], ["usr", "include"],
  ["usr", "lib"], ["usr", "local"], ["usr", "local", "bin"], ["usr", "local", "lib"],
  ["usr", "sbin"], ["usr", "share"], ["usr", "src"], ["var"], ["var", "cache"], ["var", "lib"],
  ["var", "log"], ["var", "run"], ["var", "spool"], ["var", "tmp"]]

def devices : List (List String) := [
  ["dev", "full"], ["dev", "null"], ["dev", "random"], ["dev", "stderr"], ["dev", "stdin"],
  ["dev", "stdout"], ["dev", "tty"], ["dev", "urandom"], ["dev", "zero"]]

def plainFiles : List (List String) := [
  ["bin", "cat"], ["bin", "ls"], ["bin", "sh"], ["bin", "true"], ["etc", "fstab"], ["etc", "group"], ["etc", "hostname"],
  ["etc", "hosts"], ["etc", "os-release"], ["etc", "passwd"], ["etc", "profile"],
  ["etc", "resolv.conf"], ["etc", "shadow"], ["proc", "cpuinfo"], ["proc", "meminfo"],
  ["proc", "uptime"], ["proc", "version"], ["usr", "bin", "cat"], ["usr", "bin", "env"],
  ["usr", "bin", "ls"], ["usr", "bin", "sh"], ["usr", "bin", "true"]]

def lookUp (extra : List (List String)) (names : List String) : Option Node :=
  if directories.contains names then some .directory
  else if devices.contains names then some .device
  else if plainFiles.contains names || extra.contains names then some .file
  else none

def follow (extra : List (List String)) (place : List String) :
    List String → Except PathError (List String)
  | [] => .ok place
  | name :: rest =>
      match lookUp extra place with
      | none => .error .missing
      | some .file => .error .notDirectory
      | some .device => .error .notDirectory
      | some .directory =>
          if 255 < name.utf8ByteSize then .error .nameTooLong
          else if name = "" || name = "." then follow extra place rest
          else if name = ".." then follow extra place.dropLast rest
          else follow extra (place ++ [name]) rest

def split (path : String) : List String := path.splitOn "/"

def resolve (extra : List (List String)) (place : List String) (path : String) :
    Except PathError (List String × Node) := do
  if path.isEmpty || path.toList.contains (Char.ofNat 0) then throw .missing
  if 4095 < path.utf8ByteSize then throw .nameTooLong
  let start := if path.startsWith "/" then [] else place
  let found ← follow extra start (split path)
  match lookUp extra found with
  | some node => return (found, node)
  | none => throw .missing

def home : List String := ["root"]

def pathExists (path : String) : Bool :=
  match resolve [] home path with
  | .ok _ => true
  | .error _ => false

def pathOf (place : List String) : String := "/" ++ "/".intercalate place

end Files
end LeaseQueue
