/-!
# Drivers

A driver is a name and the backend it works on. Drivers of one backend share its
jobs. It may be planned that some of a driver's calls fail, as when the way to
the store is cut for a while.
-/

namespace LeaseQueue

inductive DriverCall where
  | openStore
  | save
  | get
  | next
  | lock
  | unlock
deriving Repr, DecidableEq

structure Driver where
  /-- The name that no other driver has. -/
  name : String
  backend : Nat
  /-- For each kind of call, whether the coming ones fail; those beyond the list do not. -/
  outages : List (DriverCall × List Bool)
deriving Repr, DecidableEq

namespace Driver

def takePlan (call : DriverCall) :
    List (DriverCall × List Bool) → Bool × List (DriverCall × List Bool)
  | [] => (false, [])
  | (c, plan) :: rest =>
      if c = call then
        match plan with
        | [] => (false, (c, []) :: rest)
        | fails :: plan => (fails, (c, plan) :: rest)
      else
        let (fails, rest) := takePlan call rest
        (fails, (c, plan) :: rest)

def begin (d : Driver) (call : DriverCall) : Bool × Driver :=
  let (fails, outages) := takePlan call d.outages
  (fails, { d with outages := outages })

end Driver
end LeaseQueue
