import LeaseQueue.Store.Exchange
/-!
# Traffic on a table

Any number of drivers work on one table at a time. The steps of their calls come in
any order and at any readings of the clock, and a call that is given up makes no
more of them. A reading that a call keeps is part of the call. Looking a job up,
counting and listing leave the table as it is.
-/

namespace LeaseQueue

namespace Table

inductive Request where
  | save (record : Record)
  | next (now : Timestamp)
  | turn (releasing : Bool) (id owner : String) (now : Timestamp)

def Request.begin : Request → Exchange
  | .save record => .select record false
  | .next now => .choose now
  | .turn releasing id owner now => .turn releasing id owner now

/-- A table, the last place given, and the calls so far. -/
structure Traffic where
  table : Table
  lastSeq : Int
  calls : List Exchange

namespace Traffic

inductive Event where
  | begins (request : Request)
  /-- The call with the index makes its next step. -/
  | moves (call : Nat) (now : Timestamp)

def opened (lastSeq : Int) : Traffic := ⟨.empty, lastSeq, []⟩

def handle (lease : LeaseSettings) (s : Traffic) : Event → Traffic
  | .begins request => { s with calls := s.calls ++ [request.begin] }
  | .moves i now =>
      match s.calls[i]? with
      | some x =>
          let (x, table, lastSeq) := x.step lease now (s.table, s.lastSeq)
          ⟨table, lastSeq, s.calls.set i x⟩
      | none => s

def run (lease : LeaseSettings) (s : Traffic) (events : List Event) : Traffic :=
  events.foldl (handle lease) s

end Traffic
end Table
end LeaseQueue
