import LeaseQueue.Store.Error
/-!
# Saving over a stored copy

The holder of a job's lock may always save it. Anyone else needs a copy that is
not older than the stored one, and no live lock in the way. What is written
never takes the modification count or its time back.
-/

namespace LeaseQueue
namespace Status

/-- Whether a copy with status `incoming` may be saved over one with status `stored`. -/
def checkSave (stored incoming : Status) (id : String) (now : Timestamp) (timeout : Nat) :
    Except StoreError Unit :=
  if stored.isHeldBy incoming.owner then .ok ()
  else if incoming.modCount < stored.modCount then
    .error (.conflict id (.newer stored.modCount incoming.modCount))
  else if stored.isLive now timeout then .error (.conflict id (.locked stored.owner))
  else .ok ()

def merge (stored incoming : Status) : Status :=
  { incoming with
    modCount := max stored.modCount incoming.modCount
    modTime := laterOf stored.modTime incoming.modTime }

end Status
end LeaseQueue
