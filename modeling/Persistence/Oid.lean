/-!
Object identities. Each instance gets a number of its own when it is made, and no number is used
twice, so two handles are the same instance exactly when their numbers agree.
-/

namespace Persistence

structure Oid where
  index : Nat
deriving DecidableEq

def Oid.display (oid : Oid) : String := "#" ++ toString oid.index

end Persistence
