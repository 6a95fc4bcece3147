import Persistence.ObjectQuery.Reading

/-!
A cache of read queries, by their text without the blanks around it.

A text is read once; texts that cannot be read are not kept. Every query that was read gets a
number of its own, so two answers are the same query object exactly when their numbers agree.
-/

namespace Persistence.ObjectQuery

open Schema (Registry)

/-- A query that the cache handed out, with its number. -/
structure Shared where
  query : ObjectQuery
  number : Nat
deriving DecidableEq

structure Cache where
  entries : OrderedMap String Shared := .empty
  hits : Nat := 0
  misses : Nat := 0
  /-- How many queries have been read; clearing does not reset it. -/
  read : Nat := 0

namespace Cache

def empty : Cache := {}

def size (c : Cache) : Nat := c.entries.size

def contains (c : Cache) (source : String) : Bool := c.entries.contains (Text.trim source)

def clear (c : Cache) : Cache := { read := c.read }

/-- The query of a text, read if the cache does not have it. -/
def parse (source : String) (c : Cache) (r : Registry) : Except Error Shared × Cache × Registry :=
  let key := Text.trim source
  match c.entries.get? key with
  | some shared => (.ok shared, { c with hits := c.hits + 1 }, r)
  | none =>
    let c := { c with misses := c.misses + 1 }
    match (ObjectQuery.parse key).run r with
    | (.ok query, r) =>
      let shared : Shared := ⟨query, c.read⟩
      (.ok shared, { c with entries := c.entries.insert key shared, read := c.read + 1 }, r)
    | (.error e, r) => (.error e, c, r)

end Cache
end Persistence.ObjectQuery
