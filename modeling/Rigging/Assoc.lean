/-!
# Ordered maps

A map that remembers in which order its keys came is a list of pairs.  Looking up takes the first
pair with the key, and `put` keeps a key at the place where it first came, so a list that is built
by `put` alone has every key once.
-/

namespace Rigging.Assoc

variable {α β : Type} [BEq α]

/-- The value of a key. -/
def get? (key : α) : List (α × β) → Option β
  | [] => none
  | (k, v) :: rest => if k == key then some v else get? key rest

/-- Gives a key a value: at its place if it is there, at the end if it is not. -/
def put (key : α) (value : β) : List (α × β) → List (α × β)
  | [] => [(key, value)]
  | (k, v) :: rest => if k == key then (k, value) :: rest else (k, v) :: put key value rest

/-- The map without a key. -/
def erase (key : α) (m : List (α × β)) : List (α × β) :=
  m.filter fun p => !(p.1 == key)

/-- The map built from pairs in order: a key that comes again keeps its place and takes the later
value. -/
def ofPairs (pairs : List (α × β)) : List (α × β) :=
  pairs.foldl (fun m p => put p.1 p.2 m) []

/-- The keys in order. -/
def keys (m : List (α × β)) : List α :=
  m.map Prod.fst

end Rigging.Assoc
