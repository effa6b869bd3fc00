/-!
Links between two tables, and the order in which they are built.

A link over a table that is itself a link table waits until that table has its keys. Among the links
that need not wait the earliest declared goes first. Links that wait for each other in a circle keep
their declared order.
-/

namespace TableSchema

/-- A declaration that `table` joins `one` and `two`, all named by class. -/
structure Link where
  table : String
  one : String
  two : String
deriving DecidableEq, Repr

namespace Link

/-- Whether a link joins a table with itself. -/
def isSelfLink (l : Link) : Bool := l.one == l.two

/-- Whether `l` has an end that `other` is to build. -/
def waitsFor (l other : Link) : Bool :=
  other.table != l.table && (other.table == l.one || other.table == l.two)

/-- The position of the first link that waits for none of `pending`, or of the first of all. -/
def nextReady (pending : List Link) : Nat :=
  (pending.findIdx? fun l => !pending.any l.waitsFor).getD 0

/-- The first `count` links of the order in which `pending` is built. -/
def buildOrderWithin : Nat → List Link → List Link
  | 0, _ => []
  | count + 1, pending =>
    match pending[nextReady pending]? with
    | none => []
    | some l => l :: buildOrderWithin count (pending.eraseIdx (nextReady pending))

/-- The order in which links are built. -/
def buildOrder (links : List Link) : List Link := buildOrderWithin links.length links

end Link

end TableSchema
