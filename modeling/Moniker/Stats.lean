import Moniker.Text.Record

/-! # Counters of a keyword table -/

namespace Moniker

/-- How many keywords a table holds and has room for, and how its requests were answered: by a
keyword already there or by a new one. -/
structure Stats where
  count : Nat
  capacity : Nat
  hits : Nat
  misses : Nat
  deriving DecidableEq, Repr

namespace Stats

/-- A quotient of two counts below 2^64, each rounded to the nearest double first; zero over
zero. -/
def ratio (part whole : Nat) : Float :=
  if whole = 0 then 0 else part.toUInt64.toFloat / whole.toUInt64.toFloat

def total (s : Stats) : Nat :=
  s.hits + s.misses

/-- The part of the requests that a keyword already there answered. -/
def hitRate (s : Stats) : Float :=
  ratio s.hits s.total

/-- The part of the room that is taken. -/
def loadFactor (s : Stats) : Float :=
  ratio s.count s.capacity

/-- The counters as diagnostic text shows them, the capacity written as given. -/
def diagnosticWith (capacity : String) (s : Stats) : String :=
  Text.record "TableStats"
    [("count", toString s.count), ("capacity", capacity), ("hits", toString s.hits),
      ("misses", toString s.misses)]

def diagnostic (s : Stats) : String :=
  s.diagnosticWith (toString s.capacity)

end Stats

end Moniker
