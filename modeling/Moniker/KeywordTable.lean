import Moniker.Event
import Moniker.Hash.Memo
import Moniker.Keyword
import Moniker.Stats

/-! # Keyword tables

A table holds one keyword for each name it was asked to intern, in the order of their making.
Interning takes three steps, a look at the table, a hash through the memo and an installation
that looks again; between two steps other requests may come. -/

namespace Moniker

/-- A request for an empty map with room for some keywords, in separately locked parts of which the
number may be told. An effect that can break down does so where there is no such map: for a number
of parts that is not a power of two greater than one, or for want of memory. -/
abbrev Allocator (m : Type → Type) : Type :=
  UInt64 → Option UInt64 → m Unit

/-- A table with its number, its memo of namespace hashes, its keywords in the order of their
making, its counters, and the events it has reported. The counters are unbounded; counters in words
of 64 bits hold their remainders modulo 2^64. -/
structure KeywordTable where
  number : Nat
  memo : Hash.Memo
  keywords : List Keyword
  hits : Nat
  misses : Nat
  journal : List Event

namespace KeywordTable

def empty (number memoLimit : Nat) : KeywordTable where
  number
  memo := .empty memoLimit
  keywords := []
  hits := 0
  misses := 0
  journal := []

/-- An empty table whose map is asked of an effect. -/
def withLayout {m : Type → Type} [Monad m] (allocate : Allocator m) (number : Nat)
    (capacity : UInt64) (shards : Option UInt64) (memoLimit : UInt64) : m KeywordTable := do
  allocate capacity shards
  return .empty number memoLimit.toNat

def size (t : KeywordTable) : Nat :=
  t.keywords.length

/-- The keyword of a name, if the table has one. Counters stay. -/
def find? (t : KeywordTable) (q : Name) : Option Keyword :=
  t.keywords.find? (·.name == q)

def contains (t : KeywordTable) (q : Name) : Bool :=
  (t.find? q).isSome

def record (t : KeywordTable) (e : Event) : KeywordTable :=
  { t with journal := t.journal ++ [e] }

/-- The table after one more request answered by a keyword already there. -/
def countHit (t : KeywordTable) : KeywordTable :=
  { t with hits := t.hits + 1 }

/-! ## Interning -/

/-- First step: the keyword already there, counted as a hit. -/
def lookUp (t : KeywordTable) (q : Name) : Option (Keyword × KeywordTable) :=
  (t.find? q).map (·, t.countHit)

/-- Second step: the hash code of the name, its namespace asked of the memo. -/
def hashName (t : KeywordTable) (q : Name) : Int32 × KeywordTable :=
  let t' := if q.ns.any t.memo.flushesOn then t.record (.memoFlushed t.memo.size) else t
  let (code, memo) := (Hash.qualifiedBy Hash.Memo.ask .keyword q).run t.memo
  (code, { t' with memo })

/-- Third step: a keyword that has come in the meantime is a hit; otherwise a new one with the
given code is installed. -/
def install (t : KeywordTable) (q : Name) (code : Int32) : Keyword × KeywordTable :=
  match t.find? q with
  | some k => (k, t.countHit)
  | none =>
    let k : Keyword := { id := ⟨t.number, t.size⟩, name := q, code }
    (k, { t with keywords := t.keywords ++ [k], misses := t.misses + 1 })

/-- The keyword of a name, installed on the first request. -/
def intern (t : KeywordTable) (q : Name) : Keyword × KeywordTable :=
  match t.lookUp q with
  | some answer => answer
  | none =>
    let (code, t) := t.hashName q
    t.install q code

def internAll (t : KeywordTable) : List Name → List Keyword × KeywordTable
  | [] => ([], t)
  | q :: rest =>
    let (k, t) := t.intern q
    let (ks, t) := t.internAll rest
    (k :: ks, t)

/-! ## Views -/

/-- Every keyword, in the order of the names. -/
def sorted (t : KeywordTable) : List Keyword :=
  t.keywords.mergeSort fun a b => (compare a.name b.name).isLE

/-- The counters beside a capacity, which is the store's own affair. -/
def stats (t : KeywordTable) (capacity : Nat) : Stats where
  count := t.size
  capacity
  hits := t.hits
  misses := t.misses

def resetStats (t : KeywordTable) : KeywordTable :=
  { t with hits := 0, misses := 0 }

/-- Size and counters as diagnostic text shows them, the capacity written as given. -/
def diagnosticWith (capacity : String) (t : KeywordTable) : String :=
  Text.record "KeywordTable"
    [("len", toString t.size), ("stats", (t.stats 0).diagnosticWith capacity)]

end KeywordTable

end Moniker
