import Moniker.Hash.Polynomial
import Moniker.Text.Record

/-! # A memo of namespace hashes

The memo remembers the hashes of the namespaces it was asked for. It is emptied as a whole when
it is full and a new namespace arrives. What it answers never depends on what it remembers. -/

namespace Moniker.Hash

/-- Remembered hashes, the newest first, and how many of them there may be. -/
structure Memo where
  limit : Nat
  entries : List (String × Int32)

namespace Memo

/-- The limit of a memo for which none is asked. -/
def defaultLimit : Nat := 255

/-- An empty memo, whose limit is at least one. -/
def empty (limit : Nat) : Memo where
  limit := max limit 1
  entries := []

def size (m : Memo) : Nat :=
  m.entries.length

def find? (m : Memo) (s : String) : Option Int32 :=
  m.entries.lookup s

/-- Whether asking for a namespace empties the memo first: it is full and the namespace new. -/
def flushesOn (m : Memo) (s : String) : Bool :=
  (m.find? s).isNone && m.limit ≤ m.size

/-- The hash of a namespace, from memory or remembered from now on. -/
def ask (s : String) : StateM Memo Int32 := fun m =>
  match m.find? s with
  | some code => (code, m)
  | none =>
    let kept := if m.flushesOn s then [] else m.entries
    (polynomial s, { m with entries := (s, polynomial s) :: kept })

def askAll (texts : List String) : StateM Memo (List Int32) :=
  texts.mapM ask

def diagnostic (m : Memo) : String :=
  Text.record "StringHashCache" [("len", toString m.size), ("limit", toString m.limit)]

end Memo

end Moniker.Hash
