/-! # Maps that keep the order of insertion

A key that is bound again keeps its place and its first form; a key that is removed and bound
again goes to the end. Keys count as the same when `==` says so. -/

namespace Moniker

/-- Bindings in the order in which their keys came in. -/
structure OrderedMap (κ ν : Type) where
  entries : List (κ × ν)

namespace OrderedMap

variable {κ ν : Type} [BEq κ]

def empty : OrderedMap κ ν :=
  ⟨[]⟩

def size (m : OrderedMap κ ν) : Nat :=
  m.entries.length

def isEmpty (m : OrderedMap κ ν) : Bool :=
  m.entries.isEmpty

def keys (m : OrderedMap κ ν) : List κ :=
  m.entries.map (·.1)

def get? (m : OrderedMap κ ν) (k : κ) : Option ν :=
  (m.entries.find? (·.1 == k)).map (·.2)

def contains (m : OrderedMap κ ν) (k : κ) : Bool :=
  m.entries.any (·.1 == k)

/-- Entries in which a key that is there has a new value, and any other key comes last. -/
def insertEntry (k : κ) (v : ν) : List (κ × ν) → List (κ × ν)
  | [] => [(k, v)]
  | e :: rest => if e.1 == k then (e.1, v) :: rest else e :: insertEntry k v rest

/-- The map with one binding more, or with a new value in the old place. -/
def insert (m : OrderedMap κ ν) (k : κ) (v : ν) : OrderedMap κ ν :=
  ⟨insertEntry k v m.entries⟩

/-- The map without a key. All others stay in order. -/
def erase (m : OrderedMap κ ν) (k : κ) : OrderedMap κ ν :=
  ⟨m.entries.eraseP (·.1 == k)⟩

def insertAll (m : OrderedMap κ ν) (pairs : List (κ × ν)) : OrderedMap κ ν :=
  pairs.foldl (fun m e => m.insert e.1 e.2) m

/-- The map of a list of pairs, later values winning. -/
def ofList (pairs : List (κ × ν)) : OrderedMap κ ν :=
  empty.insertAll pairs

/-- The map with every binding of another added, the other winning. -/
def merge (m other : OrderedMap κ ν) : OrderedMap κ ν :=
  m.insertAll other.entries

/-- Maps are equal when they bind as many keys and every key of the left has an equal value in
the right. Order does not count. -/
instance [BEq ν] : BEq (OrderedMap κ ν) where
  beq m n := m.size == n.size && m.entries.all fun e => (n.get? e.1).any (e.2 == ·)

/-! ## Small laws -/

@[simp] theorem get?_empty (k : κ) : (empty : OrderedMap κ ν).get? k = none := rfl

theorem contains_eq_isSome_get? (m : OrderedMap κ ν) (k : κ) :
    m.contains k = (m.get? k).isSome := by
  obtain ⟨entries⟩ := m
  simp only [contains, get?, Option.isSome_map]
  induction entries with
  | nil => rfl
  | cons e rest ih => by_cases h : e.1 == k <;> simp [h, ih]

theorem insertAll_append (m : OrderedMap κ ν) (as bs : List (κ × ν)) :
    m.insertAll (as ++ bs) = (m.insertAll as).insertAll bs := by
  simp [insertAll]

end OrderedMap

end Moniker
