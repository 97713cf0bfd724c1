import Moniker.Data

/-! # Tables under construction

Keys and headers fill tables step by step. A table made only as the parent of a header may be
opened later, once; one made by dotted keys grows only by dotted keys; a table whose header was
seen, an inline table and a plain value are closed to all that. -/

namespace Moniker.Toml

mutual

/-- What a key stands for: a finished value, a table, or an array of tables of which only the
last can grow. -/
inductive Node where
  | value (d : Data)
  | table (t : Section)
  | tables (last : Section) (earlier : List Section)

/-- A table with its entries, whether it was made without a header of its own, and whether a
dotted key made it. -/
structure Section where
  implicit : Bool
  dotted : Bool
  entries : List (String × Node)

end

namespace Section

/-- The table of a header, without entries. -/
def opened : Section := ⟨false, false, []⟩

/-- A table made on the way to another one. -/
def onTheWay (dotted : Bool) : Section := ⟨true, dotted, []⟩

def find? (t : Section) (key : String) : Option Node :=
  t.entries.lookup key

/-- The table with a key standing for something new, in the old place if there is one. -/
def set (t : Section) (key : String) (node : Node) : Section :=
  ⟨t.implicit, t.dotted, go t.entries⟩
where
  go : List (String × Node) → List (String × Node)
    | [] => [(key, node)]
    | e :: rest => if e.1 == key then (key, node) :: rest else e :: go rest

/-- Changes the table at the end of a path. Tables missing on the way are made; an array of
tables is entered at its last. A dotted key does not enter a table that has a header. -/
def modifyAt (dotted : Bool) (change : Section → Option Section) :
    List String → Section → Option Section
  | [], t => change t
  | key :: path, t =>
    match t.find? key with
    | none => do
      let child ← modifyAt dotted change path (onTheWay dotted)
      return t.set key (.table child)
    | some (.value _) => none
    | some (.table child) =>
      if dotted && !child.implicit then none
      else do
        let child ← modifyAt dotted change path child
        return t.set key (.table child)
    | some (.tables last earlier) => do
      let last ← modifyAt dotted change path last
      return t.set key (.tables last earlier)

/-- Splits a path into its parents and its last key. -/
def splitLast? : List String → Option (List String × String)
  | [] => none
  | key :: path =>
    match splitLast? path with
    | none => some ([], key)
    | some (parents, last) => some (key :: parents, last)

/-- Enters a value under a dotted key. The key must be new, and of the table only dotted keys
may have been entered if its own key is dotted, and none otherwise. -/
def enter (path : List String) (d : Data) (t : Section) : Option Section := do
  let (parents, key) ← splitLast? path
  modifyAt true (fun t =>
    if t.dotted == parents.isEmpty || (t.find? key).isSome then none
    else some (t.set key (.value d))) parents t

/-- Opens the table of a header, which must be new or made only on the way to another
header's. -/
def openTable (path : List String) (t : Section) : Option Section := do
  let (parents, key) ← splitLast? path
  modifyAt false (fun t =>
    match t.find? key with
    | none => some (t.set key (.table opened))
    | some (.table child) =>
      if child.implicit && !child.dotted then some (t.set key (.table ⟨false, false, child.entries⟩))
      else none
    | some _ => none) parents t

/-- Adds a table to an array of tables, which may be new. -/
def addTable (path : List String) (t : Section) : Option Section := do
  let (parents, key) ← splitLast? path
  modifyAt false (fun t =>
    match t.find? key with
    | none => some (t.set key (.tables opened []))
    | some (.tables last earlier) => some (t.set key (.tables opened (last :: earlier)))
    | some _ => none) parents t

/-- Enters a value in the table that the last header has opened. -/
def enterUnder (header path : List String) (d : Data) (t : Section) : Option Section :=
  modifyAt false (enter path d) header t

end Section

/-! ## Finished tables -/

mutual

def Node.data : Node → Data
  | .value d => d
  | .table t => t.data
  | .tables last earlier => .list (sectionsData earlier [last.data])

def Section.data : Section → Data
  | ⟨_, _, entries⟩ => .table (entriesData entries)

def entriesData : List (String × Node) → List (String × Data)
  | [] => []
  | (key, node) :: rest => (key, node.data) :: entriesData rest

/-- Tables, the latest first, before those already done. -/
def sectionsData : List Section → List Data → List Data
  | [], after => after
  | t :: earlier, after => sectionsData earlier (t.data :: after)

end

end Moniker.Toml
