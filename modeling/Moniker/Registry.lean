import Moniker.KeywordTable.Preload
import Moniker.Layout

/-! # Registries

A registry owns one keyword table, set up by a layout. There is no table but those of
registries, and two registries know nothing of each other. -/

namespace Moniker

/-- What can go wrong with identifiers: a name or a layout is rejected. -/
inductive Fault where
  | name (fault : NameFault)
  | layout (fault : LayoutFault)
  deriving DecidableEq, Repr

namespace Fault

def message : Fault → String
  | name fault => s!"Invalid name: {fault.message}"
  | layout fault => s!"Invalid configuration: {fault.message}"

def isName : Fault → Bool
  | name _ => true
  | layout _ => false

end Fault

/-- A layout and the table set up by it. -/
structure Registry where
  layout : Layout
  table : KeywordTable

namespace Registry

/-- A registry with the default layout whose table, of the given number, starts out empty. -/
def new (number : Nat) : Registry where
  layout := { preloads := false }
  table := .empty number Hash.Memo.defaultLimit

/-- What is left of setting up a registry when its table is there. -/
def finish (layout : Layout) (t : KeywordTable) : Except Fault Registry := do
  let t ← if layout.preloads then
      match t.preload with
      | (.ok _, t) => pure t
      | (.error fault, _) => throw (.name fault)
    else pure t
  return { layout, table := t.record (.registryReady layout.initialCapacity.toNat t.size) }

/-- A registry set up by a layout, if the layout can be used. The map is asked for with the room and
the parts of the layout, and where there is none the setting up breaks down. -/
def ofLayoutBy {m : Type → Type} [Monad m] (allocate : Allocator m) (number : Nat)
    (layout : Layout) : m (Except Fault Registry) := do
  match layout.validate with
  | .error fault => return .error (.layout fault)
  | .ok () =>
    let t ← KeywordTable.withLayout allocate number layout.initialCapacity layout.shards
      layout.memoLimit
    return finish layout t

/-- What comes of setting up a registry by a layout when it does not break down. -/
def ofLayout (number : Nat) (layout : Layout) : Except Fault Registry :=
  Id.run (ofLayoutBy (fun _ _ => pure ()) number layout)

def intern (r : Registry) (q : Name) : Keyword × Registry :=
  let (k, table) := r.table.intern q
  (k, { r with table })

/-- The keyword of what should be a name. A fault leaves the registry as it is. -/
def internChecked (r : Registry) (q : Except NameFault Name) :
    Except NameFault Keyword × Registry :=
  match q with
  | .error fault => (.error fault, r)
  | .ok q =>
    let (k, r) := r.intern q
    (.ok k, r)

def keyword (r : Registry) (ns : Option String) (localName : String) :
    Except NameFault Keyword × Registry :=
  r.internChecked (Name.ofParts ns localName)

/-- A text without one leading marker. -/
def dropMarker (text : String) : String :=
  match text.toList with
  | [] => text
  | c :: rest => if c == Keyword.marker then String.ofList rest else text

/-- The keyword of a literal, with or without its marker. -/
def parseKeyword (r : Registry) (literal : String) : Except NameFault Keyword × Registry :=
  r.internChecked (Name.parse (dropMarker literal))

/-- The keyword of two parts that was interned before, if they make a name. -/
def findKeyword (r : Registry) (ns : Option String) (localName : String) : Option Keyword :=
  match Name.ofParts ns localName with
  | .error _ => none
  | .ok q => r.table.find? q

/-- Layout and table as diagnostic text shows them, the capacity written as given. -/
def diagnosticWith (capacity : String) (r : Registry) : String :=
  Text.record "Runtime"
    [("config", r.layout.diagnostic), ("keywords", r.table.diagnosticWith capacity)]

end Registry

end Moniker
