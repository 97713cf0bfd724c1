import Moniker.Symbol

/-! # Metadata

Metadata is an unchanging map from keywords to values. An edit makes new metadata, or keeps the
old where it would change nothing. -/

namespace Moniker

namespace MetaValue

/-- Values of one form are equal when what they hold is: a keyword by identity, a symbol without
regard to its own metadata. -/
instance : BEq MetaValue where
  beq
    | bool a, bool b => a == b
    | int a, int b => a == b
    | str a, str b => a == b
    | keyword a, keyword b => a == b
    | symbol a, symbol b => a == b
    | _, _ => false

/-- The printed form; a text is quoted. -/
def text : MetaValue → String
  | bool b => toString b
  | int i => toString i
  | str s => Text.quoted s
  | keyword k => k.text
  | symbol s => s.text

def diagnostic : MetaValue → String
  | bool b => s!"Bool({b})"
  | int i => s!"Int({i})"
  | str s => "Str(" ++ Text.quoted s ++ ")"
  | keyword k => "Keyword(" ++ k.diagnostic ++ ")"
  | symbol s => "Symbol(" ++ s.diagnostic ++ ")"

end MetaValue

inductive Edit where
  | assoc (key : Keyword) (value : MetaValue)
  | dissoc (key : Keyword)
  | merge (other : Metadata)

namespace Metadata

def sharesMap (a b : Metadata) : Bool :=
  a.number == b.number

/-- Metadata are equal when their maps are, shared or not. -/
instance : BEq Metadata where
  beq a b := a.map == b.map

def make (map : OrderedMap Keyword MetaValue) : StateM Supply Metadata := fun supply =>
  (⟨supply.nextMap, map⟩, { supply with nextMap := supply.nextMap + 1 })

def empty : StateM Supply Metadata :=
  make .empty

/-- New metadata of a list of pairs, later values winning. -/
def ofList (pairs : List (Keyword × MetaValue)) : StateM Supply Metadata :=
  make (.ofList pairs)

/-- The metadata after an edit. Binding a key makes a new map, and so does removing one that is
bound or adding a map that is not empty; any other edit keeps the map. -/
def edit (m : Metadata) : Edit → StateM Supply Metadata
  | .assoc key value => make (m.map.insert key value)
  | .dissoc key => if m.map.contains key then make (m.map.erase key) else pure m
  | .merge other => if other.map.isEmpty then pure m else make (m.map.merge other.map)

def editAll (m : Metadata) (edits : List Edit) : StateM Supply Metadata :=
  edits.foldlM edit m

def diagnostic (m : Metadata) : String :=
  let shown := m.map.entries.map fun (k, v) => k.diagnostic ++ ": " ++ v.diagnostic
  "\x7b" ++ String.intercalate ", " shown ++ "\x7d"

end Metadata

/-- A symbol on the same core whose metadata is what a function makes of the old, or of empty
metadata where there was none. -/
def Symbol.varyMetadata (s : Symbol) (change : Metadata → StateM Supply Metadata) :
    StateM Supply Symbol := do
  let current ← match s.metadata with
    | some m => pure m
    | none => Metadata.empty
  let changed ← change current
  return s.withMetadata (some changed)

end Moniker
