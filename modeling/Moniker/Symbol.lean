import Moniker.OrderedMap
import Moniker.Registry

/-! # Symbols

A symbol is a core, made once with its name and hash code, and perhaps metadata. Metadata takes
no part in equality, order or hashing. Cores and metadata maps are numbered as they are made, so
that one can tell which symbols share a core and which handles share a map. -/

namespace Moniker

/-- What a construction of a symbol makes. -/
structure SymbolCore where
  number : Nat
  name : Name
  code : Int32

mutual

inductive MetaValue where
  | bool (b : Bool)
  | int (i : Int64)
  | str (s : String)
  | keyword (k : Keyword)
  | symbol (s : Symbol)

/-- An unchanging map from keywords to values, with the number it was made under. -/
structure Metadata where
  number : Nat
  map : OrderedMap Keyword MetaValue

/-- A handle on a core, with metadata or without. -/
structure Symbol where
  core : SymbolCore
  metadata : Option Metadata

end

/-- The numbers of the next core and of the next metadata map. -/
structure Supply where
  nextCore : Nat := 0
  nextMap : Nat := 0

namespace Symbol

def name (s : Symbol) : Name :=
  s.core.name

/-- The hash code computed when the core was made. -/
def code (s : Symbol) : Int32 :=
  s.core.code

def sharesCore (a b : Symbol) : Bool :=
  a.core.number == b.core.number

/-- Symbols are equal when they share a core, or when their codes and then their names are
equal. -/
instance : BEq Symbol where
  beq a b := a.sharesCore b || (a.code == b.code && a.name == b.name)

instance : Ord Symbol where
  compare a b := compare a.name b.name

def text (s : Symbol) : String :=
  s.name.fqn

def diagnostic (s : Symbol) : String :=
  "Symbol(" ++ s.text ++ ")"

/-! ## Construction -/

/-- A new symbol of a name, with a core of its own and no metadata. -/
def ofName (q : Name) : StateM Supply Symbol := fun supply =>
  let core := { number := supply.nextCore, name := q, code := Hash.qualified .symbol q }
  (⟨core, none⟩, { supply with nextCore := supply.nextCore + 1 })

def ofParts (ns : Option String) (localName : String) : Except NameFault (StateM Supply Symbol) :=
  (Name.ofParts ns localName).map ofName

def parse (text : String) : Except NameFault (StateM Supply Symbol) :=
  (Name.parse text).map ofName

def withMetadata (s : Symbol) (metadata : Option Metadata) : Symbol :=
  ⟨s.core, metadata⟩

/-- A new symbol of two parts that carries metadata from the start. -/
def ofPartsWith (ns : Option String) (localName : String) (metadata : Option Metadata) :
    Except NameFault (StateM Supply Symbol) :=
  (ofParts ns localName).map fun make => return (← make).withMetadata metadata

end Symbol

/-- A new symbol asked of a registry. Symbols are not interned, so the table takes no part. -/
def Registry.symbol (_ : Registry) (ns : Option String) (localName : String)
    (metadata : Option Metadata) : Except NameFault (StateM Supply Symbol) :=
  Symbol.ofPartsWith ns localName metadata

/-! ## Between keywords and symbols -/

def Keyword.toSymbol (k : Keyword) : StateM Supply Symbol :=
  Symbol.ofName k.name

def Registry.keywordOfSymbol (r : Registry) (s : Symbol) : Keyword × Registry :=
  r.intern s.name

end Moniker
