import Moniker.Metadata

/-! # Identifiers of either kind

What printers and containers need to know of an identifier, whether it is a symbol or a
keyword: kind, name and hash code. Equality stays the affair of each kind. -/

namespace Moniker

inductive Identifier where
  | symbol (s : Symbol)
  | keyword (k : Keyword)

namespace Identifier

def kind : Identifier → Kind
  | symbol _ => .symbol
  | keyword _ => .keyword

def name : Identifier → Name
  | symbol s => s.name
  | keyword k => k.name

/-- The hash code computed when the identifier was made. -/
def code : Identifier → Int32
  | symbol s => s.code
  | keyword k => k.code

def text : Identifier → String
  | symbol s => s.text
  | keyword k => k.text

/-- The words that a container hashes: the code alone. -/
def fed (i : Identifier) : List Int32 :=
  [i.code]

end Identifier

/-- A map with identifiers as keys. The key that is kept is the first that was put in. -/
abbrev IdentifierMap (κ ν : Type) := OrderedMap κ ν

abbrev IdentifierSet (κ : Type) := OrderedMap κ Unit

end Moniker
