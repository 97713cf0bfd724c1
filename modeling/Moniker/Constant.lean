import Moniker.Hash.Qualified

/-! # Constants

A constant is an identifier with the hash code expected of it, as generated code and manifests
name it. -/

namespace Moniker

/-- A kind, the two parts of a name and the hash code expected of them. The parts need not make
a name. -/
structure Constant where
  kind : Kind
  ns : Option String
  localName : String
  code : Int32
  deriving DecidableEq, Repr

namespace Constant

def name (c : Constant) : Except NameFault Name :=
  Name.ofParts c.ns c.localName

def computed (c : Constant) : Except NameFault Int32 :=
  c.name.map (Hash.qualified c.kind)

end Constant

end Moniker
