import Moniker.Identifier
import Moniker.Outcome
import Moniker.Report

/-! # Hashing literals

A literal that starts with the marker is a keyword, any other a symbol. The report has a row
for each literal, in order; one bad literal spoils it. -/

namespace Moniker

/-- What the report says of a literal. -/
structure Description where
  kind : Kind
  name : Name
  literal : String
  code : Int32
  deriving DecidableEq

namespace Description

def ofIdent (i : Identifier) : Description where
  kind := i.kind
  name := i.name
  literal := i.text
  code := i.code

def isKeywordLiteral (literal : String) : Bool :=
  literal.toList.head? == some Keyword.marker

/-- Describes a literal. A keyword is interned on the way; a symbol is made for the occasion. -/
def ofLiteral (r : Registry) (literal : String) : Except NameFault Description × Registry :=
  if isKeywordLiteral literal then
    let (k, r) := r.parseKeyword literal
    (k.map fun k => ofIdent (.keyword k), r)
  else
    ((Symbol.parse literal).map fun make => ofIdent (.symbol (make.run {}).1), r)

/-- Describes literals in order, up to the first bad one. -/
def ofLiterals (r : Registry) :
    List String → Except NameFault (List Description) × Registry
  | [] => (.ok [], r)
  | literal :: rest =>
    match ofLiteral r literal with
    | (.error fault, r) => (.error fault, r)
    | (.ok d, r) =>
      let (ds, r) := ofLiterals r rest
      (ds.map (d :: ·), r)

def line (d : Description) : String :=
  Text.column 8 d.kind.text ++ " " ++ Text.column 32 d.literal ++ " " ++ toString d.code

def row (d : Description) : Report.Row :=
  [("kind", .text d.kind.text), ("namespace", d.name.ns.elim .absent .text),
    ("name", .text d.name.localName), ("literal", .text d.literal),
    ("hash", .number d.code.toInt)]

end Description

def hashCommand (literals : List String) (format : Format) (r : Registry) : Outcome × Registry :=
  if literals.isEmpty then (.failed .noLiterals [], r)
  else
    match Description.ofLiterals r literals with
    | (.error fault, r) => (.failed (.identifier (.name fault)) [], r)
    | (.ok ds, r) =>
      ({ stdout := Report.render format Description.line Description.row ds ++ "\n"
         events := [.literalsHashed ds.length] }, r)

end Moniker
