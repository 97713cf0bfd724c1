import Moniker.Constant.Core
import Moniker.Event
import Moniker.Report
import Moniker.Toml.Document

/-! # Manifests

A manifest lists constants with the hash codes expected of them. Checking computes every code
anew and collects the entries that differ. -/

namespace Moniker

structure Manifest where
  entries : List Constant
  deriving DecidableEq, Repr

/-- An entry whose hash code is not the expected one. -/
structure Mismatch where
  kind : Kind
  fqn : String
  expected : Int32
  computed : Int32
  deriving DecidableEq, Repr

/-- Reads one constant. The namespace may be missing. -/
def Constant.ofData? (d : Data) : Option Constant := do
  let fields ← d.fields? ["kind", "namespace", "name", "hash"]
  return {
    kind := ← Data.required? fields "kind" fun d => d.choice?.bind Kind.ofText?
    ns := ← Data.defaulted? fields "namespace" none (Data.optional? Data.text?)
    localName := ← Data.required? fields "name" Data.text?
    code := ← Data.required? fields "hash" Data.code? }

namespace Manifest

/-- Reads a manifest. One without constants is empty. -/
def ofData? (d : Data) : Option Manifest := do
  let fields ← d.fields? ["constant"]
  return ⟨← Data.defaulted? fields "constant" [] (Data.items? Constant.ofData?)⟩

def parse? (text : String) : Option Manifest :=
  (Toml.parse? text).bind ofData?

def builtin : Manifest :=
  ⟨Constant.core⟩

/-- Checks entries in order. The first one without a valid name ends the check; the mismatches
before it have been reported by then. -/
def checkEntries : List Constant → Except NameFault (List Mismatch) × List Event
  | [] => (.ok [], [])
  | c :: rest =>
    match c.name with
    | .error fault => (.error fault, [])
    | .ok q =>
      let computed := Hash.qualified c.kind q
      let (later, events) := checkEntries rest
      if computed = c.code then (later, events)
      else
        (later.map (⟨c.kind, q.fqn, c.code, computed⟩ :: ·),
          .hashDiffers c.kind q.fqn c.code computed :: events)

/-- The entries whose code differs, in order, unless one has no valid name. -/
def mismatches (m : Manifest) : Except NameFault (List Mismatch) :=
  (checkEntries m.entries).1

end Manifest

namespace Mismatch

def line (m : Mismatch) : String :=
  Text.column 8 m.kind.text ++ " " ++ Text.column 32 m.fqn ++
    s!" expected {m.expected} computed {m.computed}"

def row (m : Mismatch) : Report.Row :=
  [("kind", .text m.kind.text), ("fqn", .text m.fqn), ("expected", .number m.expected.toInt),
    ("computed", .number m.computed.toInt)]

end Mismatch

end Moniker
