import Moniker.Text.Padding

/-! # Reports

A report is a list of rows. As text it has a line for each row; as JSON it is an array of
objects, set out with two spaces for each level. -/

namespace Moniker

inductive Format where
  | text
  | json
  deriving DecidableEq, Repr

namespace Format

/-- Reads a form's word, which must be exact. -/
def ofText? : String → Option Format
  | "text" => some text
  | "json" => some json
  | _ => none

def word : Format → String
  | text => "text"
  | json => "json"

def diagnostic : Format → String
  | text => "Text"
  | json => "Json"

@[simp] theorem ofText?_word (f : Format) : ofText? f.word = some f := by
  cases f <;> rfl

end Format

namespace Report

/-- What a field of a row holds. -/
inductive Cell where
  | absent
  | text (s : String)
  | number (i : Int)

/-- A row, its fields in order. -/
abbrev Row := List (String × Cell)

/-! ## JSON -/

/-- The written form of one scalar inside a JSON text. -/
def escapeChar (c : Char) : List Char :=
  match c with
  | '"' => ['\\', '"']
  | '\\' => ['\\', '\\']
  | '\x08' => ['\\', 'b']
  | '\x0c' => ['\\', 'f']
  | '\n' => ['\\', 'n']
  | '\r' => ['\\', 'r']
  | '\t' => ['\\', 't']
  | _ =>
    if c.toNat < 0x20 then
      ['\\', 'u', '0', '0', Nat.digitChar (c.toNat / 16), Nat.digitChar (c.toNat % 16)]
    else [c]

def quoted (s : String) : String :=
  String.ofList ('"' :: s.toList.flatMap escapeChar ++ ['"'])

def Cell.json : Cell → String
  | absent => "null"
  | text s => quoted s
  | number i => toString i

/-- A row as an object on lines of its own, inside an array. -/
def rowJson (row : Row) : String :=
  let fields := row.map fun (key, cell) => "    " ++ quoted key ++ ": " ++ cell.json
  "  \x7b\n" ++ String.intercalate ",\n" fields ++ "\n  \x7d"

def json (rows : List Row) : String :=
  if rows.isEmpty then "[]"
  else "[\n" ++ String.intercalate ",\n" (rows.map rowJson) ++ "\n]"

/-! ## Either form -/

/-- A report on items, each of which has a line and a row. -/
def render {α : Type} (format : Format) (line : α → String) (row : α → Row) (items : List α) :
    String :=
  match format with
  | .text => String.intercalate "\n" (items.map line)
  | .json => json (items.map row)

end Report

end Moniker
