import Moniker.Toml.Moment
import Moniker.Toml.Quoted
import Moniker.Toml.Section

/-! # Keys and values

A key is one part or several with points between them. A value is a text, a number, a moment, a
truth value, an array or an inline table; arrays and inline tables nest less than eighty deep. -/

namespace Moniker.Toml

open Text (Reader)

/-- A key has fewer parts than this, and values nest less deep. -/
def nestingLimit : Nat := 80

def isBareKeyChar (c : Char) : Bool :=
  c.isAlphanum || c == '_' || c == '-'

def keyPart : Reader String :=
  basicText <|> literalText <|> do
    let cs ← Reader.run isBareKeyChar
    if cs.isEmpty then failure
    return String.ofList cs

/-- A key, blanks around its parts being of no account. -/
def key : Reader (List String) := do
  let parts ← Reader.sepBy1 (do blanks; let part ← keyPart; blanks; return part) (Reader.char '.')
  if nestingLimit ≤ parts.length then failure
  return parts

def truth : Reader Data :=
  (do Reader.exactly "true".toList; return .bool true)
    <|> (do Reader.exactly "false".toList; return .bool false)

/-- A value that holds no others. -/
def scalar : Reader Data :=
  (return .text (← quotedText)) <|> moment <|> real <|> integer <|> truth

/-- An array of values, which may end in a comma. -/
def array (item : Reader Data) : Reader Data := do
  Reader.char '['
  let items ← Reader.attempt
    (Reader.sepBy1 (do spacing; let d ← item; spacing; return d) (Reader.char ','))
  if items.isSome then
    let _ ← Reader.attempt (Reader.char ',')
  spacing
  Reader.char ']'
  return .list (items.getD [])

/-- A key and its value, as they stand in an inline table. -/
def pair (item : Reader Data) : Reader (List String × Data) := do
  let path ← key
  Reader.char '='
  blanks
  let d ← item
  blanks
  return (path, d)

/-- An inline table, on one line and without a comma at its end. -/
def inlineTable (item : Reader Data) : Reader Data := do
  Reader.char '\x7b'
  let pairs ← Reader.attempt (Reader.sepBy1 (pair item) (Reader.char ','))
  blanks
  Reader.char '\x7d'
  let t ← StateT.lift ((pairs.getD []).foldlM (fun t (path, d) => t.enter path d) Section.opened)
  return t.data

/-- A value with arrays and inline tables at most so many deep. -/
def value : Nat → Reader Data
  | 0 => scalar
  | depth + 1 => scalar <|> array (value depth) <|> inlineTable (value depth)

end Moniker.Toml
