import Moniker.Toml.Trivia

/-! # Quoted texts

Basic texts stand between double quotes and know escapes; literal texts stand between
apostrophes and know none. Either stands on one line or, with threefold quotes, on several. -/

namespace Moniker.Toml

open Text (Reader)

/-- The number that hexadecimal digits of either case write. -/
def hexNumber? : List Char → Option Nat :=
  List.foldlM (fun n c => (digit? c).map (n * 16 + ·)) 0
where
  digit? (c : Char) : Option Nat :=
    if c.isDigit then some (c.toNat - '0'.toNat)
    else if 'a' ≤ c ∧ c ≤ 'f' then some (c.toNat - 'a'.toNat + 10)
    else if 'A' ≤ c ∧ c ≤ 'F' then some (c.toNat - 'A'.toNat + 10)
    else none

/-- The scalar of a number, surrogates having none. -/
def scalar? (n : Nat) : Option Char :=
  if n.isValidChar then some (Char.ofNat n) else none

/-- Exactly so many hexadecimal digits, as the scalar they number. -/
def numbered (count : Nat) : Reader Char := fun s =>
  if s.length < count then none
  else do
    let c ← scalar? (← hexNumber? (s.take count))
    return (c, s.drop count)

/-- What follows a backslash in a basic text. -/
def escape : Reader Char
  | 'b' :: rest => some ('\x08', rest)
  | 't' :: rest => some ('\t', rest)
  | 'n' :: rest => some ('\n', rest)
  | 'f' :: rest => some ('\x0c', rest)
  | 'r' :: rest => some ('\r', rest)
  | '"' :: rest => some ('"', rest)
  | '\\' :: rest => some ('\\', rest)
  | 'u' :: rest => numbered 4 rest
  | 'U' :: rest => numbered 8 rest
  | _ => none

/-- One scalar of a basic text, other than a quote, plain or escaped. -/
def basicChar : Reader Char
  | '\\' :: rest => escape rest
  | '"' :: _ => none
  | c :: rest => if isPlain c then some (c, rest) else none
  | [] => none

/-- One scalar of a literal text, other than an apostrophe. -/
def literalChar : Reader Char :=
  Reader.satisfy fun c => isPlain c && c != '\''

/-- A text on one line. -/
def singleLine (quote : Char) (item : Reader Char) : Reader String := do
  Reader.char quote
  let cs ← Reader.many item
  Reader.char quote
  return String.ofList cs

/-- The end of a line inside a text, which counts as a line feed. -/
def lineBreak : Reader (List Char) := do
  newline
  return ['\n']

/-- A backslash at the end of a line: it and all blanks and line ends after it count as
nothing. -/
def continuation : Reader (List Char) := do
  Reader.char '\\'
  blanks
  newline
  let _ ← Reader.many (newline <|> do let _ ← Reader.satisfy isBlank)
  return []

/-- One or two quotes inside a text on several lines; three would end it. -/
def innerQuotes (quote : Char) : Reader (List Char) := do
  let qs ← Reader.run (· == quote)
  if qs.isEmpty || 2 < qs.length then failure
  return qs

/-- The end of a text on several lines: three quotes, before which one or two more belong to
the text. -/
def closingQuotes (quote : Char) : Reader (List Char) := do
  let qs ← Reader.run (· == quote)
  if qs.length < 3 || 5 < qs.length then failure
  return qs.drop 3

/-- A text on several lines. A line end right after the opening quotes is dropped. -/
def multiLine (quote : Char) (item : Reader (List Char)) : Reader String := do
  Reader.exactly [quote, quote, quote]
  let _ ← Reader.attempt newline
  let parts ← Reader.many (item <|> innerQuotes quote)
  let last ← closingQuotes quote
  return String.ofList (parts.flatten ++ last)

def basicText : Reader String :=
  singleLine '"' basicChar

def literalText : Reader String :=
  singleLine '\'' literalChar

/-- A quoted text of any of the four forms. -/
def quotedText : Reader String :=
  multiLine '"' (continuation <|> lineBreak <|> (return [← basicChar]))
    <|> multiLine '\'' (lineBreak <|> (return [← literalChar]))
    <|> basicText
    <|> literalText

end Moniker.Toml
