import Moniker.Text.Reader

/-! # Blanks, comments and line ends -/

namespace Moniker.Toml

open Text (Reader)

def isBlank (c : Char) : Bool :=
  c == ' ' || c == '\t'

/-- A scalar that stands in comments and literal texts: any but the controls other than tab. -/
def isPlain (c : Char) : Bool :=
  c == '\t' || (0x20 ≤ c.toNat && c.toNat != 0x7f)

/-- Blanks on the line, if any. -/
def blanks : Reader Unit := do
  let _ ← Reader.run isBlank

/-- The end of a line. A carriage return counts only before a line feed. -/
def newline : Reader Unit
  | '\n' :: rest => some ((), rest)
  | '\r' :: '\n' :: rest => some ((), rest)
  | _ => none

/-- A comment, up to the end of its line. -/
def comment : Reader Unit := do
  Reader.char '#'
  let _ ← Reader.run isPlain

/-- What may follow an entry on its line: blanks, a comment, and the end of the line or text. -/
def lineEnd : Reader Unit := do
  blanks
  let _ ← Reader.attempt comment
  newline <|> Reader.done

/-- Blanks, comments and line ends, as they may stand inside an array. -/
def spacing : Reader Unit := do
  let _ ← Reader.many (newline <|> comment <|> do let _ ← Reader.satisfy isBlank)

end Moniker.Toml
