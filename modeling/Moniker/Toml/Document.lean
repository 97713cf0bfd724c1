import Moniker.Toml.Value

/-! # Documents

A document is a sequence of lines. An entry goes into the table that the last header opened, or
into the top one before any header. -/

namespace Moniker.Toml

open Text (Reader)

inductive Line where
  | empty
  | entry (path : List String) (d : Data)
  | header (path : List String)
  | arrayHeader (path : List String)

/-- One line, its end included. -/
def line : Reader Line := do
  blanks
  match ← Reader.peek with
  | some '#' => lineEnd; return .empty
  | some '\n' | some '\r' => newline; return .empty
  | some '[' =>
    let isArray ← Reader.attempt (Reader.exactly ['[', '['])
    if isArray.isSome then
      let path ← key
      Reader.exactly [']', ']']
      lineEnd
      return .arrayHeader path
    else
      Reader.char '['
      let path ← key
      Reader.char ']'
      lineEnd
      return .header path
  | _ =>
    let path ← key
    Reader.char '='
    blanks
    let d ← value (nestingLimit - 1)
    lineEnd
    return .entry path d

/-- The top table and the path of the table that is open. -/
structure Progress where
  top : Section
  current : List String

def Progress.step (p : Progress) : Line → Option Progress
  | .empty => some p
  | .entry path d => return ⟨← p.top.enterUnder p.current path d, p.current⟩
  | .header path => return ⟨← p.top.openTable path, path⟩
  | .arrayHeader path => return ⟨← p.top.addTable path, path⟩

/-- A text without a byte-order mark at its front. -/
def dropByteOrderMark : List Char → List Char
  | '\ufeff' :: rest => rest
  | s => s

def lines : Reader (List Line) := do
  let ls ← Reader.many line
  blanks
  return ls

/-- The top table of a document, if the text is one. -/
def parse? (text : String) : Option Data := do
  let ls ← Reader.all? lines (dropByteOrderMark text.toList)
  let p ← ls.foldlM Progress.step ⟨.opened, []⟩
  return p.top.data

end Moniker.Toml
