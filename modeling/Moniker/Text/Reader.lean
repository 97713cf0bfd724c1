/-! # Reading a text from the front

A reader takes what it needs from the front of a text and leaves the rest, or fails. Readers
are put together from a few small ones. -/

namespace Moniker.Text

/-- Takes a value from the front of a text. -/
abbrev Reader (α : Type) := StateT (List Char) Option α

namespace Reader

variable {α : Type}

/-- The next scalar, left where it is. -/
def peek : Reader (Option Char) := fun s => some (s.head?, s)

def satisfy (p : Char → Bool) : Reader Char
  | [] => none
  | c :: rest => if p c then some (c, rest) else none

def char (c : Char) : Reader Unit := do
  let _ ← satisfy (· == c)

def exactly : List Char → Reader Unit
  | [] => pure ()
  | c :: cs => do char c; exactly cs

/-- The longest run of a class, which may be empty. -/
def run (p : Char → Bool) : Reader (List Char) := fun s =>
  some (s.takeWhile p, s.dropWhile p)

/-- Succeeds only where nothing is left. -/
def done : Reader Unit
  | [] => some ((), [])
  | _ :: _ => none

/-- What a reader takes, if it succeeds; otherwise nothing is taken. -/
def attempt (p : Reader α) : Reader (Option α) := fun s =>
  match p s with
  | some (a, rest) => some (some a, rest)
  | none => some (none, s)

/-- As many as there are, one after another, but no more than there are scalars in `bound`. -/
def upTo (p : Reader α) (bound : List Char) : Reader (List α) := fun s =>
  match bound with
  | [] => some ([], s)
  | _ :: bound =>
    match p s with
    | none => some ([], s)
    | some (a, rest) => (upTo p bound rest).map fun (as, rest) => (a :: as, rest)

/-- As many as there are, one after another. There are no more rounds than scalars left, which
is enough for readers that take at least one. -/
def many (p : Reader α) : Reader (List α) := fun s =>
  upTo p s s

/-- At least one, with a separator between two. A separator that nothing follows is left. -/
def sepBy1 (p : Reader α) (separator : Reader Unit) : Reader (List α) := do
  let first ← p
  let others ← many (do separator; p)
  return first :: others

def all? (p : Reader α) (s : List Char) : Option α :=
  match p s with
  | some (a, []) => some a
  | _ => none

end Reader

end Moniker.Text
