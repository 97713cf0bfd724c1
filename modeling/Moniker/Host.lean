/-! # The files a program sees

All that a program asks of its files is to read one. Why a file cannot be read tells whether
there is one to be found. -/

namespace Moniker

/-- Why a file cannot be read. A path is unreachable when something on the way to its end stops
one, be it a directory that may not be searched or a link that leads back to itself; any other
reason is met at what the path leads to. -/
inductive ReadFault where
  | notFound
  | notDirectory
  | isDirectory
  | nameTooLong
  | notText
  | unreachable (reason : String)
  | other (reason : String)
  deriving DecidableEq, Repr

def ReadFault.message : ReadFault → String
  | notFound => "No such file or directory (os error 2)"
  | notDirectory => "Not a directory (os error 20)"
  | isDirectory => "Is a directory (os error 21)"
  | nameTooLong => "File name too long (os error 36)"
  | notText => "stream did not contain valid UTF-8"
  | unreachable reason | other reason => reason

/-- The bytes of the files at paths, seen through some effect. -/
structure Host (m : Type → Type) where
  bytes : String → m (Except ReadFault ByteArray)

namespace Host

variable {m : Type → Type} [Monad m]

/-- Whether a path leads to anything. A directory is something. -/
def holds (h : Host m) (path : String) : m Bool := do
  match ← h.bytes path with
  | .error .notFound | .error .notDirectory | .error .nameTooLong
  | .error (.unreachable _) => return false
  | _ => return true

def decode (bytes : ByteArray) : Except ReadFault String :=
  match String.fromUTF8? bytes with
  | some s => .ok s
  | none => .error .notText

def readText (h : Host m) (path : String) : m (Except ReadFault String) := do
  return (← h.bytes path).bind decode

end Host

end Moniker
