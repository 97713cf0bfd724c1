import Moniker.Host

/-! # A tree of files in memory

Files stand at absolute paths, and every path that leads to one is a directory. Paths are
resolved name by name, as a file system does it. -/

namespace Moniker

/-- Files at their paths, each path a list of names from the top, and the directory from which
relative paths start. -/
structure FileTree where
  home : List String
  files : List (List String × ByteArray)

namespace FileTree

def nameLimit : Nat := 255

/-- The greatest number of bytes in a path, less one. -/
def pathLimit : Nat := 4095

/-- Whether a path is a directory: the top, the home, or on the way to one of the files. -/
def isDirectory (t : FileTree) (path : List String) : Bool :=
  path.isPrefixOf t.home
    || t.files.any fun (file, _) => path.isPrefixOf file && path.length < file.length

def file? (t : FileTree) (path : List String) : Option ByteArray :=
  t.files.lookup path

/-- Follows names from a directory to a path. The names before the last must lead to
directories, and a name too long is found out when its turn comes. -/
def follow (t : FileTree) : List String → List String → Except ReadFault (List String)
  | here, [] => .ok here
  | here, name :: rest =>
    if !t.isDirectory here then
      .error (if (t.file? here).isSome then .notDirectory else .notFound)
    else if name == "" || name == "." then t.follow here rest
    else if name == ".." then t.follow here.dropLast rest
    else if nameLimit < name.utf8ByteSize then .error .nameTooLong
    else t.follow (here ++ [name]) rest

/-- What is at a path. An empty path leads nowhere. -/
def bytes (t : FileTree) (path : String) : Except ReadFault ByteArray :=
  if path.isEmpty then .error .notFound
  else if pathLimit < path.utf8ByteSize then .error .nameTooLong
  else do
    let start := if path.startsWith "/" then [] else t.home
    let target ← t.follow start (path.splitOn "/")
    match t.file? target with
    | some content => return content
    | none => .error (if t.isDirectory target then .isDirectory else .notFound)

/-- The tree as the files of a program. -/
def host (t : FileTree) : Host Id where
  bytes path := t.bytes path

end FileTree

end Moniker
