import Moniker.Program

/-! # The command line program

The outer layer: files and environment come from the system, and the ending of a run goes to
its streams. -/

namespace Moniker

/-- Whether a code of the system stands for an error, which some calls give with a minus. -/
def isCode (code error : UInt32) : Bool :=
  code == error || code == 0 - error

/-- Why the system could not read a file. -/
def readFault (e : IO.Error) : ReadFault :=
  match e with
  | .noFileOrDirectory .. => .notFound
  | .inappropriateType _ code _ => if isCode code 21 then .isDirectory else .notDirectory
  | .invalidArgument _ code _ => if isCode code 36 then .nameTooLong else .other (toString e)
  | _ => .other (toString e)

/-- Whether a path can be followed to its end. -/
def leads (path : String) : IO Bool := do
  try
    discard (IO.FS.realPath path)
    return true
  catch _ =>
    return false

def systemHost : Host IO where
  bytes path := do
    try
      return .ok (← IO.FS.readBinFile path)
    catch e =>
      match readFault e with
      | .other reason =>
        return .error (if ← leads path then .other reason else .unreachable reason)
      | fault => return .error fault

/-- The names under which a run looks into the environment. -/
def variableNames : List String :=
  ["FERRULE_VERBOSE", "FERRULE_NO_COLOR", "FERRULE_CONFIG", "XDG_CONFIG_HOME", "HOME"]

/-- A log line, the level coloured where colour is wanted. -/
def logLine (colored : Bool) (e : Event) : String :=
  let level := Text.padded .right 5 e.level.text
  let shade := match e.level with
    | .debug => "34"
    | .info => "32"
    | .warn => "33"
  let level := if colored then "\x1b[" ++ shade ++ "m" ++ level ++ "\x1b[0m" else level
  level ++ " " ++ e.message

end Moniker

open Moniker in
/-- Runs the program on the words of the command line. -/
def main (words : List String) : IO UInt32 := do
  let found ← variableNames.filterMapM fun name => do
    return (← IO.getEnv name).map fun value => (name, value)
  let ending ← Program.run systemHost (List.lookup · found) words
  match ending with
  | .refused => IO.eprintln (Notice.usage .program)
  | .noticed text => IO.print text
  | .finished outcome colored =>
    for e in outcome.events do
      IO.eprintln (logLine colored e)
    IO.print outcome.stdout
    if let some fault := outcome.fault then
      IO.eprintln ("Error: " ++ fault.message)
  return ending.status
