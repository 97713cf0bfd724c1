import Moniker.CommandLine
import Moniker.Description
import Moniker.Manifest.Verification
import Moniker.Preferences

/-! # The program

One run takes the words of the command line, the environment and the files, and ends in a
refusal, a notice, or the outcome of a command. The preferences are loaded before anything
else, and only with them is it known which events to tell. -/

namespace Moniker

/-- How a run ends. Of a finished command the events are those to be told. -/
inductive Ending where
  | refused
  | noticed (text : String)
  | finished (outcome : Outcome) (colored : Bool)

def version : String := "0.1.0"

namespace Notice

/-- The name under which a notice speaks of a place on the command line. -/
def subject : Scope → String
  | .program => "ferrule"
  | .hash => "ferrule-hash"
  | .verify => "ferrule-verify"

/-- How the words of a place are put. -/
def usage : Scope → String
  | .program => "Usage: ferrule [OPTIONS] <COMMAND>"
  | .hash => "Usage: ferrule hash [OPTIONS] <LITERALS>..."
  | .verify => "Usage: ferrule verify [OPTIONS] [MANIFEST]"

def text : Notice → String
  | help scope => usage scope ++ "\n"
  | version scope => subject scope ++ " " ++ Moniker.version ++ "\n"

end Notice

namespace Program

variable {m : Type → Type} [Monad m]

/-- Does a task with given preferences; a form on the command line goes before theirs. The map of
the registry is asked for by `allocate`, and taken for granted where none is told. -/
def perform (h : Host m) (p : Preferences) (format : Option Format) (task : Task)
    (allocate : Allocator m := fun _ _ => pure ()) : m Outcome := do
  match task with
  | .hash literals =>
    match ← Registry.ofLayoutBy allocate 0 p.layout with
    | .error fault => return .failed (.identifier fault) []
    | .ok r =>
      let (outcome, r) := hashCommand literals (format.getD p.format) r
      return { outcome with events := r.table.journal ++ outcome.events }
  | .verify manifest => verifyCommand h manifest (format.getD p.format)

/-- Whether an event is told: details only to those who want them. -/
def isTold (verbose : Bool) (e : Event) : Bool :=
  verbose || (compare e.level .info).isGE

def execute (h : Host m) (env : String → Option String) (r : Request)
    (allocate : Allocator m := fun _ _ => pure ()) : m Outcome := do
  match ← Preferences.load h env r.config with
  | .error fault => return .failed fault []
  | .ok p =>
    let outcome ← perform h p r.format r.task allocate
    let events := .configured p.diagnostic :: outcome.events
    return { outcome with events := events.filter (isTold (r.verbose || p.verbose)) }

/-- One run. Colour shows where something is told and is not refused. -/
def run (h : Host m) (env : String → Option String) (words : List String)
    (allocate : Allocator m := fun _ _ => pure ()) : m Ending := do
  match Request.ofWords env words with
  | .error .misuse => return .refused
  | .error (.notice n) => return .noticed n.text
  | .ok r =>
    let outcome ← execute h env r allocate
    return .finished outcome (!r.noColor && !outcome.events.isEmpty)

end Program

namespace Ending

def status : Ending → UInt32
  | refused => 2
  | noticed _ => 0
  | finished outcome _ => if outcome.fault.isSome then 1 else 0

end Ending

end Moniker
