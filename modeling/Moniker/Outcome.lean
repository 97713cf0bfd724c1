import Moniker.Host
import Moniker.Registry

/-! # Outcomes of commands -/

namespace Moniker

/-- Why a command fails. A text that is not what it should be is kept with the fault, for what the
reader of the text has to say of it. -/
inductive CommandFault where
  | noLiterals
  | mismatched (count total : Nat)
  | identifier (fault : Fault)
  | unreadable (fault : ReadFault)
  | configurationMissing (path : String)
  | configurationMalformed {s : String}
  | manifestMalformed {s : String}
  deriving DecidableEq, Repr

/-- What a reader says of texts that hold no preferences, or no manifest. The words are those of the
reader at hand, which may have none. -/
structure Complaints where
  configuration : String → String := fun _ => ""
  manifest : String → String := fun _ => ""

/-- A message with its reason, if there is one. -/
def CommandFault.explained (message reason : String) : String :=
  if reason.isEmpty then message else message ++ ": " ++ reason

def CommandFault.message (fault : CommandFault) (said : Complaints := {}) : String :=
  match fault with
  | noLiterals => "Validation error: No identifier literals specified"
  | mismatched count total => s!"{count} of {total} hash codes did not match"
  | identifier fault => fault.message
  | unreadable fault => s!"IO error: {fault.message}"
  | configurationMissing path => s!"Configuration error: Configuration file not found: {path}"
  | configurationMalformed (s := text) =>
    explained "Configuration error: Failed to parse configuration" (said.configuration text)
  | manifestMalformed (s := text) => explained "TOML error" (said.manifest text)

/-- What a command prints, what it reports of its own work, and why it fails if it does. -/
structure Outcome where
  stdout : String := ""
  events : List Event := []
  fault : Option CommandFault := none

/-- The outcome of a command that prints nothing and fails. -/
def Outcome.failed (fault : CommandFault) (events : List Event) : Outcome where
  events
  fault := some fault

end Moniker
