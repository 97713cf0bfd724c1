import Moniker.Manifest
import Moniker.Outcome

/-! # Verifying a manifest

All is well when no entry differs; otherwise the differing ones are reported and the command
fails. -/

namespace Moniker

def verifyManifest (m : Manifest) (format : Format) : Outcome :=
  match Manifest.checkEntries m.entries with
  | (.error fault, events) => .failed (.identifier (.name fault)) events
  | (.ok found, events) =>
    let total := m.entries.length
    let events := events ++ [.constantsChecked total found.length]
    if found.isEmpty then { stdout := s!"{total} constants verified\n", events }
    else
      { stdout := Report.render format Mismatch.line Mismatch.row found ++ "\n"
        events
        fault := some (.mismatched found.length total) }

/-- The manifest of a file, or the one of the core constants where no file is given. -/
def loadManifest {m : Type → Type} [Monad m] (h : Host m) (path : Option String) :
    m (Except CommandFault Manifest) := do
  match path with
  | none => return .ok .builtin
  | some path =>
    match ← h.readText path with
    | .error fault => return .error (.unreadable fault)
    | .ok text =>
      return (Manifest.parse? text).elim (.error (.manifestMalformed (s := text))) .ok

/-- Checks the manifest of a file, or the core constants, and prints the result. -/
def verifyCommand {m : Type → Type} [Monad m] (h : Host m) (path : Option String)
    (format : Format) : m Outcome := do
  match ← loadManifest h path with
  | .error fault => return .failed fault []
  | .ok manifest => return verifyManifest manifest format

end Moniker
