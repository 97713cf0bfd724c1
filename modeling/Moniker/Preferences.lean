import Moniker.Outcome
import Moniker.Report
import Moniker.Toml.Document

/-! # Preferences

Preferences come from a configuration file: one that is asked for, else one in the working
directory, else the user's own. Where none is asked for and none is found the defaults hold. A
file that was chosen and cannot be used is a fault; no other file takes its place. -/

namespace Moniker

/-- Whether to tell details, the form of reports, and the layout of the registry. -/
structure Preferences where
  verbose : Bool := false
  format : Format := .text
  layout : Layout := {}
  deriving DecidableEq, Repr

namespace Preferences

def fileName : String := "ferrule.toml"

/-- The directory of the program inside the user's configuration directory. -/
def directoryName : String := "ferrule"

/-- Reads preferences. Missing ones have their defaults and unknown ones are ignored. -/
def ofData? (d : Data) : Option Preferences := do
  let standard : Preferences := {}
  let fields ← d.fields? ["verbose", "format", "runtime"]
  return {
    verbose := ← Data.defaulted? fields "verbose" standard.verbose Data.bool?
    format := ← Data.defaulted? fields "format" standard.format
      fun d => d.choice?.bind Format.ofText?
    layout := ← Data.defaulted? fields "runtime" standard.layout Layout.ofData? }

def diagnostic (p : Preferences) : String :=
  Text.record "Config"
    [("verbose", toString p.verbose), ("format", p.format.diagnostic),
      ("runtime", p.layout.diagnostic)]

/-- The preferences that a text holds. The layout must be one that can be used. -/
def parse (text : String) : Except CommandFault Preferences :=
  match (Toml.parse? text).bind ofData? with
  | none => .error (.configurationMalformed (s := text))
  | some p =>
    match p.layout.validate with
    | .error fault => .error (.identifier (.layout fault))
    | .ok () => .ok p

variable {m : Type → Type} [Monad m]

def loadFrom (h : Host m) (path : String) : m (Except CommandFault Preferences) := do
  if ← h.holds path then
    match ← h.readText path with
    | .error fault => return .error (.unreadable fault)
    | .ok text => return parse text
  else return .error (.configurationMissing path)

def below (directory name : String) : String :=
  if directory.endsWith "/" then directory ++ name else directory ++ "/" ++ name

/-- The user's configuration directory: the one the environment names if that is absolute, else
a fixed one below the user's home. Where the environment names no home there is none: the one that
the password database of the system may know is not asked for. -/
def userDirectory (env : String → Option String) : Option String :=
  match (env "XDG_CONFIG_HOME").filter (·.startsWith "/") with
  | some directory => some directory
  | none => ((env "HOME").filter (· != "")).map (below · ".config")

/-- The first file found in the usual places. -/
def find? (h : Host m) (env : String → Option String) : m (Option String) := do
  if ← h.holds fileName then return some fileName
  match userDirectory env with
  | none => return none
  | some directory =>
    let path := below (below directory directoryName) fileName
    if ← h.holds path then return some path
    return none

/-- The preferences of the file asked for, or of the first one found, or the defaults. -/
def load (h : Host m) (env : String → Option String) (asked : Option String) :
    m (Except CommandFault Preferences) := do
  match asked with
  | some path => loadFrom h path
  | none =>
    match ← find? h env with
    | some path => loadFrom h path
    | none => return .ok {}

end Preferences

end Moniker
