import Moniker.Report

/-! # The command line

Words are taken from left to right, first those of the program and then those of one command.
The switches for detail and colour and the choice of a configuration file may stand before the
command or after it, once in each place; the later place wins, and the environment stands in
where a place has none. A wrong word ends the reading at once, and so does a request for help or
for the version. -/

namespace Moniker

/-- The places where options stand: before the command, or after one of the two. -/
inductive Scope where
  | program
  | hash
  | verify
  deriving DecidableEq, Repr

inductive Notice where
  | help (scope : Scope)
  | version (scope : Scope)
  deriving DecidableEq, Repr

/-- Why reading the words ends early. -/
inductive Halt where
  | misuse
  | notice (n : Notice)
  deriving DecidableEq, Repr

inductive Valued where
  | config
  | format
  deriving DecidableEq, Repr

/-- What the words of one place have said so far. The last option with a value may still be
waiting for it, and is looked at when the next word that is no value comes. -/
structure Settings where
  verbose : Bool := false
  noColor : Bool := false
  config : Option String := none
  format : Option Format := none
  waiting : Option (Valued × Option String) := none
  operands : List String := []

namespace Settings

/-- Gives an option its value. An option is given once, a path is not empty, and a form is one
that there is. -/
def give (s : Settings) (option : Valued) (value : String) : Except Halt Settings :=
  match option with
  | .config =>
    if s.config.isSome || value.isEmpty then .error .misuse
    else .ok { s with config := some value }
  | .format =>
    match s.format, Format.ofText? value with
    | none, some f => .ok { s with format := some f }
    | _, _ => .error .misuse

/-- Looks at the option that waits for its value or has just got it. -/
def settle (s : Settings) : Except Halt Settings :=
  match s.waiting with
  | none => .ok s
  | some (_, none) => .error .misuse
  | some (option, some value) => { s with waiting := none }.give option value

/-- The option that has no value yet. -/
def awaited (s : Settings) : Option Valued :=
  match s.waiting with
  | some (option, none) => some option
  | _ => none

def setVerbose (s : Settings) : Except Halt Settings := do
  let s ← s.settle
  if s.verbose then throw .misuse
  return { s with verbose := true }

def setNoColor (s : Settings) : Except Halt Settings := do
  let s ← s.settle
  if s.noColor then throw .misuse
  return { s with noColor := true }

/-- Shows a notice, if all before it was in order. -/
def notify (s : Settings) (n : Notice) : Except Halt Settings := do
  let _ ← s.settle
  throw (.notice n)

/-- An option with its value in the same word, or with none so far. -/
def setValued (s : Settings) (option : Valued) (value : Option String) :
    Except Halt Settings := do
  let s ← s.settle
  match value with
  | some v => s.give option v
  | none => return { s with waiting := some (option, none) }

/-- The option of a long name. Only the commands know forms. -/
def valuedOfLong? (scope : Scope) : String → Option Valued
  | "config" => some .config
  | "format" => if scope = .program then none else some .format
  | _ => none

/-- A word with two dashes: a name, and perhaps a value after an equals sign. -/
def long (scope : Scope) (body : List Char) (s : Settings) : Except Halt Settings :=
  let name := String.ofList (body.takeWhile (· != '='))
  let value := match body.dropWhile (· != '=') with
    | [] => none
    | _ :: rest => some (String.ofList rest)
  match valuedOfLong? scope name, name, value with
  | some option, _, _ => s.setValued option value
  | none, "verbose", none => s.setVerbose
  | none, "no-color", none => s.setNoColor
  | none, "help", none => s.notify (.help scope)
  | none, "version", none => s.notify (.version scope)
  | none, _, _ => .error .misuse

def valuedOfShort? (scope : Scope) : Char → Option Valued
  | 'c' => some .config
  | 'F' => if scope = .program then none else some .format
  | _ => none

/-- The value that follows a letter in the same word, perhaps after an equals sign. -/
def attached : List Char → Option String
  | [] => none
  | '=' :: rest => some (String.ofList rest)
  | rest => some (String.ofList rest)

/-- A word with one dash: letters, of which one with a value takes the rest of the word. -/
def short (scope : Scope) : List Char → Settings → Except Halt Settings
  | [], s => .ok s
  | c :: rest, s =>
    match valuedOfShort? scope c, c with
    | some option, _ => s.setValued option (attached rest)
    | none, 'v' => do short scope rest (← s.setVerbose)
    | none, 'h' => s.notify (.help scope)
    | none, 'V' => s.notify (.version scope)
    | none, _ => .error .misuse

/-- Reads a word as an option, if it has the form of one. A dash alone has not. -/
def option? (scope : Scope) (word : String) (s : Settings) : Option (Except Halt Settings) :=
  match word.toList with
  | '-' :: '-' :: body => some (long scope body s)
  | '-' :: c :: rest => some (short scope (c :: rest) s)
  | _ => none

/-- A word that is no option: the value waited for, or an operand. Hashing takes any number of
operands, verifying one that is not empty. -/
def operand (scope : Scope) (s : Settings) (word : String) : Except Halt Settings :=
  match s.awaited with
  | some option => .ok { s with waiting := some (option, some word) }
  | none => do
    let s ← s.settle
    if scope = .verify ∧ (word.isEmpty ∨ !s.operands.isEmpty) then throw .misuse
    return { s with operands := s.operands ++ [word] }

/-- The words of a command. After two dashes alone, all are operands. -/
def ofCommand (scope : Scope) (s : Settings) : List String → Except Halt Settings
  | [] => s.settle
  | "--" :: rest => do rest.foldlM (operand scope) (← s.settle)
  | word :: rest => do
    let s ← (s.option? scope word).getD (s.operand scope word)
    s.ofCommand scope rest

/-- The topics that help knows. Below the commands there are none. -/
def helpKnows : List String → Bool
  | [] => true
  | [topic] => topic == "hash" || topic == "verify" || topic == "help"
  | _ => false

/-- The words before the command: what they say, which command it is, and its words. -/
def ofProgram (s : Settings) : List String → Except Halt (Settings × Scope × List String)
  | [] => .error .misuse
  | "--" :: _ => .error .misuse
  | word :: rest =>
    match s.option? .program word, s.awaited with
    | some read, _ => do (← read).ofProgram rest
    | none, some option => { s with waiting := some (option, some word) }.ofProgram rest
    | none, none =>
      match word with
      | "hash" => .ok (s, .hash, rest)
      | "verify" => .ok (s, .verify, rest)
      | "help" => .error (if helpKnows rest then .notice (.help .program) else .misuse)
      | _ => .error .misuse

end Settings

inductive Task where
  | hash (literals : List String)
  | verify (manifest : Option String)
  deriving DecidableEq, Repr

/-- All that the command line asks for. -/
structure Request where
  verbose : Bool
  noColor : Bool
  config : Option String
  format : Option Format
  task : Task
  deriving DecidableEq, Repr

namespace Request

/-- A switch set before or after the command, or by the environment. The environment is looked
at where a place does not set the switch, and must say `true` or `false`. -/
def switch (before after : Bool) (environment : Option String) : Except Halt Bool :=
  match environment with
  | none => .ok (before || after)
  | some "true" => .ok true
  | some "false" => .ok (before || after)
  | some _ => if before && after then .ok true else .error .misuse

/-- The path given after the command, or before it, or by the environment, which may not name
an empty one. -/
def path (before after environment : Option String) : Except Halt (Option String) :=
  if environment == some "" && !(before.isSome && after.isSome) then .error .misuse
  else .ok ((after <|> before) <|> environment)

/-- What a command is to do with its operands. Hashing needs at least one. -/
def taskOf (scope : Scope) (operands : List String) : Except Halt Task :=
  match scope, operands with
  | .verify, _ => .ok (.verify operands.head?)
  | _, [] => .error .misuse
  | _, _ => .ok (.hash operands)

/-- The request that words and environment make. The words of the command are looked at before
the last option in front of it. -/
def ofWords (env : String → Option String) (words : List String) : Except Halt Request := do
  let (before, scope, rest) ← Settings.ofProgram {} words
  let after ← Settings.ofCommand scope {} rest
  let task ← taskOf scope after.operands
  let before ← before.settle
  return {
    verbose := ← switch before.verbose after.verbose (env "FERRULE_VERBOSE")
    noColor := ← switch before.noColor after.noColor (env "FERRULE_NO_COLOR")
    config := ← path before.config after.config (env "FERRULE_CONFIG")
    format := after.format
    task }

end Request

end Moniker
