import Moniker.Kind

/-! # Events

What the library and the commands report about their own work, beside their results. -/

namespace Moniker

/-- How much an event matters, the least first. -/
inductive Level where
  | debug
  | info
  | warn
  deriving DecidableEq, Repr, Ord

/-- Something worth a line in the log. -/
inductive Event where
  | configured (preferences : String)
  | memoFlushed (entries : Nat)
  | constantsPreloaded (count : Nat)
  | registryReady (capacity keywords : Nat)
  | literalsHashed (count : Nat)
  | hashDiffers (kind : Kind) (fqn : String) (expected computed : Int32)
  | constantsChecked (total mismatched : Nat)
  deriving DecidableEq, Repr

/-- The word by which a log line names a level. -/
def Level.text : Level → String
  | debug => "DEBUG"
  | info => "INFO"
  | warn => "WARN"

namespace Event

/-- A differing hash is a warning and a finished check is information; the rest is detail. -/
def level : Event → Level
  | hashDiffers .. => .warn
  | constantsChecked .. => .info
  | _ => .debug

def message : Event → String
  | configured preferences => s!"configuration: {preferences}"
  | memoFlushed entries => s!"flushing string hash cache after {entries} entries"
  | constantsPreloaded count => s!"preloaded {count} core keywords"
  | registryReady capacity keywords =>
    s!"identifier runtime ready (capacity {capacity}, {keywords} keywords)"
  | literalsHashed count => s!"hashed {count} literals"
  | hashDiffers kind fqn expected computed =>
    let word := kind.text
    s!"{word} {fqn} expected {expected} but computed {computed}"
  | constantsChecked total mismatched =>
    s!"checked {total} constants, {mismatched} mismatched"

end Event

end Moniker
