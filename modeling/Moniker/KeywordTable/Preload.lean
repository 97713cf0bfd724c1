import Moniker.Constant.Core
import Moniker.KeywordTable

/-! # Keywords installed in advance -/

namespace Moniker

namespace KeywordTable

/-- Installs the names of several constants and counts them. The first one without a name ends
the work. -/
def installConstants (t : KeywordTable) :
    List Constant → Nat → Except NameFault Nat × KeywordTable
  | [], count => (.ok count, t)
  | c :: rest, count =>
    match c.name with
    | .error fault => (.error fault, t)
    | .ok q => (t.intern q).2.installConstants rest (count + 1)

/-- Installs every keyword among the core constants, and tells how many there are. -/
def preload (t : KeywordTable) : Except NameFault Nat × KeywordTable :=
  match t.installConstants (Constant.coreOf .keyword) 0 with
  | (.ok count, t) => (.ok count, t.record (.constantsPreloaded count))
  | failed => failed

end KeywordTable

end Moniker
