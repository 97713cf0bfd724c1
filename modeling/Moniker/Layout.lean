import Moniker.Data
import Moniker.Text.Record

/-! # Layouts

A layout says how a registry sets up its table. No setting changes a hash code or which
keywords are equal. -/

namespace Moniker

/-- Room made in advance, number of separately locked parts, limit of the memo of namespace
hashes, and whether the core keywords are installed at the start. -/
structure Layout where
  initialCapacity : UInt64 := 256
  shards : Option UInt64 := none
  memoLimit : UInt64 := 255
  preloads : Bool := true
  deriving DecidableEq, Repr

inductive LayoutFault where
  | badShards (shards : UInt64)
  | zeroMemoLimit
  deriving DecidableEq, Repr

def LayoutFault.message : LayoutFault → String
  | badShards shards => s!"shard_amount must be a power of two greater than 1, got {shards}"
  | zeroMemoLimit => "namespace_hash_cache_limit must be greater than 0"

namespace Layout

/-- A number of parts can be used when it is a power of two greater than one: a number shares
no bit with its predecessor only if it has a single bit. -/
def usableShards (n : UInt64) : Bool :=
  2 ≤ n && n &&& (n - 1) == 0

/-- Checks the number of parts, then the limit of the memo. -/
def validate (l : Layout) : Except LayoutFault Unit :=
  match l.shards.filter (!usableShards ·) with
  | some n => .error (.badShards n)
  | none => if l.memoLimit = 0 then .error .zeroMemoLimit else .ok ()

/-- Reads a layout. Missing settings have their defaults and unknown ones are ignored. -/
def ofData? (d : Data) : Option Layout := do
  let standard : Layout := {}
  let fields ← d.fields?
    ["initial_capacity", "shard_amount", "namespace_hash_cache_limit", "preload_constants"]
  return {
    initialCapacity :=
      ← Data.defaulted? fields "initial_capacity" standard.initialCapacity Data.size?
    shards := ← Data.defaulted? fields "shard_amount" standard.shards (Data.optional? Data.size?)
    memoLimit :=
      ← Data.defaulted? fields "namespace_hash_cache_limit" standard.memoLimit Data.size?
    preloads := ← Data.defaulted? fields "preload_constants" standard.preloads Data.bool? }

def diagnostic (l : Layout) : String :=
  Text.record "RuntimeConfig"
    [("initial_capacity", toString l.initialCapacity),
      ("shard_amount", Text.optional (l.shards.map toString)),
      ("namespace_hash_cache_limit", toString l.memoLimit),
      ("preload_constants", toString l.preloads)]

end Layout

end Moniker
