import Moniker.Hash.Murmur
import Moniker.Hash.Polynomial
import Moniker.Kind
import Moniker.Name

/-! # Hash codes of qualified names

The code of a name joins the hash of the namespace to the hash of the local name, a missing
namespace counting as zero, and adds the distance of the kind. -/

namespace Moniker.Hash

/-- The hash code of a name, the hash of its namespace being asked of `askNamespace`. An
unqualified name asks nothing. -/
def qualifiedBy {m : Type → Type} [Monad m] (askNamespace : String → m Int32) (k : Kind)
    (q : Name) : m Int32 := do
  let ns ← match q.ns with
    | none => pure 0
    | some s => askNamespace s
  return k.fold (combine (murmur q.localName) ns)

/-- The hash of a namespace, a missing one counting as zero. -/
def ofNamespace (ns : Option String) : Int32 :=
  ns.elim 0 polynomial

def qualified (k : Kind) (q : Name) : Int32 :=
  k.fold (combine (murmur q.localName) (ofNamespace q.ns))

/-- Asking the polynomial hash itself gives the hash code. -/
theorem qualifiedBy_polynomial (k : Kind) (q : Name) :
    qualifiedBy (m := Id) (fun s => pure (polynomial s)) k q = pure (qualified k q) := by
  obtain ⟨ns, _, _, _⟩ := q
  cases ns <;> rfl

end Moniker.Hash
