import Moniker.Text.Units
import Moniker.Text.Quoted

/-! # Qualified names

A name is an optional namespace and a local name. The two parts are what counts: namespace `a`
with local name `b` and the unqualified `a/b` print alike and are different names. -/

namespace Moniker

/-- Why a pair of texts is no name. -/
inductive NameFault where
  | emptyLocal
  | emptyNamespace
  | separatorInNamespace (ns : String)
  deriving DecidableEq, Repr

def NameFault.message : NameFault → String
  | emptyLocal => "local name must not be empty"
  | emptyNamespace => "namespace must not be empty when present"
  | separatorInNamespace ns => s!"namespace `{ns}` must not contain `/`"

def separator : Char := '/'

/-- A namespace is not empty and holds no separator. -/
def NamespaceValid (ns : String) : Prop :=
  ns ≠ "" ∧ separator ∉ ns.toList

instance (ns : String) : Decidable (NamespaceValid ns) :=
  inferInstanceAs (Decidable (_ ∧ _))

/-- A namespace and the separator, if there is one, in front of a local name. -/
def joined (ns : Option String) (localName : String) : String :=
  match ns with
  | none => localName
  | some s => s ++ String.singleton separator ++ localName

/-- A local name that is not empty, under a valid namespace or none, beside the fully qualified
text of the two. The local name may hold separators. -/
structure Name where
  ns : Option String
  localName : String
  fqn : String
  localName_ne : localName ≠ ""
  ns_valid : ∀ s ∈ ns, NamespaceValid s
  fqn_eq : fqn = joined ns localName

namespace Name

@[ext] theorem ext {a b : Name} (hn : a.ns = b.ns) (hl : a.localName = b.localName) : a = b := by
  obtain ⟨_, _, _, _, _, ha⟩ := a
  obtain ⟨_, _, _, _, _, hb⟩ := b
  simp_all

/-- Names are compared by their parts, never by the fully qualified text. -/
instance : DecidableEq Name := fun a b =>
  decidable_of_decidable_of_iff (p := a.ns = b.ns ∧ a.localName = b.localName)
    ⟨fun h => ext h.1 h.2, by rintro rfl; exact ⟨rfl, rfl⟩⟩

/-- The name of two parts. The local name is looked at before the namespace. -/
def ofParts (ns : Option String) (localName : String) : Except NameFault Name :=
  if hl : localName = "" then .error .emptyLocal
  else
    match ns with
    | none => .ok ⟨none, localName, localName, hl, by simp, rfl⟩
    | some s =>
      if he : s = "" then .error .emptyNamespace
      else if hs : separator ∈ s.toList then .error (.separatorInNamespace s)
      else
        .ok ⟨some s, localName, s ++ String.singleton separator ++ localName, hl,
          by simp [NamespaceValid, he, hs], rfl⟩

def simple (localName : String) : Except NameFault Name :=
  ofParts none localName

/-- The name that a text writes: split at the first separator, unless nothing stands before it
or nothing after it, when the whole text is a local name. -/
def parse (text : String) : Except NameFault Name :=
  let before := text.toList.takeWhile (· != separator)
  let after := (text.toList.dropWhile (· != separator)).drop 1
  if before.isEmpty || after.isEmpty then ofParts none text
  else ofParts (some (String.ofList before)) (String.ofList after)

/-- The same local name under another namespace, or under none. -/
def withNamespace (q : Name) (ns : Option String) : Except NameFault Name :=
  ofParts ns q.localName

def isQualified (q : Name) : Bool :=
  q.ns.isSome

def diagnostic (q : Name) : String :=
  let space := match q.ns with
    | none => "None"
    | some s => "Some(" ++ Text.quoted s ++ ")"
  "QualifiedName \x7b namespace: " ++ space ++ ", name: " ++ Text.quoted q.localName ++ " \x7d"

/-! ## Order -/

/-- Unqualified names come first, then namespaces by their units. -/
def compareNamespaces : Option String → Option String → Ordering
  | none, none => .eq
  | none, some _ => .lt
  | some _, none => .gt
  | some a, some b => Text.compareUnits a b

/-- Names are ordered by namespace, and under one namespace by the units of the local name. -/
instance : Ord Name where
  compare a b := (compareNamespaces a.ns b.ns).then (Text.compareUnits a.localName b.localName)

/-- The names in ascending order, equal ones as they stood. -/
def sort (names : List Name) : List Name :=
  names.mergeSort fun a b => (compare a b).isLE

/-! ## Small laws -/

/-- A name is what its own parts make. -/
@[simp] theorem ofParts_self (q : Name) : ofParts q.ns q.localName = .ok q := by
  obtain ⟨ns, localName, fqn, hl, hv, hf⟩ := q
  subst hf
  cases ns with
  | none => simp [ofParts, joined, hl]
  | some s =>
    have h : NamespaceValid s := hv s rfl
    simp [ofParts, joined, hl, h.1, h.2]

/-- Two parts make a name exactly when that name has those parts. -/
theorem ofParts_eq_ok_iff {ns : Option String} {localName : String} {q : Name} :
    ofParts ns localName = .ok q ↔ q.ns = ns ∧ q.localName = localName := by
  constructor
  · intro h
    unfold ofParts at h
    split at h
    · cases h
    · split at h
      · cases h; exact ⟨rfl, rfl⟩
      · split at h
        · cases h
        · split at h
          · cases h
          · cases h; exact ⟨rfl, rfl⟩
  · rintro ⟨rfl, rfl⟩; exact ofParts_self q

end Name

end Moniker
