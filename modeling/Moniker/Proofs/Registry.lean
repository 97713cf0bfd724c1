import Moniker.Proofs.KeywordTable
import Moniker.Registry

/-! # Setting up a registry

Installing constants is interning their names. Every core constant has one, so a layout that
passes its check always gives a registry. -/

namespace Moniker

namespace KeywordTable

/-- Constants that all have names are installed as these names are interned. -/
theorem installConstants_eq {constants : List Constant} {names : List Name}
    (h : constants.map Constant.name = names.map .ok) (t : KeywordTable) (count : Nat) :
    t.installConstants constants count =
      (.ok (count + names.length), (t.internAll names).2) := by
  induction constants generalizing t count names with
  | nil =>
      obtain rfl : names = [] := by simpa using h.symm
      rfl
  | cons c rest ih =>
      cases names with
      | nil => simp at h
      | cons q names =>
          obtain ⟨hname, hrest⟩ := List.cons.inj h
          rw [installConstants, hname]
          simp only [ih hrest, List.length_cons, internAll, Nat.add_assoc, Nat.add_comm 1]

/-- The names of the keywords among the core constants. -/
def coreNames : List Name :=
  (Constant.coreOf .keyword).filterMap (·.name.toOption)

theorem map_name_coreOf : (Constant.coreOf .keyword).map Constant.name = coreNames.map .ok := by
  decide +kernel

theorem preload_eq (t : KeywordTable) :
    t.preload = (.ok coreNames.length,
      (t.internAll coreNames).2.record (.constantsPreloaded coreNames.length)) := by
  rw [preload, installConstants_eq map_name_coreOf, Nat.zero_add]

theorem Sound.preload {t : KeywordTable} (ht : t.Sound) : t.preload.2.Sound := by
  rw [preload_eq]
  exact (ht.internAll coreNames).record _

theorem extends_preload (t : KeywordTable) : t.Extends t.preload.2 := by
  rw [preload_eq]
  exact (t.extends_internAll coreNames).trans (extends_record _ _)

/-- The table that a layout asks for. -/
def setUp (number : Nat) (l : Layout) : KeywordTable :=
  let t := empty number l.memoLimit.toNat
  let t := if l.preloads then t.preload.2 else t
  t.record (.registryReady l.initialCapacity.toNat t.size)

theorem sound_setUp (number : Nat) (l : Layout) : (setUp number l).Sound := by
  refine Sound.record ?_ _
  have hempty := sound_empty number l.memoLimit.toNat
  split
  · exact hempty.preload
  · exact hempty

theorem parallel_record {t u : KeywordTable} (h : t.Parallel u) (e e' : Event) :
    (t.record e).Parallel (u.record e') :=
  ⟨h.names_eq, h.hits_eq, h.misses_eq⟩

/-- Layouts that differ in room, parts or memo only set up parallel tables. -/
theorem parallel_setUp {l l' : Layout} (h : l.preloads = l'.preloads) (number number' : Nat) :
    (setUp number l).Parallel (setUp number' l') := by
  refine parallel_record ?_ _ _
  have hempty : (empty number l.memoLimit.toNat).Parallel (empty number' l'.memoLimit.toNat) :=
    ⟨rfl, rfl, rfl⟩
  rw [← h]
  split
  · rw [preload_eq, preload_eq]
    exact parallel_record (hempty.internAll coreNames) _ _
  · exact hempty

end KeywordTable

namespace Registry

/-- Whatever the table, nothing that is left to do fails. -/
theorem finish_eq (l : Layout) (t : KeywordTable) :
    let t' := if l.preloads then t.preload.2 else t
    finish l t = .ok ⟨l, t'.record (.registryReady l.initialCapacity.toNat t'.size)⟩ := by
  by_cases hpreloads : l.preloads
  · simp only [finish, hpreloads, KeywordTable.preload_eq]
    rfl
  · simp only [finish, hpreloads]
    rfl

section

variable {m : Type → Type} [Monad m] {allocate : Allocator m} {l : Layout}

theorem ofLayoutBy_of_fault {fault : LayoutFault} (h : l.validate = .error fault) (number : Nat) :
    ofLayoutBy allocate number l = pure (.error (.layout fault)) := by
  rw [ofLayoutBy, h]

/-- A layout that passes its check gives a registry as soon as it is given a map. -/
theorem ofLayoutBy_of_validate [LawfulMonad m] (h : l.validate = .ok ()) (number : Nat) :
    ofLayoutBy allocate number l =
      (fun _ => .ok ⟨l, .setUp number l⟩) <$> allocate l.initialCapacity l.shards := by
  have hfinish : finish l (.empty number l.memoLimit.toNat) = .ok ⟨l, .setUp number l⟩ :=
    finish_eq l _
  rw [ofLayoutBy, h]
  simp only [KeywordTable.withLayout, bind_assoc, pure_bind, hfinish, map_eq_pure_bind]

theorem ofLayout_of_fault {fault : LayoutFault} (h : l.validate = .error fault) (number : Nat) :
    ofLayout number l = .error (.layout fault) := by
  rw [ofLayout, ofLayoutBy_of_fault h]
  rfl

/-- A layout that passes its check gives a registry. -/
theorem ofLayout_of_validate (h : l.validate = .ok ()) (number : Nat) :
    ofLayout number l = .ok ⟨l, .setUp number l⟩ := by
  rw [ofLayout, ofLayoutBy_of_validate h]
  rfl

end

end Registry

end Moniker
