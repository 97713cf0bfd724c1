import Mathlib.Data.Nat.Pairing
import Moniker.Proofs.Interleaving
import Moniker.Proofs.Symbol
import Moniker.Proofs.Units

/-! # The orders of names, symbols and keywords

Names are ordered by their parts, symbols by their names, and keywords by name and then by
address. Each is a total order in which exactly the equal values tie. -/

namespace Moniker

open Std

/-- Among the values of which `p` holds, a comparison is a total order whose ties are the values
that `==` takes for equal. -/
structure OrdersBy {α : Type} [BEq α] (cmp : α → α → Ordering) (p : α → Prop) : Prop where
  swap : ∀ a b, p a → p b → cmp b a = (cmp a b).swap
  trans : ∀ a b c, p a → p b → p c → (cmp a b).isLE → (cmp b c).isLE → (cmp a c).isLE
  eq_iff : ∀ a b, p a → p b → (cmp a b = .eq ↔ a == b)

/-- A comparison that agrees with a lawful one wherever `p` holds. -/
theorem OrdersBy.of_transCmp {α : Type} [BEq α] {p : α → Prop} {cmp : α → α → Ordering}
    (lawful : α → α → Ordering) [TransCmp lawful]
    (hcmp : ∀ a b, p a → p b → cmp a b = lawful a b)
    (heq : ∀ a b, p a → p b → (lawful a b = .eq ↔ a == b)) : OrdersBy cmp p where
  swap a b ha hb := by
    rw [hcmp a b ha hb, hcmp b a hb ha]
    exact OrientedCmp.eq_swap
  trans a b c ha hb hc := by
    rw [hcmp a b ha hb, hcmp b c hb hc, hcmp a c ha hc]
    exact TransCmp.isLE_trans
  eq_iff a b ha hb := by
    rw [hcmp a b ha hb]
    exact heq a b ha hb

/-! ## Names -/

namespace Name

instance : TransCmp compareNamespaces where
  eq_swap {a b} := by
    cases a with
    | none => cases b <;> rfl
    | some s =>
        cases b with
        | none => rfl
        | some t =>
            simp only [compareNamespaces]
            exact OrientedCmp.eq_swap
  isLE_trans {a b c} hab hbc := by
    cases a with
    | none => cases c <;> rfl
    | some s =>
        -- nothing but a namespace stands after a namespace
        cases b with
        | none => cases hab
        | some t =>
            cases c with
            | none => cases hbc
            | some u =>
                simp only [compareNamespaces] at *
                exact TransCmp.isLE_trans hab hbc

instance : LawfulEqCmp compareNamespaces where
  compare_self {a} := by cases a <;> simp [compareNamespaces]
  eq_of_compare {a b} h := by
    cases a with
    | none =>
        cases b with
        | none => rfl
        | some t => cases h
    | some s =>
        cases b with
        | none => cases h
        | some t =>
            simp only [compareNamespaces] at h
            rw [LawfulEqCmp.eq_of_compare h]

/-- Names are compared lexicographically, the namespaces first. -/
theorem compare_eq_compareLex :
    (compare : Name → Name → Ordering) =
      compareLex (fun a b => compareNamespaces a.ns b.ns)
        fun a b => Text.compareUnits a.localName b.localName := rfl

instance : TransOrd Name := by
  have hns : TransCmp fun a b : Name => compareNamespaces a.ns b.ns :=
    { eq_swap := OrientedCmp.eq_swap, isLE_trans := TransCmp.isLE_trans }
  have hlocal : TransCmp fun a b : Name => Text.compareUnits a.localName b.localName :=
    { eq_swap := OrientedCmp.eq_swap, isLE_trans := TransCmp.isLE_trans }
  rw [TransOrd, compare_eq_compareLex]
  infer_instance

instance : LawfulEqOrd Name where
  compare_self {a} := ReflCmp.compare_self
  eq_of_compare {a b} h := by
    rw [compare_eq_compareLex, compareLex, Ordering.then_eq_eq] at h
    exact ext (LawfulEqCmp.eq_of_compare h.1) (LawfulEqCmp.eq_of_compare h.2)

/-- Two names can be written alike and be told apart by their order. -/
theorem exists_fqn_eq_compare_ne :
    ∃ a b : Name, a.fqn = b.fqn ∧ compare a b ≠ .eq := by
  refine ⟨⟨none, "a/b", "a/b", by decide, by simp, rfl⟩,
    ⟨some "a", "b", "a/b", by decide, by decide, by decide⟩, rfl, by decide⟩

theorem ordersBy_compare : OrdersBy (compare : Name → Name → Ordering) fun _ => True :=
  .of_transCmp compare (fun _ _ _ _ => rfl) fun a b _ _ => by
    rw [LawfulEqOrd.compare_eq_iff_eq, beq_iff_eq]

end Name

/-! ## Symbols -/

/-- In a run, the order by names ties exactly where `==` holds. -/
theorem Workshop.ordersBy_compare (supply : Supply) (tasks : List Task) :
    OrdersBy (compare : Symbol → Symbol → Ordering) (· ∈ made supply tasks) := by
  have hw := (sound_start supply).run tasks
  refine .of_transCmp (compareOn Symbol.name) (fun _ _ _ _ => rfl) ?_
  intro a b ha hb
  rw [hw.beq_iff ha hb]
  exact LawfulEqOrd.compare_eq_iff_eq

/-! ## Keywords -/

namespace Keyword

/-- A keyword that one of several tables holds. -/
def DrawnFrom (tables : List KeywordTable) (k : Keyword) : Prop :=
  ∃ t ∈ tables, k ∈ t.keywords

/-- Tables with numbers of their own never give one identity to two keywords. -/
theorem DrawnFrom.eq_of_id {tables : List KeywordTable} (hsound : ∀ t ∈ tables, t.Sound)
    (hnumbers : (tables.map (·.number)).Nodup) {a b : Keyword} (ha : DrawnFrom tables a)
    (hb : DrawnFrom tables b) (h : a.id = b.id) : a = b := by
  obtain ⟨t, ht, ha⟩ := ha
  obtain ⟨u, hu, hb⟩ := hb
  have htable : t.number = u.number := by
    rw [← (hsound t ht).table_of_mem ha, ← (hsound u hu).table_of_mem hb, h]
  obtain rfl := List.inj_on_of_nodup_map hnumbers ht hu htable
  exact (hsound t ht).eq_of_id ha hb h

/-- Where identity tells the keyword, the shortcut for identical keywords changes nothing. -/
theorem compareBy_eq_compareLex (address : KeywordId → Nat) {a b : Keyword}
    (h : a.id = b.id → a = b) :
    compareBy address a b =
      compareLex (compareOn Keyword.name) (compareOn fun k => address k.id) a b := by
  rw [compareBy]
  split
  · rename_i heq
    rw [h (beq_iff_id_eq.mp heq)]
    exact ReflCmp.compare_self.symm
  · rfl

theorem ordersBy_compareBy {tables : List KeywordTable} (hsound : ∀ t ∈ tables, t.Sound)
    (hnumbers : (tables.map (·.number)).Nodup) {address : KeywordId → Nat}
    (haddress : ∀ a b, DrawnFrom tables a → DrawnFrom tables b →
      address a.id = address b.id → a.id = b.id) :
    OrdersBy (compareBy address) (DrawnFrom tables) := by
  have hid : ∀ a b, DrawnFrom tables a → DrawnFrom tables b → a.id = b.id → a = b :=
    fun a b ha hb => ha.eq_of_id hsound hnumbers hb
  refine .of_transCmp (compareLex (compareOn Keyword.name) (compareOn fun k => address k.id))
    (fun a b ha hb => compareBy_eq_compareLex address (hid a b ha hb)) ?_
  intro a b ha hb
  rw [beq_iff_id_eq, compareLex, Ordering.then_eq_eq]
  constructor
  · rintro ⟨-, htie⟩
    exact haddress a b ha hb (LawfulEqOrd.compare_eq_iff_eq.mp htie)
  · intro h
    rw [hid a b ha hb h]
    exact ⟨ReflCmp.compare_self, ReflCmp.compare_self⟩

/-- Within one table the addresses are never looked at. -/
theorem compareBy_eq_compare_name {t : KeywordTable} (ht : t.Sound) (address : KeywordId → Nat)
    {a b : Keyword} (ha : a ∈ t.keywords) (hb : b ∈ t.keywords) :
    compareBy address a b = compare a.name b.name := by
  by_cases hname : a.name = b.name
  · obtain rfl := ht.eq_of_name ha hb hname
    rw [compareBy, if_pos (beq_iff_id_eq.mpr rfl)]
    exact ReflCmp.compare_self.symm
  · have hid : ¬a == b := fun heq =>
      hname (congrArg Keyword.name (ht.eq_of_id ha hb (beq_iff_id_eq.mp heq)))
    rw [compareBy, if_neg hid]
    cases hcmp : compare a.name b.name with
    | lt => rfl
    | eq => exact absurd (LawfulEqOrd.eq_of_compare hcmp) hname
    | gt => rfl

end Keyword

/-! ## All three -/

/-- Names, the symbols of a run, and the keywords of several tables with any addresses are each
totally ordered with exactly the equal ones as ties; being written alike makes no tie, and within
one table keywords are ordered as their names are. -/
theorem comparisons_are_total_orders :
    OrdersBy (compare : Name → Name → Ordering) (fun _ => True) ∧
    (∃ a b : Name, a.fqn = b.fqn ∧ compare a b ≠ .eq) ∧
    (∀ supply tasks,
      OrdersBy (compare : Symbol → Symbol → Ordering) (· ∈ Workshop.made supply tasks)) ∧
    ∀ (tables : List KeywordTable) (address : KeywordId → Nat),
      (∀ t ∈ tables, t.Reachable) → (tables.map (·.number)).Nodup →
      (∀ a b, Keyword.DrawnFrom tables a → Keyword.DrawnFrom tables b →
        address a.id = address b.id → a.id = b.id) →
      OrdersBy (Keyword.compareBy address) (Keyword.DrawnFrom tables) ∧
      ∀ t ∈ tables, ∀ a ∈ t.keywords, ∀ b ∈ t.keywords,
        Keyword.compareBy address a b = compare a.name b.name := by
  refine ⟨Name.ordersBy_compare, Name.exists_fqn_eq_compare_ne, Workshop.ordersBy_compare, ?_⟩
  intro tables address hreachable hnumbers haddress
  have hsound : ∀ t ∈ tables, t.Sound := fun t ht => (hreachable t ht).sound
  refine ⟨Keyword.ordersBy_compareBy hsound hnumbers haddress, ?_⟩
  intro t ht a ha b hb
  exact Keyword.compareBy_eq_compare_name (hsound t ht) address ha hb

/-- Two keywords of one name, from two tables, are no tie. -/
theorem comparisons_are_total_orders_twins :
    let q : Name := ⟨none, "k", "k", by decide, by simp, rfl⟩
    let a := ((KeywordTable.empty 0 1).intern q).1
    let first := ((KeywordTable.empty 0 1).intern q).2
    let b := ((KeywordTable.empty 1 1).intern q).1
    let second := ((KeywordTable.empty 1 1).intern q).2
    let address : KeywordId → Nat := fun id => Nat.pair id.table id.place
    (∀ t ∈ [first, second], t.Reachable) ∧ ([first, second].map (·.number)).Nodup ∧
      (∀ k l, Keyword.DrawnFrom [first, second] k → Keyword.DrawnFrom [first, second] l →
        address k.id = address l.id → k.id = l.id) ∧
      Keyword.DrawnFrom [first, second] a ∧ Keyword.DrawnFrom [first, second] b ∧
      a.name = b.name ∧ Keyword.compareBy address a b ≠ .eq ∧
      Keyword.compareBy address b a = (Keyword.compareBy address a b).swap := by
  intro q a first b second address
  have hreachable : ∀ t ∈ [first, second], t.Reachable := by
    simp only [List.forall_mem_cons, List.not_mem_nil, false_implies, implies_true, and_true]
    exact ⟨(KeywordTable.Reachable.empty 0 1).intern q, (KeywordTable.Reachable.empty 1 1).intern q⟩
  have hnumbers : ([first, second].map (·.number)).Nodup := by decide
  have haddress : ∀ k l, Keyword.DrawnFrom [first, second] k →
      Keyword.DrawnFrom [first, second] l → address k.id = address l.id → k.id = l.id := by
    intro k l _ _ h
    obtain ⟨htable, hplace⟩ := Nat.pair_eq_pair.mp h
    exact congrArg₂ KeywordId.mk htable hplace
  have ha : Keyword.DrawnFrom [first, second] a := ⟨first, by simp, List.mem_singleton.mpr rfl⟩
  have hb : Keyword.DrawnFrom [first, second] b := ⟨second, by simp, List.mem_singleton.mpr rfl⟩
  have horders := (comparisons_are_total_orders.2.2.2 [first, second] address hreachable hnumbers
    haddress).1
  have hdistinct : ¬a == b := by decide
  refine ⟨hreachable, hnumbers, haddress, ha, hb, rfl, ?_, horders.swap a b ha hb⟩
  rw [ne_eq, horders.eq_iff a b ha hb]
  exact hdistinct

end Moniker
