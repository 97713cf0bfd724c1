import Moniker.Proofs.MapEquality
import Moniker.Proofs.Metadata
import Moniker.Proofs.Symbol

/-! # Equality of metadata

Metadata are equal when they bind the same keywords to equal values, in whatever order these came
in. Nothing that an edit does can tell equal metadata from each other. -/

namespace Moniker

open OrderedMap (Change SameBindings)

/-! ## Values -/

namespace MetaValue

/-- Values of one form that hold the same: one keyword, or symbols of one name, whatever their
own metadata. -/
inductive Agrees : MetaValue → MetaValue → Prop
  | bool (b : Bool) : Agrees (.bool b) (.bool b)
  | int (i : Int64) : Agrees (.int i) (.int i)
  | str (s : String) : Agrees (.str s) (.str s)
  | keyword {j k : Keyword} : j.id = k.id → Agrees (.keyword j) (.keyword k)
  | symbol {s t : Symbol} : s.name = t.name → Agrees (.symbol s) (.symbol t)

theorem Agrees.refl (v : MetaValue) : v.Agrees v := by
  cases v with
  | bool b => exact .bool b
  | int i => exact .int i
  | str s => exact .str s
  | keyword k => exact .keyword rfl
  | symbol s => exact .symbol rfl

theorem Agrees.symm {v w : MetaValue} (h : v.Agrees w) : w.Agrees v := by
  cases h with
  | bool b => exact .bool b
  | int i => exact .int i
  | str s => exact .str s
  | keyword hid => exact .keyword hid.symm
  | symbol hname => exact .symbol hname.symm

theorem Agrees.trans {u v w : MetaValue} (huv : u.Agrees v) (hvw : v.Agrees w) : u.Agrees w := by
  cases huv with
  | bool b => exact hvw
  | int i => exact hvw
  | str s => exact hvw
  | keyword hid =>
      cases hvw with
      | keyword hid' => exact .keyword (hid.trans hid')
  | symbol hname =>
      cases hvw with
      | symbol hname' => exact .symbol (hname.trans hname')

theorem agrees_equivalence : Equivalence Agrees :=
  ⟨.refl, .symm, .trans⟩

/-- A value that is no symbol, or is one of several. -/
def DrawnFrom (symbols : List Symbol) : MetaValue → Prop
  | symbol s => s ∈ symbols
  | _ => True

section

variable {shop : Workshop} {v w : MetaValue}

theorem Agrees.beq (hshop : shop.Sound) (hv : v.DrawnFrom shop.symbols)
    (hw : w.DrawnFrom shop.symbols) (h : v.Agrees w) : v == w := by
  cases h with
  | bool b => exact beq_self_eq_true b
  | int i => exact beq_self_eq_true i
  | str s => exact beq_self_eq_true s
  | keyword hid => exact Keyword.beq_iff_id_eq.mpr hid
  | symbol hname => exact (hshop.beq_iff hv hw).mpr hname

theorem agrees_of_beq (hshop : shop.Sound) (hv : v.DrawnFrom shop.symbols)
    (hw : w.DrawnFrom shop.symbols) (h : v == w) : v.Agrees w := by
  cases v with
  | bool a =>
      cases w with
      | bool b => exact eq_of_beq (α := Bool) h ▸ .bool a
      | _ => cases h
  | int a =>
      cases w with
      | int b => exact eq_of_beq (α := Int64) h ▸ .int a
      | _ => cases h
  | str a =>
      cases w with
      | str b => exact eq_of_beq (α := String) h ▸ .str a
      | _ => cases h
  | keyword j =>
      cases w with
      | keyword k => exact .keyword (Keyword.beq_iff_id_eq.mp h)
      | _ => cases h
  | symbol s =>
      cases w with
      | symbol t => exact .symbol ((hshop.beq_iff hv hw).mp h)
      | _ => cases h

theorem beq_iff_agrees (hshop : shop.Sound) (hv : v.DrawnFrom shop.symbols)
    (hw : w.DrawnFrom shop.symbols) : v == w ↔ v.Agrees w :=
  ⟨agrees_of_beq hshop hv hw, Agrees.beq hshop hv hw⟩

end

end MetaValue

/-! ## Edits -/

/-- Edits of one form that bind, remove or merge the same. -/
inductive Edit.Alike : Edit → Edit → Prop
  | assoc (k : Keyword) {v w : MetaValue} : v.Agrees w → Alike (.assoc k v) (.assoc k w)
  | dissoc (k : Keyword) : Alike (.dissoc k) (.dissoc k)
  | merge {m n : Metadata} : m.map.Distinct → n.map.Distinct →
      SameBindings MetaValue.Agrees m.map n.map → Alike (.merge m) (.merge n)

namespace Metadata

/-- Alike edits of maps with the same bindings make maps with the same bindings. -/
theorem sameBindings_edit {m n : Metadata} (hm : m.map.Distinct) (hn : n.map.Distinct)
    (h : SameBindings MetaValue.Agrees m.map n.map) {e e' : Edit} (he : e.Alike e')
    (supply supply' : Supply) :
    SameBindings MetaValue.Agrees ((m.edit e).run supply).1.map
      ((n.edit e').run supply').1.map := by
  rw [map_edit, map_edit]
  cases he with
  | assoc k hvw => exact h.insert k hvw
  | dissoc k => exact h.erase hm hn k
  | merge hm' hn' h' => exact h.merge h' hm' hn'

/-- Metadata that came about by edits in which every symbol is one of several. -/
def MadeOf (symbols : List Symbol) (m : Metadata) : Prop :=
  ∃ history, Built m history ∧
    ∀ k v, Change.bound k v ∈ history → v.DrawnFrom symbols

section

variable {symbols : List Symbol} {m n : Metadata}

theorem MadeOf.distinct (hm : m.MadeOf symbols) : m.map.Distinct := by
  obtain ⟨history, hbuilt, -⟩ := hm
  exact hbuilt.follows.distinct

/-- What metadata holds was bound at some time. -/
theorem MadeOf.drawn (hm : m.MadeOf symbols) {k : Keyword} {v : MetaValue}
    (hv : m.map.get? k = some v) : v.DrawnFrom symbols := by
  obtain ⟨history, hbuilt, hdrawn⟩ := hm
  obtain ⟨i, hbinds, -⟩ := (hbuilt.follows.get?_eq_some_iff k v).mp hv
  obtain ⟨j, hj, -⟩ := hbinds.bound
  exact hdrawn j v (List.mem_of_getElem? hj)

theorem MadeOf.assoc (hm : m.MadeOf symbols) (k : Keyword) {v : MetaValue}
    (hv : v.DrawnFrom symbols) (supply : Supply) :
    ((m.edit (.assoc k v)).run supply).1.MadeOf symbols := by
  obtain ⟨history, hbuilt, hdrawn⟩ := hm
  refine ⟨_, hbuilt.assoc k v supply, ?_⟩
  intro j w hw
  rcases List.mem_append.mp hw with hw | hw
  · exact hdrawn j w hw
  · cases List.mem_singleton.mp hw
    exact hv

theorem MadeOf.dissoc (hm : m.MadeOf symbols) (k : Keyword) (supply : Supply) :
    ((m.edit (.dissoc k)).run supply).1.MadeOf symbols := by
  obtain ⟨history, hbuilt, hdrawn⟩ := hm
  refine ⟨_, hbuilt.dissoc k supply, ?_⟩
  intro j w hw
  rcases List.mem_append.mp hw with hw | hw
  · exact hdrawn j w hw
  · cases List.mem_singleton.mp hw

theorem MadeOf.merge (hm : m.MadeOf symbols) (hn : n.MadeOf symbols) (supply : Supply) :
    ((m.edit (.merge n)).run supply).1.MadeOf symbols := by
  obtain ⟨history, hbuilt, hdrawn⟩ := hm
  obtain ⟨history', hbuilt', -⟩ := id hn
  refine ⟨_, hbuilt.merge supply hbuilt', ?_⟩
  intro j w hw
  rcases List.mem_append.mp hw with hw | hw
  · exact hdrawn j w hw
  · obtain ⟨e, he, hew⟩ := List.mem_map.mp hw
    cases hew
    exact hn.drawn (hn.distinct.get?_of_mem he)

end

/-- Metadata are equal when they have the same bindings. -/
theorem MadeOf.beq_iff {shop : Workshop} (hshop : shop.Sound) {m n : Metadata}
    (hm : m.MadeOf shop.symbols) (hn : n.MadeOf shop.symbols) :
    m == n ↔ SameBindings MetaValue.Agrees m.map n.map := by
  change m.map == n.map ↔ _
  rw [hm.distinct.beq_iff hn.distinct, OrderedMap.sameBindings_iff, OrderedMap.sameBindings_iff]
  refine and_congr_right fun _ => ?_
  constructor
  · intro h k v w hv hw
    exact MetaValue.agrees_of_beq hshop (hm.drawn hv) (hn.drawn hw) (h k v w hv hw)
  · intro h k v w hv hw
    exact (h k v w hv hw).beq hshop (hm.drawn hv) (hn.drawn hw)

/-! ## Laws of equality -/

/-- What `==` says of values and metadata in which every symbol is one of several. -/
structure EqualityLaws (symbols : List Symbol) : Prop where
  value_iff : ∀ v w : MetaValue, v.DrawnFrom symbols → w.DrawnFrom symbols →
    (v == w ↔ v.Agrees w)
  value_refl : ∀ v : MetaValue, v.DrawnFrom symbols → v == v
  value_symm : ∀ v w : MetaValue, v.DrawnFrom symbols → w.DrawnFrom symbols → v == w → w == v
  value_trans : ∀ u v w : MetaValue, u.DrawnFrom symbols → v.DrawnFrom symbols →
    w.DrawnFrom symbols → u == v → v == w → u == w
  beq_iff : ∀ m n, MadeOf symbols m → MadeOf symbols n →
    (m == n ↔ (∀ k, m.map.contains k ↔ n.map.contains k) ∧
      ∀ k v w, m.map.get? k = some v → n.map.get? k = some w → v == w)
  beq_of_perm : ∀ m n, MadeOf symbols m → MadeOf symbols n →
    m.map.entries.Perm n.map.entries → m == n
  refl : ∀ m, MadeOf symbols m → m == m
  symm : ∀ m n, MadeOf symbols m → MadeOf symbols n → m == n → n == m
  trans : ∀ l m n, MadeOf symbols l → MadeOf symbols m → MadeOf symbols n →
    l == m → m == n → l == n
  assoc : ∀ m n k v w supply supply', MadeOf symbols m → MadeOf symbols n →
    v.DrawnFrom symbols → w.DrawnFrom symbols → m == n → v == w →
    ((m.edit (.assoc k v)).run supply).1 == ((n.edit (.assoc k w)).run supply').1
  dissoc : ∀ m n k supply supply', MadeOf symbols m → MadeOf symbols n → m == n →
    ((m.edit (.dissoc k)).run supply).1 == ((n.edit (.dissoc k)).run supply').1
  merge_left : ∀ m n c supply supply', MadeOf symbols m → MadeOf symbols n → MadeOf symbols c →
    m == n → ((m.edit (.merge c)).run supply).1 == ((n.edit (.merge c)).run supply').1
  merge_right : ∀ m n c supply supply', MadeOf symbols m → MadeOf symbols n → MadeOf symbols c →
    m == n → ((c.edit (.merge m)).run supply).1 == ((c.edit (.merge n)).run supply').1
  assoc_comm : ∀ m j k v w supply supply', MadeOf symbols m → v.DrawnFrom symbols →
    w.DrawnFrom symbols → ¬j == k →
    ((m.editAll [.assoc j v, .assoc k w]).run supply).1 ==
      ((m.editAll [.assoc k w, .assoc j v]).run supply').1

theorem equalityLaws_of_sound {shop : Workshop} (hshop : shop.Sound) :
    EqualityLaws shop.symbols := by
  have hvalue : ∀ {v w : MetaValue}, v.DrawnFrom shop.symbols → w.DrawnFrom shop.symbols →
      (v == w ↔ v.Agrees w) := MetaValue.beq_iff_agrees hshop
  have hbeq : ∀ {m n : Metadata}, m.MadeOf shop.symbols → n.MadeOf shop.symbols →
      (m == n ↔ SameBindings MetaValue.Agrees m.map n.map) := MadeOf.beq_iff hshop
  have hsame : Equivalence (SameBindings (κ := Keyword) MetaValue.Agrees) :=
    OrderedMap.sameBindings_equivalence MetaValue.agrees_equivalence
  refine ⟨fun _ _ hv hw => hvalue hv hw, ?_, ?_, ?_, ?_, ?_, ?_, ?_, ?_, ?_, ?_, ?_, ?_, ?_⟩
  · intro v hv
    exact (hvalue hv hv).mpr (.refl v)
  · intro v w hv hw hvw
    exact (hvalue hw hv).mpr ((hvalue hv hw).mp hvw).symm
  · intro u v w hu hv hw huv hvw
    exact (hvalue hu hw).mpr (((hvalue hu hv).mp huv).trans ((hvalue hv hw).mp hvw))
  · intro m n hm hn
    change m.map == n.map ↔ _
    rw [hm.distinct.beq_iff hn.distinct, OrderedMap.sameBindings_iff]
  · intro m n hm hn hperm
    rw [hbeq hm hn]
    exact OrderedMap.sameBindings_of_get?_eq MetaValue.agrees_equivalence
      (hm.distinct.get?_eq_of_perm hperm)
  · intro m hm
    exact (hbeq hm hm).mpr (hsame.refl m.map)
  · intro m n hm hn hmn
    exact (hbeq hn hm).mpr (hsame.symm ((hbeq hm hn).mp hmn))
  · intro l m n hl hm hn hlm hmn
    exact (hbeq hl hn).mpr (hsame.trans ((hbeq hl hm).mp hlm) ((hbeq hm hn).mp hmn))
  · intro m n k v w supply supply' hm hn hv hw hmn hvw
    rw [hbeq (hm.assoc k hv supply) (hn.assoc k hw supply')]
    have hedit : Edit.Alike (.assoc k v) (.assoc k w) := .assoc k ((hvalue hv hw).mp hvw)
    exact sameBindings_edit hm.distinct hn.distinct ((hbeq hm hn).mp hmn) hedit supply supply'
  · intro m n k supply supply' hm hn hmn
    rw [hbeq (hm.dissoc k supply) (hn.dissoc k supply')]
    exact sameBindings_edit hm.distinct hn.distinct ((hbeq hm hn).mp hmn) (.dissoc k) supply supply'
  · intro m n c supply supply' hm hn hc hmn
    rw [hbeq (hm.merge hc supply) (hn.merge hc supply')]
    have hedit : Edit.Alike (.merge c) (.merge c) :=
      .merge hc.distinct hc.distinct (hsame.refl c.map)
    exact sameBindings_edit hm.distinct hn.distinct ((hbeq hm hn).mp hmn) hedit supply supply'
  · intro m n c supply supply' hm hn hc hmn
    rw [hbeq (hc.merge hm supply) (hc.merge hn supply')]
    have hedit : Edit.Alike (.merge m) (.merge n) :=
      .merge hm.distinct hn.distinct ((hbeq hm hn).mp hmn)
    exact sameBindings_edit hc.distinct hc.distinct (hsame.refl c.map) hedit supply supply'
  · intro m j k v w supply supply' hm hv hw hjk
    have hleft := (hm.assoc j hv supply).assoc k hw ((m.edit (.assoc j v)).run supply).2
    have hright := (hm.assoc k hw supply').assoc j hv ((m.edit (.assoc k w)).run supply').2
    refine (hbeq hleft hright).mpr ?_
    simp only [map_edit]
    exact OrderedMap.sameBindings_of_get?_eq MetaValue.agrees_equivalence
      (m.map.get?_insert_comm hjk v w)

/-- Equality of metadata is that of their bindings: an equivalence that does not see the order of
keys and that every edit respects. -/
theorem equal_metadata_same_bindings (supply : Supply) (tasks : List Workshop.Task) :
    EqualityLaws (Workshop.made supply tasks) :=
  equalityLaws_of_sound ((Workshop.sound_start supply).run tasks)

/-- Two keys bound in either order, one of them to symbols of which only one has metadata. -/
theorem equal_metadata_same_bindings_order :
    let q : Name := ⟨none, "k", "k", by decide, by simp, rfl⟩
    let key (place : Nat) : Keyword := ⟨⟨0, place⟩, q, Hash.qualified .keyword q⟩
    let tasks : List Workshop.Task := [.make (.parse "n/a"), .vary 0 (.ofEdits [])]
    ∃ a ∈ Workshop.made {} tasks, ∃ b ∈ Workshop.made {} tasks,
      a.metadata.isNone ∧ b.metadata.isSome ∧
        let m := ((ofList [(key 0, .symbol a), (key 1, .bool true)]).run {}).1
        let n := ((ofList [(key 1, .bool true), (key 0, .symbol b)]).run {}).1
        m.map.keys = [key 0, key 1] ∧ n.map.keys = [key 1, key 0] ∧ m == n := by
  intro q key tasks
  have hlaws := equal_metadata_same_bindings {} tasks
  have hmade : ∃ a b, Workshop.made {} tasks = [a, b] ∧ a.metadata.isNone ∧
      b.metadata.isSome ∧ a.name = b.name := ⟨_, _, rfl, by decide, by decide, by decide⟩
  obtain ⟨a, b, hlist, hnone, hsome, hname⟩ := hmade
  have ha : a ∈ Workshop.made {} tasks := by simp [hlist]
  have hb : b ∈ Workshop.made {} tasks := by simp [hlist]
  refine ⟨a, ha, b, hb, hnone, hsome, ?_⟩
  intro m n
  refine ⟨rfl, rfl, ?_⟩
  have hofList : ∀ pairs : List (Keyword × MetaValue),
      (∀ e ∈ pairs, e.2.DrawnFrom (Workshop.made {} tasks)) →
      ((ofList pairs).run {}).1.MadeOf (Workshop.made {} tasks) := by
    intro pairs hpairs
    refine ⟨_, .ofList pairs {}, ?_⟩
    intro k v hv
    obtain ⟨e, he, hev⟩ := List.mem_map.mp hv
    cases hev
    exact hpairs e he
  have hm : m.MadeOf (Workshop.made {} tasks) := hofList _ (by simp [MetaValue.DrawnFrom, ha])
  have hrest := hofList [(key 1, .bool true)] (by simp [MetaValue.DrawnFrom])
  have hva : (MetaValue.symbol a).DrawnFrom (Workshop.made {} tasks) := ha
  have hvb : (MetaValue.symbol b).DrawnFrom (Workshop.made {} tasks) := hb
  have hsymbols := (hlaws.value_iff _ _ hva hvb).mpr (.symbol hname)
  have hswap := hlaws.beq_of_perm m _ hm (hrest.assoc (key 0) hva {}) (.swap _ _ [])
  have hassoc :=
    hlaws.assoc _ _ (key 0) _ _ {} {} hrest hrest hva hvb (hlaws.refl _ hrest) hsymbols
  exact hlaws.trans m _ n hm (hrest.assoc _ hva {}) (hrest.assoc _ hvb {}) hswap hassoc

end Metadata

end Moniker
