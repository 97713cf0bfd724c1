import Moniker.Description
import Moniker.Manifest.Verification
import Moniker.Proofs.Requests

/-! # Descriptions and their verification

What is said of a literal depends on the literal alone, whatever the registry has been through.
So the constants that were described are verified, and one whose code was changed is found. -/

namespace Moniker

/-! ## Checking entries -/

/-- What a check finds at an entry that has a name. -/
def Mismatch.ofEntry (c : Constant) (q : Name) : Mismatch where
  kind := c.kind
  fqn := q.fqn
  expected := c.code
  computed := Hash.qualified c.kind q

theorem exists_of_map_eq_ok {ε α β : Type} {made : Except ε α} {f : α → β} {b : β}
    (h : made.map f = .ok b) : ∃ a, made = .ok a ∧ f a = b := by
  cases made with
  | error fault => cases h
  | ok a => exact ⟨a, rfl, Except.ok.inj h⟩

theorem map_eq_error_iff {ε α β : Type} {made : Except ε α} {f : α → β} {fault : ε} :
    made.map f = .error fault ↔ made = .error fault := by
  cases made with
  | error e => simp [Except.map]
  | ok a => simp [Except.map]

theorem exists_of_bind_eq_ok {ε α β : Type} {made : Except ε α} {f : α → Except ε β} {b : β}
    (h : (made >>= f) = .ok b) : ∃ a, made = .ok a ∧ f a = .ok b := by
  cases made with
  | error fault => cases h
  | ok a => exact ⟨a, rfl, h⟩

namespace Manifest

/-- Entries with the right codes leave no trace in a check. -/
theorem checkEntries_append {entries : List Constant}
    (h : ∀ c ∈ entries, c.computed = .ok c.code) (rest : List Constant) :
    checkEntries (entries ++ rest) = checkEntries rest := by
  induction entries with
  | nil => rfl
  | cons c entries ih =>
      obtain ⟨q, hname, hcode⟩ := exists_of_map_eq_ok (h c List.mem_cons_self)
      rw [List.cons_append, checkEntries, hname]
      simp only [hcode, if_true]
      exact ih fun c hc => h c (List.mem_cons_of_mem _ hc)

theorem checkEntries_of_computed {entries : List Constant}
    (h : ∀ c ∈ entries, c.computed = .ok c.code) : checkEntries entries = (.ok [], []) := by
  have happend := checkEntries_append h []
  rwa [List.append_nil] at happend

theorem checkEntries_cons_of_ne {c : Constant} {q : Name} (hname : c.name = .ok q)
    (hcode : Hash.qualified c.kind q ≠ c.code) {rest : List Constant}
    (hrest : ∀ c ∈ rest, c.computed = .ok c.code) :
    checkEntries (c :: rest) = (.ok [.ofEntry c q],
      [.hashDiffers c.kind q.fqn c.code (Hash.qualified c.kind q)]) := by
  rw [checkEntries, hname]
  simp only [hcode, if_false, checkEntries_of_computed hrest]
  rfl

/-- One entry that was put in the place of a right one is all that a check finds. -/
theorem checkEntries_set {entries : List Constant}
    (h : ∀ c ∈ entries, c.computed = .ok c.code) {i : Nat} {old : Constant}
    (hold : entries[i]? = some old) {c : Constant} {q : Name} (hname : c.name = .ok q)
    (hcode : Hash.qualified c.kind q ≠ c.code) :
    checkEntries (entries.set i c) = (.ok [.ofEntry c q],
      [.hashDiffers c.kind q.fqn c.code (Hash.qualified c.kind q)]) := by
  obtain ⟨before, after, hsplit, hset⟩ := exists_split_of_getElem? hold c
  have hbefore : ∀ c ∈ before, c.computed = .ok c.code := by
    intro c hc
    apply h
    rw [hsplit]
    exact List.mem_append_left _ hc
  have hafter : ∀ c ∈ after, c.computed = .ok c.code := by
    intro c hc
    apply h
    rw [hsplit]
    exact List.mem_append_right _ (List.mem_cons_of_mem _ hc)
  rw [hset, checkEntries_append hbefore, checkEntries_cons_of_ne hname hcode hafter]

end Manifest

/-! ## Descriptions -/

namespace Description

/-- What is said of an identifier with a kind and a name. -/
def ofName (kind : Kind) (q : Name) : Description where
  kind
  name := q
  literal := match kind with
    | .symbol => q.fqn
    | .keyword => String.singleton Keyword.marker ++ q.fqn
  code := Hash.qualified kind q

/-- What is said of a literal, no registry being asked. -/
def ofText (literal : String) : Except NameFault Description :=
  if isKeywordLiteral literal then
    (Name.parse (Registry.dropMarker literal)).map (ofName .keyword)
  else (Name.parse literal).map (ofName .symbol)

/-- The constant that a description speaks of. -/
def constant (d : Description) : Constant where
  kind := d.kind
  ns := d.name.ns
  localName := d.name.localName
  code := d.code

theorem name_constant (d : Description) (code : Int32) :
    Constant.name { d.constant with code } = .ok d.name :=
  Name.ofParts_self d.name

theorem computed_constant_ofName (kind : Kind) (q : Name) :
    (ofName kind q).constant.computed = .ok (ofName kind q).constant.code := by
  rw [Constant.computed, show (ofName kind q).constant.name = .ok q from Name.ofParts_self q]
  rfl

theorem exists_of_ofText {literal : String} {d : Description} (h : ofText literal = .ok d) :
    ∃ kind q, d = ofName kind q := by
  rw [ofText] at h
  split at h
  · obtain ⟨q, -, rfl⟩ := exists_of_map_eq_ok h
    exact ⟨.keyword, q, rfl⟩
  · obtain ⟨q, -, rfl⟩ := exists_of_map_eq_ok h
    exact ⟨.symbol, q, rfl⟩

/-- A keyword of a sound table is described by its name alone. -/
theorem ofIdent_intern {r : Registry} (hr : r.table.Sound) (q : Name) :
    ofIdent (.keyword (r.intern q).1) = ofName .keyword q := by
  have hfind := r.table.find?_intern q
  have hname : (r.intern q).1.name = q := KeywordTable.name_of_find? hfind
  have hcode : (r.intern q).1.code = Hash.qualified .keyword (r.intern q).1.name :=
    (hr.intern q).codes _ (KeywordTable.mem_of_find? hfind)
  simp [ofIdent, ofName, Identifier.kind, Identifier.name, Identifier.text, Identifier.code,
    Keyword.text, hname, hcode]

/-- Whatever a registry has been through, it describes a literal in the same way. -/
theorem ofLiteral_eq {r : Registry} (hr : r.Reachable) (literal : String) :
    (ofLiteral r literal).1 = ofText literal ∧ (ofLiteral r literal).2.Reachable := by
  by_cases hmarker : isKeywordLiteral literal
  · have hlater : (r.parseKeyword literal).2.Reachable := hr.serve (.parseKeyword literal)
    simp only [ofLiteral, ofText, hmarker, if_true]
    refine ⟨?_, hlater⟩
    rw [Registry.parseKeyword]
    cases Name.parse (Registry.dropMarker literal) with
    | error fault => rfl
    | ok q => exact congrArg Except.ok (ofIdent_intern hr.table.sound q)
  · simp only [ofLiteral, ofText, hmarker]
    refine ⟨?_, hr⟩
    rw [Symbol.parse]
    cases Name.parse literal <;> rfl

/-- Literals that can be described one by one can be described together. -/
theorem ofLiterals_ok {r : Registry} (hr : r.Reachable) {literals : List String}
    (h : ∀ literal ∈ literals, ∃ d, ofText literal = .ok d) :
    ∃ ds, (ofLiterals r literals).1 = .ok ds ∧ literals.map ofText = ds.map .ok := by
  induction literals generalizing r with
  | nil => exact ⟨[], rfl, rfl⟩
  | cons literal literals ih =>
      obtain ⟨d, hd⟩ := h literal List.mem_cons_self
      obtain ⟨hfirst, hlater⟩ := ofLiteral_eq hr literal
      obtain ⟨ds, hds, htexts⟩ := ih hlater fun text htext => h text (List.mem_cons_of_mem _ htext)
      have hstep : ofLiteral r literal = (.ok d, (ofLiteral r literal).2) :=
        Prod.ext (hfirst.trans hd) rfl
      refine ⟨d :: ds, ?_, ?_⟩
      · rw [ofLiterals, hstep]
        simp only [hds]
        rfl
      · rw [List.map_cons, List.map_cons, hd, htexts]

/-! ## Verification -/

/-- What verification finds in the constants that were described, and in those constants when the
code of one is another. -/
structure VerificationSpec (ds : List Description) : Prop where
  agree : Manifest.mismatches ⟨ds.map constant⟩ = .ok []
  differ : ∀ (i : Nat) (d : Description) (code : Int32), ds[i]? = some d → code ≠ d.code →
    Manifest.mismatches ⟨(ds.map constant).set i { d.constant with code }⟩ =
      .ok [⟨d.kind, d.name.fqn, code, d.code⟩]
  verified : ∀ format, verifyManifest ⟨ds.map constant⟩ format =
    { stdout := s!"{ds.length} constants verified\n", events := [.constantsChecked ds.length 0] }
  rejected : ∀ (i : Nat) (d : Description) (code : Int32) (format : Format), ds[i]? = some d →
    code ≠ d.code →
    (verifyManifest ⟨(ds.map constant).set i { d.constant with code }⟩ format).fault =
      some (.mismatched 1 ds.length)

theorem verificationSpec_of_ofName {ds : List Description}
    (h : ∀ d ∈ ds, ∃ kind q, d = ofName kind q) : VerificationSpec ds := by
  have hright : ∀ c ∈ ds.map constant, c.computed = .ok c.code := by
    intro c hc
    obtain ⟨d, hd, rfl⟩ := List.mem_map.mp hc
    obtain ⟨kind, q, rfl⟩ := h d hd
    exact computed_constant_ofName kind q
  have hall := Manifest.checkEntries_of_computed hright
  have hset : ∀ (i : Nat) (d : Description) (code : Int32), ds[i]? = some d → code ≠ d.code →
      Manifest.checkEntries ((ds.map constant).set i { d.constant with code }) =
        (.ok [⟨d.kind, d.name.fqn, code, d.code⟩],
          [.hashDiffers d.kind d.name.fqn code d.code]) := by
    intro i d code hd hcode
    have hold : (ds.map constant)[i]? = some d.constant := by simp [hd]
    obtain ⟨kind, q, rfl⟩ := h d (List.mem_of_getElem? hd)
    exact Manifest.checkEntries_set hright hold (name_constant _ code) hcode.symm
  refine ⟨?_, ?_, ?_, ?_⟩
  · rw [Manifest.mismatches, hall]
  · intro i d code hd hcode
    rw [Manifest.mismatches, hset i d code hd hcode]
  · intro format
    simp [verifyManifest, hall]
  · intro i d code format hd hcode
    simp [verifyManifest, hset i d code hd hcode]

/-- What is said of literals is what verification computes. If each of several literals has a
description on a registry, whatever that has been through, then all of them together are so
described, and verification agrees with every description and with no other code. -/
theorem described_literals_verify (r : Registry) (hr : r.Reachable) (literals : List String)
    (haccepted : ∀ literal ∈ literals, ∃ d, (ofLiteral r literal).1 = .ok d) :
    ∃ ds, (ofLiterals r literals).1 = .ok ds ∧
      literals.map (fun literal => (ofLiteral r literal).1) = ds.map .ok ∧
      VerificationSpec ds := by
  have htexts : literals.map (fun literal => (ofLiteral r literal).1) = literals.map ofText :=
    List.map_congr_left fun literal _ => (ofLiteral_eq hr literal).1
  obtain ⟨ds, hds, hmap⟩ := ofLiterals_ok hr fun literal hliteral => by
    obtain ⟨d, hd⟩ := haccepted literal hliteral
    exact ⟨d, (ofLiteral_eq hr literal).1.symm.trans hd⟩
  refine ⟨ds, hds, htexts.trans hmap, ?_⟩
  apply verificationSpec_of_ofName
  intro d hd
  have hmem : Except.ok d ∈ literals.map ofText := by
    rw [hmap]
    exact List.mem_map_of_mem hd
  obtain ⟨literal, -, hliteral⟩ := List.mem_map.mp hmem
  exact exists_of_ofText hliteral

/-- A keyword and a symbol, described on a registry whose table was filled before. -/
theorem described_literals_verify_pair :
    let r := ((Registry.new 0).serve (.parseKeyword ":a/x")).2
    let literals := [":a/x", "a/x"]
    r.Reachable ∧ r.table.size = 1 ∧
      (∀ literal ∈ literals, ∃ d, (ofLiteral r literal).1 = .ok d) ∧
      ∃ ds, (ofLiterals r literals).1 = .ok ds ∧
        literals.map (fun literal => (ofLiteral r literal).1) = ds.map .ok ∧
        VerificationSpec ds := by
  intro r literals
  have hr : r.Reachable := (Registry.Reachable.new 0).serve _
  have haccepted : ∀ literal ∈ literals, ∃ d, (ofLiteral r literal).1 = .ok d := by
    intro literal hliteral
    rw [(ofLiteral_eq hr literal).1]
    rcases List.mem_pair.mp hliteral with rfl | rfl
    · exact ⟨_, rfl⟩
    · exact ⟨_, rfl⟩
  exact ⟨hr, by decide, haccepted, described_literals_verify r hr literals haccepted⟩

end Description

end Moniker
