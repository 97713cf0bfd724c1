import Moniker.Proofs.Literals
import Moniker.Proofs.Output

/-! # What hashing literals prints and leaves

Literals are described one after another, and the first bad one ends the work. What is printed has
all reports or none; the registry keeps the keywords that were described until then. -/

namespace Moniker

/-! ## Printing -/

namespace Report

/-- A report with a line break after each line, or after the array as a whole. -/
def printed {α : Type} (format : Format) (line : α → String) (row : α → Row) (items : List α) :
    String :=
  match format with
  | .text => String.join (items.map fun item => line item ++ "\n")
  | .json => json (items.map row) ++ "\n"

theorem intercalate_newline {lines : List String} (h : lines ≠ []) :
    String.intercalate "\n" lines ++ "\n" = String.join (lines.map (· ++ "\n")) := by
  induction lines with
  | nil => exact absurd rfl h
  | cons first lines ih =>
      cases lines with
      | nil => simp
      | cons second lines =>
          rw [String.intercalate_cons_cons, String.append_assoc, ih (List.cons_ne_nil _ _),
            List.map_cons (a := first), String.join_cons]

theorem render_newline {α : Type} {items : List α} (h : items ≠ []) (format : Format)
    (line : α → String) (row : α → Row) :
    render format line row items ++ "\n" = printed format line row items := by
  cases format with
  | text =>
      rw [render, intercalate_newline (by simpa using h), List.map_map]
      rfl
  | json => rfl

end Report

namespace Description

/-! ## What is left -/

/-- How a registry is left when the given literals were described: the names of the keywords among
them are bound as well, what was bound stays as it is, and each of these keywords was asked for. -/
structure Leaves (r : Registry) (described : List String) (r' : Registry) : Prop where
  layout_eq : r'.layout = r.layout
  names_iff : ∀ q, q ∈ r'.table.keywords.map (·.name) ↔
    q ∈ r.table.keywords.map (·.name) ∨ ∃ text, marked text ∈ described ∧ Name.parse text = .ok q
  kept : ∀ q k, r.table.find? q = some k → r'.table.find? q = some k
  requests_eq : r'.table.hits + r'.table.misses =
    r.table.hits + r.table.misses + described.countP isKeywordLiteral

theorem Leaves.refl (r : Registry) : Leaves r [] r where
  layout_eq := rfl
  names_iff := by simp
  kept := fun _ _ hk => hk
  requests_eq := rfl

theorem Leaves.trans {r r' r'' : Registry} {first second : List String} (h : Leaves r first r')
    (h' : Leaves r' second r'') : Leaves r (first ++ second) r'' where
  layout_eq := h'.layout_eq.trans h.layout_eq
  names_iff := by
    intro q
    simp only [h'.names_iff, h.names_iff, List.mem_append, or_and_right, exists_or, or_assoc]
  kept := fun q k hk => h'.kept q k (h.kept q k hk)
  requests_eq := by rw [h'.requests_eq, h.requests_eq, List.countP_append, Nat.add_assoc]

/-- What cannot be described leaves no trace. -/
theorem ofLiteral_of_fault {r : Registry} {literal : String} {fault : NameFault}
    (h : ofText literal = .error fault) : ofLiteral r literal = (.error fault, r) := by
  by_cases hmarked : ∃ text, literal = marked text
  · have hkeyword := isKeywordLiteral_iff.mpr hmarked
    obtain ⟨text, rfl⟩ := hmarked
    rw [ofText_marked, map_eq_error_iff] at h
    rw [ofLiteral, if_pos hkeyword, Registry.parseKeyword_of_fault (by rwa [dropMarker_marked])]
    rfl
  · rw [ofText_of_not_marked hmarked, map_eq_error_iff] at h
    rw [ofLiteral, if_neg (mt isKeywordLiteral_iff.mp hmarked), Symbol.parse, h]
    rfl

/-! ## Runs of literals -/

/-- After literals that are all described, the rest is described on the registry that they leave. -/
theorem ofLiterals_append {r : Registry} {before : List String} {ds : List Description}
    (h : (ofLiterals r before).1 = .ok ds) (rest : List String) :
    ofLiterals r (before ++ rest) = ((ofLiterals (ofLiterals r before).2 rest).1.map (ds ++ ·),
      (ofLiterals (ofLiterals r before).2 rest).2) := by
  induction before generalizing r ds with
  | nil =>
      obtain rfl : [] = ds := Except.ok.inj h
      exact Prod.ext (id_map (ofLiterals r rest).1).symm rfl
  | cons literal before ih =>
      rw [List.cons_append, ofLiterals, ofLiterals]
      rw [ofLiterals] at h
      cases hstep : ofLiteral r literal with
      | mk said later =>
          rw [hstep] at h
          cases said with
          | error fault => cases h
          | ok d =>
              obtain ⟨ds', hds', rfl⟩ := exists_of_map_eq_ok h
              simp only [ih hds']
              cases (ofLiterals (ofLiterals later before).2 rest).1 <;> rfl

/-- The first literal that cannot be described ends the work. -/
theorem ofLiterals_of_first_bad {r : Registry} (hr : r.Reachable) {before : List String}
    (h : ∀ literal ∈ before, ∃ d, ofText literal = .ok d) {literal : String} {fault : NameFault}
    (hbad : ofText literal = .error fault) (after : List String) :
    ofLiterals r (before ++ literal :: after) = (.error fault, (ofLiterals r before).2) := by
  obtain ⟨ds, hds, -⟩ := ofLiterals_ok hr h
  rw [ofLiterals_append hds, ofLiterals, ofLiteral_of_fault hbad]
  rfl

end Description

/-! ## The command -/

open Description

theorem hashCommand_of_error {r r' : Registry} {literals : List String} {fault : NameFault}
    (hne : literals ≠ []) (h : ofLiterals r literals = (.error fault, r')) (format : Format) :
    hashCommand literals format r = (.failed (.identifier (.name fault)) [], r') := by
  rw [hashCommand, if_neg (by simpa using hne), h]

theorem hashCommand_of_ok {r r' : Registry} {literals : List String} {ds : List Description}
    (hne : literals ≠ []) (hds : literals.map ofText = ds.map .ok)
    (h : ofLiterals r literals = (.ok ds, r')) (format : Format) :
    hashCommand literals format r =
      ({ stdout := Report.printed format line row ds
         events := [.literalsHashed literals.length] }, r') := by
  have hlength : literals.length = ds.length := by simpa using congrArg List.length hds
  have hsome : ds ≠ [] := by
    rintro rfl
    exact hne (List.eq_nil_of_length_eq_zero hlength)
  rw [hashCommand, if_neg (by simpa using hne), h, hlength, ← Report.render_newline hsome]

end Moniker
