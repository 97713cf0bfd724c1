import Moniker.Proofs.Name
import Moniker.Proofs.Verification

/-! # What a check finds

A check goes through a manifest from its front and collects the entries whose hash code is not
the one that their name has. The first entry without a valid name ends it, whatever was collected
before. -/

namespace Moniker

namespace Constant

/-- The two parts make a name. -/
def Valid (c : Constant) : Prop :=
  c.localName ≠ "" ∧ ∀ s ∈ c.ns, NamespaceValid s

instance (c : Constant) : Decidable c.Valid :=
  inferInstanceAs (Decidable (_ ∧ _))

theorem exists_name_iff {c : Constant} : (∃ q, c.name = .ok q) ↔ c.Valid := by
  constructor
  · rintro ⟨q, hname⟩
    obtain ⟨hns, hlocal⟩ := Name.ofParts_eq_ok_iff.mp hname
    rw [Valid, ← hns, ← hlocal]
    exact ⟨q.localName_ne, q.ns_valid⟩
  · rintro ⟨hlocal, hns⟩
    exact ⟨_, Name.ofParts_ok hlocal hns⟩

theorem exists_fault_of_not_valid {c : Constant} (h : ¬c.Valid) : ∃ fault, c.name = .error fault := by
  cases hname : c.name with
  | error fault => exact ⟨fault, rfl⟩
  | ok q => exact absurd (exists_name_iff.mp ⟨q, hname⟩) h

/-- What there is to report of an entry: something if its name has another code. -/
def mismatch? (c : Constant) : Option Mismatch :=
  match c.name with
  | .error _ => none
  | .ok q => if Hash.qualified c.kind q = c.code then none else some (.ofEntry c q)

theorem mismatch?_of_eq {c : Constant} {q : Name} (hname : c.name = .ok q)
    (hcode : Hash.qualified c.kind q = c.code) : c.mismatch? = none := by
  simp [mismatch?, hname, hcode]

theorem mismatch?_of_ne {c : Constant} {q : Name} (hname : c.name = .ok q)
    (hcode : Hash.qualified c.kind q ≠ c.code) : c.mismatch? = some (.ofEntry c q) := by
  simp [mismatch?, hname, hcode]

/-- The code that is expected takes no part in the one that is computed. -/
theorem computed_of_name {c : Constant} {q : Name} (hname : c.name = .ok q) (code : Int32) :
    computed { c with code } = .ok (Hash.qualified c.kind q) := by
  rw [computed, show Constant.name { c with code } = .ok q from hname]
  rfl

end Constant

namespace Manifest

/-! ## Runs over the entries -/

/-- Among entries with valid names, all that differ are collected, in their order. -/
theorem checkEntries_of_valid {entries : List Constant} (h : ∀ c ∈ entries, c.Valid) :
    (checkEntries entries).1 = .ok (entries.filterMap Constant.mismatch?) := by
  induction entries with
  | nil => rfl
  | cons c rest ih =>
      obtain ⟨hc, hrest⟩ := List.forall_mem_cons.mp h
      obtain ⟨q, hname⟩ := Constant.exists_name_iff.mpr hc
      rw [checkEntries, hname]
      by_cases hcode : Hash.qualified c.kind q = c.code
      · simp only [hcode, if_true, ih hrest]
        rw [List.filterMap_cons_none (Constant.mismatch?_of_eq hname hcode)]
      · simp only [hcode, if_false, ih hrest]
        rw [List.filterMap_cons_some (Constant.mismatch?_of_ne hname hcode)]
        rfl

/-- The first entry without a name is where a check ends, and what is collected until then is
dropped. -/
theorem checkEntries_of_fault {before : List Constant} (h : ∀ b ∈ before, b.Valid) {c : Constant}
    {fault : NameFault} (hname : c.name = .error fault) (after : List Constant) :
    (checkEntries (before ++ c :: after)).1 = .error fault := by
  induction before with
  | nil => rw [List.nil_append, checkEntries, hname]
  | cons b before ih =>
      obtain ⟨hb, hbefore⟩ := List.forall_mem_cons.mp h
      obtain ⟨q, hq⟩ := Constant.exists_name_iff.mpr hb
      rw [List.cons_append, checkEntries, hq]
      by_cases hcode : Hash.qualified b.kind q = b.code
      · simp only [hcode, if_true, ih hbefore]
      · simp only [hcode, if_false, ih hbefore]
        rfl

theorem valid_of_mismatches {m : Manifest} {found : List Mismatch}
    (h : m.mismatches = .ok found) : ∀ c ∈ m.entries, c.Valid := by
  by_contra hinvalid
  obtain ⟨before, c, after, hsplit, hbefore, hc⟩ := exists_first_split hinvalid
  obtain ⟨fault, hname⟩ := Constant.exists_fault_of_not_valid hc
  rw [mismatches, hsplit, checkEntries_of_fault hbefore hname] at h
  cases h

theorem eq_of_mismatches {m : Manifest} {found : List Mismatch} (h : m.mismatches = .ok found) :
    found = m.entries.filterMap Constant.mismatch? := by
  rw [mismatches, checkEntries_of_valid (valid_of_mismatches h)] at h
  exact (Except.ok.inj h).symm

/-! ## Repairs -/

/-- The entries with the computed codes of the mismatches, one after another, in the places of
those entries that differ. -/
def repair : List Constant → List Mismatch → List Constant
  | [], _ => []
  | c :: rest, found =>
    match c.mismatch?, found with
    | some _, m :: later => { c with code := m.computed } :: repair rest later
    | _, _ => c :: repair rest found

theorem repair_cons_of_none {c : Constant} (h : c.mismatch? = none) (rest : List Constant)
    (found : List Mismatch) : repair (c :: rest) found = c :: repair rest found := by
  simp [repair, h]

theorem repair_cons_of_some {c : Constant} {m : Mismatch} (h : c.mismatch? = some m)
    (rest : List Constant) (found : List Mismatch) :
    repair (c :: rest) (m :: found) = { c with code := m.computed } :: repair rest found := by
  simp [repair, h]

/-- The mismatches of valid entries put every code right. -/
theorem computed_of_mem_repair {entries : List Constant} (h : ∀ c ∈ entries, c.Valid) :
    ∀ c ∈ repair entries (entries.filterMap Constant.mismatch?), c.computed = .ok c.code := by
  induction entries with
  | nil => simp [repair]
  | cons c rest ih =>
      obtain ⟨hc, hrest⟩ := List.forall_mem_cons.mp h
      obtain ⟨q, hname⟩ := Constant.exists_name_iff.mpr hc
      by_cases hcode : Hash.qualified c.kind q = c.code
      · have hnone := Constant.mismatch?_of_eq hname hcode
        rw [List.filterMap_cons_none hnone, repair_cons_of_none hnone]
        refine List.forall_mem_cons.mpr ⟨?_, ih hrest⟩
        rw [← hcode]
        exact Constant.computed_of_name hname c.code
      · have hsome := Constant.mismatch?_of_ne hname hcode
        rw [List.filterMap_cons_some hsome, repair_cons_of_some hsome]
        exact List.forall_mem_cons.mpr ⟨Constant.computed_of_name hname _, ih hrest⟩

end Manifest

/-! ## The result of a check -/

/-- When a check of a manifest succeeds, with what, and how it fails. -/
structure CheckSpec (m : Manifest) : Prop where
  ok_iff : (∃ found, m.mismatches = .ok found) ↔ ∀ c ∈ m.entries, c.Valid
  first_invalid : ∀ before c after, m.entries = before ++ c :: after → (∀ b ∈ before, b.Valid) →
    ¬c.Valid → ∃ fault, c.name = .error fault ∧ m.mismatches = .error fault
  found_eq : ∀ found, m.mismatches = .ok found → found = m.entries.filterMap Constant.mismatch?
  repaired : ∀ found, m.mismatches = .ok found →
    Manifest.mismatches ⟨Manifest.repair m.entries found⟩ = .ok []

theorem checkSpec (m : Manifest) : CheckSpec m where
  ok_iff := ⟨fun ⟨_, h⟩ => Manifest.valid_of_mismatches h,
    fun h => ⟨_, Manifest.checkEntries_of_valid h⟩⟩
  first_invalid := by
    intro before c after hsplit hbefore hc
    obtain ⟨fault, hname⟩ := Constant.exists_fault_of_not_valid hc
    refine ⟨fault, hname, ?_⟩
    rw [Manifest.mismatches, hsplit, Manifest.checkEntries_of_fault hbefore hname]
  found_eq := fun _ => Manifest.eq_of_mismatches
  repaired := by
    intro found h
    have hright := Manifest.computed_of_mem_repair (Manifest.valid_of_mismatches h)
    rw [Manifest.eq_of_mismatches h, Manifest.mismatches, Manifest.checkEntries_of_computed hright]

/-- How the command that checks a manifest ends. -/
structure VerdictSpec (m : Manifest) (outcome : Outcome) : Prop where
  mismatched_iff : ∀ count total, outcome.fault = some (.mismatched count total) ↔
    ∃ found, m.mismatches = .ok found ∧ found ≠ [] ∧ count = found.length ∧
      total = m.entries.length
  count_le : ∀ count total, outcome.fault = some (.mismatched count total) →
    0 < count ∧ count ≤ total
  verified : m.mismatches = .ok [] →
    outcome.fault = none ∧ outcome.stdout = s!"{m.entries.length} constants verified\n"
  invalid : ∀ fault, m.mismatches = .error fault →
    outcome.fault = some (.identifier (.name fault)) ∧ outcome.stdout = ""

theorem exists_checkEntries {m : Manifest} {result : Except NameFault (List Mismatch)}
    (h : m.mismatches = result) : ∃ events, Manifest.checkEntries m.entries = (result, events) :=
  ⟨_, Prod.ext h rfl⟩

theorem verify_of_error {m : Manifest} {fault : NameFault} (h : m.mismatches = .error fault)
    (format : Format) :
    (verifyManifest m format).fault = some (.identifier (.name fault)) ∧
      (verifyManifest m format).stdout = "" := by
  obtain ⟨events, hcheck⟩ := exists_checkEntries h
  rw [verifyManifest, hcheck]
  exact ⟨rfl, rfl⟩

theorem verify_of_nil {m : Manifest} (h : m.mismatches = .ok []) (format : Format) :
    (verifyManifest m format).fault = none ∧
      (verifyManifest m format).stdout = s!"{m.entries.length} constants verified\n" := by
  obtain ⟨events, hcheck⟩ := exists_checkEntries h
  rw [verifyManifest, hcheck]
  exact ⟨rfl, rfl⟩

theorem verify_of_ne_nil {m : Manifest} {found : List Mismatch} (h : m.mismatches = .ok found)
    (hfound : found ≠ []) (format : Format) :
    (verifyManifest m format).fault = some (.mismatched found.length m.entries.length) := by
  obtain ⟨events, hcheck⟩ := exists_checkEntries h
  rw [verifyManifest, hcheck]
  simp [hfound]

theorem verdictSpec (m : Manifest) (format : Format) :
    VerdictSpec m (verifyManifest m format) := by
  have hiff : ∀ count total, (verifyManifest m format).fault = some (.mismatched count total) ↔
      ∃ found, m.mismatches = .ok found ∧ found ≠ [] ∧ count = found.length ∧
        total = m.entries.length := by
    intro count total
    cases h : m.mismatches with
    | error fault => simp [(verify_of_error h format).1]
    | ok found =>
        by_cases hfound : found = []
        · rw [(verify_of_nil (hfound ▸ h) format).1]
          simp [hfound]
        · rw [verify_of_ne_nil h hfound format]
          simp [hfound, eq_comm]
  refine ⟨hiff, ?_, fun h => verify_of_nil h format, fun fault h => verify_of_error h format⟩
  intro count total h
  obtain ⟨found, hfound, hne, rfl, rfl⟩ := (hiff count total).mp h
  rw [Manifest.eq_of_mismatches hfound] at hne ⊢
  exact ⟨List.length_pos_iff.mpr hne, List.length_filterMap_le _ _⟩

/-- A check of a manifest succeeds when all its entries have valid names, and then reports just
those that have another code, in order; else it fails with the fault of the first entry without a
valid name. The command fails as mismatched when something is reported, telling how many of how
many. With the computed codes put in the places of the reported ones nothing is left to report. -/
theorem checked_manifest (m : Manifest) :
    CheckSpec m ∧ ∀ (h : Host Id) (path : Option String) (format : Format),
      (loadManifest h path).run = .ok m → VerdictSpec m (verifyCommand h path format).run := by
  refine ⟨checkSpec m, ?_⟩
  intro h path format hload
  have hcommand : (verifyCommand h path format).run = verifyManifest m format := by
    rw [verifyCommand, show loadManifest h path = pure (.ok m) from hload]
    rfl
  rw [hcommand]
  exact verdictSpec m format

/-- A file in which one entry with a wrong code stands twice: both are reported and put right. -/
theorem checked_manifest_twice :
    let entry := "[[constant]]\nkind = \"symbol\"\nname = \"tag\"\nhash = 1\n"
    let h : Host Id := ⟨fun _ => .ok (entry ++ entry).toUTF8⟩
    let m : Manifest := ⟨[⟨.symbol, none, "tag", 1⟩, ⟨.symbol, none, "tag", 1⟩]⟩
    let found : List Mismatch :=
      [⟨.symbol, "tag", 1, 350170304⟩, ⟨.symbol, "tag", 1, 350170304⟩]
    (loadManifest h (some "m.toml")).run = .ok m ∧ m.mismatches = .ok found ∧
      (verifyCommand h (some "m.toml") .text).run.fault = some (.mismatched 2 2) ∧
      Manifest.mismatches ⟨Manifest.repair m.entries found⟩ = .ok [] := by
  intro entry h m found
  have hload : (loadManifest h (some "m.toml")).run = .ok m := by decide +kernel
  have hfound : m.mismatches = .ok found := by decide +kernel
  obtain ⟨hcheck, hverdict⟩ := checked_manifest m
  have hmismatched := (hverdict h (some "m.toml") .text hload).mismatched_iff 2 2
  refine ⟨hload, hfound, hmismatched.mpr ⟨found, hfound, by simp [found], rfl, rfl⟩, ?_⟩
  exact hcheck.repaired found hfound

end Moniker
