import Moniker.Preferences

/-! # Which preferences hold

At most one configuration file is chosen, by rules that look at nothing but which files there
are. What the chosen file holds, or why it cannot be used, is all that loading tells. -/

namespace Moniker

/-! ## Files -/

/-- The faults that say that a path leads to nothing. All others are met at something that is
there. -/
def ReadFault.isAbsence : ReadFault → Bool
  | notFound | notDirectory | nameTooLong | unreachable _ => true
  | _ => false

namespace Host

/-- A path leads to something, whether or not that can be read. -/
def Present (h : Host Id) (path : String) : Prop :=
  ∀ fault, (h.bytes path).run = .error fault → ¬fault.isAbsence

theorem holds_of_error {h : Host Id} {path : String} {fault : ReadFault}
    (hbytes : (h.bytes path).run = .error fault) : (h.holds path).run = !fault.isAbsence := by
  rw [holds, show h.bytes path = pure (.error fault) from hbytes]
  cases fault <;> rfl

theorem holds_iff {h : Host Id} {path : String} : (h.holds path).run ↔ h.Present path := by
  cases hbytes : (h.bytes path).run with
  | error fault => simp [holds_of_error hbytes, Present, hbytes]
  | ok bytes =>
      have hholds : (h.holds path).run = true := by
        rw [holds, show h.bytes path = pure (.ok bytes) from hbytes]
        rfl
      simp [hholds, Present, hbytes]

/-- A text is read back from its bytes. -/
theorem decode_toUTF8 (text : String) : decode text.toUTF8 = .ok text := by
  simp only [decode, String.fromUTF8?, String.toUTF8_eq_toByteArray, dif_pos text.isValidUTF8]
  rfl

end Host

namespace Preferences

/-! ## The file that is chosen -/

/-- Where the user's own configuration file would be. -/
def userFile? (env : String → Option String) : Option String :=
  (userDirectory env).map fun directory => below (below directory directoryName) fileName

/-- The configuration file that is chosen, if any: the one that is asked for, else the one in the
working directory if it is there, else the user's own if it is there. -/
inductive Chosen (h : Host Id) (env : String → Option String) :
    Option String → Option String → Prop where
  | asked {path} : Chosen h env (some path) (some path)
  | working : h.Present fileName → Chosen h env none (some fileName)
  | user {path} : ¬h.Present fileName → userFile? env = some path → h.Present path →
      Chosen h env none (some path)
  | absent : ¬h.Present fileName → (∀ path, userFile? env = some path → ¬h.Present path) →
      Chosen h env none none

section

variable {h : Host Id} {env : String → Option String} {asked choice : Option String}

theorem exists_chosen (h : Host Id) (env : String → Option String) (asked : Option String) :
    ∃ choice, Chosen h env asked choice := by
  cases asked with
  | some path => exact ⟨some path, .asked⟩
  | none =>
      by_cases hworking : h.Present fileName
      · exact ⟨_, .working hworking⟩
      · by_cases huser : ∃ path, userFile? env = some path ∧ h.Present path
        · obtain ⟨path, hpath, hpresent⟩ := huser
          exact ⟨_, .user hworking hpath hpresent⟩
        · exact ⟨none, .absent hworking fun path hpath hpresent => huser ⟨path, hpath, hpresent⟩⟩

theorem Chosen.unique {choice' : Option String} (hc : Chosen h env asked choice)
    (hc' : Chosen h env asked choice') : choice = choice' := by
  cases hc with
  | asked =>
      cases hc'
      rfl
  | working hworking =>
      cases hc' with
      | working _ => rfl
      | user hn _ _ => exact absurd hworking hn
      | absent hn _ => exact absurd hworking hn
  | user hn hpath hpresent =>
      cases hc' with
      | working hworking => exact absurd hworking hn
      | user _ hpath' _ => exact hpath.symm.trans hpath'
      | absent _ hnone => exact absurd hpresent (hnone _ hpath)
  | absent hn hnone =>
      cases hc' with
      | working hworking => exact absurd hworking hn
      | user _ hpath hpresent => exact absurd hpresent (hnone _ hpath)
      | absent _ _ => rfl

/-- The preferences that a choice gives: those of the file alone, or the defaults. -/
def ofChoice (h : Host Id) : Option String → Except CommandFault Preferences
  | none => .ok {}
  | some path => (loadFrom h path).run

theorem run_find? (h : Host Id) (env : String → Option String) :
    (find? h env).run =
      if (h.holds fileName).run then some fileName
      else (userFile? env).filter fun path => (h.holds path).run := by
  rw [userFile?]
  cases hdirectory : userDirectory env with
  | none =>
      simp only [find?, hdirectory]
      rfl
  | some directory =>
      simp only [find?, hdirectory]
      rfl

theorem load_of_chosen (hc : Chosen h env asked choice) :
    (load h env asked).run = ofChoice h choice := by
  have hfound : ∀ {found}, (find? h env).run = found → (load h env none).run = ofChoice h found := by
    rintro found rfl
    cases hfind : (find? h env).run with
    | none =>
        rw [load, show find? h env = pure none from hfind]
        rfl
    | some path =>
        rw [load, show find? h env = pure (some path) from hfind]
        rfl
  cases hc with
  | asked => rfl
  | working hworking =>
      apply hfound
      rw [run_find?, if_pos (Host.holds_iff.mpr hworking)]
  | user hn hpath hpresent =>
      apply hfound
      rw [run_find?, if_neg (mt Host.holds_iff.mp hn), hpath, Option.filter_some,
        if_pos (Host.holds_iff.mpr hpresent)]
  | absent hn hnone =>
      apply hfound
      rw [run_find?, if_neg (mt Host.holds_iff.mp hn), Option.filter_eq_none_iff]
      intro path hpath
      exact mt Host.holds_iff.mp (hnone path hpath)

end

/-! ## What the file holds -/

/-- Why the file at a path cannot be used, with the fault that tells so: there is none, it cannot
be read as a text, its text holds no preferences, or their layout fails its check. -/
inductive Unusable (h : Host Id) (path : String) : CommandFault → Prop where
  | missing : ¬h.Present path → Unusable h path (.configurationMissing path)
  | unreadable {fault} : h.Present path → (h.readText path).run = .error fault →
      Unusable h path (.unreadable fault)
  | malformed {text} : (h.readText path).run = .ok text →
      (Toml.parse? text).bind ofData? = none →
      Unusable h path (.configurationMalformed (s := text))
  | invalid {text p fault} : (h.readText path).run = .ok text →
      (Toml.parse? text).bind ofData? = some p → p.layout.validate = .error fault →
      Unusable h path (.identifier (.layout fault))

/-- The file at a path holds preferences, whose layout passes its check. -/
def Contains (h : Host Id) (path : String) (p : Preferences) : Prop :=
  ∃ text, (h.readText path).run = .ok text ∧ (Toml.parse? text).bind ofData? = some p ∧
    p.layout.validate = .ok ()

section

variable {h : Host Id} {path : String} {p : Preferences} {fault : CommandFault}

theorem present_of_readText {text : String} (hread : (h.readText path).run = .ok text) :
    h.Present path := by
  intro fault hbytes
  rw [Host.readText, show h.bytes path = pure (.error fault) from hbytes] at hread
  cases hread

theorem loadFrom_of_readText {text : String} (hread : (h.readText path).run = .ok text) :
    (loadFrom h path).run = parse text := by
  have hholds : (h.holds path).run = true := Host.holds_iff.mpr (present_of_readText hread)
  rw [loadFrom, show h.holds path = pure true from hholds,
    show h.readText path = pure (.ok text) from hread]
  rfl

theorem Unusable.loadFrom_eq (hu : Unusable h path fault) :
    (loadFrom h path).run = .error fault := by
  cases hu with
  | missing hn =>
      have hholds : (h.holds path).run = false := by simpa using mt Host.holds_iff.mp hn
      rw [loadFrom, show h.holds path = pure false from hholds]
      rfl
  | @unreadable fault hpresent hread =>
      have hholds : (h.holds path).run = true := Host.holds_iff.mpr hpresent
      rw [loadFrom, show h.holds path = pure true from hholds,
        show h.readText path = pure (.error fault) from hread]
      rfl
  | malformed hread hdata => rw [loadFrom_of_readText hread, parse, hdata]
  | invalid hread hdata hlayout =>
      rw [loadFrom_of_readText hread, parse, hdata]
      simp only [hlayout]

theorem Contains.loadFrom_eq (hp : Contains h path p) : (loadFrom h path).run = .ok p := by
  obtain ⟨text, hread, hdata, hlayout⟩ := hp
  rw [loadFrom_of_readText hread, parse, hdata]
  simp only [hlayout]

/-- A file can be used or there is a reason why not. -/
theorem contains_or_unusable (h : Host Id) (path : String) :
    (∃ p, Contains h path p) ∨ ∃ fault, Unusable h path fault := by
  by_cases hpresent : h.Present path
  · cases hread : (h.readText path).run with
    | error fault => exact .inr ⟨_, .unreadable hpresent hread⟩
    | ok text =>
        cases hdata : (Toml.parse? text).bind ofData? with
        | none => exact .inr ⟨_, .malformed hread hdata⟩
        | some p =>
            cases hlayout : p.layout.validate with
            | error fault => exact .inr ⟨_, .invalid hread hdata hlayout⟩
            | ok _ => exact .inl ⟨p, text, hread, hdata, hlayout⟩
  · exact .inr ⟨_, .missing hpresent⟩

theorem loadFrom_eq_ok_iff : (loadFrom h path).run = .ok p ↔ Contains h path p := by
  constructor
  · intro hload
    obtain ⟨q, hq⟩ | ⟨fault, hfault⟩ := contains_or_unusable h path
    · rw [← Except.ok.inj (hq.loadFrom_eq.symm.trans hload)]
      exact hq
    · cases hfault.loadFrom_eq.symm.trans hload
  · exact Contains.loadFrom_eq

end

theorem validate_default : ({} : Preferences).layout.validate = .ok () := rfl

/-- Preferences that were loaded have a layout that passes its check. -/
theorem validate_of_ofChoice {h : Host Id} {choice : Option String} {p : Preferences}
    (hp : ofChoice h choice = .ok p) : p.layout.validate = .ok () := by
  cases choice with
  | none =>
      rw [← Except.ok.inj hp]
      exact validate_default
  | some path =>
      obtain ⟨text, -, -, hlayout⟩ := loadFrom_eq_ok_iff.mp hp
      exact hlayout

end Preferences

end Moniker
