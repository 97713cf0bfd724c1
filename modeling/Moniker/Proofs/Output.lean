import Moniker.Program
import Moniker.Proofs.Preferences
import Moniker.Proofs.Verification

/-! # What the output of a run depends on

Besides its log, a run shows what it printed, its status and its fault. Of all the settings these
follow nothing but the form of reports, or the fault with which loading the preferences ended. -/

namespace Moniker

/-! ## What is shown -/

/-- What a run shows besides its log. -/
structure Shown where
  stdout : String
  status : UInt32
  fault : Option CommandFault

/-- What a finished command shows, the events left out. -/
def Outcome.shown (o : Outcome) : Shown where
  stdout := o.stdout
  status := if o.fault.isSome then 1 else 0
  fault := o.fault

def Ending.shown : Ending → Shown
  | refused => ⟨"", refused.status, none⟩
  | noticed text => ⟨text, (noticed text).status, none⟩
  | finished outcome colored => ⟨outcome.stdout, (finished outcome colored).status, outcome.fault⟩

/-- What a task comes to in a given form. Literals are hashed by a registry that holds nothing. -/
def Task.outcome (h : Host Id) (format : Format) : Task → Outcome
  | .hash literals => (hashCommand literals format (.new 0)).1
  | .verify manifest => (verifyCommand h manifest format).run

/-- What is shown of a task when loading has ended with a fault, or with the form of reports. -/
def Task.shown (t : Task) (h : Host Id) : Except CommandFault Format → Shown
  | .error fault => (Outcome.failed fault []).shown
  | .ok format => (t.outcome h format).shown

/-! ## Commands -/

/-- Literals are described one by one, the registry taking no part. -/
theorem Description.ofLiterals_eq_mapM {r : Registry} (hr : r.Reachable) (literals : List String) :
    (ofLiterals r literals).1 = literals.mapM ofText := by
  induction literals generalizing r with
  | nil => rfl
  | cons literal literals ih =>
      obtain ⟨hfirst, hlater⟩ := ofLiteral_eq hr literal
      have hstep : ofLiteral r literal = (ofText literal, (ofLiteral r literal).2) :=
        Prod.ext hfirst rfl
      rw [ofLiterals, hstep, List.mapM_cons, ← ih hlater]
      cases ofText literal with
      | error fault => rfl
      | ok d =>
          simp only []
          cases (ofLiterals (ofLiteral r literal).2 literals).1 <;> rfl

/-- Two registries, whatever they have been through, hash literals with one outcome. -/
theorem hashCommand_eq {r r' : Registry} (hr : r.Reachable) (hr' : r'.Reachable)
    (literals : List String) (format : Format) :
    (hashCommand literals format r).1 = (hashCommand literals format r').1 := by
  have hfirst : Description.ofLiterals r literals =
      (literals.mapM Description.ofText, (Description.ofLiterals r literals).2) :=
    Prod.ext (Description.ofLiterals_eq_mapM hr literals) rfl
  have hsecond : Description.ofLiterals r' literals =
      (literals.mapM Description.ofText, (Description.ofLiterals r' literals).2) :=
    Prod.ext (Description.ofLiterals_eq_mapM hr' literals) rfl
  rw [hashCommand, hashCommand]
  split
  · rfl
  · rw [hfirst, hsecond]
    cases literals.mapM Description.ofText <;> rfl

/-- Of the files a task looks at none but its manifest. -/
theorem Task.outcome_congr {h h' : Host Id} {t : Task}
    (hmanifest : ∀ path, t = .verify (some path) → h.bytes path = h'.bytes path)
    (format : Format) : t.outcome h format = t.outcome h' format := by
  cases t with
  | hash literals => rfl
  | verify manifest =>
      cases manifest with
      | none => rfl
      | some path =>
          simp only [outcome, verifyCommand, loadManifest, Host.readText, hmanifest path rfl]

theorem Task.shown_congr {h h' : Host Id} {t : Task}
    (hmanifest : ∀ path, t = .verify (some path) → h.bytes path = h'.bytes path)
    (loaded : Except CommandFault Format) : t.shown h loaded = t.shown h' loaded := by
  cases loaded with
  | error fault => rfl
  | ok format => rw [shown, shown, outcome_congr hmanifest]

namespace Program

/-- A usable layout leaves no trace in what a task comes to. -/
theorem perform_shown {p : Preferences} (hp : p.layout.validate = .ok ()) (h : Host Id)
    (format : Option Format) (t : Task) :
    (perform h p format t).run.shown = (t.outcome h (format.getD p.format)).shown := by
  cases t with
  | hash literals =>
      have hlayout := Registry.ofLayout_of_validate hp 0
      have heq := hashCommand_eq (.ofLayout hlayout) (.new 0) literals (format.getD p.format)
      have hmade : Registry.ofLayoutBy (fun _ _ => pure ()) 0 p.layout =
          (pure (.ok ⟨p.layout, .setUp 0 p.layout⟩) : Id _) :=
        Registry.ofLayoutBy_of_validate hp 0
      rw [Task.outcome, ← heq]
      simp only [perform, hmade]
      rfl
  | verify manifest => rfl

theorem run_shown {h : Host Id} {env : String → Option String} {words : List String} {r : Request}
    (hr : Request.ofWords env words = .ok r) {choice : Option String}
    (hc : Preferences.Chosen h env r.config choice) :
    (run h env words).run.shown =
      r.task.shown h ((Preferences.ofChoice h choice).map fun p => r.format.getD p.format) := by
  have hload := Preferences.load_of_chosen hc
  rw [run, hr]
  cases hchoice : Preferences.ofChoice h choice with
  | error fault =>
      rw [hchoice] at hload
      simp only [execute, show Preferences.load h env r.config = pure (.error fault) from hload]
      rfl
  | ok p =>
      rw [hchoice] at hload
      simp only [execute, show Preferences.load h env r.config = pure (.ok p) from hload]
      exact perform_shown (Preferences.validate_of_ofChoice hchoice) h r.format r.task

end Program

/-! ## Words and environment -/

namespace Request

theorem eq_of_path_eq_ok {before after environment path : Option String}
    (h : Request.path before after environment = .ok path) :
    path = ((after <|> before) <|> environment) := by
  rw [Request.path] at h
  split at h
  · cases h
  · exact (Except.ok.inj h).symm

/-- What the words say by themselves decides on task and form, and on the file that is asked for
if they name one; where they name none the environment may. -/
theorem exists_own {env : String → Option String} {words : List String} {r : Request}
    (hr : ofWords env words = .ok r) :
    ∃ own, ofWords (fun _ => none) words = .ok own ∧ own.task = r.task ∧
      own.format = r.format ∧ r.config = (own.config <|> env "FERRULE_CONFIG") := by
  obtain ⟨⟨before, scope, rest⟩, hprogram, hr⟩ := exists_of_bind_eq_ok hr
  obtain ⟨after, hafter, hr⟩ := exists_of_bind_eq_ok hr
  obtain ⟨task, htask, hr⟩ := exists_of_bind_eq_ok hr
  obtain ⟨settled, hsettled, hr⟩ := exists_of_bind_eq_ok hr
  obtain ⟨verbose, -, hr⟩ := exists_of_bind_eq_ok hr
  obtain ⟨noColor, -, hr⟩ := exists_of_bind_eq_ok hr
  obtain ⟨config, hconfig, hr⟩ := exists_of_bind_eq_ok hr
  obtain rfl := Except.ok.inj hr
  let own : Request :=
    { verbose := settled.verbose || after.verbose
      noColor := settled.noColor || after.noColor
      config := (after.config <|> settled.config) <|> none
      format := after.format
      task }
  refine ⟨own, ?_, rfl, rfl, ?_⟩
  · simp only [ofWords, hprogram, hafter, htask, hsettled, bind, Except.bind]
    rfl
  · change config = (((after.config <|> settled.config) <|> none) <|> env "FERRULE_CONFIG")
    rw [eq_of_path_eq_ok hconfig]
    cases after.config <;> cases settled.config <;> rfl

end Request

/-! ## Two runs -/

open Preferences (Chosen Unusable ofChoice)

/-- The form of reports that the loading of the chosen file comes to, or the fault with which it
ends. A form on the command line goes before the one of the file. -/
def Request.basis (r : Request) (h : Host Id) (choice : Option String) :
    Except CommandFault Format :=
  (ofChoice h choice).map fun p => r.format.getD p.format

/-- Two runs with one task, one manifest, and one result of loading as far as it matters. -/
structure SameBasis (h h' : Host Id) (r r' : Request) (choice choice' : Option String) : Prop where
  task_eq : r.task = r'.task
  manifest_eq : ∀ path, r.task = .verify (some path) → h.bytes path = h'.bytes path
  basis_eq : r.basis h choice = r'.basis h' choice'

/-- The files at a path are the same, or both hold preferences with one form of reports. -/
def SameForm (h h' : Host Id) (path : String) : Prop :=
  h.bytes path = h'.bytes path ∨
    ∃ p p', Preferences.Contains h path p ∧ Preferences.Contains h' path p' ∧ p.format = p'.format

/-- Two runs that differ at most in detail and colour, in files other than the chosen one and the
manifest, and in those preferences of the chosen file that are not the form of reports. -/
structure SameButSettings (h h' : Host Id) (r r' : Request) (choice : Option String) : Prop where
  task_eq : r.task = r'.task
  format_eq : r.format = r'.format
  manifest_eq : ∀ path, r.task = .verify (some path) → h.bytes path = h'.bytes path
  chosen_eq : ∀ path, choice = some path → SameForm h h' path

theorem SameForm.basis_eq {h h' : Host Id} {path : String} (hform : SameForm h h' path) (r : Request) :
    r.basis h (some path) = r.basis h' (some path) := by
  rcases hform with hbytes | ⟨p, p', hp, hp', hformat⟩
  · simp only [Request.basis, ofChoice, Preferences.loadFrom, Host.holds, Host.readText, hbytes]
  · simp only [Request.basis, ofChoice, hp.loadFrom_eq, hp'.loadFrom_eq, Except.map, hformat]

theorem SameButSettings.sameBasis {h h' : Host Id} {r r' : Request} {choice : Option String}
    (hsame : SameButSettings h h' r r' choice) : SameBasis h h' r r' choice choice where
  task_eq := hsame.task_eq
  manifest_eq := hsame.manifest_eq
  basis_eq := by
    have hformat : r'.basis h' choice = r.basis h' choice := by
      rw [Request.basis, Request.basis, hsame.format_eq]
    rw [hformat]
    cases choice with
    | none => rfl
    | some path => exact (hsame.chosen_eq path rfl).basis_eq r

/-- What the output of a run follows: the file that is asked for by the words, or else by the
environment; the choice of a file by what there is; the fault of an unusable file; and nothing
that another run with the same basis does not have. -/
structure OutputSpec (h : Host Id) (env : String → Option String) (words : List String)
    (r : Request) : Prop where
  own : ∃ own, Request.ofWords (fun _ => none) words = .ok own ∧ own.task = r.task ∧
    own.format = r.format ∧ r.config = (own.config <|> env "FERRULE_CONFIG")
  chosen : ∃ choice, Chosen h env r.config choice ∧
    ∀ choice', Chosen h env r.config choice' → choice' = choice
  shown_eq : ∀ choice, Chosen h env r.config choice →
    (Program.run h env words).run.shown = r.task.shown h (r.basis h choice)
  unusable : ∀ path fault, Chosen h env r.config (some path) → Unusable h path fault →
    (Program.run h env words).run.shown = ⟨"", 1, some fault⟩
  sameBasis : ∀ h' env' words' r' choice choice', Request.ofWords env' words' = .ok r' →
    Chosen h env r.config choice → Chosen h' env' r'.config choice' →
    SameBasis h h' r r' choice choice' →
    (Program.run h env words).run.shown = (Program.run h' env' words').run.shown
  sameButSettings : ∀ h' env' words' r' choice, Request.ofWords env' words' = .ok r' →
    Chosen h env r.config choice → Chosen h' env' r'.config choice →
    SameButSettings h h' r r' choice →
    (Program.run h env words).run.shown = (Program.run h' env' words').run.shown

theorem shown_eq_of_sameBasis {h h' : Host Id} {env env' : String → Option String}
    {words words' : List String} {r r' : Request} {choice choice' : Option String}
    (hr : Request.ofWords env words = .ok r) (hr' : Request.ofWords env' words' = .ok r')
    (hc : Chosen h env r.config choice) (hc' : Chosen h' env' r'.config choice')
    (hsame : SameBasis h h' r r' choice choice') :
    (Program.run h env words).run.shown = (Program.run h' env' words').run.shown := by
  rw [Program.run_shown hr hc, Program.run_shown hr' hc', ← hsame.task_eq,
    Task.shown_congr hsame.manifest_eq]
  exact congrArg _ hsame.basis_eq

/-- A run shows the same as any other with the same task and manifest for which loading the chosen
configuration file ends in the same fault or leads to the same form of reports. Detail, colour,
layouts and the files that are not chosen never show, and an unusable file that was chosen is a
fault with no output. -/
theorem output_follows_basis (h : Host Id) (env : String → Option String) (words : List String)
    (r : Request) (hr : Request.ofWords env words = .ok r) : OutputSpec h env words r where
  own := Request.exists_own hr
  chosen := by
    obtain ⟨choice, hc⟩ := Preferences.exists_chosen h env r.config
    exact ⟨choice, hc, fun choice' hc' => hc'.unique hc⟩
  shown_eq := fun _ hc => Program.run_shown hr hc
  unusable := by
    intro path fault hc hfault
    rw [Program.run_shown hr hc, ofChoice, hfault.loadFrom_eq]
    rfl
  sameBasis := fun _ _ _ _ _ _ hr' hc hc' hsame => shown_eq_of_sameBasis hr hr' hc hc' hsame
  sameButSettings := fun _ _ _ _ _ hr' hc hc' hsame =>
    shown_eq_of_sameBasis hr hr' hc hc' hsame.sameBasis

/-- Two files in the working directory that differ in a layout and in detail, and command lines that
differ in colour: one output. -/
theorem output_follows_basis_settings :
    let env : String → Option String := fun _ => none
    let words := ["hash", ":a"]
    let words' := ["--no-color", "hash", ":a"]
    let text := "format=\"json\""
    let text' := "format=\"json\"\nverbose=true\nruntime.shard_amount=2"
    let h : Host Id := ⟨fun _ => .ok text.toUTF8⟩
    let h' : Host Id := ⟨fun _ => .ok text'.toUTF8⟩
    let r : Request := ⟨false, false, none, none, .hash [":a"]⟩
    let r' : Request := ⟨false, true, none, none, .hash [":a"]⟩
    Request.ofWords env words = .ok r ∧ Request.ofWords env words' = .ok r' ∧
      Chosen h env r.config (some "ferrule.toml") ∧ Chosen h' env r'.config (some "ferrule.toml") ∧
      SameButSettings h h' r r' (some "ferrule.toml") ∧
      (Program.run h env words).run.shown = (Program.run h' env words').run.shown := by
  intro env words words' text text' h h' r r'
  have hr : Request.ofWords env words = .ok r := by decide
  have hr' : Request.ofWords env words' = .ok r' := by decide
  have hc : Chosen h env r.config (some "ferrule.toml") := .working nofun
  have hc' : Chosen h' env r'.config (some "ferrule.toml") := .working nofun
  have hform : SameForm h h' "ferrule.toml" := by
    refine .inr ⟨⟨false, .json, {}⟩, ⟨true, .json, { shards := some 2 }⟩,
      ⟨text, congrArg _ (Host.decode_toUTF8 text), ?_, rfl⟩,
      ⟨text', congrArg _ (Host.decode_toUTF8 text'), ?_, rfl⟩, rfl⟩
    · decide +kernel
    · decide +kernel
  have hsame : SameButSettings h h' r r' (some "ferrule.toml") := by
    refine ⟨rfl, rfl, nofun, ?_⟩
    intro path hpath
    rw [← Option.some.inj hpath]
    exact hform
  exact ⟨hr, hr', hc, hc', hsame,
    (output_follows_basis h env words r hr).sameButSettings h' env words' r' _ hr' hc hc' hsame⟩

end Moniker
