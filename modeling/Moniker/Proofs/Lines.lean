import Mathlib.Algebra.Ring.Nat
import Moniker.Proofs.Hashing
import Moniker.Proofs.Mismatches

/-! # Rows and lines of reports

A report as text has a row for each item, with a line feed after it. A row shows one text just as
it was given. So each line feed in that text breaks the row, and a report has a line for each item
only where none of the texts has any. As JSON a text is escaped, and breaks no line. -/

namespace Moniker

namespace Text

/-! ## Line feeds -/

def lineFeeds (s : String) : Nat :=
  s.toList.count '\n'

@[simp] theorem lineFeeds_append (s t : String) : lineFeeds (s ++ t) = lineFeeds s + lineFeeds t := by
  simp [lineFeeds]

@[simp] theorem lineFeeds_newline : lineFeeds "\n" = 1 := rfl

theorem lineFeeds_eq_zero_iff {s : String} : lineFeeds s = 0 ↔ ∀ c ∈ s.toList, c ≠ '\n' := by
  rw [lineFeeds, List.count_eq_zero]
  constructor
  · intro h c hc hnewline
    exact h (hnewline ▸ hc)
  · intro h hmem
    exact h '\n' hmem rfl

/-- A line feed after each text comes on top of those inside. -/
theorem lineFeeds_join (texts : List String) :
    lineFeeds (String.join (texts.map (· ++ "\n"))) =
      texts.length + (texts.map lineFeeds).sum := by
  induction texts with
  | nil => rfl
  | cons s texts ih =>
      rw [List.map_cons, String.join_cons, lineFeeds_append, lineFeeds_append, ih,
        lineFeeds_newline, List.length_cons, List.map_cons, List.sum_cons]
      omega

@[simp] theorem lineFeeds_spaces (n : Nat) : lineFeeds (spaces n) = 0 := by
  rw [lineFeeds_eq_zero_iff]
  intro c hc
  have hspace : c = ' ' := List.eq_of_mem_replicate (by simpa [spaces] using hc)
  rw [hspace]
  decide

@[simp] theorem lineFeeds_column (width : Nat) (s : String) :
    lineFeeds (column width s) = lineFeeds s := by
  simp [column, padded]

theorem lineFeeds_nat (n : Nat) : lineFeeds (toString n) = 0 := by
  rw [lineFeeds_eq_zero_iff]
  intro c hc hnewline
  have hmem : c ∈ Nat.toDigits 10 n := by simpa using hc
  have hdigit := Nat.isDigit_of_mem_toDigits (by decide) (by decide) hmem
  rw [hnewline] at hdigit
  revert hdigit
  decide

theorem lineFeeds_int (i : Int) : lineFeeds (toString i) = 0 := by
  cases i with
  | ofNat n => exact lineFeeds_nat n
  | negSucc n =>
      change lineFeeds ("-" ++ toString (n + 1)) = 0
      rw [lineFeeds_append, lineFeeds_nat]
      rfl

@[simp] theorem lineFeeds_code (i : Int32) : lineFeeds (toString i) = 0 :=
  lineFeeds_int i.toInt

/-! ## Texts of lines -/

/-- A text that is made up of lines, each of which ends in its only line feed. -/
structure InLines (text : String) (lines : List String) : Prop where
  joined : text = String.join (lines.map (· ++ "\n"))
  unbroken : ∀ line ∈ lines, lineFeeds line = 0

namespace InLines

variable {text text' s : String} {lines lines' : List String}

theorem nil : InLines "" [] :=
  ⟨rfl, by simp⟩

theorem single (hs : lineFeeds s = 0) : InLines (s ++ "\n") [s] :=
  ⟨by simp, by simpa using hs⟩

theorem append (h : InLines text lines) (h' : InLines text' lines') :
    InLines (text ++ text') (lines ++ lines') where
  joined := by rw [h.joined, h'.joined, List.map_append, String.join_append]
  unbroken := by
    intro line hline
    rcases List.mem_append.mp hline with hline | hline
    · exact h.unbroken line hline
    · exact h'.unbroken line hline

theorem lineFeeds_eq (h : InLines text lines) : lineFeeds text = lines.length := by
  have hnone : (lines.map lineFeeds).sum = 0 := by
    rw [List.sum_eq_zero_iff_forall_eq_nat]
    simpa using h.unbroken
  rw [h.joined, lineFeeds_join, hnone, Nat.add_zero]

end InLines

/-- What stands before the first line feed is told by the text. -/
theorem before_newline_inj {s s' rest rest' : String} (hs : lineFeeds s = 0)
    (hs' : lineFeeds s' = 0) (h : s ++ "\n" ++ rest = s' ++ "\n" ++ rest') :
    s = s' ∧ rest = rest' := by
  have hbefore : ∀ s rest : String, lineFeeds s = 0 →
      (s ++ "\n" ++ rest).toList.takeWhile (· != '\n') = s.toList := by
    intro s rest hs
    have hall : ∀ c ∈ s.toList, (c != '\n') = true := by
      simpa using lineFeeds_eq_zero_iff.mp hs
    rw [String.toList_append, String.toList_append, List.append_assoc,
      List.takeWhile_append_of_pos hall]
    simp
  have hsame : s = s' := by
    rw [← String.toList_inj, ← hbefore s rest hs, h, hbefore s' rest' hs']
  subst hsame
  exact ⟨rfl, by simpa using h⟩

theorem InLines.of_cons {text line : String} {lines : List String} (h : InLines text (line :: lines)) :
    lineFeeds line = 0 ∧ ∃ rest, text = line ++ "\n" ++ rest ∧ InLines rest lines := by
  obtain ⟨rfl, hunbroken⟩ := h
  obtain ⟨hline, hlines⟩ := List.forall_mem_cons.mp hunbroken
  exact ⟨hline, _, by rw [List.map_cons, String.join_cons], rfl, hlines⟩

/-- A text is made up of lines in one way at most. -/
theorem InLines.unique {text : String} {lines lines' : List String} (h : InLines text lines)
    (h' : InLines text lines') : lines = lines' := by
  induction lines generalizing text lines' with
  | nil =>
      have hlength : lines'.length = 0 := h'.lineFeeds_eq.symm.trans h.lineFeeds_eq
      exact (List.eq_nil_of_length_eq_zero hlength).symm
  | cons line lines ih =>
      cases lines' with
      | nil =>
          have hlength : lines.length + 1 = 0 := h.lineFeeds_eq.symm.trans h'.lineFeeds_eq
          omega
      | cons line' lines' =>
          obtain ⟨hline, rest, hrest, hlines⟩ := h.of_cons
          obtain ⟨hline', rest', hrest', hlines'⟩ := h'.of_cons
          obtain ⟨rfl, rfl⟩ := before_newline_inj hline hline' (hrest.symm.trans hrest')
          rw [ih hlines hlines']

/-- A text with a line feed at its end is made up of lines. -/
theorem exists_inLines (s : String) : ∃ lines, InLines (s ++ "\n") lines := by
  induction hfeeds : lineFeeds s generalizing s with
  | zero => exact ⟨[s], .single hfeeds⟩
  | succ n ih =>
      -- the first line feed ends the first line, and the rest has one less
      have hmem : '\n' ∈ s.toList := by
        rw [← List.count_pos_iff]
        exact Nat.lt_of_lt_of_eq n.succ_pos hfeeds.symm
      obtain ⟨before, after, hsplit, hfirst⟩ := List.eq_append_cons_of_mem hmem
      have hs : s = String.ofList before ++ "\n" ++ String.ofList after := by
        rw [← String.toList_inj, hsplit]
        simp
      have hbefore : lineFeeds (String.ofList before) = 0 := by
        rw [lineFeeds, String.toList_ofList, List.count_eq_zero]
        exact hfirst
      have hafter : lineFeeds (String.ofList after) = n := by
        rw [hs, lineFeeds_append, lineFeeds_append, hbefore, lineFeeds_newline] at hfeeds
        omega
      obtain ⟨lines, hlines⟩ := ih _ hafter
      refine ⟨String.ofList before :: lines, ?_⟩
      rw [hs, String.append_assoc]
      exact (InLines.single hbefore).append hlines

end Text

/-! ## Rows -/

namespace Report

open Text

/-- How a report falls into lines, given its rows and the text that each of them shows as it is. In
order the rows take up one line each, and one more for every line feed that they show. -/
structure RowsSpec (report : String) (rows shown : List String) : Prop where
  exists_lines : ∃ lines, InLines report lines
  length_eq : ∀ lines, InLines report lines →
    lines.length = rows.length + (shown.map lineFeeds).sum
  eq_rows_iff : ∀ lines, InLines report lines → (lines = rows ↔ ∀ text ∈ shown, lineFeeds text = 0)
  grouped : ∀ lines, InLines report lines → ∃ groups, lines = groups.flatten ∧
    List.Forall₂ (fun row group => InLines (row ++ "\n") group) rows groups

theorem exists_groups (rows : List String) :
    ∃ groups, List.Forall₂ (fun row group => InLines (row ++ "\n") group) rows groups ∧
      InLines (String.join (rows.map (· ++ "\n"))) groups.flatten := by
  induction rows with
  | nil => exact ⟨[], .nil, .nil⟩
  | cons row rows ih =>
      obtain ⟨groups, hgroups, hmade⟩ := ih
      obtain ⟨group, hgroup⟩ := exists_inLines row
      refine ⟨group :: groups, .cons hgroup hgroups, ?_⟩
      rw [List.map_cons, String.join_cons, List.flatten_cons]
      exact hgroup.append hmade

theorem rowsSpec {rows shown : List String} (h : rows.map lineFeeds = shown.map lineFeeds) :
    RowsSpec (String.join (rows.map (· ++ "\n"))) rows shown := by
  obtain ⟨groups, hgroups, hmade⟩ := exists_groups rows
  have hshown : (∀ row ∈ rows, lineFeeds row = 0) ↔ ∀ text ∈ shown, lineFeeds text = 0 := by
    simpa using congrArg (fun feeds : List Nat => ∀ n ∈ feeds, n = 0) h
  constructor
  case exists_lines => exact ⟨_, hmade⟩
  case length_eq =>
    intro lines hlines
    rw [← hlines.lineFeeds_eq, lineFeeds_join, h]
  case eq_rows_iff =>
    intro lines hlines
    rw [← hshown]
    constructor
    · intro heq
      rw [← heq]
      exact hlines.unbroken
    · intro hrows
      exact hlines.unique ⟨rfl, hrows⟩
  case grouped =>
    intro lines hlines
    exact ⟨groups, hlines.unique hmade, hgroups⟩

theorem printed_text {α : Type} (line : α → String) (row : α → Row) (items : List α) :
    printed .text line row items = String.join ((items.map line).map (· ++ "\n")) := by
  rw [printed, List.map_map]
  rfl

/-! ## Rows as objects -/

theorem newline_not_mem_escapeChar (c : Char) : '\n' ∉ escapeChar c := by
  by_cases hlow : c.toNat < 0x20
  · have hall : ∀ n : Fin 0x20, '\n' ∉ escapeChar (Char.ofNat n) := by decide
    simpa using hall ⟨c.toNat, hlow⟩
  · have hother : '\n' ≠ c := by
      intro h
      rw [← h] at hlow
      exact hlow (by decide)
    fun_cases escapeChar c
    case case8 => exact absurd ‹c.toNat < 0x20› hlow
    case case9 =>
      rw [if_neg hlow]
      simpa using hother
    all_goals decide

theorem lineFeeds_quoted (s : String) : lineFeeds (quoted s) = 0 := by
  rw [lineFeeds, quoted, String.toList_ofList, List.count_eq_zero]
  simp [newline_not_mem_escapeChar]

theorem Cell.lineFeeds_json (c : Cell) : lineFeeds c.json = 0 := by
  cases c with
  | absent => rfl
  | text s => exact lineFeeds_quoted s
  | number i => exact lineFeeds_int i

/-- A field of an object, as it stands on a line of its own. -/
def fieldJson (field : String × Cell) : String :=
  "    " ++ quoted field.1 ++ ": " ++ field.2.json

theorem rowJson_eq (row : Row) :
    rowJson row = "  \x7b\n" ++ String.intercalate ",\n" (row.map fieldJson) ++ "\n  \x7d" := rfl

theorem lineFeeds_fieldJson (field : String × Cell) : lineFeeds (fieldJson field) = 0 := by
  have hindent : lineFeeds "    " = 0 := rfl
  have hcolon : lineFeeds ": " = 0 := rfl
  simp [fieldJson, lineFeeds_quoted, Cell.lineFeeds_json, hindent, hcolon]

/-- Between two texts there is one line feed more. -/
theorem lineFeeds_intercalate {texts : List String} (h : texts ≠ []) :
    lineFeeds (String.intercalate ",\n" texts) + 1 = texts.length + (texts.map lineFeeds).sum := by
  have hcomma : lineFeeds ",\n" = 1 := rfl
  induction texts with
  | nil => exact absurd rfl h
  | cons first texts ih =>
      cases texts with
      | nil => simp [Nat.add_comm]
      | cons second texts =>
          have hrest := ih (List.cons_ne_nil _ _)
          rw [String.intercalate_cons_cons, lineFeeds_append, lineFeeds_append, hcomma,
            List.length_cons, List.map_cons, List.sum_cons]
          omega

theorem lineFeeds_rowJson {row : Row} (h : row ≠ []) : lineFeeds (rowJson row) = row.length + 1 := by
  have hopen : lineFeeds "  \x7b\n" = 1 := rfl
  have hclose : lineFeeds "\n  \x7d" = 1 := rfl
  have hfields : lineFeeds (String.intercalate ",\n" (row.map fieldJson)) + 1 = row.length := by
    rw [lineFeeds_intercalate (by simpa using h)]
    simp [lineFeeds_fieldJson, Function.comp_def]
  rw [rowJson_eq, lineFeeds_append, lineFeeds_append, hopen, hclose]
  omega

/-- As JSON an item takes up a line for each of its fields and two more, whatever they hold. -/
theorem lineFeeds_printed_json {α : Type} (line : α → String) {row : α → Row} {width : Nat}
    (hwidth : 0 < width) (hrow : ∀ item, (row item).length = width) {items : List α}
    (h : items ≠ []) :
    lineFeeds (printed .json line row items) = items.length * (width + 2) + 2 := by
  have hopen : lineFeeds "[\n" = 1 := rfl
  have hclose : lineFeeds "\n]" = 1 := rfl
  have hrows : lineFeeds (String.intercalate ",\n" ((items.map row).map rowJson)) + 1 =
      items.length * (width + 2) := by
    rw [lineFeeds_intercalate (by simpa using h)]
    have hone : ∀ item, lineFeeds (rowJson (row item)) = width + 1 := by
      intro item
      rw [lineFeeds_rowJson (List.ne_nil_of_length_pos (by rwa [hrow])), hrow]
    simp [hone, Function.comp_def, Nat.mul_succ, Nat.add_comm]
  rw [printed, json, if_neg (by simpa using h)]
  simp only [lineFeeds_append, hopen, hclose, lineFeeds_newline]
  omega

end Report

/-! ## The texts that rows show -/

open Description Text

theorem Kind.lineFeeds_text (k : Kind) : lineFeeds k.text = 0 := by
  cases k <;> rfl

theorem Description.lineFeeds_line (d : Description) : lineFeeds d.line = lineFeeds d.literal := by
  have hspace : lineFeeds " " = 0 := rfl
  simp [line, Kind.lineFeeds_text, hspace]

theorem Mismatch.lineFeeds_line (m : Mismatch) : lineFeeds m.line = lineFeeds m.fqn := by
  have hspace : lineFeeds " " = 0 := rfl
  have hexpected : lineFeeds (toString " expected ") = 0 := rfl
  have hcomputed : lineFeeds (toString " computed ") = 0 := rfl
  simp [line, Kind.lineFeeds_text, hspace, hexpected, hcomputed]

/-! ## The commands -/

/-- Where hashing ends without a fault, there were literals and each of them was described. -/
theorem described_of_hashCommand {r : Registry} (hr : r.Reachable) {literals : List String}
    {format : Format} (h : (hashCommand literals format r).1.fault = none) :
    literals ≠ [] ∧ ∀ literal ∈ literals, ∃ d, ofText literal = .ok d := by
  have hne : literals ≠ [] := by
    intro hnil
    rw [hnil] at h
    cases h
  refine ⟨hne, ?_⟩
  by_contra hsome
  obtain ⟨before, literal, after, rfl, hbefore, hbad⟩ := exists_first_split hsome
  cases hliteral : ofText literal with
  | ok d => exact hbad ⟨d, hliteral⟩
  | error fault =>
      have hrun := ofLiterals_of_first_bad hr hbefore hliteral after
      rw [hashCommand_of_error hne hrun] at h
      cases h

theorem map_literal_of_map_ofText {literals : List String} {ds : List Description}
    (h : literals.map ofText = ds.map .ok) : ds.map Description.literal = literals := by
  induction literals generalizing ds with
  | nil => simpa using h.symm
  | cons literal literals ih =>
      cases ds with
      | nil => cases h
      | cons d ds =>
          obtain ⟨hd, hds⟩ := List.cons.inj h
          rw [List.map_cons, ih hds, (describes_of_ofText hd).literal_eq]

theorem exists_stdout_hashCommand {r : Registry} (hr : r.Reachable) {literals : List String}
    {format : Format} (h : (hashCommand literals format r).1.fault = none) :
    ∃ ds : List Description, ds ≠ [] ∧ literals.map ofText = ds.map .ok ∧
      (hashCommand literals format r).1.stdout =
        Report.printed format Description.line Description.row ds := by
  obtain ⟨hne, hall⟩ := described_of_hashCommand hr h
  obtain ⟨ds, hrun, hds⟩ := ofLiterals_ok hr hall
  refine ⟨ds, ?_, hds, ?_⟩
  · intro hnil
    rw [hnil] at hds
    exact hne (List.map_eq_nil_iff.mp hds)
  · rw [hashCommand_of_ok hne hds (Prod.ext hrun rfl)]

theorem stdout_verifyManifest {m : Manifest} {found : List Mismatch} (h : m.mismatches = .ok found)
    (hfound : found ≠ []) (format : Format) :
    (verifyManifest m format).stdout =
      Report.printed format Mismatch.line Mismatch.row found := by
  obtain ⟨events, hcheck⟩ := exists_checkEntries h
  rw [verifyManifest, hcheck, ← Report.render_newline hfound]
  simp [hfound]

theorem verifyCommand_of_loadManifest {h : Host Id} {path : Option String} {m : Manifest}
    (hload : (loadManifest h path).run = .ok m) (format : Format) :
    (verifyCommand h path format).run = verifyManifest m format := by
  rw [verifyCommand, show loadManifest h path = pure (.ok m) from hload]
  rfl

/-- How the reports of both commands fall into lines, where there is something to report. -/
structure ReportLinesSpec (r : Registry) (literals : List String) (m : Manifest) : Prop where
  hashed : (hashCommand literals .text r).1.fault = none →
    ∃ ds : List Description, literals.map ofText = ds.map .ok ∧
      Report.RowsSpec (hashCommand literals .text r).1.stdout (ds.map Description.line) literals
  checked : ∀ (h : Host Id) path found, (loadManifest h path).run = .ok m →
    m.mismatches = .ok found → found ≠ [] →
    Report.RowsSpec (verifyCommand h path .text).run.stdout (found.map Mismatch.line)
      (found.map Mismatch.fqn)

/-- A report has its rows in order, and a line for each row just where no literal, or no name of a
mismatch, has a line feed inside. Each of these makes a line more. -/
theorem report_lines (r : Registry) (hr : r.Reachable) (literals : List String) (m : Manifest) :
    ReportLinesSpec r literals m where
  hashed := by
    intro hend
    obtain ⟨ds, -, hds, hstdout⟩ := exists_stdout_hashCommand hr hend
    refine ⟨ds, hds, ?_⟩
    rw [hstdout, Report.printed_text]
    apply Report.rowsSpec
    rw [← map_literal_of_map_ofText hds]
    simp [Description.lineFeeds_line]
  checked := by
    intro h path found hload hfound hne
    rw [verifyCommand_of_loadManifest hload, stdout_verifyManifest hfound hne, Report.printed_text]
    apply Report.rowsSpec
    simp [Mismatch.lineFeeds_line]

/-- Two literals, the first with a line feed inside, and a file with one wrong code. -/
theorem report_lines_three :
    let r := Registry.new 0
    let literals := ["a\nb", ":c"]
    let h : Host Id :=
      ⟨fun _ => .ok "[[constant]]\nkind = \"symbol\"\nname = \"tag\"\nhash = 1\n".toUTF8⟩
    let m : Manifest := ⟨[⟨.symbol, none, "tag", 1⟩]⟩
    let found : List Mismatch := [⟨.symbol, "tag", 1, 350170304⟩]
    r.Reachable ∧ m.mismatches = .ok found ∧
      (∀ lines, InLines (hashCommand literals .text r).1.stdout lines → lines.length = 3) ∧
      ∀ lines, InLines (verifyCommand h (some "m.toml") .text).run.stdout lines →
        lines = found.map Mismatch.line := by
  intro r literals h m found
  have hr : r.Reachable := .new 0
  have hload : (loadManifest h (some "m.toml")).run = .ok m := by decide +kernel
  have hfound : m.mismatches = .ok found := by decide +kernel
  obtain ⟨hhashed, hchecked⟩ := report_lines r hr literals m
  have hend : (hashCommand literals .text r).1.fault = none := by decide +kernel
  obtain ⟨ds, hds, hrows⟩ := hhashed hend
  have htwo : ds.length = 2 := by simpa [literals] using (congrArg List.length hds).symm
  refine ⟨hr, hfound, ?_, ?_⟩
  · intro lines hlines
    rw [hrows.length_eq lines hlines, List.length_map, htwo]
    rfl
  · intro lines hlines
    have hspec := hchecked h _ found hload hfound (List.cons_ne_nil _ _)
    rw [hspec.eq_rows_iff lines hlines]
    decide

/-- A literal and a name with a line feed inside have one row each, and two lines. -/
theorem two_lines_for_one_row :
    let r := Registry.new 0
    let m : Manifest := ⟨[⟨.symbol, none, "a\nb", 0⟩]⟩
    r.Reachable ∧ (hashCommand ["a\nb"] .text r).1.fault = none ∧
      (verifyManifest m .text).fault = some (.mismatched 1 1) ∧
      (¬∃ lines, InLines (hashCommand ["a\nb"] .text r).1.stdout lines ∧ lines.length = 1) ∧
      ¬∃ lines, InLines (verifyManifest m .text).stdout lines ∧ lines.length = 1 := by
  intro r m
  have hliteral : lineFeeds (hashCommand ["a\nb"] .text r).1.stdout = 2 := by decide +kernel
  have hname : lineFeeds (verifyManifest m .text).stdout = 2 := by decide +kernel
  have hlines : ∀ {text}, lineFeeds text = 2 →
      ¬∃ lines, InLines text lines ∧ lines.length = 1 := by
    intro text htwo h
    obtain ⟨lines, hlines, hone⟩ := h
    have hcount := hlines.lineFeeds_eq
    omega
  exact ⟨.new 0, by decide +kernel, by decide +kernel, hlines hliteral, hlines hname⟩

/-! ## The other form -/

/-- What literals hold shows in no line of the report as JSON. -/
theorem lineFeeds_hashCommand_json {r : Registry} (hr : r.Reachable) {literals : List String}
    (h : (hashCommand literals .json r).1.fault = none) :
    lineFeeds (hashCommand literals .json r).1.stdout = literals.length * 7 + 2 := by
  obtain ⟨ds, hsome, hds, hstdout⟩ := exists_stdout_hashCommand hr h
  have hlength : literals.length = ds.length := by simpa using congrArg List.length hds
  have hrow : ∀ d : Description, d.row.length = 5 := fun _ => rfl
  rw [hstdout, hlength]
  exact Report.lineFeeds_printed_json line (by decide) hrow hsome

theorem lineFeeds_verifyManifest_json {m : Manifest} {found : List Mismatch}
    (h : m.mismatches = .ok found) (hfound : found ≠ []) :
    lineFeeds (verifyManifest m .json).stdout = found.length * 6 + 2 := by
  rw [stdout_verifyManifest h hfound]
  have hrow : ∀ mismatch : Mismatch, mismatch.row.length = 4 := fun _ => rfl
  exact Report.lineFeeds_printed_json Mismatch.line (by decide) hrow hfound

end Moniker
