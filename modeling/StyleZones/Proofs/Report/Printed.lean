import StyleZones.Proofs.Report.Json

/-!
# What a printed report shows

A report is printed in one of three formats, and each of them shows the findings in their order.
Here it is said of the printed text alone what it shows, with nothing about how it was put together.

* `Finding.ShownOnLine` and `Finding.ShownInBlock` say how one finding appears, and
  `Report.SummaryLine` how a report is summed up.
* `Report.ShownBy` says which texts show a report in which format.
* `Report.shownBy_report`: what is printed shows the report.
-/

set_option autoImplicit false

namespace StyleZones

namespace Finding

/-- The text is the line about the finding: where it is, how severe it is, the code of the check,
and what is said. -/
def ShownOnLine (f : Finding) (text : String) : Prop :=
  text = f.location.file ++ ":" ++ Decimal.text f.location.line.toNat ++ ":" ++
    Decimal.text f.location.column.toNat ++ ": " ++ f.severity.name ++ " [" ++ f.code ++ "] " ++
      f.message ++ "\n"

/-- The text is the block about the finding, with a blank line after it. A declaration is named if
there is one. -/
def ShownInBlock (f : Finding) (text : String) : Prop :=
  ∃ named, (f.declaration = "" → named = "") ∧
    (f.declaration ≠ "" →
      named = "  = declaration: " ++ f.declaration ++ " (" ++ f.zone.name ++ ")\n") ∧
    text = f.code ++ " " ++ f.check ++ " at " ++ f.location.file ++ ":" ++
      Decimal.text f.location.line.toNat ++ ":" ++ Decimal.text f.location.column.toNat ++ "\n" ++
      "  " ++ f.severity.name ++ ": " ++ f.message ++ "\n" ++ named ++ "\n"

theorem shownOnLine_line (f : Finding) : f.ShownOnLine (f.line ++ "\n") := by
  simp only [ShownOnLine, line, Location.text, String.append_assoc]

/-- The block of a finding shows it, with a line for the declaration if it has a name. -/
theorem shownInBlock_block (f : Finding) : f.ShownInBlock (f.block ++ "\n") := by
  refine ⟨if f.declaration.isEmpty then ""
    else "  = declaration: " ++ f.declaration ++ " (" ++ f.zone.name ++ ")\n", ?_, ?_, ?_⟩
  · intro h
    simp [h]
  · intro h
    rw [if_neg]
    simpa using h
  · simp only [block, Location.text, String.append_assoc]

end Finding

namespace Report

/-- The colour of a summary: red if a finding is an error, else yellow if one is a warning, else
green. -/
def SummaryColour (r : Report) (code : String) : Prop :=
  (∃ f ∈ r.findings, f.severity = .error) ∧ code = "31" ∨
    (∀ f ∈ r.findings, f.severity ≠ .error) ∧ (∃ f ∈ r.findings, f.severity = .warning) ∧
      code = "33" ∨
    (∀ f ∈ r.findings, f.severity = .info) ∧ code = "32"

/-- The text is the last line about the report: how many findings there are of each severity, and
how many declarations were checked of those that were seen. -/
def SummaryLine (r : Report) (text : String) : Prop :=
  ∃ code, r.SummaryColour code ∧
    text = "\x1b[" ++ code ++ "m" ++ "Found " ++
      Decimal.text (r.findings.countP (·.severity = .error)) ++ " error(s), " ++
      Decimal.text (r.findings.countP (·.severity = .warning)) ++ " warning(s), " ++
      Decimal.text (r.findings.countP (·.severity = .info)) ++ " info(s) in " ++
      Decimal.text r.checked.toNat ++ " of " ++ Decimal.text r.seen.toNat ++ " declaration(s)" ++
        "\x1b[0m\n"

/-- The text shows the report in the format. For programs it is a document of the report, and for
people it has one line or one block for each finding, in their order; only the blocks are summed
up. -/
inductive ShownBy (r : Report) : Format → String → Prop
  | json {output : String} : ofText? output = some r → ShownBy r .json output
  | compact {lines : List String} : List.Forall₂ Finding.ShownOnLine r.findings lines →
      ShownBy r .compact (String.join lines)
  | text {blocks : List String} {last : String} :
      List.Forall₂ Finding.ShownInBlock r.findings blocks →
      r.SummaryLine last → ShownBy r .text (String.join blocks ++ last)

/-- A severity is counted if and only if a finding has it. -/
theorem count_pos_iff (r : Report) (severity : Severity) :
    0 < r.count severity ↔ ∃ f ∈ r.findings, f.severity = severity := by
  simp only [count, List.countP_pos_iff, decide_eq_true_eq]

/-- The colour of the summary goes by the most severe kind of finding that there is. -/
theorem summaryColour_eq (r : Report) :
    ∃ code, r.SummaryColour code ∧ Output.summaryColour r = "\x1b[" ++ code ++ "m" := by
  rw [Output.summaryColour]
  split_ifs with herror hwarning
  · exact ⟨"31", .inl ⟨(r.count_pos_iff .error).1 herror, rfl⟩, rfl⟩
  · refine ⟨"33", .inr (.inl ⟨fun f hf he => ?_, (r.count_pos_iff .warning).1 hwarning, rfl⟩), rfl⟩
    exact herror ((r.count_pos_iff .error).2 ⟨f, hf, he⟩)
  · refine ⟨"32", .inr (.inr ⟨fun f hf => ?_, rfl⟩), rfl⟩
    -- With no error and no warning, only the least severity is left.
    cases hs : f.severity with
    | error => exact absurd ((r.count_pos_iff .error).2 ⟨f, hf, hs⟩) herror
    | warning => exact absurd ((r.count_pos_iff .warning).2 ⟨f, hf, hs⟩) hwarning
    | info => rfl

theorem summaryLine_summary (r : Report) :
    r.SummaryLine (Output.summaryColour r ++ r.summary ++ Output.colour "0" ++ "\n") := by
  obtain ⟨code, hcode, hcolour⟩ := r.summaryColour_eq
  have hreset : Output.colour "0" ++ "\n" = "\x1b[0m\n" := by decide
  refine ⟨code, hcode, ?_⟩
  rw [hcolour]
  delta summary
  simp only [count, String.append_assoc, hreset]

/-- What is printed shows the report. -/
theorem shownBy_report (r : Report) (format : Format) :
    r.ShownBy format (Output.report format r) := by
  cases format with
  | json => exact .json (ofText?_report_json r)
  | compact =>
    refine .compact ?_
    rw [List.map_map, List.forall₂_map_right_iff, List.forall₂_same]
    exact fun f _ => f.shownOnLine_line
  | text =>
    have hlines : Output.report .text r = String.join (r.findings.map fun f => f.block ++ "\n") ++
        (Output.summaryColour r ++ r.summary ++ Output.colour "0" ++ "\n") := by
      simp [Output.report, Output.lines, Function.comp_def, String.append_assoc]
    rw [hlines]
    refine .text ?_ r.summaryLine_summary
    rw [List.forall₂_map_right_iff, List.forall₂_same]
    exact fun f _ => f.shownInBlock_block

/-- In the compact format each finding has its line, and there is nothing else. -/
theorem shownBy_compact_iff {r : Report} {output : String} :
    r.ShownBy .compact output ↔
      ∃ lines, List.Forall₂ Finding.ShownOnLine r.findings lines ∧ output = String.join lines := by
  constructor
  · intro h
    cases h with
    | compact hlines => exact ⟨_, hlines, rfl⟩
  · rintro ⟨lines, hlines, rfl⟩
    exact .compact hlines

end Report

end StyleZones
