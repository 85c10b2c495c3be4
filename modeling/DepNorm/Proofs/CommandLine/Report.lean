import DepNorm.CommandLine.Report
import Mathlib.Data.List.Forall2

/-!
What a report shows, line by line: the title, one line for each pass, the lines of the result, and
the time. `Shows` spells these out, with and without colours, and `frame_eq` says that a report
consists of them.
-/

namespace DepNorm.CommandLine

variable {color : Bool} {title : String} {pass : Pass} {passes : List Pass}
  {result lines : List String}

/-! ### The lines of a report -/

/-- A text between the code of a colour or weight and the code that ends it, if colours are on. -/
def tinted (color : Bool) (code text : String) : String :=
  if color then "\x1b[" ++ code ++ "m" ++ text ++ "\x1b[0m" else text

/-- The lines, each with the line feed that ends it. -/
def inLines (lines : List String) : String := String.join (lines.map (· ++ "\n"))

/-- What is said of a pass, and the code of its colour. -/
inductive Verdict (pass : Pass) : String → String → Prop
  | disabled (henabled : pass.enabled = false) : Verdict pass "2" "– disabled"
  | changed (henabled : pass.enabled = true) (hchanges : 0 < pass.changes) :
      Verdict pass "32" ("✓ " ++ toString pass.changes ++ " rewrites")
  | unchanged (henabled : pass.enabled = true) (hchanges : pass.changes = 0) :
      Verdict pass "2" "✗ no match"

/-- The line of a pass: the name of its rule, filled up with blanks to twelve characters, what is
said of it, and its time. The characters of colour codes count. -/
inductive PassLine (color : Bool) (pass : Pass) : String → Prop
  | intro {code verdict name : String} {blanks : Nat}
      (hname : name = tinted color "34" pass.rule.name)
      (hblanks : name.length + blanks = max name.length 12)
      (hverdict : Verdict pass code verdict) :
      PassLine color pass ("  " ++ name ++ String.ofList (List.replicate blanks ' ') ++ " " ++
        tinted color code verdict ++ "  " ++ tinted color "2" "<t>")

/-- The lines of a report with the title, the passes and the lines of the result. -/
inductive Shows (color : Bool) (title : String) (passes : List Pass) (result : List String) :
    List String → Prop
  | intro {rules : List String} (hrules : List.Forall₂ (PassLine color) passes rules) :
      Shows color title passes result
        (["", tinted color "1" (tinted color "36" title),
          "", tinted color "90" "━━━ Rules ━━━"] ++ rules ++
        ["", tinted color "90" "━━━ Result ━━━"] ++ result.map ("  " ++ ·) ++
        ["", tinted color "90" "━━━ Timing ━━━", "  Total: " ++ tinted color "32" "<t>", ""])

/-! ### What is printed -/

theorem inLines_nil : inLines [] = "" := rfl

theorem inLines_cons (line : String) (lines : List String) :
    inLines (line :: lines) = line ++ "\n" ++ inLines lines := by
  rw [inLines, List.map_cons, String.join_cons, inLines]

theorem inLines_append (lines more : List String) :
    inLines (lines ++ more) = inLines lines ++ inLines more := by
  rw [inLines, List.map_append, String.join_append, inLines, inLines]

def Paint.number : Paint → String
  | dim => "2"
  | bold => "1"
  | green => "32"
  | blue => "34"
  | cyan => "36"
  | gray => "90"

theorem Paint.apply_eq_tinted (paint : Paint) (color : Bool) (text : String) :
    paint.apply color text = tinted color paint.number text := by
  have hcode : paint.code = "\x1b[" ++ paint.number ++ "m" := by cases paint <;> decide
  rw [apply, tinted, hcode]

theorem Verdict.status_eq {code verdict : String} (h : Verdict pass code verdict) (color : Bool) :
    Report.status color pass = tinted color code verdict := by
  rw [Report.status]
  cases h with
  | disabled henabled => rw [henabled]; exact Paint.dim.apply_eq_tinted ..
  | changed henabled hchanges =>
      rw [henabled, if_pos hchanges]; exact Paint.green.apply_eq_tinted ..
  | unchanged henabled hchanges =>
      rw [henabled, hchanges]; exact Paint.dim.apply_eq_tinted ..

theorem exists_verdict (pass : Pass) : ∃ code verdict, Verdict pass code verdict := by
  cases henabled : pass.enabled with
  | false => exact ⟨_, _, .disabled henabled⟩
  | true =>
      rcases Nat.eq_zero_or_pos pass.changes with hchanges | hchanges
      · exact ⟨_, _, .unchanged henabled hchanges⟩
      · exact ⟨_, _, .changed henabled hchanges⟩

theorem PassLine.passLine_eq {line : String} (h : PassLine color pass line) :
    Report.passLine color pass = line ++ "\n" := by
  cases h with
  | @intro code verdict name blanks hname hblanks hverdict =>
      have hfill : 12 - name.length = blanks := by omega
      rw [Report.passLine, Paint.apply_eq_tinted, Paint.apply_eq_tinted, hverdict.status_eq, padTo,
        Paint.number, Paint.number, ← hname, hfill, timeMark, ← String.append_assoc]

theorem exists_passLine (color : Bool) (pass : Pass) : ∃ line, PassLine color pass line := by
  obtain ⟨code, verdict, hverdict⟩ := exists_verdict pass
  exact ⟨_, .intro rfl (Nat.add_sub_of_le (Nat.le_max_left ..)) hverdict⟩

theorem join_passLine_eq {rules : List String} (h : List.Forall₂ (PassLine color) passes rules) :
    String.join (passes.map (Report.passLine color)) = inLines rules := by
  induction h with
  | nil => rfl
  | cons hline _ ih =>
      rw [List.map_cons, String.join_cons, ih, hline.passLine_eq, inLines_cons]

theorem heading_eq (color : Bool) (title : String) :
    Report.heading color title = inLines ["", tinted color "1" (tinted color "36" title)] := by
  rw [Report.heading, Paint.apply_eq_tinted, Paint.apply_eq_tinted]
  simp only [inLines_cons, inLines_nil, String.append_empty, String.append_assoc]
  rfl

theorem banner_eq (color : Bool) (title : String) :
    Report.banner color title =
      inLines ["", tinted color "90" ("━━━ " ++ title ++ " ━━━")] := by
  rw [Report.banner, Paint.apply_eq_tinted]
  simp only [inLines_cons, inLines_nil, String.append_empty, String.append_assoc]
  rfl

theorem join_result_eq (result : List String) :
    String.join (result.map fun line => "  " ++ line ++ "\n") =
      inLines (result.map ("  " ++ ·)) := by
  rw [inLines, List.map_map]
  rfl

/-- A report consists of the lines that it shows. -/
theorem Shows.frame_eq (h : Shows color title passes result lines) :
    Report.frame color title passes result = inLines lines := by
  obtain ⟨hrules⟩ := h
  rw [Report.frame, heading_eq, banner_eq, banner_eq, banner_eq, join_passLine_eq hrules,
    join_result_eq, Paint.apply_eq_tinted]
  simp only [inLines_append, inLines_cons, inLines_nil, String.append_empty, String.append_assoc]
  rfl

theorem exists_shows (color : Bool) (title : String) (passes : List Pass) (result : List String) :
    ∃ lines, Shows color title passes result lines := by
  have hrules : ∃ rules, List.Forall₂ (PassLine color) passes rules := by
    induction passes with
    | nil => exact ⟨[], .nil⟩
    | cons pass passes ih =>
        obtain ⟨rules, hrules⟩ := ih
        obtain ⟨line, hline⟩ := exists_passLine color pass
        exact ⟨line :: rules, .cons hline hrules⟩
  obtain ⟨rules, hrules⟩ := hrules
  exact ⟨_, .intro hrules⟩

end DepNorm.CommandLine
