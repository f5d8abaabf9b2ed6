import DocTools.Proofs.Snippet.Blocks
import DocTools.Proofs.Snippet.Dedent
import DocTools.Proofs.Snippet.Shown
import DocTools.Proofs.Text.Lines

/-! # The layout of a source file

What is extracted from a file depends neither on an indentation that all its lines share nor on how its
lines end. The main statements: `findingsFrom_map`, by which lines that are changed in a way that no
marker notices give the same findings with the lines changed in their bodies, and `addText_relaid`, by
which an extractor does not notice a change of the layout at all. -/
namespace DocTools.Snippet
set_option autoImplicit false

/-! ## Texts that are laid out anew -/

/-- How a line can end. -/
inductive LineEnd where
  | newline
  | returnNewline
  deriving DecidableEq, Repr

def LineEnd.text : LineEnd → Text
  | newline => ['\n']
  | returnNewline => ['\r', '\n']

/-- A line run with `lead` in front, and with another end where it has one. -/
def relaidRun (lead : Text) (e : LineEnd) (run : Text) : Text :=
  if run.getLast? = some '\n' then lead ++ run.dropLast ++ e.text else lead ++ run

/-- A text with `lead` in front of every line, and with the ends of its lines chosen one by one. -/
def relaid (lead : Text) (ends : Nat → LineEnd) (text : Text) : Text :=
  (text.lineRuns.mapIdx fun i run => relaidRun lead (ends i) run).flatten

section
variable {lead line : Text}

theorem relaid_of_newline_not_mem (hne : line ≠ []) (h : '\n' ∉ line) (lead : Text)
    (ends : Nat → LineEnd) : relaid lead ends line = lead ++ line := by
  have hlast : line.getLast? ≠ some '\n' := fun hc => h (List.mem_of_getLast? hc)
  rw [relaid, Text.lineRuns_of_newline_not_mem hne h, List.mapIdx_singleton, relaidRun, if_neg hlast,
    List.flatten_singleton]

theorem relaid_cons_line (h : '\n' ∉ line) (lead rest : Text) (ends : Nat → LineEnd) :
    relaid lead ends (line ++ '\n' :: rest) =
      lead ++ line ++ (ends 0).text ++ relaid lead (fun i => ends (i + 1)) rest := by
  rw [relaid, Text.lineRuns_cons_line h, List.mapIdx_cons, List.flatten_cons, relaidRun,
    if_pos List.getLast?_concat, List.dropLast_concat]
  rfl

theorem lines_append_end (h : '\n' ∉ line) (hreturn : line.getLast? ≠ some '\r') (e : LineEnd)
    (rest : Text) : Text.lines (line ++ e.text ++ rest) = line :: Text.lines rest := by
  rw [List.append_assoc]
  cases e with
  | newline => exact Text.lines_cons_line h hreturn rest
  | returnNewline => exact Text.lines_cons_line_return h rest

theorem lines_relaid (hnewline : '\n' ∉ lead) (hreturn : '\r' ∉ lead) {text : Text}
    (htext : '\r' ∉ text) (ends : Nat → LineEnd) :
    (relaid lead ends text).lines = text.lines.map (lead ++ ·) := by
  induction text using Text.linewise generalizing ends with
  | empty => rfl
  | last line hne h =>
    have hline : '\n' ∉ lead ++ line := List.not_mem_append hnewline h
    rw [relaid_of_newline_not_mem hne h, Text.lines_of_newline_not_mem hne h, List.map_singleton,
      Text.lines_of_newline_not_mem (List.append_ne_nil_of_right_ne_nil lead hne) hline]
  | line line rest h ih =>
    rw [List.mem_append, List.mem_cons, not_or, not_or] at htext
    have hline : '\n' ∉ lead ++ line := List.not_mem_append hnewline h
    have hlast : (lead ++ line).getLast? ≠ some '\r' := fun hc =>
      List.not_mem_append hreturn htext.1 (List.mem_of_getLast? hc)
    have hlast' : line.getLast? ≠ some '\r' := fun hc => htext.1 (List.mem_of_getLast? hc)
    rw [relaid_cons_line h, lines_append_end hline hlast, ih htext.2.2, Text.lines_cons_line h hlast',
      List.map_cons]

end

/-! ## Lines that are changed under the markers -/

section
variable (g : Text → Text)

def OpenBlock.mapBody (o : OpenBlock) : OpenBlock := { o with body := o.body.map g }

def Finding.mapBody : Finding → Finding
  | .block b => .block { b with body := b.body.map g }
  | f => f

variable {g}

theorem close_mapBody (line : Nat) (name : Text) (opened : Option OpenBlock) :
    close line name (opened.map (OpenBlock.mapBody g)) = (close line name opened).mapBody g := by
  cases opened with
  | none => rfl
  | some o =>
    by_cases h : name = o.name
    · simp [close, OpenBlock.mapBody, Finding.mapBody, h]
    · simp [close, OpenBlock.mapBody, Finding.mapBody, h]

theorem atLine?_mapBody {text : Text} (h : Marker.ofLine? (g text) = Marker.ofLine? text) (line : Nat)
    (opened : Option OpenBlock) :
    Finding.atLine? line (opened.map (OpenBlock.mapBody g)) (g text) =
      (Finding.atLine? line opened text).map (Finding.mapBody g) := by
  unfold Finding.atLine?
  rw [h]
  cases Marker.ofLine? text with
  | none => cases opened <;> rfl
  | some marker =>
    cases marker with
    | start name => cases opened <;> rfl
    | stop name => exact congrArg some (close_mapBody line name opened)

theorem next?_mapBody {text : Text} (h : Marker.ofLine? (g text) = Marker.ofLine? text) (line : Nat)
    (opened : Option OpenBlock) :
    OpenBlock.next? line (opened.map (OpenBlock.mapBody g)) (g text) =
      (OpenBlock.next? line opened text).map (OpenBlock.mapBody g) := by
  unfold OpenBlock.next?
  rw [h]
  cases Marker.ofLine? text with
  | none => cases opened <;> simp [OpenBlock.mapBody]
  | some marker =>
    cases marker with
    | start name => cases opened <;> rfl
    | stop name => rfl

/-- Two runs of the machine, of which one reads the lines as `g` changes them. No marker is made or
lost, so the runs open and close together. -/
theorem findingsFrom_map (hg : ∀ text, Marker.ofLine? (g text) = Marker.ofLine? text) (line : Nat)
    (opened : Option OpenBlock) (lines : List Text) :
    findingsFrom line (opened.map (OpenBlock.mapBody g)) (lines.map g) =
      (findingsFrom line opened lines).map (Finding.mapBody g) := by
  induction lines generalizing line opened with
  | nil => cases opened <;> rfl
  | cons text lines ih =>
    rw [List.map_cons, findingsFrom_cons, findingsFrom_cons, atLine?_mapBody (hg text),
      next?_mapBody (hg text), ih, List.map_append]
    cases Finding.atLine? line opened text <;> rfl

theorem record_mapBody (hdedent : ∀ lines, dedent (lines.map g) = dedent lines) (path : Path)
    (x : Extractor) (f : Finding) : x.record path (f.mapBody g) = x.record path f := by
  cases f with
  | block b =>
    show x.store path { b with body := b.body.map g } = x.store path b
    rw [Extractor.store, Extractor.store, hdedent]
  | nestedStart line name opened => rfl
  | unmatchedEnd line name => rfl
  | mismatchedEnd line name opened startLine => rfl
  | unclosed line name => rfl

theorem addText_eq_of_lines_eq_map (hg : ∀ text, Marker.ofLine? (g text) = Marker.ofLine? text)
    (hdedent : ∀ lines, dedent (lines.map g) = dedent lines) {text other : Text}
    (hlines : other.lines = text.lines.map g) (x : Extractor) (path : Path) :
    x.addText path other = x.addText path text := by
  have hfound : findings other.lines = (findings text.lines).map (Finding.mapBody g) := by
    rw [hlines]
    exact findingsFrom_map hg 1 none text.lines
  have hrecord : (fun y f => Extractor.record path y (Finding.mapBody g f)) = Extractor.record path :=
    funext fun y => funext fun f => record_mapBody hdedent path y f
  rw [Extractor.addText, hfound, List.foldl_map, hrecord, Extractor.addText]

end

/-! ## Another layout -/

/-- With spaces and tabs in front of every line, and with every line ended in one way or the other, a
file without carriage returns adds the same snippets and the same errors as before, at the same lines. -/
theorem addText_relaid (x : Extractor) (path : Path) {lead text : Text}
    (hlead : lead.all isIndent = true) (htext : '\r' ∉ text) (ends : Nat → LineEnd) :
    x.addText path (relaid lead ends text) = x.addText path text := by
  have hblank := allBlank_of_isIndent hlead
  have hnewline := newline_not_mem_of_isIndent hlead
  have hreturn : '\r' ∉ lead := fun hc => absurd (List.all_eq_true.mp hlead '\r' hc) (by decide)
  exact addText_eq_of_lines_eq_map (fun line => Marker.ofLine?_blanks_append hblank line)
    (fun lines => dedent_map_of_indented hblank (indented_nil_append hblank) lines)
    (lines_relaid hnewline hreturn htext ends) x path

/-- Two depths, an empty line and a blank one, an end marker without a start, and a last line without an
end that a snippet is still open at. -/
def gaugeText : Text :=
  Text.ofLines (["// [snippet:g]", " f();", "", "  ", "   g();", "// [/snippet:g]", "// [/snippet:h]",
    "// [snippet:i]"].map String.toList) ++ "j".toList

def everyOther (i : Nat) : LineEnd := if i % 2 = 0 then .returnNewline else .newline

theorem addText_relaid_gauge :
    "\t ".toList.all isIndent = true ∧ '\r' ∉ gaugeText ∧
    Extractor.fresh.addText ['p'] (relaid "\t ".toList everyOther gaugeText) =
      Extractor.fresh.addText ['p'] gaugeText ∧
    (Extractor.fresh.addText ['p'] gaugeText).snippets.toList = [(['g'], "f();\n\n\n  g();".toList)] ∧
    (Extractor.fresh.addText ['p'] gaugeText).errors =
      [.unmatchedEnd ['p'] 7 ['h'], .unclosed ['p'] 8 ['i']] := by
  have hlead : "\t ".toList.all isIndent = true := by decide
  have htext : '\r' ∉ gaugeText := by decide +kernel
  exact ⟨hlead, htext, addText_relaid Extractor.fresh ['p'] hlead htext everyOther,
    by decide +kernel, by decide +kernel⟩

end DocTools.Snippet
