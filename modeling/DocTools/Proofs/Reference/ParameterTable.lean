import DocTools.Except
import DocTools.Proofs.Text.Lines
import DocTools.Reference.Page
import DocTools.Reference.Reader
import Mathlib.Data.List.Forall2

/-! # Tables of parameters

The parameters of a function stand in a table, a line with three cells for each of them, between bars.
A bar that belongs to a cell has to be escaped, and only descriptions are gone through for that;
`bars_cell_add` says what becomes of bars that are escaped already. The main statement,
`render_tabulates_iff`, says for which parameters the lines come out as they have to; a function for
which they do not is in `table_breaks_barredType`. -/
namespace DocTools.Reference
set_option autoImplicit false

open Text (ofLines)

/-! ## Bars -/

/-- The number of bars that no backslash escapes, where the first character may be escaped itself. -/
def barsFrom : Bool → Text → Nat
  | _, [] => 0
  | true, _ :: rest => barsFrom false rest
  | false, c :: rest =>
    if c = '\\' then barsFrom true rest
    else if c = '|' then 1 + barsFrom false rest
    else barsFrom false rest

def bars (text : Text) : Nat := barsFrom false text

section
variable {c : Char}

theorem barsFrom_true_cons (c : Char) (rest : Text) :
    barsFrom true (c :: rest) = barsFrom false rest := rfl

theorem barsFrom_escape (rest : Text) : barsFrom false ('\\' :: rest) = barsFrom true rest := rfl

theorem barsFrom_bar (rest : Text) : barsFrom false ('|' :: rest) = 1 + barsFrom false rest := rfl

theorem barsFrom_false_cons (hbar : c ≠ '|') (hescape : c ≠ '\\') (rest : Text) :
    barsFrom false (c :: rest) = barsFrom false rest := by
  rw [barsFrom, if_neg hescape, if_neg hbar]

/-- A character that is no bar and escapes nothing takes an escape before it for itself. -/
theorem barsFrom_append_cons (hbar : c ≠ '|') (hescape : c ≠ '\\') (escaped : Bool) (a b : Text) :
    barsFrom escaped (a ++ c :: b) = barsFrom escaped a + bars b := by
  induction a generalizing escaped with
  | nil =>
    rw [List.nil_append, barsFrom, Nat.zero_add]
    cases escaped with
    | true => rfl
    | false => exact barsFrom_false_cons hbar hescape b
  | cons d a ih =>
    cases escaped with
    | true => exact ih false
    | false =>
      rw [List.cons_append, barsFrom, barsFrom]
      split
      · exact ih true
      · split
        · rw [ih false, Nat.add_assoc]
        · exact ih false

theorem bars_append_cons (hbar : c ≠ '|') (hescape : c ≠ '\\') (a b : Text) :
    bars (a ++ c :: b) = bars a + bars b :=
  barsFrom_append_cons hbar hescape false a b

/-! ## Cells -/

theorem cell_bar (rest : Text) : cell ('|' :: rest) = '\\' :: '|' :: cell rest := rfl

theorem cell_cons (hbar : c ≠ '|') (rest : Text) : cell (c :: rest) = c :: cell rest := by
  rw [cell, List.flatMap_cons, if_neg hbar]
  rfl

/-- In a cell the bars that were not escaped are, and those that were are not any more, as it is the
backslash before them that is escaped then. -/
theorem barsFrom_cell_add (escaped : Bool) (text : Text) :
    barsFrom escaped (cell text) + barsFrom escaped text = text.count '|' := by
  induction text generalizing escaped with
  | nil => rfl
  | cons c rest ih =>
    by_cases hbar : c = '|'
    · subst hbar
      rw [cell_bar, List.count_cons_self, ← ih false]
      cases escaped with
      | true =>
        rw [barsFrom_true_cons, barsFrom_true_cons, barsFrom_bar]
        omega
      | false =>
        rw [barsFrom_escape, barsFrom_true_cons, barsFrom_bar]
        omega
    · rw [cell_cons hbar, List.count_cons_of_ne hbar]
      cases escaped with
      | true => exact ih false
      | false =>
        by_cases hescape : c = '\\'
        · subst hescape
          exact ih true
        · rw [barsFrom_false_cons hbar hescape, barsFrom_false_cons hbar hescape]
          exact ih false

theorem bars_cell_add (text : Text) : bars (cell text) + bars text = text.count '|' :=
  barsFrom_cell_add false text

theorem bars_cell_eq_zero_iff {text : Text} : bars (cell text) = 0 ↔ bars text = text.count '|' := by
  have h := bars_cell_add text
  omega

theorem mem_cell_iff (hbar : c ≠ '|') (hescape : c ≠ '\\') {text : Text} : c ∈ cell text ↔ c ∈ text := by
  rw [cell, List.mem_flatMap]
  constructor
  · rintro ⟨d, hd, hc⟩
    split at hc
    · simp [hbar, hescape] at hc
    · exact List.mem_singleton.mp hc ▸ hd
  · intro h
    exact ⟨c, h, by rw [if_neg hbar]; exact List.mem_cons_self⟩

end

/-! ## Rows -/

/-- What a row shows as the description. -/
def Parameter.shownDescription (p : Parameter) : Text :=
  if p.description.isEmpty then "No description".toList else p.description

theorem Parameter.shownDescription_cases (p : Parameter) :
    p.shownDescription = p.description ∨
      p.description = [] ∧ p.shownDescription = "No description".toList := by
  rw [Parameter.shownDescription]
  split
  · next hempty => exact .inr ⟨List.isEmpty_iff.mp hempty, rfl⟩
  · exact .inl rfl

/-- A row without its newline. -/
def Parameter.line (p : Parameter) : Text :=
  "| `".toList ++ p.name ++ "` | `".toList ++ p.type ++ "` | ".toList ++ cell p.shownDescription ++
    " |".toList

/-- A parameter whose row is one line of three cells. -/
structure FitsRow (p : Parameter) : Prop where
  name_line : '\n' ∉ p.name
  type_line : '\n' ∉ p.type
  description_line : '\n' ∉ p.description
  name_bars : bars p.name = 0
  type_bars : bars p.type = 0
  /-- No bar is escaped before it gets into the cell. -/
  description_bars : bars p.description = p.description.count '|'

instance (p : Parameter) : Decidable (FitsRow p) :=
  decidable_of_iff ('\n' ∉ p.name ∧ '\n' ∉ p.type ∧ '\n' ∉ p.description ∧ bars p.name = 0 ∧
      bars p.type = 0 ∧ bars p.description = p.description.count '|')
    ⟨fun ⟨h1, h2, h3, h4, h5, h6⟩ => ⟨h1, h2, h3, h4, h5, h6⟩,
      fun ⟨h1, h2, h3, h4, h5, h6⟩ => ⟨h1, h2, h3, h4, h5, h6⟩⟩

theorem Parameter.row_eq (p : Parameter) : p.row = p.line ++ ['\n'] := by
  unfold Parameter.row Parameter.line Parameter.shownDescription code
  simp only [List.append_assoc, List.cons_append, List.nil_append]
  rfl

/-- The bars of a row are the four around its cells, and those that are left in them. -/
theorem Parameter.bars_row (p : Parameter) :
    bars p.row = 4 + bars p.name + bars p.type + bars (cell p.description) := by
  have hdescription : bars (cell p.shownDescription) = bars (cell p.description) := by
    rcases p.shownDescription_cases with hsame | ⟨hnil, hnone⟩
    · rw [hsame]
    · rw [hnil, hnone]
      decide
  have hcells : p.row = "| `".toList ++ p.name ++ '`' :: (" | `".toList ++ p.type ++ '`' ::
      (" | ".toList ++ cell p.shownDescription ++ ' ' :: ['|', '\n'])) := by
    rw [p.row_eq]
    unfold Parameter.line
    simp only [List.append_assoc]
    rfl
  have hname (text : Text) : bars ("| `".toList ++ text) = 1 + bars text := rfl
  have htype (text : Text) : bars (" | `".toList ++ text) = 1 + bars text := rfl
  have hcell (text : Text) : bars (" | ".toList ++ text) = 1 + bars text := rfl
  have hend : bars ['|', '\n'] = 1 := rfl
  rw [hcells, bars_append_cons (by decide) (by decide), bars_append_cons (by decide) (by decide),
    bars_append_cons (by decide) (by decide), hname, htype, hcell, hend, hdescription]
  omega

theorem Parameter.newline_not_mem_line_iff {p : Parameter} :
    '\n' ∉ p.line ↔ '\n' ∉ p.name ∧ '\n' ∉ p.type ∧ '\n' ∉ p.description := by
  have hdescription : '\n' ∈ p.shownDescription ↔ '\n' ∈ p.description := by
    rcases p.shownDescription_cases with hsame | ⟨hnil, hnone⟩
    · rw [hsame]
    · rw [hnil, hnone]
      decide
  have hcell : '\n' ∈ cell p.shownDescription ↔ '\n' ∈ p.shownDescription :=
    mem_cell_iff (by decide) (by decide)
  unfold Parameter.line
  simp [hcell, hdescription]

theorem fitsRow_iff {p : Parameter} : FitsRow p ↔ '\n' ∉ p.line ∧ bars p.row = 4 := by
  rw [p.bars_row, Parameter.newline_not_mem_line_iff]
  constructor
  · intro h
    have hcell := bars_cell_eq_zero_iff.mpr h.description_bars
    have hname := h.name_bars
    have htype := h.type_bars
    exact ⟨⟨h.name_line, h.type_line, h.description_line⟩, by omega⟩
  · rintro ⟨⟨hname, htype, hdescription⟩, hbars⟩
    exact ⟨hname, htype, hdescription, by omega, by omega, bars_cell_eq_zero_iff.mp (by omega)⟩

/-! ## Tables -/

/-- The line with the headings, and the one that divides it from the rows. -/
def tableHead : List Text :=
  ["| Name | Type | Description |".toList, "|------|------|-------------|".toList]

/-- A row of a parameter shows its name and type, and has three cells. -/
structure IsRowOf (p : Parameter) (row : Text) : Prop where
  shows : "| ".toList ++ code p.name ++ " | ".toList ++ code p.type ++ " | ".toList <+: row
  bars_eq : bars row = 4

/-- The lines of the table are two at the head and then a row of each parameter, in their order. -/
def IsTableOf (parameters : List Parameter) (table : Text) : Prop :=
  ∃ rows, table.lineRuns = tableHead.map (· ++ ['\n']) ++ rows ∧
    List.Forall₂ IsRowOf parameters rows

theorem isRowOf_row_iff {p : Parameter} : IsRowOf p p.row ↔ bars p.row = 4 := by
  refine ⟨IsRowOf.bars_eq, fun h => ⟨?_, h⟩⟩
  unfold Parameter.row
  simp only [List.append_assoc, List.prefix_append_right_inj, List.prefix_append]

namespace Function

/-- What stands before the table of a function. -/
def beforeTable (f : Function) (setting : Setting) : Text :=
  "### ".toList ++ f.name ++ "\n\n".toList ++ paragraph f.brief ++
    codeBlock (f.signature setting) ++ paragraph f.description ++ "**Parameters:**\n\n".toList

def table (f : Function) : Text := ofLines tableHead ++ f.parameters.flatMap Parameter.row

theorem parameterTable_eq {f : Function} (h : f.parameters ≠ []) :
    parameterTable f.parameters = "**Parameters:**\n\n".toList ++ f.table ++ ['\n'] := by
  have hne : ¬f.parameters.isEmpty := fun hempty => h (List.isEmpty_iff.mp hempty)
  have hhead : "**Parameters:**\n\n| Name | Type | Description |\n|------|------|-------------|\n".toList =
      "**Parameters:**\n\n".toList ++ ofLines tableHead := by decide +kernel
  unfold parameterTable table
  rw [if_neg hne, hhead, List.append_assoc _ (ofLines tableHead)]

theorem render_eq {f : Function} (h : f.parameters ≠ []) (setting : Setting) :
    f.render setting = f.beforeTable setting ++ f.table ++ ['\n'] ++ f.returnPart := by
  unfold render beforeTable
  rw [parameterTable_eq h]
  simp only [List.append_assoc]

theorem table_eq_ofLines (f : Function) :
    f.table = ofLines (tableHead ++ f.parameters.map Parameter.line) := by
  rw [table, ofLines, ofLines, List.flatMap_append, List.flatMap_map, funext Parameter.row_eq]

theorem lineRuns_table {f : Function} (h : ∀ p ∈ f.parameters, '\n' ∉ p.line) :
    f.table.lineRuns = tableHead.map (· ++ ['\n']) ++ f.parameters.map Parameter.row := by
  have hlines : ∀ line ∈ tableHead ++ f.parameters.map Parameter.line, '\n' ∉ line := by
    rw [List.forall_mem_append, List.forall_mem_map]
    exact ⟨by decide, h⟩
  rw [table_eq_ofLines, Text.lineRuns_ofLines hlines, List.map_append, List.map_map,
    funext Parameter.row_eq]
  rfl

/-- A table with the right number of lines has no broken row, as every row brings at least a line. -/
theorem newline_not_mem_of_isTableOf {f : Function} (h : IsTableOf f.parameters f.table) :
    ∀ p ∈ f.parameters, '\n' ∉ p.line := by
  obtain ⟨rows, hlines, hrows⟩ := h
  have hlength : f.table.lineRuns.length = (tableHead ++ f.parameters.map Parameter.line).length := by
    simp only [hlines, List.length_append, List.length_map, hrows.length_eq]
  rw [table_eq_ofLines] at hlength
  have hunbroken := Text.length_lineRuns_ofLines_iff.mp hlength
  rw [List.forall_mem_append, List.forall_mem_map] at hunbroken
  exact hunbroken.2

theorem isTableOf_iff (f : Function) :
    IsTableOf f.parameters f.table ↔ ∀ p ∈ f.parameters, FitsRow p := by
  constructor
  · intro h p hp
    have hunbroken := newline_not_mem_of_isTableOf h
    obtain ⟨rows, hlines, hrows⟩ := h
    rw [lineRuns_table hunbroken] at hlines
    obtain rfl := List.append_cancel_left hlines
    rw [List.forall₂_map_right_iff, List.forall₂_same] at hrows
    exact fitsRow_iff.mpr ⟨hunbroken p hp, (hrows p hp).bars_eq⟩
  · intro h
    refine ⟨_, lineRuns_table fun p hp => (fitsRow_iff.mp (h p hp)).1, ?_⟩
    rw [List.forall₂_map_right_iff, List.forall₂_same]
    exact fun p hp => isRowOf_row_iff.mpr (fitsRow_iff.mp (h p hp)).2

/-- A function with parameters is shown with a table behind their heading, in either setting, and the
table has a line of three cells for each of them exactly if every one has such a row: its name, type
and description are lines, in its name and type all bars are escaped, and in its description none. -/
theorem render_tabulates_iff (f : Function) (setting : Setting) (h : f.parameters ≠ []) :
    f.render setting = f.beforeTable setting ++ f.table ++ ['\n'] ++ f.returnPart ∧
      (IsTableOf f.parameters f.table ↔ ∀ p ∈ f.parameters, FitsRow p) :=
  ⟨render_eq h setting, f.isTableOf_iff⟩

end Function

/-! ## Two functions -/

/-- A function whose one type is put together with a bar. -/
def opener : Function :=
  { name := "open".toList
    brief := []
    description := []
    returnType := voidType
    returnDescription := []
    parameters := [⟨"mode".toList, "Mode<Read | Write>".toList, []⟩]
    isStatic := false
    isConst := false
    isNoexcept := false
    templateParams := []
    access := .publicAccess
    owner := standardTarget }

/-- A function with a bar in a description, and with a parameter that has a type only. -/
def getter : Function :=
  { opener with
    name := "get".toList
    parameters := [⟨"key".toList, "const std::string&".toList, "Lookup key | id".toList⟩,
      ⟨[], "int".toList, []⟩] }

theorem render_tabulates_getter : getter.parameters ≠ [] ∧
    getter.render .free = getter.beforeTable .free ++ getter.table ++ ['\n'] ++ getter.returnPart ∧
    IsTableOf getter.parameters getter.table := by
  have hsome : getter.parameters ≠ [] := List.cons_ne_nil _ _
  obtain ⟨hrender, htable⟩ := getter.render_tabulates_iff .free hsome
  exact ⟨hsome, hrender, htable.mpr (by decide)⟩

def barredTypeText : Text :=
  "<namespace name=\"allure\"><function name=\"open\"><param name=\"mode\">".toList ++
    "<type name=\"Mode&lt;Read | Write&gt;\"/></param></function></namespace>".toList

def barredTypeRoot : Xml.Node :=
  .element namespaceWord [⟨none, nameWord, standardTarget⟩]
    [.element functionWord [⟨none, nameWord, opener.name⟩]
      [.element paramWord [⟨none, nameWord, "mode".toList⟩]
        [.element typeWord [⟨none, nameWord, "Mode<Read | Write>".toList⟩] []]]]

/-- A bar in a type gets into the table as it is, and makes a fourth cell. -/
theorem table_breaks_barredType :
    ∃ found n row, read barredTypeText = .ok found ∧ n ∈ found ∧ opener ∈ n.functions ∧
      opener.render .free =
        opener.beforeTable .free ++ opener.table ++ ['\n'] ++ opener.returnPart ∧
      opener.table = ofLines (tableHead ++ [row]) ∧
      row = "| `mode` | `Mode<Read | Write>` | No description |".toList ∧ bars row = 5 ∧
      ¬IsTableOf opener.parameters opener.table := by
  have hparse : Xml.parse barredTypeText = .ok barredTypeRoot := eq_ok_of_toOption (by decide +kernel)
  have hrender := Function.render_eq (f := opener) (List.cons_ne_nil _ _) .free
  have hnot : ¬∀ p ∈ opener.parameters, FitsRow p := by decide
  exact ⟨_, { Namespace.named standardTarget with functions := [opener] }, _, read_eq_ok hparse,
    by decide +kernel, List.mem_cons_self, hrender, by decide +kernel, rfl, by decide,
    fun h => hnot (opener.isTableOf_iff.mp h)⟩

end DocTools.Reference
