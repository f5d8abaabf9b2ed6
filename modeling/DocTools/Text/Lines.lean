import DocTools.Text.Basic

/-! # Lines

Two ways to see the lines of a text. `lineRuns` cuts after every newline and keeps it, so the runs
put together are the text; `lines` leaves out the ends of lines, a newline with the carriage return
in front of it. -/
namespace DocTools.Text
set_option autoImplicit false

/-- The lines of a text, each with its newline; the last may lack one. -/
def lineRuns : Text → List Text
  | [] => []
  | c :: rest =>
    if c = '\n' then [c] :: lineRuns rest
    else match lineRuns rest with
      | [] => [[c]]
      | run :: runs => (c :: run) :: runs

/-- A line run without its end: the newline, and a carriage return just before it. -/
def chomp : Text → Text
  | [] => []
  | ['\n'] => []
  | ['\r', '\n'] => []
  | c :: rest => c :: chomp rest

/-- The lines of a text without their ends. A carriage return that no newline follows stays. -/
def lines (text : Text) : List Text := (lineRuns text).map chomp

def newlines (text : Text) : Nat := text.count '\n'

theorem flatten_lineRuns (text : Text) : (lineRuns text).flatten = text := by
  induction text with
  | nil => rfl
  | cons c rest ih =>
    by_cases h : c = '\n'
    · simp [lineRuns, h, ih]
    · rw [lineRuns, if_neg h]
      cases hr : lineRuns rest with
      | nil => simp_all
      | cons run runs => simp_all

end DocTools.Text
