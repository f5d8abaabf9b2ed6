import DocTools.Snippet.Marker

/-! # What the markers of a file delimit

Reading a file from the top, an end marker closes the snippet that is open, well or badly, and a
start marker opens one where none is open. Each marker gives one finding, except that a start marker
which opens a snippet shares the finding of what ends it. -/
namespace DocTools.Snippet
set_option autoImplicit false

/-- A snippet between two markers of its name. The body leaves out marker lines. -/
structure Block where
  name : Text
  startLine : Nat
  endLine : Nat
  body : List Text
  deriving DecidableEq, Repr

inductive Finding where
  | block (b : Block)
  | nestedStart (line : Nat) (name opened : Text)
  | unmatchedEnd (line : Nat) (name : Text)
  | mismatchedEnd (line : Nat) (name opened : Text) (startLine : Nat)
  | unclosed (line : Nat) (name : Text)
  deriving DecidableEq, Repr

/-- The snippet that is open: the line of its start marker and its body so far. -/
structure OpenBlock where
  name : Text
  startLine : Nat
  body : List Text

/-- What an end marker makes of the snippet that is open. -/
def close (line : Nat) (name : Text) : Option OpenBlock → Finding
  | none => .unmatchedEnd line name
  | some o =>
    if name = o.name then .block ⟨name, o.startLine, line, o.body⟩
    else .mismatchedEnd line name o.name o.startLine

/-- The findings in the lines from number `line` on. -/
def findingsFrom : Nat → Option OpenBlock → List Text → List Finding
  | _, none, [] => []
  | _, some o, [] => [.unclosed o.startLine o.name]
  | line, opened, text :: rest =>
    match Marker.ofLine? text, opened with
    | some (.start name), none => findingsFrom (line + 1) (some ⟨name, line, []⟩) rest
    | some (.start name), some o =>
      .nestedStart line name o.name :: findingsFrom (line + 1) (some o) rest
    | some (.stop name), _ => close line name opened :: findingsFrom (line + 1) none rest
    | none, none => findingsFrom (line + 1) none rest
    | none, some o => findingsFrom (line + 1) (some { o with body := o.body ++ [text] }) rest

def findings (lines : List Text) : List Finding := findingsFrom 1 none lines

end DocTools.Snippet
