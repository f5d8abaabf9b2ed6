import DocTools.Text.Blank

/-! # Common indentation

Taking off the indentation that the lines of a block share, counted in characters. Blank lines have
no part in it and come out empty. -/
namespace DocTools.Snippet
set_option autoImplicit false

def commonIndent? (lines : List Text) : Option Nat :=
  ((lines.filter fun line => !line.allBlank).map Text.indentation).min?

/-- A line without its first `width` characters; a blank line without any. -/
def dropIndent (width : Nat) (line : Text) : Text :=
  if line.allBlank then [] else line.drop width

/-- The lines without their common indentation, newlines between them. -/
def dedent (lines : List Text) : Text :=
  match commonIndent? lines with
  | none => []
  | some width => Text.join ['\n'] (lines.map (dropIndent width))

end DocTools.Snippet
