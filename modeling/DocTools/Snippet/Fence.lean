import DocTools.Text.Blank

/-! # Fenced code blocks

The lines that show a piece of code in a page: an opening fence with its info string, the code, and a
closing fence, all under one indentation. Blank lines of the code are not indented. -/
namespace DocTools.Snippet
set_option autoImplicit false

def fence : Text := "```".toList

def titleKey : Text := "title=".toList

/-- The value of a title that begins the attributes is put between quotation marks, unless there are
quotes among the attributes already. -/
def quoteTitle (attributes : Text) : Text :=
  match Text.after? titleKey attributes with
  | some value =>
    if '"' ∈ attributes ∨ '\'' ∈ attributes then attributes else titleKey ++ '"' :: value ++ ['"']
  | none => attributes

def infoString (language : Text) (attributes : Option Text) : Text :=
  match attributes.map Text.trim with
  | none | some [] => language
  | some trimmed => language ++ ' ' :: quoteTitle trimmed

/-- A line of code under an indentation, with its newline. -/
def codeLine (indent line : Text) : Text :=
  if line.allBlank then ['\n'] else indent ++ line ++ ['\n']

def fencedBlock (indent info code : Text) : Text :=
  indent ++ fence ++ info ++ '\n' :: (Text.splitOn '\n' code).flatMap (codeLine indent) ++
    indent ++ fence ++ ['\n']

end DocTools.Snippet
