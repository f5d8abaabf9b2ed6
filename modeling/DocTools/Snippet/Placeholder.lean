import DocTools.Text.Blank

/-! # Placeholders

The line of a template that a snippet takes the place of:
`<!-- snippet:NAME:LANGUAGE -->` or `<!-- snippet:NAME:LANGUAGE:ATTRIBUTES -->`, under an indentation
of spaces and tabs. No field holds a colon; the last `-->` of the line ends the last field. -/
namespace DocTools.Snippet
set_option autoImplicit false

structure Placeholder where
  indent : Text
  name : Text
  language : Text
  attributes : Option Text
  deriving DecidableEq, Repr

def commentOpen : Text := "<!--".toList
def commentClose : Text := "-->".toList
def placeholderKey : Text := "snippet:".toList

def isIndent (c : Char) : Bool := c == ' ' || c == '\t'

namespace Placeholder

/-- What stands before the `-->` that ends a text, blanks after it apart. -/
def beforeClose? (text : Text) : Option Text :=
  (Text.after? commentClose.reverse text.trimEnd.reverse).map List.reverse

def fields? (text : Text) : Option (Text × Option Text) :=
  match Text.splitOn ':' text with
  | [language] => if language = [] then none else some (language, none)
  | [language, attributes] =>
    if language = [] ∨ attributes = [] then none else some (language, some attributes)
  | _ => none

def ofLine? (line : Text) : Option Placeholder := do
  let indent := line.takeWhile isIndent
  let rest ← Text.after? commentOpen (line.dropWhile isIndent)
  let rest ← Text.after? placeholderKey (Text.trimStart rest)
  let (name, rest) ← Text.breakAt? ':' rest
  if name = [] then none
  let (language, attributes) ← fields? (← beforeClose? rest)
  return ⟨indent, name.trim, language.trim, attributes.map Text.trim⟩

end Placeholder
end DocTools.Snippet
