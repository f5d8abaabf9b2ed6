import DocTools.Text.Blank

/-! # Markers

A snippet stands between two lines of a source file, `// [snippet:NAME]` and `// [/snippet:NAME]`,
with blanks allowed around `//` and at the end. -/
namespace DocTools.Snippet
set_option autoImplicit false

inductive Marker where
  | start (name : Text)
  | stop (name : Text)
  deriving DecidableEq, Repr

def startTag : Text := "[snippet:".toList
def stopTag : Text := "[/snippet:".toList

namespace Marker

/-- The name that ends at the first bracket, when it is not empty and only blanks follow. -/
def name? (text : Text) : Option Text :=
  match Text.breakAt? ']' text with
  | some (name, rest) => if !name.isEmpty && rest.allBlank then some name else none
  | none => none

def ofLine? (line : Text) : Option Marker :=
  match Text.after? ['/', '/'] line.trimStart with
  | none => none
  | some rest =>
    let tag := Text.trimStart rest
    match Text.after? startTag tag, Text.after? stopTag tag with
    | some body, _ => (name? body).map .start
    | none, some body => (name? body).map .stop
    | none, none => none

end Marker
end DocTools.Snippet
