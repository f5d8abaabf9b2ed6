import DocTools.Json.Reader
import DocTools.Json.Writer
import DocTools.Snippet.Extractor

/-! # The snippet store

A file that holds snippets as an object of strings, names in order. -/
namespace DocTools.Snippet
set_option autoImplicit false

namespace Store

def text (snippets : Snippets) : Text := Json.object snippets.toList

/-- The snippets that a text holds. Of entries with one name the last counts. -/
def ofText (content : Text) : Except Json.Error Snippets :=
  (Json.entries? content).map Dictionary.ofList

inductive LoadError where
  | notFound (path : Path)
  | invalid (cause : Json.Error)
  | unreadable (path : Path) (cause : IoError)
  deriving DecidableEq, Repr

def LoadError.message : LoadError → Text
  | .notFound path => "Snippets file not found: ".toList ++ path
  | .invalid cause => "Invalid JSON in snippets file: ".toList ++ cause.message
  | .unreadable path cause => "failed to read ".toList ++ path ++ ": ".toList ++ cause.message

def load (tree : FileTree) (path : Path) : Except LoadError Snippets :=
  match tree.read path with
  | .error .notFound => .error (.notFound path)
  | .error e => .error (.unreadable path e)
  | .ok content => (ofText content).mapError .invalid

def save (tree : FileTree) (path : Path) (snippets : Snippets) : FileTree × Option Failure :=
  tree.save path (text snippets)

end Store
end DocTools.Snippet
