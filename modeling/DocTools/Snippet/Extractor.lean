import DocTools.Failure
import DocTools.Log
import DocTools.Snippet.Dedent
import DocTools.Snippet.Finding
import DocTools.Text.Lines

/-! # Extracting snippets

An extractor gathers snippets and errors over any number of files. The first block of a name is
stored, every later one is an error; names are one set for all files. -/
namespace DocTools.Snippet
set_option autoImplicit false

abbrev Snippets := Dictionary Text Text

/-! ## Errors -/

inductive ExtractError where
  | nestedStart (path : Path) (line : Nat) (name opened : Text)
  | unmatchedEnd (path : Path) (line : Nat) (name : Text)
  | mismatchedEnd (path : Path) (line : Nat) (name opened : Text) (startLine : Nat)
  | unclosed (path : Path) (line : Nat) (name : Text)
  | duplicate (path : Path) (line : Nat) (name : Text)
  | unreadable (path : Path) (cause : IoError)
  deriving DecidableEq, Repr

def place (path : Path) (line : Nat) : Text := path ++ ':' :: Text.ofNat line ++ ": ".toList

def ExtractError.message : ExtractError → Text
  | .nestedStart path line name opened =>
    place path line ++ "Found nested snippet start '".toList ++ name ++ "' inside snippet '".toList ++
      opened ++ ['\'']
  | .unmatchedEnd path line name =>
    place path line ++ "Found end marker for '".toList ++ name ++ "' without matching start".toList
  | .mismatchedEnd path line name opened startLine =>
    place path line ++ "End marker '".toList ++ name ++ "' doesn't match start marker '".toList ++
      opened ++ "' at line ".toList ++ Text.ofNat startLine
  | .unclosed path line name => place path line ++ "Unclosed snippet '".toList ++ name ++ ['\'']
  | .duplicate path line name =>
    place path line ++ "Duplicate snippet name '".toList ++ name ++ ['\'']
  | .unreadable path cause => path ++ ": Error reading file: ".toList ++ cause.message

/-! ## The extractor -/

structure Extractor where
  snippets : Snippets
  errors : List ExtractError
  events : List Log.Event

namespace Extractor

def fresh : Extractor := ⟨Dictionary.empty, [], []⟩

instance : Inhabited Extractor := ⟨fresh⟩

def report (x : Extractor) (e : ExtractError) : Extractor := { x with errors := x.errors ++ [e] }

def storedEvent (path : Path) (name : Text) : Log.Event :=
  ⟨.debug, "snippets::extract".toList, "extracted snippet".toList,
    [("name".toList, name), ("file".toList, path)]⟩

/-- Stores a block unless its name is taken. -/
def store (path : Path) (x : Extractor) (b : Block) : Extractor :=
  if x.snippets.contains b.name then x.report (.duplicate path b.endLine b.name)
  else
    { x with
      snippets := x.snippets.insert b.name (dedent b.body)
      events := x.events ++ [storedEvent path b.name] }

def record (path : Path) (x : Extractor) : Finding → Extractor
  | .block b => x.store path b
  | .nestedStart line name opened => x.report (.nestedStart path line name opened)
  | .unmatchedEnd line name => x.report (.unmatchedEnd path line name)
  | .mismatchedEnd line name opened startLine =>
    x.report (.mismatchedEnd path line name opened startLine)
  | .unclosed line name => x.report (.unclosed path line name)

def addText (x : Extractor) (path : Path) (text : Text) : Extractor :=
  (findings text.lines).foldl (record path) x

def addFile (tree : FileTree) (x : Extractor) (path : Path) : Extractor :=
  match tree.read path with
  | .ok text => x.addText path text
  | .error e => x.report (.unreadable path e)

/-- Takes in the files below a directory that a pattern stands for, and counts them. -/
def addDirectory (tree : FileTree) (x : Extractor) (dir : Path) (pattern : Text) :
    Except Failure (Extractor × Nat) :=
  match tree.glob dir pattern with
  | .ok paths => .ok (paths.foldl (addFile tree) x, paths.length)
  | .error f => .error f

def hasErrors (x : Extractor) : Bool := !x.errors.isEmpty

def standardPattern : Text := "**/*.cpp".toList

end Extractor
end DocTools.Snippet
