import DocTools.FilePattern.Search
import DocTools.Xml.Error

/-! # Failures

What can go wrong with a file, a pattern or a document: what was attempted and the cause that
stopped it. The message is the first, a colon and the second. -/
namespace DocTools
set_option autoImplicit false

inductive Failure where
  | reading (path : Path) (cause : IoError)
  | makingDirectory (path : Path) (cause : IoError)
  | makingOutputDirectory (path : Path) (cause : IoError)
  | writing (path : Path) (cause : IoError)
  | pattern (full : Text) (cause : PatternError)
  | document (cause : Xml.Error)
  deriving DecidableEq, Repr

namespace Failure

def attempt : Failure → Text
  | .reading path _ => "failed to read ".toList ++ path
  | .makingDirectory path _ => "failed to create directory: ".toList ++ path
  | .makingOutputDirectory path _ => "failed to create output directory: ".toList ++ path
  | .writing path _ => "failed to write ".toList ++ path
  | .pattern full _ => "invalid glob pattern: ".toList ++ full
  | .document _ => "malformed XML".toList

def cause : Failure → Text
  | .reading _ e | .makingDirectory _ e | .makingOutputDirectory _ e | .writing _ e => e.message
  | .pattern _ e => e.message
  | .document e => e.message

def message (f : Failure) : Text := f.attempt ++ ": ".toList ++ f.cause

end Failure

namespace FileTree

/-- The files below `dir` that a pattern stands for, or why the pattern is none. -/
def glob (tree : FileTree) (dir : Path) (pattern : Text) : Except Failure (List Path) :=
  match tree.filesMatching dir pattern with
  | .ok paths => .ok paths
  | .error e => .error (.pattern (patternBelow dir pattern) e)

/-- Makes the directory that a path lies in, with the parents it lacks. -/
def makeParent (tree : FileTree) (path : Path) : FileTree × Option Failure :=
  match path.parent? with
  | none => (tree, none)
  | some parent =>
    match tree.makeDirectories parent with
    | (grown, none) => (grown, none)
    | (grown, some e) => (grown, some (.makingDirectory parent e))

/-- Writes a text to a path, after making the directory for it. What was made stays on failure. -/
def save (tree : FileTree) (path : Path) (text : Text) : FileTree × Option Failure :=
  match tree.makeParent path with
  | (grown, some failure) => (grown, some failure)
  | (grown, none) =>
    match grown.write path (.text text) with
    | .ok written => (written, none)
    | .error e => (grown, some (.writing path e))

end FileTree

end DocTools
