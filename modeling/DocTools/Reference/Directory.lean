import DocTools.Failure
import DocTools.Log
import DocTools.Reference.Reader

/-! # Reading a directory of documentation files

Every file is read by itself. One that can not be read is reported and left out; the fragments of the
others are merged in the order of the files. -/
namespace DocTools.Reference
set_option autoImplicit false

/-- What was learned from a directory: the model, how many files there are, and those that failed.
`out` and `notices` are what is told about it. -/
structure Survey where
  model : Model
  files : Nat
  failures : List (Path × Failure)
  out : Text
  notices : List Notice

def readFile (tree : FileTree) (path : Path) : Except Failure (List Namespace) :=
  match tree.read path with
  | .error e => .error (.reading path e)
  | .ok text => (read text).mapError .document

def logSource : Text := "refdoc::parser".toList

def parsedEvent (path : Path) (count : Nat) : Log.Event :=
  ⟨.debug, logSource, "parsed".toList, [("file".toList, path), ("fragments".toList, Text.ofNat count)]⟩

def skippedEvent (path : Path) : Log.Event :=
  ⟨.warn, logSource, "skipping file".toList, [("file".toList, path)]⟩

def Survey.add (tree : FileTree) (s : Survey) (path : Path) : Survey :=
  let out := s.out ++ "Parsing ".toList ++ path.fileName?.getD [] ++ "...\n".toList
  match readFile tree path with
  | .ok found =>
    { s with
      model := s.model.merge found
      out := out
      notices := s.notices ++ [.event (parsedEvent path found.length)] }
  | .error f =>
    { s with
      failures := s.failures ++ [(path, f)]
      out := out
      notices := s.notices ++
        [.line ("error: failed to parse ".toList ++ path ++ ": ".toList ++ f.message ++ ['\n']),
          .event (skippedEvent path)] }

def documentFiles (tree : FileTree) (dir : Path) : Except Failure (List Path) :=
  tree.glob dir "*.xml".toList

def survey (tree : FileTree) (dir : Path) : Except Failure Survey :=
  (documentFiles tree dir).map fun paths =>
    paths.foldl (Survey.add tree) ⟨Dictionary.empty, paths.length, [], [], []⟩

end DocTools.Reference
