import DocTools.Command.Run
import DocTools.Reference.Directory
import DocTools.Reference.Output

/-! # The command that writes the reference

The documentation files in one directory are read into a model, and the pages of one namespace are
written into another directory. Files that can not be read and pages that can not be written are told
of and make the run fail, after all others have been dealt with. -/
namespace DocTools.Command.WriteReference
set_option autoImplicit false
open Reference

/-! ## Settings -/

structure Settings where
  input : Path
  output : Path
  target : Text
  withIndex : Bool
  deriving DecidableEq, Repr

def indexArgument : Argument :=
  ⟨.switch none "index".toList, .text,
    "Also write an index.md overview of the namespace".toList⟩

def usage : Usage where
  name := "refdoc".toList
  about := "Convert MrDocs XML output into Starlight markdown API reference pages".toList
  arguments := [
    ⟨.required "INPUT".toList, .path, "Directory containing the MrDocs XML files".toList⟩,
    ⟨.required "OUTPUT".toList, .path, "Directory the markdown pages are written to".toList⟩,
    ⟨.option (some 'n') "namespace".toList "NAMESPACE".toList, .text,
      "Namespace to document; every other namespace is skipped [default: allure]".toList⟩,
    indexArgument]

def Settings.ofGiven (given : Given) : Settings where
  input := (given.value? "INPUT".toList).getD []
  output := (given.value? "OUTPUT".toList).getD []
  target := (given.value? "namespace".toList).getD standardTarget
  withIndex := given.has indexArgument

/-! ## Running -/

def openingLines (s : Settings) : Text :=
  line ("Parsing MrDocs XML from: ".toList ++ s.input) ++
    line ("Generating Starlight markdown to: ".toList ++ s.output) ++ line []

def summary (model : Model) : Text :=
  line ("\nFound ".toList ++ Text.ofNat model.size ++ " namespace(s)".toList) ++
    model.toList.flatMap fun e =>
      line ("  - ".toList ++ e.1 ++ ": ".toList ++ Text.ofNat e.2.classes.length ++
        " classes, ".toList ++ Text.ofNat e.2.functions.length ++ " functions".toList)

def failureNotices (count : Nat) (what : Text) : List Notice :=
  if count = 0 then [] else [remark ('\n' :: Text.ofNat count ++ what)]

def surveyNotices (s : Settings) (found : Survey) : List Notice :=
  found.notices ++
    if found.files = 0 then [remark ("warning: no XML files found in ".toList ++ s.input)] else []

def targetNotices (s : Settings) (model : Model) : List Notice :=
  if model.contains s.target then []
  else [remark ("warning: namespace '".toList ++ s.target ++
    "' not found; nothing to generate".toList)]

def writeOut (tree : FileTree) (s : Settings) (found : Survey) : Run :=
  let pages := (⟨s.target, s.withIndex⟩ : Generator).pages found.model
  let out := openingLines s ++ found.out ++ summary found.model ++
    line "\nGenerating markdown files...".toList
  let notices := surveyNotices s found ++ targetNotices s found.model
  match writePages tree s.output pages with
  | (grown, .error f) => ⟨grown, 1, out, notices ++ [fatal f], []⟩
  | (grown, .ok w) =>
    ⟨grown, statusOf (found.failures.isEmpty && w.failures.isEmpty),
      out ++ w.out ++ line "\nDone!".toList,
      notices ++ w.notices ++
        failureNotices found.failures.length " file(s) could not be parsed".toList ++
        failureNotices w.failures.length " page(s) could not be written".toList,
      []⟩

def runWith (tree : FileTree) (s : Settings) : Run :=
  if !tree.isDirectory s.input then
    ⟨tree, 1, [],
      [remark ("Error: input directory '".toList ++ s.input ++ "' does not exist".toList)], []⟩
  else match survey tree s.input with
    | .error f => ⟨tree, 1, openingLines s, [fatal f], []⟩
    | .ok found =>
      if found.model.isEmpty then
        ⟨tree, statusOf found.failures.isEmpty, openingLines s ++ found.out,
          surveyNotices s found ++
            [remark "warning: no namespaces found. Check your XML input.".toList], []⟩
      else writeOut tree s found

def run (tree : FileTree) (args : List Text) : Run :=
  usage.run tree args fun given => runWith tree (.ofGiven given)

end DocTools.Command.WriteReference
