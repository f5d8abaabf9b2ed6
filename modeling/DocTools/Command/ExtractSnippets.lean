import DocTools.Command.Run
import DocTools.Snippet.Store

/-! # The command that extracts snippets

Snippets are gathered from the source files and written to the store, even when there were errors;
the exit status tells whether there were. -/
namespace DocTools.Command.ExtractSnippets
set_option autoImplicit false
open Snippet

/-! ## Settings -/

structure Settings where
  root : Path
  source : Option Path
  pattern : Text
  output : Option Path
  deriving DecidableEq, Repr

def Settings.sourceDir (s : Settings) : Path :=
  s.source.getD ((s.root.join "test".toList).join "docs-snippets".toList)

def Settings.storePath (s : Settings) : Path := s.output.getD (storeBelow s.root)

def usage : Usage where
  name := "extract-snippets".toList
  about := "Extract code snippets marked in test sources into a JSON file".toList
  arguments := [
    rootArgument,
    ⟨.option (some 's') "source".toList "SOURCE".toList, .path,
      "Directory scanned for snippet markers [default: <root>/test/docs-snippets]".toList⟩,
    ⟨.option none "pattern".toList "PATTERN".toList, .text,
      "Glob pattern for source files, relative to the source directory [default: **/*.cpp]".toList⟩,
    ⟨.option (some 'o') "output".toList "OUTPUT".toList, .path,
      "Output file [default: <root>/docs/generated/snippets.json]".toList⟩]

def Settings.ofGiven (given : Given) : Settings where
  root := (given.value? "root".toList).getD standardRoot
  source := given.value? "source".toList
  pattern := (given.value? "pattern".toList).getD Extractor.standardPattern
  output := given.value? "output".toList

/-! ## Running -/

def summary (snippets : Snippets) : Text :=
  line ("Extracted ".toList ++ Text.ofNat snippets.size ++ " snippets:".toList) ++
    snippets.toList.flatMap fun s =>
      line ("  - ".toList ++ s.1 ++ " (".toList ++ Text.ofNat (s.2.newlines + 1) ++
        " lines)".toList)

def errorNotices (errors : List ExtractError) : List Notice :=
  if errors = [] then []
  else remark "\nErrors encountered during extraction:".toList ::
    errors.map fun e => remark ("ERROR: ".toList ++ e.message)

def noFilesNotice (s : Settings) : Notice :=
  remark ("warning: no files matched ".toList ++ s.pattern ++ " in ".toList ++ s.sourceDir)

def conclude (tree : FileTree) (s : Settings) (x : Extractor) (count : Nat) : Run :=
  let opening := line ("Extracting snippets from: ".toList ++ s.sourceDir)
  let told := x.events.map Notice.event ++ (if count = 0 then [noFilesNotice s] else []) ++
    errorNotices x.errors
  match Store.save tree s.storePath x.snippets with
  | (saved, none) =>
    ⟨saved, statusOf !x.hasErrors,
      opening ++ summary x.snippets ++ line ("\nSnippets saved to: ".toList ++ s.storePath),
      told, []⟩
  | (grown, some f) => ⟨grown, 1, opening ++ summary x.snippets, told ++ [fatal f], []⟩

def runWith (tree : FileTree) (s : Settings) : Run :=
  match Extractor.fresh.addDirectory tree s.sourceDir s.pattern with
  | .ok (x, count) => conclude tree s x count
  | .error f => ⟨tree, 1, line ("Extracting snippets from: ".toList ++ s.sourceDir), [fatal f], []⟩

def run (tree : FileTree) (args : List Text) : Run :=
  usage.run tree args fun given => runWith tree (.ofGiven given)

end DocTools.Command.ExtractSnippets
