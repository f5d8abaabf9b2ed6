import DocTools.Command.Run
import DocTools.Snippet.Injector
import DocTools.Snippet.Store

/-! # The command that injects snippets

The templates below one directory are read, and the pages with the snippets of the store in them are
written below another. -/
namespace DocTools.Command.InjectSnippets
set_option autoImplicit false
open Snippet

/-! ## Settings -/

structure Settings where
  root : Path
  snippets : Option Path
  templates : Option Path
  output : Option Path
  deriving DecidableEq, Repr

def Settings.contentDir (s : Settings) : Path :=
  ((s.root.join "docs".toList).join "src".toList).join "content".toList

def Settings.storePath (s : Settings) : Path := s.snippets.getD (storeBelow s.root)

def Settings.templateDir (s : Settings) : Path :=
  s.templates.getD (s.contentDir.join "docs-templates".toList)

def Settings.pageDir (s : Settings) : Path := s.output.getD (s.contentDir.join "docs".toList)

def usage : Usage where
  name := "inject-snippets".toList
  about := "Inject extracted code snippets into markdown templates".toList
  arguments := [
    rootArgument,
    ⟨.option none "snippets".toList "SNIPPETS".toList, .path,
      "Snippet store [default: <root>/docs/generated/snippets.json]".toList⟩,
    ⟨.option (some 't') "templates".toList "TEMPLATES".toList, .path,
      "Template directory [default: <root>/docs/src/content/docs-templates]".toList⟩,
    ⟨.option (some 'o') "output".toList "OUTPUT".toList, .path,
      "Output directory [default: <root>/docs/src/content/docs]".toList⟩]

def Settings.ofGiven (given : Given) : Settings where
  root := (given.value? "root".toList).getD standardRoot
  snippets := given.value? "snippets".toList
  templates := given.value? "templates".toList
  output := given.value? "output".toList

/-! ## Running -/

def loadingLine (s : Settings) : Text := line ("Loading snippets from: ".toList ++ s.storePath)

def loadNotices (e : Store.LoadError) : List Notice :=
  remark ("ERROR: ".toList ++ e.message) ::
    match e with
    | .notFound _ => [remark "Please run extract-snippets first".toList]
    | _ => []

def openingLines (s : Settings) (snippets : Snippets) : Text :=
  loadingLine s ++ line ("Loaded ".toList ++ Text.ofNat snippets.size ++ " snippet(s)".toList) ++
    line ("\nInjecting snippets from templates in: ".toList ++ s.templateDir) ++
    line ("Output directory: ".toList ++ s.pageDir)

def pageLines (pages : List WrittenPage) : Text :=
  (pages.filter fun p => p.injected != 0).flatMap fun p =>
    line ("  ".toList ++ p.input.fileName?.getD [] ++ ": injected ".toList ++
      Text.ofNat p.injected ++ " snippet(s)".toList)

def countLine (pages : List WrittenPage) : Text :=
  line ("\nProcessed ".toList ++ Text.ofNat pages.length ++ " file(s)".toList)

def errorNotices (errors : List InjectError) : List Notice :=
  if errors = [] then []
  else remark "\nErrors encountered during injection:".toList ::
    errors.map fun e => remark ("ERROR: ".toList ++ e.message)

def runWithSnippets (tree : FileTree) (s : Settings) (snippets : Snippets) : Run :=
  match (Injector.ofSnippets snippets).injectDirectory tree s.templateDir s.pageDir with
  | .error f => ⟨tree, 1, openingLines s snippets, [fatal f], []⟩
  | .ok done =>
    ⟨done.tree, statusOf done.injector.errors.isEmpty,
      openingLines s snippets ++ pageLines done.written ++ countLine done.written,
      done.injector.events.map Notice.event ++ errorNotices done.injector.errors, []⟩

def runWith (tree : FileTree) (s : Settings) : Run :=
  match Store.load tree s.storePath with
  | .error e => ⟨tree, 1, loadingLine s, loadNotices e, []⟩
  | .ok snippets => runWithSnippets tree s snippets

def run (tree : FileTree) (args : List Text) : Run :=
  usage.run tree args fun given => runWith tree (.ofGiven given)

end DocTools.Command.InjectSnippets
