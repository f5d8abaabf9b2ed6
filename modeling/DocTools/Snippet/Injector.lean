import DocTools.Failure
import DocTools.Log
import DocTools.Snippet.Extractor
import DocTools.Snippet.Injection

/-! # Injecting snippets into files

An injector has the snippets and gathers errors while templates are read from one place and pages
written to another. A template that fails is noted and does not stop the others. -/
namespace DocTools.Snippet
set_option autoImplicit false

inductive InjectError where
  | missing (path : Path) (line : Nat) (name : Text)
  | file (path : Path) (failure : Failure)
  deriving DecidableEq, Repr

def InjectError.message : InjectError → Text
  | .missing path line name => place path line ++ "Snippet '".toList ++ name ++ "' not found".toList
  | .file path failure => path ++ ": Error processing file: ".toList ++ failure.message

structure Injector where
  snippets : Snippets
  errors : List InjectError
  events : List Log.Event

structure WrittenPage where
  input : Path
  output : Path
  injected : Nat
  deriving DecidableEq, Repr

namespace Injector

def ofSnippets (snippets : Snippets) : Injector := ⟨snippets, [], []⟩

def injectText (x : Injector) (path : Path) (text : Text) : Injector × Injection :=
  let injection := inject x.snippets text
  ({ x with errors := x.errors ++ injection.missing.map fun m => .missing path m.1 m.2 }, injection)

def processedEvent (input : Path) (injected : Nat) : Log.Event :=
  ⟨.debug, "snippets::inject".toList, "processed template".toList,
    [("input".toList, input), ("injected".toList, Text.ofNat injected)]⟩

/-- Injects into the template at `input` and writes the page to `output`. -/
def injectFile (tree : FileTree) (x : Injector) (input output : Path) :
    FileTree × Injector × Except Failure Nat :=
  match tree.read input with
  | .error e => (tree, x, .error (.reading input e))
  | .ok text =>
    let (x, injection) := x.injectText input text
    match tree.save output injection.output with
    | (tree, some failure) => (tree, x, .error failure)
    | (tree, none) =>
      (tree, { x with events := x.events ++ [processedEvent input injection.injected] },
        .ok injection.injected)

/-- Where the page of a template goes: its path below the one directory, below the other. -/
def outputPath (inputDir outputDir input : Path) : Path :=
  outputDir.join ((Path.below? inputDir input).getD input)

/-- A run over many templates: the tree, the injector and the pages written. -/
structure Run where
  tree : FileTree
  injector : Injector
  written : List WrittenPage

def Run.add (inputDir outputDir : Path) (run : Run) (input : Path) : Run :=
  let output := outputPath inputDir outputDir input
  match injectFile run.tree run.injector input output with
  | (tree, x, .ok injected) => ⟨tree, x, run.written ++ [⟨input, output, injected⟩]⟩
  | (tree, x, .error failure) =>
    ⟨tree, { x with errors := x.errors ++ [.file input failure] }, run.written⟩

def templatePatterns : List Text := ["**/*.md".toList, "**/*.mdx".toList]

/-- Goes on with the templates below a directory that a pattern stands for. -/
def Run.addMatching (inputDir outputDir : Path) (run : Run) (pattern : Text) :
    Except Failure Run :=
  (run.tree.glob inputDir pattern).map fun inputs => inputs.foldl (Run.add inputDir outputDir) run

/-- Injects into every template below `inputDir` and writes the pages below `outputDir`. -/
def injectDirectory (tree : FileTree) (x : Injector) (inputDir outputDir : Path) :
    Except Failure Run :=
  templatePatterns.foldlM (Run.addMatching inputDir outputDir) ⟨tree, x, []⟩

end Injector
end DocTools.Snippet
