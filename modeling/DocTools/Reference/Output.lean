import DocTools.Failure
import DocTools.Log
import DocTools.Reference.Page

/-! # Writing pages

Pages go into one directory, which is made first. A page that can not be written is reported and does
not stop the others. -/
namespace DocTools.Reference
set_option autoImplicit false

/-- What became of pages: the tree, the paths written and those that failed, in the order of the
pages. `out` and `notices` are what is told about it. -/
structure Written where
  tree : FileTree
  written : List Path
  failures : List (Path × Failure)
  out : Text
  notices : List Notice

def Written.add (dir : Path) (w : Written) (page : Page) : Written :=
  let path := dir.join page.fileName
  match w.tree.write path (.text page.content) with
  | .ok tree =>
    { w with
      tree := tree
      written := w.written ++ [path]
      out := w.out ++ "Generated ".toList ++ path ++ ['\n'] }
  | .error e =>
    let failure := Failure.writing path e
    { w with
      failures := w.failures ++ [(path, failure)]
      notices := w.notices ++ [.line ("error: ".toList ++ failure.message ++ ['\n'])] }

/-- Writes pages into a directory. Without the directory nothing is written; what was made of it
stays. -/
def writePages (tree : FileTree) (dir : Path) (pages : List Page) : FileTree × Except Failure Written :=
  match tree.makeDirectories dir with
  | (grown, some e) => (grown, .error (.makingOutputDirectory dir e))
  | (grown, none) =>
    let w := pages.foldl (Written.add dir) ⟨grown, [], [], [], []⟩
    (w.tree, .ok w)

end DocTools.Reference
