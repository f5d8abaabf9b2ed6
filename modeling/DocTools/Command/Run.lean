import DocTools.Command.Arguments
import DocTools.Failure
import DocTools.Log
import DocTools.Program.Basic

/-! # Runs of a command

What one run of a command does: the files afterwards, the exit status, the output, what goes to the
error stream and the programs that were called. -/
namespace DocTools.Command
set_option autoImplicit false

structure Run where
  tree : FileTree
  code : Nat
  out : Text
  notices : List Notice
  calls : List Program.Invocation

def statusOf (clean : Bool) : Nat := if clean then 0 else 1

theorem statusOf_eq_zero_iff (clean : Bool) : statusOf clean = 0 ↔ clean = true := by
  cases clean <;> decide

def line (text : Text) : Text := text ++ ['\n']

def fatal (f : Failure) : Notice :=
  .line ("Error: ".toList ++ f.attempt ++ "\n\nCaused by:\n    ".toList ++ f.cause ++ ['\n'])

def remark (text : Text) : Notice := .line (line text)

/-- A run that ends with what its command line asks for or gets wrong. -/
def Usage.refuse (u : Usage) (tree : FileTree) : Refusal → Run
  | .helpWanted => ⟨tree, 0, u.helpText, [], []⟩
  | refusal => ⟨tree, 2, [], [.line (u.complaint refusal)], []⟩

def Usage.run (u : Usage) (tree : FileTree) (args : List Text) (body : Given → Run) : Run :=
  match u.read args with
  | .ok given => body given
  | .error refusal => u.refuse tree refusal

theorem Usage.run_of_read {u : Usage} {args : List Text} {given : Given} (h : u.read args = .ok given)
    (tree : FileTree) (body : Given → Run) : u.run tree args body = body given := by
  rw [Usage.run, h]

/-- The standard root of a project, and the place of the snippet store below a root. -/
def standardRoot : Path := ['.']

def storeBelow (root : Path) : Path :=
  ((root.join "docs".toList).join "generated".toList).join "snippets.json".toList

def rootArgument : Argument :=
  ⟨.option none "root".toList "ROOT".toList, .path,
    "Project root that the default paths are resolved against [default: .]".toList⟩

end DocTools.Command
