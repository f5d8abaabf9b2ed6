import DocTools.Command.ExtractSnippets
import DocTools.Command.InjectSnippets
import DocTools.Command.ListTargets
import DocTools.Command.WriteReference

/-! # The tools

The four commands by name. -/
namespace DocTools.Command
set_option autoImplicit false

inductive Tool where
  | extractSnippets
  | injectSnippets
  | listTargets
  | writeReference
  deriving DecidableEq, Repr

namespace Tool

def all : List Tool := [.extractSnippets, .injectSnippets, .listTargets, .writeReference]

def usage : Tool → Usage
  | .extractSnippets => ExtractSnippets.usage
  | .injectSnippets => InjectSnippets.usage
  | .listTargets => ListTargets.usage
  | .writeReference => WriteReference.usage

def ofName? (name : Text) : Option Tool := all.find? fun tool => tool.usage.name == name

def run (tool : Tool) (system : Program.System) (tree : FileTree) (args : List Text) : Run :=
  match tool with
  | .extractSnippets => ExtractSnippets.run tree args
  | .injectSnippets => InjectSnippets.run tree args
  | .listTargets => ListTargets.run system tree args
  | .writeReference => WriteReference.run tree args

end Tool
end DocTools.Command
