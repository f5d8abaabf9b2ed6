import DocTools.Command.Run
import DocTools.Target.Listing

/-! # The command that lists targets

The build tool is asked for its targets and those that begin with a given stem are printed. -/
namespace DocTools.Command.ListTargets
set_option autoImplicit false
open Program

/-! ## Settings -/

structure Settings where
  stem : Text
  buildDir : Text
  limit : Nat
  deriving DecidableEq, Repr

def usage : Usage where
  name := "list-snippet-targets".toList
  about := "List snippet build targets from a configured CMake build tree".toList
  arguments := [
    ⟨.optional "PREFIX".toList, .text,
      "Target name prefix to match [default: DocsSnippet_]".toList⟩,
    ⟨.option (some 'B') "build-dir".toList "BUILD_DIR".toList, .text,
      "CMake build directory [default: build]".toList⟩,
    ⟨.option none "timeout".toList "TIMEOUT".toList, .seconds,
      "Seconds to wait for CMake before giving up [default: 120]".toList⟩]

def limitOf (seconds : Option Text) : Nat :=
  match seconds.map readSeconds with
  | some (.ok n) => n * 1000
  | _ => standardLimit

def Settings.ofGiven (given : Given) : Settings where
  stem := (given.value? "PREFIX".toList).getD Target.standardStem
  buildDir := (given.value? "build-dir".toList).getD "build".toList
  limit := limitOf (given.value? "timeout".toList)

/-! ## Running -/

def runWith (system : System) (tree : FileTree) (s : Settings) : Run :=
  let listing := Target.list (watch s.limit system) s.buildDir s.stem
  ⟨tree, listing.outcome.exitCode, listing.out, listing.notices ++ [.line listing.err],
    listing.calls⟩

def run (system : System) (tree : FileTree) (args : List Text) : Run :=
  usage.run tree args fun given => runWith system tree (.ofGiven given)

end DocTools.Command.ListTargets
