import DocTools.Program.Basic
import DocTools.Target.Scan
import DocTools.Text.Lines

/-! # Listing the targets of a build tree

The build tool is asked for its targets, once; what it answers decides which names are listed, what
is written and the exit status. -/
namespace DocTools.Target
set_option autoImplicit false
open Program

inductive Outcome where
  | listed (names : List Text)
  | commandFailed
  | noMatches
  deriving DecidableEq, Repr

def Outcome.exitCode : Outcome → Nat
  | .listed _ => 0
  | .commandFailed => 1
  | .noMatches => 2

structure Listing where
  outcome : Outcome
  out : Text
  err : Text
  calls : List Invocation
  notices : List Notice
  deriving DecidableEq, Repr

def question (buildDir : Text) : Invocation :=
  ⟨"cmake".toList, ["--build".toList, buildDir, "--target".toList, "help".toList]⟩

def failureLead : Text := "Failed to list targets via CMake: ".toList

def endText : Option Int → Text
  | none => "a signal".toList
  | some code => "status ".toList ++ (if code < 0 then ['-'] else []) ++ Text.ofNat code.natAbs

/-- What the answer of the build tool amounts to: outcome, output and error output. -/
def answer (stem : Text) : Except RunError Finished → Outcome × Text × Text
  | .error e => (.commandFailed, [], failureLead ++ e.message ++ ['\n'])
  | .ok f =>
    if f.succeeded then
      match targets stem f.stdout.lines with
      | [] => (.noMatches, [], "No targets found with prefix '".toList ++ stem ++ "'.\n".toList)
      | names => (.listed names, names.flatMap (· ++ ['\n']), [])
    else
      (.commandFailed, [],
        failureLead ++ "cmake exited with ".toList ++ endText f.code ++ '\n' :: f.stderr)

/-- Asks the build tool and lists the targets that begin with `stem`. -/
def list (run : Runner) (buildDir stem : Text) : Listing :=
  let call := question buildDir
  let result := run call
  let (outcome, out, err) := answer stem result
  ⟨outcome, out, err, [call], (events call result).map .event⟩

def standardStem : Text := "DocsSnippet_".toList

end DocTools.Target
