import DocTools.Log
import DocTools.Text.Quoted
import DocTools.Text.Utf8

/-! # Running programs

A program that is started runs until it ends or its time is up. What comes of a start is a course:
whether the program starts, how and when it ends and which bytes it leaves. A runner has seen such a
course and says what is known afterwards. -/
namespace DocTools.Program
set_option autoImplicit false

structure Invocation where
  program : Text
  args : List Text
  deriving DecidableEq, Repr

/-! ## Courses -/

/-- How a program came to its end. -/
inductive Ending where
  | exit (code : Nat)
  | signal (number : Nat)
  deriving DecidableEq, Repr

/-- There is no exit code when a signal ended the program. -/
def Ending.code? : Ending → Option Int
  | .exit code => some code
  | .signal _ => none

/-- What comes of a start: a refusal by the system, with its wording; an end, `after` milliseconds,
with the bytes on both streams; or no end at all. -/
inductive Course where
  | refused (cause : Text)
  | ends (after : Nat) (ending : Ending) (stdout stderr : List UInt8)
  | hangs
  deriving DecidableEq, Repr

abbrev System := Invocation → Course

/-! ## Runners -/

structure Finished where
  code : Option Int
  stdout : Text
  stderr : Text
  deriving DecidableEq, Repr

def Finished.succeeded (f : Finished) : Bool := f.code == some 0

/-- Why a program left nothing behind. Causes of the system are given by their wording. -/
inductive RunError where
  | spawn (program cause : Text)
  | wait (program cause : Text)
  | timedOut (program : Text) (milliseconds : Nat)
  deriving DecidableEq, Repr

def RunError.message : RunError → Text
  | .spawn program cause => "failed to start ".toList ++ program ++ ": ".toList ++ cause
  | .wait program cause => "failed waiting for ".toList ++ program ++ ": ".toList ++ cause
  | .timedOut program milliseconds =>
    program ++ " did not finish within ".toList ++ Text.ofNat (milliseconds / 1000) ++ ['s']

abbrev Runner := Invocation → Except RunError Finished

/-- Two minutes. -/
def standardLimit : Nat := 120000

/-- Runs programs of a system for less than `limit` milliseconds each. Bytes that encode no text
become replacement characters. -/
def watch (limit : Nat) (system : System) : Runner := fun call =>
  match system call with
  | .refused cause => .error (.spawn call.program cause)
  | .hangs => .error (.timedOut call.program limit)
  | .ends after ending stdout stderr =>
    if after < limit then
      .ok ⟨ending.code?, Utf8.textWithReplacements stdout, Utf8.textWithReplacements stderr⟩
    else .error (.timedOut call.program limit)

/-! ## Events -/

def logSource : Text := "snippets::targets".toList

def startEvent (call : Invocation) : Log.Event :=
  ⟨.debug, logSource, "spawning".toList,
    [("program".toList, Text.quoted call.program), ("args".toList, Text.quotedList call.args)]⟩

def killEvent (call : Invocation) : Log.Event :=
  ⟨.warn, logSource, "killing process after timeout".toList,
    [("program".toList, Text.quoted call.program)]⟩

def events (call : Invocation) : Except RunError Finished → List Log.Event
  | .error (.timedOut _ _) => [startEvent call, killEvent call]
  | _ => [startEvent call]

end DocTools.Program
