import DocTools.Text.Basic

/-! # Arguments of a command

A command takes options, switches and positional arguments. The words of a command line are read from
left to right. A value that stands in a word of its own is settled, that is checked and noted, only
when the next argument begins, so of two faults the one whose word is looked at first is reported:
an unknown option hides a bad value right in front of it. -/
namespace DocTools.Command
set_option autoImplicit false

/-! ## What a command takes -/

/-- What a value is: any text, a path, which is not empty, or a whole number of seconds. -/
inductive Kind where
  | text
  | path
  | seconds
  deriving DecidableEq, Repr

/-- How an argument is written. -/
inductive Form where
  | option (short : Option Char) (long placeholder : Text)
  | switch (short : Option Char) (long : Text)
  | optional (placeholder : Text)
  | required (placeholder : Text)
  deriving DecidableEq, Repr

structure Argument where
  form : Form
  kind : Kind
  about : Text
  deriving DecidableEq, Repr

/-- A command, with its arguments in the order in which help lists them. -/
structure Usage where
  name : Text
  about : Text
  arguments : List Argument
  deriving DecidableEq, Repr

def help : Argument := ⟨.switch (some 'h') "help".toList, .text, "Print help".toList⟩

namespace Argument

def name (a : Argument) : Text :=
  match a.form with
  | .option _ long _ | .switch _ long => long
  | .optional placeholder | .required placeholder => placeholder

def label (a : Argument) : Text :=
  match a.form with
  | .option _ long placeholder => "--".toList ++ long ++ " <".toList ++ placeholder ++ ['>']
  | .switch _ long => "--".toList ++ long
  | .optional placeholder => '[' :: placeholder ++ [']']
  | .required placeholder => '<' :: placeholder ++ ['>']

def isPositional (a : Argument) : Bool :=
  match a.form with
  | .optional _ | .required _ => true
  | _ => false

def isRequired (a : Argument) : Bool :=
  match a.form with
  | .required _ => true
  | _ => false

def takesValue (a : Argument) : Bool :=
  match a.form with
  | .switch _ _ => false
  | _ => true

def hasLong (long : Text) (a : Argument) : Bool :=
  match a.form with
  | .option _ l _ | .switch _ l => l == long
  | _ => false

def hasShort (short : Char) (a : Argument) : Bool :=
  match a.form with
  | .option s _ _ | .switch s _ => s == some short
  | _ => false

end Argument

namespace Usage

def positionals (u : Usage) : List Argument := u.arguments.filter Argument.isPositional

def options (u : Usage) : List Argument :=
  (u.arguments.filter fun a => !a.isPositional) ++ [help]

def line (u : Usage) : Text :=
  "Usage: ".toList ++ u.name ++ " [OPTIONS]".toList ++
    u.positionals.flatMap fun a => ' ' :: a.label

/-- How the command is called with some options and all that is required. -/
def lineWith (u : Usage) (used : List Argument) : Text :=
  "Usage: ".toList ++ u.name ++
    ((used ++ u.positionals.filter Argument.isRequired).flatMap fun a => ' ' :: a.label)

end Usage

/-! ## Refusals -/

inductive SecondsFault where
  | badDigit
  | tooLarge
  | empty
  deriving DecidableEq, Repr

def SecondsFault.message : SecondsFault → Text
  | .badDigit => "invalid digit found in string".toList
  | .tooLarge => "number too large to fit in target type".toList
  | .empty => "cannot parse integer from empty string".toList

inductive Refusal where
  | helpWanted
  | unexpected (word : Text) (isOption : Bool)
  | unneededValue (value : Text) (argument : Argument) (used : List Argument)
  | missingValue (argument : Argument)
  | repeated (argument : Argument)
  | badSeconds (value : Text) (argument : Argument) (fault : SecondsFault)
  | missingArguments (missing used : List Argument)
  deriving DecidableEq, Repr

/-! ## Values -/

/-- One more than the largest number of seconds. -/
def secondsEnd : Nat := Nat.pow 2 64

/-- Goes on with the digits of a number; of a digit that is none and a number too large the one that
comes first counts. -/
def readDigits : Nat → Text → Except SecondsFault Nat
  | n, [] => .ok n
  | n, c :: rest =>
    if c.isDigit then
      let m := n * 10 + (c.toNat - '0'.toNat)
      if m < secondsEnd then readDigits m rest else .error .tooLarge
    else .error .badDigit

/-- A whole number of seconds, in digits after a plus sign or none. -/
def readSeconds : Text → Except SecondsFault Nat
  | [] => .error .empty
  | ['+'] => .error .badDigit
  | '+' :: digits => readDigits 0 digits
  | digits => readDigits 0 digits

def Argument.check (a : Argument) (value : Text) : Except Refusal Unit :=
  match a.kind with
  | .text => .ok ()
  | .path => if value = [] then .error (.missingValue a) else .ok ()
  | .seconds =>
    match readSeconds value with
    | .ok _ => .ok ()
    | .error fault => .error (.badSeconds value a fault)

/-- The arguments given and their values, in the order of the command line. -/
abbrev Given := List (Argument × Text)

def Given.has (given : Given) (a : Argument) : Bool := given.any fun g => g.1 == a

def Given.value? (given : Given) (name : Text) : Option Text :=
  (given.find? fun g => g.1.name == name).map (·.2)

/-! ## Reading -/

/-- What has been read: arguments that are settled, one that still waits to be, perhaps for its value
too, and the positional arguments to come. -/
structure Reading where
  given : Given
  waiting : Option (Argument × Option Text)
  places : List Argument
  deriving DecidableEq, Repr

namespace Reading

def note (r : Reading) (a : Argument) (value : Text) : Except Refusal Reading :=
  if r.given.has a then .error (.repeated a)
  else (a.check value).map fun _ => { r with given := r.given ++ [(a, value)] }

def settle (r : Reading) : Except Refusal Reading :=
  match r.waiting with
  | none => .ok r
  | some (a, none) => .error (.missingValue a)
  | some (a, some value) => note { r with waiting := none } a value

/-- Begins an option or switch, with the value that is attached to it. -/
def begin (r : Reading) (a : Argument) (attached : Option Text) : Except Refusal Reading := do
  let settled ← r.settle
  match attached with
  | some value => settled.note a value
  | none =>
    if a = help then .error .helpWanted
    else if a.takesValue then return { settled with waiting := some (a, none) }
    else settled.note a []

def usedOptions (r : Reading) : List Argument :=
  (r.given.map (·.1)).filter fun a => !a.isPositional

def long (u : Usage) (r : Reading) (word : Text) : Except Refusal Reading :=
  let (name, attached) := match Text.breakAt? '=' word with
    | some (name, value) => (name, some value)
    | none => (word, none)
  match u.options.find? (Argument.hasLong name), attached with
  | none, _ => .error (.unexpected ("--".toList ++ name) true)
  | some a, some value =>
    if a.takesValue then r.begin a (some value)
    else .error (.unneededValue value a r.usedOptions)
  | some a, none => r.begin a none

/-- Reads the letters after one dash. What follows the letter of an option is its value. -/
def shorts (u : Usage) : Reading → Text → Except Refusal Reading
  | r, [] => .ok r
  | r, c :: rest =>
    match u.options.find? (Argument.hasShort c) with
    | none => .error (.unexpected ['-', c] true)
    | some a =>
      if a.takesValue then
        match rest with
        | [] => r.begin a none
        | '=' :: value => r.begin a (some value)
        | value => r.begin a (some value)
      else do shorts u (← r.begin a none) rest

def positional (r : Reading) (word : Text) : Except Refusal Reading :=
  match r.places with
  | [] => .error (.unexpected word false)
  | place :: places =>
    r.settle.map fun settled => { settled with waiting := some (place, some word), places := places }

def word (u : Usage) (r : Reading) (text : Text) : Except Refusal Reading :=
  match text with
  | '-' :: '-' :: name => long u r name
  | '-' :: c :: letters => shorts u r (c :: letters)
  | _ =>
    match r.waiting with
    | some (a, none) => .ok { r with waiting := some (a, some text) }
    | _ => r.positional text

/-- Reads words; after two dashes alone none of them is an option. -/
def words (u : Usage) (r : Reading) : List Text → Except Refusal Reading
  | [] => r.settle
  | text :: rest => do
    if text = "--".toList then (← rest.foldlM positional r).settle
    else words u (← word u r text) rest

end Reading

namespace Usage

def read (u : Usage) (args : List Text) : Except Refusal Given := do
  let r ← Reading.words u ⟨[], none, u.positionals⟩ args
  match r.places.filter Argument.isRequired with
  | [] => return r.given
  | missing => .error (.missingArguments missing r.usedOptions)

/-! ## Messages -/

/-- What stands in front of the description of an argument in help. -/
def helpLead (a : Argument) : Text :=
  match a.form with
  | .option (some c) _ _ | .switch (some c) _ => "  -".toList ++ c :: ", ".toList ++ a.label
  | .option none _ _ | .switch none _ => "      ".toList ++ a.label
  | _ => "  ".toList ++ a.label

def helpRows (arguments : List Argument) : Text :=
  let width := (arguments.map fun a => (helpLead a).length).foldl max 0
  arguments.flatMap fun a =>
    helpLead a ++ List.replicate (width + 2 - (helpLead a).length) ' ' ++ a.about ++ ['\n']

def helpText (u : Usage) : Text :=
  u.about ++ "\n\n".toList ++ u.line ++ "\n\n".toList ++
    (if u.positionals = [] then []
      else "Arguments:\n".toList ++ helpRows u.positionals ++ ['\n']) ++
    "Options:\n".toList ++ helpRows u.options

/-- The refusal in words, with a hint and the right usage where they help. -/
def explain (u : Usage) : Refusal → Text × Option Text × Option Text
  | .helpWanted => ([], none, none)
  | .unexpected word isOption =>
    ("unexpected argument '".toList ++ word ++ "' found".toList,
      if isOption && !u.positionals.isEmpty then
        some ("  tip: to pass '".toList ++ word ++ "' as a value, use '-- ".toList ++ word ++ ['\''])
      else none,
      some u.line)
  | .unneededValue value a used =>
    ("unexpected value '".toList ++ value ++ "' for '".toList ++ a.label ++
        "' found; no more were expected".toList,
      none, some (u.lineWith (used ++ [a])))
  | .missingValue a =>
    ("a value is required for '".toList ++ a.label ++ "' but none was supplied".toList, none, none)
  | .repeated a =>
    ("the argument '".toList ++ a.label ++ "' cannot be used multiple times".toList, none,
      some u.line)
  | .badSeconds value a fault =>
    ("invalid value '".toList ++ value ++ "' for '".toList ++ a.label ++ "': ".toList ++
      fault.message, none, none)
  | .missingArguments missing used =>
    ("the following required arguments were not provided:".toList ++
        missing.flatMap fun a => "\n  ".toList ++ a.label,
      none, some (u.lineWith used))

def complaint (u : Usage) (refusal : Refusal) : Text :=
  let (what, tip, usage) := u.explain refusal
  let paragraph (text : Text) := text ++ "\n\n".toList
  "error: ".toList ++ paragraph what ++ (tip.map paragraph).getD [] ++
    (usage.map paragraph).getD [] ++ "For more information, try '--help'.\n".toList

end Usage
end DocTools.Command
