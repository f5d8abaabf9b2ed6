import DocTools.Text.Basic
import DocTools.Text.Blank

/-! # Diagnostics

What the tools write to the error stream: lines of their own, and events that are shown or not
depending on a filter. An event has a level, the part of the program it comes from, a message and
named values. A filter is a list of levels, each for one part of the program or for all. -/
namespace DocTools
set_option autoImplicit false

namespace Log

inductive Level where
  | error
  | warn
  | info
  | debug
  | trace
  deriving DecidableEq, Repr

def Level.rank : Level → Nat
  | .error => 1
  | .warn => 2
  | .info => 3
  | .debug => 4
  | .trace => 5

def Level.label : Level → Text
  | .error => "ERROR".toList
  | .warn => " WARN".toList
  | .info => " INFO".toList
  | .debug => "DEBUG".toList
  | .trace => "TRACE".toList

structure Event where
  level : Level
  source : Text
  message : Text
  fields : List (Text × Text)
  deriving DecidableEq, Repr

def Event.line (e : Event) : Text :=
  e.level.label ++ ' ' :: e.source ++ ": ".toList ++ e.message ++
    (e.fields.flatMap fun f => ' ' :: f.1 ++ '=' :: f.2) ++ ['\n']

/-! ## Filters -/

/-- The least level that a directive asks for, `none` for silence. -/
structure Directive where
  source : Text
  level : Option Level
  deriving DecidableEq, Repr

abbrev Filter := List Directive

def Filter.standard : Filter := [⟨[], some .warn⟩]

def lower (text : Text) : Text := text.map Char.toLower

def level? (word : Text) : Option (Option Level) :=
  let word := lower word
  if word = "off".toList ∨ word = ['0'] then some none
  else if word = "error".toList ∨ word = ['1'] then some (some .error)
  else if word = "warn".toList ∨ word = ['2'] then some (some .warn)
  else if word = "info".toList ∨ word = ['3'] then some (some .info)
  else if word = "debug".toList ∨ word = ['4'] then some (some .debug)
  else if word = "trace".toList ∨ word = ['5'] then some (some .trace)
  else none

/-- A directive is a level, a part of the program, or `PART=LEVEL`. -/
def directive? (text : Text) : Option Directive :=
  match Text.breakAt? '=' text with
  | some (source, word) => (level? word).map fun level => ⟨source, level⟩
  | none =>
    match level? text with
    | some level => some ⟨[], level⟩
    | none => some ⟨text, some .trace⟩

/-- The filter that a setting describes: directives between commas. A setting with a directive that
can not be read counts as none. -/
def Filter.ofSetting : Option Text → Filter
  | none => .standard
  | some setting =>
    let words := (Text.splitOn ',' setting).map Text.trim |>.filter fun w => !w.isEmpty
    match words.mapM directive? with
    | none => .standard
    | some [] => [⟨[], some .error⟩]
    | some directives => directives

/-- Whether the filter shows an event: the directive with the longest part of the program that fits
decides, of equal ones the last. -/
def Filter.shows (filter : Filter) (e : Event) : Bool :=
  let fitting := filter.filter fun d => Text.startsWith d.source e.source
  let best := fitting.foldl (fun best d =>
    match best with
    | some b => if b.source.length ≤ d.source.length then some d else some b
    | none => some d) (none : Option Directive)
  match best with
  | some ⟨_, some level⟩ => e.level.rank ≤ level.rank
  | _ => false

end Log

/-! ## Notices -/

inductive Notice where
  | line (text : Text)
  | event (e : Log.Event)
  deriving DecidableEq, Repr

def Notice.shown (filter : Log.Filter) : Notice → Text
  | .line text => text
  | .event e => if filter.shows e then e.line else []

def errorStream (filter : Log.Filter) (notices : List Notice) : Text :=
  notices.flatMap (Notice.shown filter)

theorem errorStream_append (filter : Log.Filter) (a b : List Notice) :
    errorStream filter (a ++ b) = errorStream filter a ++ errorStream filter b :=
  List.flatMap_append ..

end DocTools
