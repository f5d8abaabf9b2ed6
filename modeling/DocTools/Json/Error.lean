import DocTools.Text.Quoted
import DocTools.Text.Utf8

/-! # Why a text is no JSON object of strings

A fault, and the line and the column it was found at. Columns count bytes. -/
namespace DocTools.Json
set_option autoImplicit false

inductive Kind where
  | null
  | boolean (value : Bool)
  | integer (negative : Bool) (magnitude : Nat)
  | float (text : Text)
  | string (value : Text)
  | sequence
  | map
  deriving DecidableEq, Repr

def Kind.text : Kind → Text
  | .null => "null".toList
  | .boolean true => "boolean `true`".toList
  | .boolean false => "boolean `false`".toList
  | .integer negative magnitude =>
    "integer `".toList ++ (if negative then ['-'] else []) ++ Text.ofNat magnitude ++ ['`']
  | .float written => "floating point `".toList ++ written ++ ['`']
  | .string value => "string ".toList ++ Text.quoted value
  | .sequence => "sequence".toList
  | .map => "map".toList

inductive Wanted where
  | map
  | string
  deriving DecidableEq, Repr

def Wanted.text : Wanted → Text
  | .map => "a map".toList
  | .string => "a string".toList

inductive Fault where
  | endInValue
  | endInObject
  | endInString
  | noValue
  | keyNotString
  | noColon
  | noCommaOrEnd
  | trailingComma
  | trailingCharacters
  | badNumber
  | badWord
  | numberTooLarge
  | badEscape
  | controlCharacter
  | loneSurrogate
  | noSecondSurrogate
  | wrongType (found : Kind) (wanted : Wanted)
  deriving DecidableEq, Repr

def Fault.message : Fault → Text
  | .endInValue => "EOF while parsing a value".toList
  | .endInObject => "EOF while parsing an object".toList
  | .endInString => "EOF while parsing a string".toList
  | .noValue => "expected value".toList
  | .keyNotString => "key must be a string".toList
  | .noColon => "expected `:`".toList
  | .noCommaOrEnd => "expected `,` or `\x7d`".toList
  | .trailingComma => "trailing comma".toList
  | .trailingCharacters => "trailing characters".toList
  | .badNumber => "invalid number".toList
  | .badWord => "expected ident".toList
  | .numberTooLarge => "number out of range".toList
  | .badEscape => "invalid escape".toList
  | .controlCharacter =>
    "control character (\\u0000-\\u001F) found while parsing a string".toList
  | .loneSurrogate => "lone leading surrogate in hex escape".toList
  | .noSecondSurrogate => "unexpected end of hex escape".toList
  | .wrongType found wanted =>
    "invalid type: ".toList ++ found.text ++ ", expected ".toList ++ wanted.text

structure Error where
  fault : Fault
  line : Nat
  column : Nat
  deriving DecidableEq, Repr

def Error.message (e : Error) : Text :=
  e.fault.message ++ " at line ".toList ++ Text.ofNat e.line ++ " column ".toList ++
    Text.ofNat e.column

/-- Where reading stopped: what was left to read, and how many bytes of it count as read. -/
structure Stop where
  fault : Fault
  rest : Text
  ahead : Nat
  deriving DecidableEq, Repr

/-- The error of a stop within a text: lines and columns of the bytes read. -/
def Error.ofStop (text : Text) (stop : Stop) : Error :=
  let bytes := Utf8.encode text
  let read := bytes.take (Utf8.size text - Utf8.size stop.rest + stop.ahead)
  ⟨stop.fault, read.count 10 + 1, (read.reverse.takeWhile (· ≠ 10)).length⟩

end DocTools.Json
