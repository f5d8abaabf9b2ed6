import DocTools.Text.Quoted
import DocTools.Text.Utf8

/-! # Why a document is refused

A fault says what is wrong, an error adds where. Rows and columns count from one; a column counts
characters since the last newline. -/
namespace DocTools.Xml
set_option autoImplicit false

structure Position where
  row : Nat
  column : Nat
  deriving DecidableEq, Repr

def Position.ofOffset (text : Text) (offset : Nat) : Position :=
  let before := text.take offset
  ⟨before.count '\n' + 1, (before.reverse.takeWhile (· ≠ '\n')).length + 1⟩

inductive Fault where
  | wrongXmlUri
  | reservedXmlUri
  | reservedXmlnsUri
  | reservedElementSpace
  | repeatedNamespace (name : Text)
  | unknownNamespace (name : Text)
  | wrongCloseTag (expected actual : Text)
  | strayCloseTag
  | unknownEntity (name : Text)
  | malformedReference
  | referenceLoop
  | openTagInValue
  | repeatedAttribute (name : Text)
  | noRoot
  | openRoot
  | misplacedDeclaration
  | badName
  | forbiddenChar (c : Char)
  | wrongChar (expected actual : Char)
  | unexpectedChar (expected : Text) (actual : Char)
  | missingText (expected : Text)
  | badExternalId
  | dashesInComment
  | cdataEndInText
  | unknownToken
  | endOfInput
  deriving DecidableEq, Repr

structure Error where
  fault : Fault
  position : Position
  deriving DecidableEq, Repr

/-- The first byte of a character, read as a character. -/
def firstByte (c : Char) : Char :=
  match Utf8.encode [c] with
  | b :: _ => Char.ofNat b.toNat
  | [] => c

def forbiddenName (c : Char) : Text :=
  if c = '\x00' then ['\\', '0'] else Text.byNumber c

def Fault.message (place : Text) : Fault → Text
  | .wrongXmlUri => "'xml' namespace prefix mapped to wrong URI at ".toList ++ place
  | .reservedXmlUri => "the 'xml' namespace URI is used for not 'xml' prefix at ".toList ++ place
  | .reservedXmlnsUri =>
    "the 'xmlns' URI is used at ".toList ++ place ++ ", but it must not be declared".toList
  | .reservedElementSpace =>
    "the 'xmlns' prefix is used at ".toList ++ place ++ ", but it must not be".toList
  | .repeatedNamespace name =>
    "namespace '".toList ++ name ++ "' at ".toList ++ place ++ " is already defined".toList
  | .unknownNamespace name =>
    "an unknown namespace prefix '".toList ++ name ++ "' at ".toList ++ place
  | .wrongCloseTag expected actual =>
    "expected '".toList ++ expected ++ "' tag, not '".toList ++ actual ++ "' at ".toList ++ place
  | .strayCloseTag => "unexpected close tag at ".toList ++ place
  | .unknownEntity name => "unknown entity reference '".toList ++ name ++ "' at ".toList ++ place
  | .malformedReference => "malformed entity reference at ".toList ++ place
  | .referenceLoop => "a possible entity reference loop is detected at ".toList ++ place
  | .openTagInValue => "unescaped '<' found at ".toList ++ place
  | .repeatedAttribute name =>
    "attribute '".toList ++ name ++ "' at ".toList ++ place ++ " is already defined".toList
  | .noRoot => "the document does not have a root node".toList
  | .openRoot => "the root node was opened but never closed".toList
  | .misplacedDeclaration => "unexpected XML declaration at ".toList ++ place
  | .badName => "invalid name token at ".toList ++ place
  | .forbiddenChar c =>
    "a non-XML character '".toList ++ forbiddenName c ++ "' found at ".toList ++ place
  | .wrongChar expected actual =>
    "expected '".toList ++ expected :: "' not '".toList ++ firstByte actual :: "' at ".toList ++
      place
  | .unexpectedChar expected actual =>
    "expected ".toList ++ expected ++ " not '".toList ++ firstByte actual :: "' at ".toList ++ place
  | .missingText expected => "expected '".toList ++ expected ++ "' at ".toList ++ place
  | .badExternalId => "invalid ExternalID at ".toList ++ place
  | .dashesInComment => "comment at ".toList ++ place ++ " contains '--'".toList
  | .cdataEndInText =>
    "']]>' at ".toList ++ place ++ " is not allowed inside a character data".toList
  | .unknownToken => "unknown token at ".toList ++ place
  | .endOfInput => "unexpected end of stream".toList

def Position.text (p : Position) : Text := Text.ofNat p.row ++ ':' :: Text.ofNat p.column

def Error.message (e : Error) : Text := e.fault.message e.position.text

end DocTools.Xml
