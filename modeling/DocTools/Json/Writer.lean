import DocTools.Json.Escape

/-! # Writing an object of strings

One entry a line, indented by two spaces; an object without entries is a pair of braces. -/
namespace DocTools.Json
set_option autoImplicit false

def entryLine (e : Text × Text) : Text := "  ".toList ++ string e.1 ++ ": ".toList ++ string e.2

def object (entries : List (Text × Text)) : Text :=
  if entries.isEmpty then ['\x7b', '\x7d']
  else ['\x7b', '\n'] ++ Text.join [',', '\n'] (entries.map entryLine) ++ ['\n', '\x7d']

end DocTools.Json
