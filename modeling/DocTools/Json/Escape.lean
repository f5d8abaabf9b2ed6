import DocTools.Text.Basic

/-! # Strings in JSON

How the characters of a string are written between quotation marks. A quotation mark, a backslash and
the controls are escaped, everything else stands for itself. -/
namespace DocTools.Json
set_option autoImplicit false

def hexDigit (n : Nat) : Char := Nat.digitChar n

def shortEscape? (c : Char) : Option Char :=
  if c = '"' then some '"'
  else if c = '\\' then some '\\'
  else if c = '\x08' then some 'b'
  else if c = '\x0c' then some 'f'
  else if c = '\n' then some 'n'
  else if c = '\r' then some 'r'
  else if c = '\t' then some 't'
  else none

def escapeChar (c : Char) : Text :=
  match shortEscape? c with
  | some letter => ['\\', letter]
  | none =>
    if c.toNat < 0x20 then
      ['\\', 'u', '0', '0', hexDigit (c.toNat / 16), hexDigit (c.toNat % 16)]
    else [c]

def escape (text : Text) : Text := text.flatMap escapeChar

def string (text : Text) : Text := '"' :: escape text ++ ['"']

def unescape? (letter : Char) : Option Char :=
  if letter = '"' ∨ letter = '\\' ∨ letter = '/' then some letter
  else if letter = 'b' then some '\x08'
  else if letter = 'f' then some '\x0c'
  else if letter = 'n' then some '\n'
  else if letter = 'r' then some '\r'
  else if letter = 't' then some '\t'
  else none

end DocTools.Json
