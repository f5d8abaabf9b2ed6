import DocTools.Dictionary
import DocTools.Text.Word

/-! # Finding build targets in a text

A target name is a given stem at a word boundary and the characters of names after it, one at least
and as many as there are. Matches are taken from the left and do not overlap. -/
namespace DocTools.Target
set_option autoImplicit false

def isNameChar (c : Char) : Bool := c.isAlphanum || c == '_' || c == '+' || c == '.' || c == '-'

/-- The target name at the front of a text, given the character before it, and what follows. -/
def nameAt? (stem : Text) (before : Option Char) (text : Text) : Option (Text × Text) :=
  if isBoundary before text.head? then
    match Text.after? stem text with
    | some rest =>
      if (rest.takeWhile isNameChar).isEmpty then none
      else some (stem ++ rest.takeWhile isNameChar, rest.dropWhile isNameChar)
    | none => none
  else none

theorem length_of_nameAt? {stem text name rest : Text} {before : Option Char}
    (h : nameAt? stem before text = some (name, rest)) : rest.length < text.length := by
  unfold nameAt? at h
  split at h
  · split at h
    · next tail htail =>
      split at h
      · simp at h
      · next hne =>
        simp only [Option.some.injEq, Prod.mk.injEq] at h
        obtain ⟨_, rfl⟩ := h
        have hlen := Text.length_of_after? htail
        have hsum := congrArg List.length (List.takeWhile_append_dropWhile (p := isNameChar) (l := tail))
        simp only [List.length_append] at hsum
        have hpos : 0 < (tail.takeWhile isNameChar).length := by
          cases ht : tail.takeWhile isNameChar with
          | nil => simp [ht] at hne
          | cons => simp
        omega
    · simp at h
  · simp at h

def namesFrom (stem : Text) (before : Option Char) (text : Text) : List Text :=
  match _h : nameAt? stem before text with
  | some (name, rest) => name :: namesFrom stem name.getLast? rest
  | none =>
    match text with
    | [] => []
    | c :: rest => namesFrom stem (some c) rest
termination_by text.length
decreasing_by
  · exact length_of_nameAt? _h
  · simp

def namesIn (stem line : Text) : List Text := namesFrom stem none line

def targets (stem : Text) (lines : List Text) : List Text :=
  (Dictionary.ofList ((lines.flatMap (namesIn stem)).map fun name => (name, ()))).keys

end DocTools.Target
