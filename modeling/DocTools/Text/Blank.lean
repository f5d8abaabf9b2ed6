import DocTools.Text.Basic

/-! # Blanks

The characters of the `White_Space` property, and trimming by them. `trim` takes every blank off
both ends and nothing else. -/
namespace DocTools
set_option autoImplicit false

/-- The code points with the property `White_Space`, in increasing order. -/
def blankRanges : List (Nat × Nat) :=
  [(0x09, 0x0D), (0x20, 0x20), (0x85, 0x85), (0xA0, 0xA0), (0x1680, 0x1680), (0x2000, 0x200A),
   (0x2028, 0x2029), (0x202F, 0x202F), (0x205F, 0x205F), (0x3000, 0x3000)]

def isBlank (c : Char) : Bool := inRanges c.toNat blankRanges

namespace Text

def trimStart (text : Text) : Text := text.dropWhile isBlank

def trimEnd (text : Text) : Text := (text.reverse.dropWhile isBlank).reverse

def trim (text : Text) : Text := trimEnd (trimStart text)

def allBlank (text : Text) : Bool := text.all isBlank

def indentation (text : Text) : Nat := (text.takeWhile isBlank).length

theorem takeWhile_append_trimStart (text : Text) :
    text.takeWhile isBlank ++ trimStart text = text := List.takeWhile_append_dropWhile

theorem trimStart_eq_nil_iff {text : Text} : trimStart text = [] ↔ allBlank text = true := by
  induction text with
  | nil => simp [trimStart, allBlank]
  | cons c rest ih =>
    by_cases h : isBlank c = true
    · simp only [trimStart, allBlank, List.dropWhile_cons, h, if_true, List.all_cons, Bool.true_and]
      exact ih
    · simp [trimStart, allBlank, h]

theorem trim_eq_nil_iff {text : Text} : trim text = [] ↔ allBlank text = true := by
  rw [← trimStart_eq_nil_iff]
  constructor
  · intro h
    have hb : allBlank (trimStart text).reverse = true := by
      rw [← trimStart_eq_nil_iff]
      simpa [trim, trimEnd, trimStart] using h
    cases hs : trimStart text with
    | nil => rfl
    | cons c rest =>
      have hc : isBlank c = true := by
        have := hb
        simp only [allBlank, List.all_reverse, hs, List.all_cons, Bool.and_eq_true] at this
        exact this.1
      have : (text.dropWhile isBlank).head? = some c := by
        simpa [trimStart] using congrArg List.head? hs
      have := List.head?_dropWhile_not isBlank text
      simp_all
  · intro h; simp [trim, h, trimEnd]

end Text
end DocTools
