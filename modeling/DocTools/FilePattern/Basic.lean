import DocTools.Text.Basic

/-! # File patterns

A pattern is written like a path. In a segment `?` stands for a character, `*` for any run of
characters, `[...]` and `[!...]` for a character of a class or outside it; the segment `**` stands
for any number of directories. A pattern that is not well formed is refused at a position counted in
characters. `FilePattern.escape` writes a text so that it stands for itself. -/
namespace DocTools
set_option autoImplicit false

/-! ## What a pattern is made of -/

inductive Wildcard where
  | char (c : Char)
  | anyChar
  | anyRun
  | oneOf (ranges : List (Char × Char))
  | noneOf (ranges : List (Char × Char))
  | anyDepth
  deriving DecidableEq, Repr

abbrev Segment := List Wildcard

def Segment.deep : Segment := [.anyDepth]

structure FilePattern where
  segments : List Segment
  /-- Whether a slash ends the pattern, so that it stands for directories only. -/
  onlyDirectories : Bool

/-! ## Refusals -/

inductive PatternFault where
  | tooManyStars
  | starsInSegment
  | openClass
  deriving DecidableEq, Repr

structure PatternError where
  position : Nat
  fault : PatternFault
  deriving DecidableEq, Repr

def PatternFault.message : PatternFault → Text
  | .tooManyStars => "wildcards are either regular `*` or recursive `**`".toList
  | .starsInSegment => "recursive wildcards must form a single path component".toList
  | .openClass => "invalid range pattern".toList

def PatternError.message (e : PatternError) : Text :=
  "Pattern syntax error near position ".toList ++ Text.ofNat e.position ++ ": ".toList ++
    e.fault.message

namespace FilePattern

/-! ## Reading -/

/-- The members of a class: `a-c` is a range, any other character stands for itself. -/
def ranges : Text → List (Char × Char)
  | a :: '-' :: b :: rest => (a, b) :: ranges rest
  | a :: rest => (a, a) :: ranges rest
  | [] => []

/-- The class after an opening bracket, and what follows it. The first member may be a closing
bracket. -/
def charClass? : Text → Option (Wildcard × Text)
  | '!' :: c :: rest =>
    (Text.breakAt? ']' rest).map fun p => (.noneOf (ranges (c :: p.1)), p.2)
  | '!' :: [] => none
  | c :: rest => (Text.breakAt? ']' rest).map fun p => (.oneOf (ranges (c :: p.1)), p.2)
  | [] => none

theorem length_of_charClass? {text rest : Text} {w : Wildcard} (h : charClass? text = some (w, rest)) :
    rest.length < text.length := by
  unfold charClass? at h
  split at h <;> simp only [reduceCtorEq, Option.map_eq_some_iff, Prod.mk.injEq, Prod.exists] at h
  all_goals
    obtain ⟨before, behind, hb, _, rfl⟩ := h
    obtain ⟨rfl, _⟩ := Text.breakAt?_eq_some_iff.1 hb
    simp; omega

/-- Reads what is left of a pattern of `total` characters, given the character before it. Two stars
have to fill the place between two slashes and take the slash after them along. -/
def readWildcards (total : Nat) (before : Option Char) (text : Text) :
    Except PatternError (List Wildcard) :=
  let here := total - text.length
  match text with
  | [] => .ok []
  | '*' :: '*' :: '*' :: _ => .error ⟨here + 2, .tooManyStars⟩
  | '*' :: '*' :: rest =>
    if before = none ∨ before = some '/' then
      match rest with
      | [] => .ok [.anyDepth]
      | '/' :: rest => do return .anyDepth :: (← readWildcards total (some '/') rest)
      | _ :: _ => .error ⟨here + 2, .starsInSegment⟩
    else .error ⟨here - 1, .starsInSegment⟩
  | '*' :: rest => do return .anyRun :: (← readWildcards total (some '*') rest)
  | '?' :: rest => do return .anyChar :: (← readWildcards total (some '?') rest)
  | '[' :: inside =>
    match _h : charClass? inside with
    | some (w, rest) => do return w :: (← readWildcards total (some ']') rest)
    | none => .error ⟨here, .openClass⟩
  | c :: rest => do return .char c :: (← readWildcards total (some c) rest)
termination_by text.length
decreasing_by
  all_goals simp only [List.length_cons]
  all_goals first | omega | exact Nat.lt_succ_of_lt (length_of_charClass? _h)

def wildcards (text : Text) : Except PatternError (List Wildcard) :=
  readWildcards text.length none text

/-- Several segments for any number of directories in a row are one. -/
def collapse : List Segment → List Segment
  | [] => []
  | segment :: rest =>
    match collapse rest with
    | next :: others =>
      if segment = .deep ∧ next = .deep then next :: others else segment :: next :: others
    | [] => [segment]

/-- Reads a pattern. The whole text has to be well formed, and then each segment by itself. -/
def ofText (text : Text) : Except PatternError FilePattern := do
  let _ ← wildcards text
  let pieces := Text.splitOn '/' text
  let pieces := if pieces.getLast? = some [] then pieces.dropLast else pieces
  let segments ← pieces.mapM wildcards
  return ⟨collapse segments, text.getLast? == some '/'⟩

/-! ## Writing -/

/-- The pattern that stands for the text alone: wildcards become classes of one character. -/
def escape (text : Text) : Text :=
  text.flatMap fun c => if c ∈ ['?', '*', '[', ']'] then ['[', c, ']'] else [c]

/-! ## Matching a name -/

def inClass (ranges : List (Char × Char)) (c : Char) : Bool :=
  ranges.any fun r => decide (r.1 ≤ c) && decide (c ≤ r.2)

/-- Whether some end of the text, the whole included, satisfies `p`. -/
def someEnd (p : Text → Bool) : Text → Bool
  | [] => p []
  | c :: rest => p (c :: rest) || someEnd p rest

def fits : Segment → Text → Bool
  | [], name => name.isEmpty
  | .char c :: rest, d :: name => c == d && fits rest name
  | .anyChar :: rest, _ :: name => fits rest name
  | .oneOf ranges :: rest, d :: name => inClass ranges d && fits rest name
  | .noneOf ranges :: rest, d :: name => !inClass ranges d && fits rest name
  | .anyRun :: rest, name => someEnd (fits rest) name
  | .anyDepth :: rest, name => someEnd (fits rest) name
  | _ :: _, [] => false

/-- The only name that a segment without wildcards stands for. -/
def plainName? : Segment → Option Text
  | [] => some []
  | .char c :: rest => (plainName? rest).map (c :: ·)
  | _ => none

end FilePattern
end DocTools
