import DocTools.FilePattern.Basic
import DocTools.FileTree.Access

/-! # Searching a tree for a pattern

The search goes through the tree segment by segment. A segment without wildcards is looked up, one
with wildcards is held against every name in the directory, and `**` against everything below it. A
path that is found is spelled as the pattern walked it; only the `.` at the beginning goes away. One
that has become longer than a path can be leads to no file. -/
namespace DocTools
set_option autoImplicit false

namespace FilePattern

/-- A place that the search has reached: how it is spelled, where it is and what is there. -/
structure Spot where
  path : Path
  location : Location
  entry : Entry

namespace Spot

def top : Spot := ⟨['.'], [], .directory⟩

def pathTo (spot : Spot) (name : Text) : Path :=
  if Path.components spot.path = [.here] then name else Path.join spot.path name

def pathDown (spot : Spot) : List Text → Path
  | [] => spot.path
  | name :: names => names.foldl Path.join (spot.pathTo name)

def down (spot : Spot) (e : Location × Entry) : Spot :=
  ⟨spot.pathDown (e.1.drop spot.location.length), e.1, e.2⟩

def name (spot : Spot) : Text := spot.location.getLast?.getD []

/-- What a plain name leads to. The empty name leads nowhere further. -/
def lookUp? (tree : FileTree) (spot : Spot) (name : Text) : Option Spot :=
  if !spot.entry.isDirectory then none
  else
    let path := spot.pathTo name
    if name = ['.'] then some ⟨path, spot.location, .directory⟩
    else if name = ['.', '.'] then
      if spot.location = [] then none else some ⟨path, spot.location.dropLast, .directory⟩
    else if name = [] then
      if path = [] then none else some ⟨path, spot.location, .directory⟩
    else
      (tree.find? (spot.location ++ [name])).map fun entry => ⟨path, spot.location ++ [name], entry⟩

/-- The names `..` and `.`, which only a segment that begins with a dot stands for. -/
def dots (spot : Spot) (segment : Segment) : List Spot :=
  if segment.head? = some (.char '.') then
    let up := if spot.location = [] then [] else
      [⟨Path.join spot.path ['.', '.'], spot.location.dropLast, .directory⟩]
    (if fits segment ['.', '.'] then up else []) ++
      (if fits segment ['.'] then [⟨Path.join spot.path ['.'], spot.location, .directory⟩] else [])
  else []

end Spot

def search (tree : FileTree) : List Segment → Spot → List Spot
  | [], spot => [spot]
  | [[.anyDepth]], spot =>
    ((tree.below spot.location).map spot.down).filter fun s => s.entry.isDirectory
  | [.anyDepth] :: segment :: rest, spot =>
    (tree.below spot.location).flatMap fun e =>
      if fits segment (spot.down e).name then search tree rest (spot.down e) else []
  | segment :: rest, spot =>
    match plainName? segment with
    | some name => (spot.lookUp? tree name).toList.flatMap (search tree rest)
    | none =>
      if !spot.entry.isDirectory then []
      else
        (spot.dots segment).flatMap (search tree rest) ++
          (tree.children spot.location).flatMap fun e =>
            if fits segment (spot.down e).name then search tree rest (spot.down e) else []

def files (tree : FileTree) (pattern : FilePattern) : List Path :=
  if pattern.onlyDirectories then []
  else
    Path.sort ((((search tree pattern.segments .top).filter fun s => !s.entry.isDirectory).map
      (·.path)).filter FileTree.withinLimit)

end FilePattern

namespace FileTree

def patternBelow (dir : Path) (pattern : Text) : Text :=
  ((FilePattern.escape dir).reverse.dropWhile (· == '/')).reverse ++ '/' :: pattern

def filesMatching (tree : FileTree) (dir : Path) (pattern : Text) : Except PatternError (List Path) :=
  (FilePattern.ofText (patternBelow dir pattern)).map fun p => p.files tree

end FileTree
end DocTools
