import DocTools.Text.Basic

/-! # Paths

A path is the text it was given as, and it is printed so. For comparison it has components, which
leave out what does not matter: repeated and trailing slashes, and `.` after the first place. The
order of paths is that of their components, one after the other. -/
namespace DocTools
set_option autoImplicit false

abbrev Path := Text

namespace Path

def names (path : Path) : List Text := (Text.splitOn '/' path).filter fun name => !name.isEmpty

theorem mem_names_iff {path : Path} {name : Text} :
    name ∈ path.names ↔ name ∈ Text.splitOn '/' path ∧ name ≠ [] := by
  rw [names, List.mem_filter]
  simp

def isAbsolute (path : Path) : Bool := path.head? == some '/'

def endsInSlash (path : Path) : Bool := path.getLast? == some '/'

/-! ## Components -/

inductive Component where
  | root
  | here
  | up
  | name (text : Text)
  deriving DecidableEq, Repr

def Component.ofName? (name : Text) : Option Component :=
  if name = ['.'] then none
  else if name = ['.', '.'] then some .up
  else some (.name name)

def components (path : Path) : List Component :=
  let lead :=
    if path.isAbsolute then [.root]
    else if path.names.head? = some ['.'] then [.here]
    else []
  lead ++ path.names.filterMap Component.ofName?

/-- Numbers that order components: the root, then `.`, then `..`, then names by their characters. -/
def Component.rank : Component → List Nat
  | .root => [0]
  | .here => [1]
  | .up => [2]
  | .name text => 3 :: text.map Char.toNat

/-- Whether `p` stands before `q` or level with it in the order by components. -/
def le (p q : Path) : Bool :=
  notAfter (p.components.map Component.rank) (q.components.map Component.rank)

/-- Paths in order; those with equal components stay as they were. -/
def sort (paths : List Path) : List Path := paths.mergeSort le

/-- The last component, when it is a name. -/
def fileName? (path : Path) : Option Text :=
  match path.components.getLast? with
  | some (.name text) => some text
  | _ => none

/-! ## Building and taking apart -/

/-- `base` with `path` below it. An absolute path stands alone. -/
def join (base path : Path) : Path :=
  if path.isAbsolute || base.isEmpty then path
  else if base.endsInSlash then base ++ path
  else base ++ '/' :: path

def Component.text : Component → Text
  | .root => []
  | .here => ['.']
  | .up => ['.', '.']
  | .name text => text

/-- What is left of the components of `path` after those of `base`, as a path. -/
def below? (base path : Path) : Option Path :=
  if base.components.isPrefixOf path.components then
    some (Text.join ['/'] ((path.components.drop base.components.length).map Component.text))
  else none

/-- Pieces between slashes that name nothing. -/
def isIdle (piece : Text) : Bool := piece.isEmpty || piece == ['.']

/-- The path without its last component, cut out of its text. The empty path and the root have none. -/
def parent? (path : Path) : Option Path :=
  let (lead, body) :=
    match path with
    | '/' :: rest => (['/'], rest)
    | ['.'] => (['.'], [])
    | '.' :: '/' :: rest => (['.'], '/' :: rest)
    | _ => ([], path)
  match (Text.splitOn '/' body).reverse.dropWhile isIdle with
  | _ :: before => some (lead ++ Text.join ['/'] (before.dropWhile isIdle).reverse)
  | [] => if lead = ['.'] then some [] else none

def ancestorsUpTo : Nat → Path → List Path
  | 0, path => [path]
  | count + 1, path =>
    path :: match path.parent? with
      | some parent => ancestorsUpTo count parent
      | none => []

def ancestors (path : Path) : List Path := ancestorsUpTo (path.names.length + 1) path

end Path
end DocTools
