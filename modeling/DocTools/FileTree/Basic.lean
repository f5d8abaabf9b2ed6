import DocTools.Dictionary
import DocTools.Path
import DocTools.Text.Utf8

/-! # File trees

The files and directories below one directory. A location is the list of names that leads to an
entry; the order of locations puts a directory before what it holds. The parent of every entry is a
directory, every name on the way to it is one that an entry can have, and one path leads there from
the top; what adds an entry asks for all three. -/
namespace DocTools
set_option autoImplicit false

/-! ## Failures of the file system -/

inductive IoError where
  | notFound
  | permissionDenied
  | alreadyExists
  | notDirectory
  | isDirectory
  | nameTooLong
  | invalidText
  | nulInName
  deriving DecidableEq, Repr

def IoError.message : IoError → Text
  | .notFound => "No such file or directory (os error 2)".toList
  | .permissionDenied => "Permission denied (os error 13)".toList
  | .alreadyExists => "File exists (os error 17)".toList
  | .notDirectory => "Not a directory (os error 20)".toList
  | .isDirectory => "Is a directory (os error 21)".toList
  | .nameTooLong => "File name too long (os error 36)".toList
  | .invalidText => "stream did not contain valid UTF-8".toList
  | .nulInName => "file name contained an unexpected NUL byte".toList

/-! ## Entries -/

/-- What a file holds: text, or bytes that are not the encoding of a text. -/
inductive Content where
  | text (text : Text)
  | bytes (bytes : List UInt8)
  deriving DecidableEq, Repr

def Content.ofBytes (bytes : List UInt8) : Content :=
  match Utf8.text? bytes with
  | some decoded => .text decoded
  | none => .bytes bytes

def Content.toBytes : Content → List UInt8
  | .text decoded => Utf8.encode decoded
  | .bytes raw => raw

inductive Entry where
  | directory
  | file (content : Content)
  deriving DecidableEq, Repr

def Entry.isDirectory : Entry → Bool
  | .directory => true
  | .file _ => false

/-! ## Names and locations -/

def longestName : Nat := 255

/-- The most bytes that a path can have, however short its names are. -/
def longestPath : Nat := 4095

structure IsEntryName (name : Text) : Prop where
  ne_nil : name ≠ []
  ne_here : name ≠ ['.']
  ne_up : name ≠ ['.', '.']
  slash_not_mem : '/' ∉ name
  nul_not_mem : '\x00' ∉ name
  size_le : Utf8.size name ≤ longestName

instance (name : Text) : Decidable (IsEntryName name) :=
  decidable_of_iff (name ≠ [] ∧ name ≠ ['.'] ∧ name ≠ ['.', '.'] ∧ '/' ∉ name ∧ '\x00' ∉ name ∧
      Utf8.size name ≤ longestName)
    ⟨fun h => ⟨h.1, h.2.1, h.2.2.1, h.2.2.2.1, h.2.2.2.2.1, h.2.2.2.2.2⟩, fun h =>
      ⟨h.ne_nil, h.ne_here, h.ne_up, h.slash_not_mem, h.nul_not_mem, h.size_le⟩⟩

abbrev Location := List Text

namespace FileTree

/-- The path of a location from the top. -/
def pathOf (location : Location) : Path := Text.join ['/'] location

/-- The bytes of names with a slash behind each of them. -/
def span : List Text → Nat
  | [] => 0
  | name :: names => Utf8.size name + 1 + span names

theorem span_append (names more : List Text) : span (names ++ more) = span names + span more := by
  induction names with
  | nil => exact (Nat.zero_add _).symm
  | cons name names ih => rw [List.cons_append, span, span, ih, Nat.add_assoc (_ + 1)]

theorem span_le_of_sublist {names more : List Text} (h : names.Sublist more) :
    span names ≤ span more := by
  induction h with
  | slnil => exact Nat.le_refl _
  | cons name _ ih => exact Nat.le_trans ih (Nat.le_add_left _ _)
  | cons_cons name _ ih => exact Nat.add_le_add_left ih _

theorem size_join {names : List Text} (h : names ≠ []) :
    Utf8.size (Text.join ['/'] names) + 1 = span names := by
  induction names with
  | nil => exact absurd rfl h
  | cons name names ih =>
    by_cases hmore : names = []
    · subst hmore
      rfl
    · have hslash : Utf8.size ['/'] = 1 := rfl
      rw [Text.join_cons _ _ hmore, Utf8.size_append, Utf8.size_append, hslash, span, ← ih hmore]
      exact Nat.add_assoc _ _ 1

/-- Whether a path is short enough to lead anywhere. -/
def withinLimit (path : Path) : Bool := Utf8.size path ≤ longestPath

/-- The names of a path, with one slash between them, are no longer than the path. -/
theorem size_pathOf_names (path : Path) : Utf8.size (pathOf path.names) ≤ Utf8.size path := by
  have hpieces := size_join (Text.splitOn_ne_nil '/' path)
  rw [Text.join_splitOn] at hpieces
  have hspan : span path.names ≤ span (Text.splitOn '/' path) :=
    span_le_of_sublist List.filter_sublist
  by_cases hnames : path.names = []
  · rw [hnames]
    exact Nat.zero_le _
  · have hjoin := size_join hnames
    rw [pathOf]
    omega

end FileTree

/-! ## Trees -/

structure FileTree where
  entries : Dictionary Location Entry
  root_absent : entries.get? [] = none
  parent_directory : ∀ (at' : Location) (name : Text), (entries.get? (at' ++ [name])).isSome →
    at' = [] ∨ entries.get? at' = some .directory
  isEntryName : ∀ (at' : Location), (entries.get? at').isSome → ∀ name ∈ at', IsEntryName name
  size_le : ∀ (at' : Location), (entries.get? at').isSome →
    Utf8.size (FileTree.pathOf at') ≤ longestPath

namespace FileTree

def empty : FileTree := ⟨Dictionary.empty, rfl, by simp, by simp, by simp⟩

instance : EmptyCollection FileTree := ⟨empty⟩
instance : Inhabited FileTree := ⟨empty⟩

def find? (tree : FileTree) (location : Location) : Option Entry :=
  if location = [] then some .directory else tree.entries.get? location

/-- A location at which the tree has a directory. -/
abbrev Directory (tree : FileTree) := { location : Location // tree.find? location = some .directory }

def root (tree : FileTree) : tree.Directory := ⟨[], rfl⟩

theorem isEntryName_of_find? {tree : FileTree} {location : Location}
    (h : (tree.find? location).isSome) : ∀ name ∈ location, IsEntryName name := by
  by_cases hroot : location = []
  · simp [hroot]
  · rw [find?, if_neg hroot] at h
    exact tree.isEntryName location h

theorem size_le_of_find? {tree : FileTree} {location : Location}
    (h : (tree.find? location).isSome) : Utf8.size (pathOf location) ≤ longestPath := by
  by_cases hroot : location = []
  · rw [hroot]
    exact Nat.zero_le _
  · rw [find?, if_neg hroot] at h
    exact tree.size_le location h

/-- The tree with an entry under a name in one of its directories. A directory can only be put again
as a directory, so that nothing below it loses its parent. -/
def put (tree : FileTree) (dir : tree.Directory) (name : Text) (entry : Entry)
    (proper : IsEntryName name) (fits : Utf8.size (pathOf (dir.1 ++ [name])) ≤ longestPath)
    (stays : tree.find? (dir.1 ++ [name]) = some .directory → entry = .directory) : FileTree where
  entries := tree.entries.insert (dir.1 ++ [name]) entry
  root_absent := by simp [tree.root_absent]
  parent_directory := by
    intro at' name' h
    rw [Dictionary.get?_insert] at h
    by_cases hloc : at' = dir.1 ++ [name]
    · right
      subst hloc
      rw [Dictionary.get?_insert, if_pos rfl]
      rw [if_neg (by simp)] at h
      have hd := (tree.parent_directory _ _ h).resolve_left (by simp)
      rw [stays (by rw [find?, if_neg (by simp), hd])]
    · rw [Dictionary.get?_insert, if_neg hloc]
      by_cases hnew : at' ++ [name'] = dir.1 ++ [name]
      · obtain ⟨rfl, _⟩ := List.append_inj' hnew rfl
        have hd := dir.2
        by_cases hroot : dir.1 = []
        · exact .inl hroot
        · exact .inr (by simpa [find?, hroot] using hd)
      · rw [if_neg hnew] at h
        exact tree.parent_directory _ _ h
  isEntryName := by
    intro at' h
    rw [Dictionary.get?_insert] at h
    by_cases hloc : at' = dir.1 ++ [name]
    · subst hloc
      intro name' hname
      rcases List.mem_append.1 hname with hdir | hlast
      · exact isEntryName_of_find? (by rw [dir.2]; rfl) name' hdir
      · rw [List.mem_singleton.1 hlast]
        exact proper
    · rw [if_neg hloc] at h
      exact tree.isEntryName at' h
  size_le := by
    intro at' h
    rw [Dictionary.get?_insert] at h
    by_cases hloc : at' = dir.1 ++ [name]
    · subst hloc
      exact fits
    · rw [if_neg hloc] at h
      exact tree.size_le at' h

theorem find?_put (tree : FileTree) (dir : tree.Directory) (name : Text) (entry : Entry)
    (proper : IsEntryName name) (fits : Utf8.size (pathOf (dir.1 ++ [name])) ≤ longestPath)
    (stays : tree.find? (dir.1 ++ [name]) = some .directory → entry = .directory)
    (location : Location) :
    (tree.put dir name entry proper fits stays).find? location =
      if location = dir.1 ++ [name] then some entry else tree.find? location := by
  by_cases h : location = []
  · subst h; simp [find?]
  · simp [find?, h, put]

/-- All that lies below a location: locations and entries in order. -/
def below (tree : FileTree) (location : Location) : List (Location × Entry) :=
  tree.entries.toList.filter fun e => location.isPrefixOf e.1 && location.length < e.1.length

def children (tree : FileTree) (location : Location) : List (Location × Entry) :=
  (tree.below location).filter fun e => e.1.length = location.length + 1

/-! ## Comparing two trees -/

/-- The entries that a tree has and an earlier one had not, or not so, in order of their paths as
texts. -/
def changesSince (before after : FileTree) : List (Path × Entry) :=
  ((after.entries.toList.filter fun e => before.entries.get? e.1 ≠ some e.2).map
    fun e => (pathOf e.1, e.2)).mergeSort fun a b => notAfter a.1 b.1

end FileTree
end DocTools
