import DocTools.Except
import DocTools.FileTree.Basic

/-! # Reading and writing by path

Following a path from the top of a tree, name by name: every name but the last has to lead to a
directory. Reading, writing and making directories fail with the cause that comes first on the way.
Paths that leave the tree lead nowhere. -/
namespace DocTools.FileTree
set_option autoImplicit false

variable (tree : FileTree)

/-! ## Following names -/

/-- Where a name leads from a directory. -/
def step (dir : tree.Directory) (name : Text) : Except IoError Location :=
  if name = ['.'] then .ok dir.1
  else if name = ['.', '.'] then
    if dir.1 = [] then .error .notFound else .ok dir.1.dropLast
  else if longestName < Utf8.size name then .error .nameTooLong
  else .ok (dir.1 ++ [name])

def enter (dir : tree.Directory) (name : Text) : Except IoError tree.Directory := do
  let location ← tree.step dir name
  match h : tree.find? location with
  | some .directory => .ok ⟨location, h⟩
  | some (.file _) => .error .notDirectory
  | none => .error .notFound

def enterAll (dir : tree.Directory) : List Text → Except IoError tree.Directory
  | [] => .ok dir
  | name :: names => do enterAll (← tree.enter dir name) names

theorem enter_eq_ok_iff {tree : FileTree} {dir next : tree.Directory} {name : Text} :
    tree.enter dir name = .ok next ↔ tree.step dir name = .ok next.1 := by
  unfold enter
  constructor
  · intro h
    obtain ⟨location, hstep, h⟩ := bind_eq_ok.mp h
    split at h
    · cases h
      exact hstep
    · cases h
    · cases h
  · intro hstep
    refine bind_eq_ok.mpr ⟨next.1, hstep, ?_⟩
    split
    · rfl
    · rename_i hfile
      rw [next.2] at hfile
      cases hfile
    · rename_i hnone
      rw [next.2] at hnone
      cases hnone

theorem span_of_step {tree : FileTree} {dir : tree.Directory} {name : Text} {location : Location}
    (h : tree.step dir name = .ok location) : span location ≤ span dir.1 + span [name] := by
  unfold step at h
  split at h
  · cases h
    exact Nat.le_add_right _ _
  split at h
  · split at h
    · cases h
    · cases h
      exact Nat.le_trans (span_le_of_sublist (List.dropLast_sublist _)) (Nat.le_add_right _ _)
  split at h
  · cases h
  · cases h
    exact Nat.le_of_eq (span_append _ _)

/-- No name leads to a location that is longer by more than the name. -/
theorem span_of_enterAll {tree : FileTree} {dir goal : tree.Directory} {names : List Text}
    (h : tree.enterAll dir names = .ok goal) : span goal.1 ≤ span dir.1 + span names := by
  induction names generalizing dir with
  | nil =>
    cases h
    exact Nat.le_refl _
  | cons name names ih =>
    obtain ⟨next, hnext, h⟩ := bind_eq_ok.mp h
    have hname := span_of_step (enter_eq_ok_iff.1 hnext)
    have hnames := ih h
    simp only [span] at hname ⊢
    omega

/-- A path as the file system takes it: the names on the way, the last name, and whether a slash
follows it. -/
structure Route where
  way : List Text
  last : Text
  slash : Bool
  last_ne_nil : last ≠ []
  slash_not_mem : '/' ∉ last
  nul_not_mem : '\x00' ∉ last
  size_le : Utf8.size (pathOf (way ++ [last])) ≤ longestPath

/-- The last name is one that an entry can have, as far as it is none of the three that are not. -/
theorem Route.isEntryName_last (r : Route) (hhere : r.last ≠ ['.']) (hup : r.last ≠ ['.', '.'])
    (hsize : ¬longestName < Utf8.size r.last) : IsEntryName r.last :=
  ⟨r.last_ne_nil, hhere, hup, r.slash_not_mem, r.nul_not_mem, Nat.le_of_not_lt hsize⟩

/-- The last name stands for a place within the limit, as the names in front of it lead to no longer
location than they spell. -/
theorem Route.size_le_of_enterAll {r : Route} {tree : FileTree} {dir : tree.Directory}
    (h : tree.enterAll tree.root r.way = .ok dir) :
    Utf8.size (pathOf (dir.1 ++ [r.last])) ≤ longestPath := by
  have hdir := span_of_enterAll h
  have hroot : span tree.root.1 = 0 := rfl
  have hplace : Utf8.size (pathOf (dir.1 ++ [r.last])) + 1 = _ := size_join (by simp)
  have htaken : Utf8.size (pathOf (r.way ++ [r.last])) + 1 = _ := size_join (by simp)
  have hsize := r.size_le
  rw [span_append] at hplace htaken
  omega

def route (path : Path) : Except IoError Route :=
  if hnul : '\x00' ∈ path then .error .nulInName
  else if hsize : longestPath < Utf8.size path then .error .nameTooLong
  else if path.isAbsolute then .error .notFound
  else match h : path.names.reverse with
    | [] => .error .notFound
    | last :: way =>
      have hlast := Path.mem_names_iff.1 (List.mem_reverse.1 (h ▸ List.mem_cons_self))
      have hnames : way.reverse ++ [last] = path.names := by
        rw [← List.reverse_cons, ← h, List.reverse_reverse]
      .ok ⟨way.reverse, last, path.endsInSlash, hlast.2, Text.not_mem_of_mem_splitOn hlast.1,
        fun hc => hnul (Text.mem_of_mem_splitOn hlast.1 hc),
        hnames ▸ Nat.le_trans (size_pathOf_names path) (Nat.le_of_not_lt hsize)⟩

/-! ## Operations -/

def locate (path : Path) : Except IoError (Location × Entry) := do
  let r ← route path
  let dir ← tree.enterAll tree.root r.way
  let location ← tree.step dir r.last
  match tree.find? location with
  | none => .error .notFound
  | some (.file content) => if r.slash then .error .notDirectory else .ok (location, .file content)
  | some .directory => .ok (location, .directory)

def isDirectory (path : Path) : Bool :=
  match tree.locate path with
  | .ok (_, entry) => entry.isDirectory
  | .error _ => false

def read (path : Path) : Except IoError Text := do
  match (← tree.locate path).2 with
  | .directory => .error .isDirectory
  | .file (.bytes _) => .error .invalidText
  | .file (.text text) => .ok text

def write (path : Path) (content : Content) : Except IoError FileTree := do
  let r ← route path
  let ⟨dir, hdir⟩ ← attach (tree.enterAll tree.root r.way)
  if hdots : r.slash ∨ r.last = ['.'] ∨ r.last = ['.', '.'] then .error .isDirectory
  else if hsize : longestName < Utf8.size r.last then .error .nameTooLong
  else if h : tree.find? (dir.1 ++ [r.last]) = some .directory then .error .isDirectory
  else
    have proper := r.isEntryName_last (fun h => hdots (.inr (.inl h)))
      (fun h => hdots (.inr (.inr h))) hsize
    .ok (tree.put dir r.last (.file content) proper (Route.size_le_of_enterAll hdir)
      fun h' => absurd h' h)

/-- The tree with a new directory at a path, whose parent has to be there. -/
def makeDirectory (path : Path) : Except IoError FileTree := do
  let r ← route path
  let ⟨dir, hdir⟩ ← attach (tree.enterAll tree.root r.way)
  if hdots : r.last = ['.'] ∨ r.last = ['.', '.'] then .error .alreadyExists
  else if hsize : longestName < Utf8.size r.last then .error .nameTooLong
  else if (tree.find? (dir.1 ++ [r.last])).isSome then .error .alreadyExists
  else
    have proper := r.isEntryName_last (fun h => hdots (.inl h)) (fun h => hdots (.inr h)) hsize
    .ok (tree.put dir r.last .directory proper (Route.size_le_of_enterAll hdir) fun _ => rfl)

/-- Makes the first of the paths a directory; each path is the parent of the one before it and is
made first where it is missing. What was made stays when a later step fails. -/
def makeChain (tree : FileTree) : List Path → FileTree × Option IoError
  | [] => (tree, none)
  | path :: parents =>
    if path = [] then (tree, none)
    else match tree.makeDirectory path with
      | .ok made => (made, none)
      | .error .notFound =>
        match makeChain tree parents with
        | (grown, some e) => (grown, some e)
        | (grown, none) =>
          match grown.makeDirectory path with
          | .ok made => (made, none)
          | .error e => (grown, if grown.isDirectory path then none else some e)
      | .error e => (tree, if tree.isDirectory path then none else some e)

def makeDirectories (path : Path) : FileTree × Option IoError := makeChain tree path.ancestors

end DocTools.FileTree
