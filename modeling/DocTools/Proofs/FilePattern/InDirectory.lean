import DocTools.Proofs.FilePattern.Arrival
import DocTools.Proofs.FilePattern.ByExtension
import DocTools.Proofs.FilePattern.Once

/-! # The files in one directory

The files directly in a directory with an extension, as the search lists them: in strict order of their
paths, each once, and all of them if the directory is not lost and its dots do not make their paths too
long. The main statements: `listsIn_filesIn`, and `filesIn_without`, by which the list for a tree
without some of its files is the list without them. -/
namespace DocTools

/-! ## Sorting what is kept -/

namespace Path
set_option autoImplicit false

/-- Paths that lead to different places have one order. -/
theorem eq_of_perm_of_pairwise {paths others : List Path} (h : paths.Perm others)
    (honce : (paths.map resolve).Nodup) (hpaths : paths.Pairwise fun a b => le a b)
    (hothers : others.Pairwise fun a b => le a b) : paths = others := by
  refine h.eq_of_pairwise (fun a b ha hb hle hback => ?_) hpaths hothers
  have hplace : resolve a = resolve b := by
    rw [resolve, resolve, components_eq_of_le_of_le hle hback]
  exact List.inj_on_of_nodup_map honce ha (h.mem_iff.mpr hb) hplace

theorem sort_filter {paths : List Path} (honce : (paths.map resolve).Nodup) (keep : Path → Bool) :
    sort (paths.filter keep) = (sort paths).filter keep := by
  have hperm : (sort (paths.filter keep)).Perm ((sort paths).filter keep) :=
    (perm_sort _).trans ((perm_sort paths).symm.filter keep)
  refine eq_of_perm_of_pairwise hperm ?_ (pairwise_sort _) ((pairwise_sort paths).filter keep)
  have hsub : ((sort paths).filter keep).Sublist (sort paths) := List.filter_sublist
  have hsorted : ((sort paths).map resolve).Nodup :=
    ((perm_sort paths).map resolve).nodup_iff.mpr honce
  exact (hperm.map resolve).nodup_iff.mpr (hsorted.sublist (hsub.map resolve))

end Path

namespace FilePattern
set_option autoImplicit false

open DocTools.Path (resolve)

variable {tree : FileTree} {dir path : Path} {spot : Spot} {extension : Text}

/-! ## The files that are listed -/

/-- The files that the pattern for an extension finds in a directory. -/
def filesIn (tree : FileTree) (dir : Path) (extension : Text) : List Path :=
  files tree ⟨(Text.splitOn '/' (trimEnd dir)).map literal ++ [extensionSegment extension], false⟩

/-- The entries that are found from the end of the walk. -/
def foundIn (tree : FileTree) (extension : Text) (spot : Spot) : List (Location × Entry) :=
  shortOnes spot ((tree.children spot.location).filter (isFileWith extension))

theorem Arrives.finds (h : Arrives tree dir spot) (extension : Text) :
    Finds tree [extensionSegment extension] (IsChildWith extension) spot
      ((tree.children spot.location).filter (isFileWith extension)) :=
  finds_children (by rw [h.entry_eq]; rfl) extension

theorem Arrives.filesIn_eq (h : Arrives tree dir spot) (extension : Text) : filesIn tree dir extension =
    Path.sort ((foundIn tree extension spot).map fun e => (spot.down e).path) :=
  files_of_walk (h.finds extension) h.walk_eq

theorem filesIn_of_losesWay (tree : FileTree) (hway : LosesWay dir) (extension : Text) :
    filesIn tree dir extension = [] :=
  files_of_no_walk _ (walk_of_losesWay tree hway)

theorem Arrives.mem_foundIn_iff (h : Arrives tree dir spot) {e : Location × Entry} :
    e ∈ foundIn tree extension spot ↔ ∃ name content, e = (spot.location ++ [name], .file content) ∧
      ('.' :: extension) <:+ name ∧ InReach dir [name] ∧ tree.find? e.1 = some e.2 := by
  rw [foundIn, (h.finds extension).mem_shortOnes_iff (fun hnil => hnil.hasExtension.ne_nil rfl) h.walk_eq]
  constructor
  · rintro ⟨below, content, hat, ⟨halone, front, last, hbelow, hsuffix⟩, hreach, hfind⟩
    obtain ⟨name, rfl⟩ := List.length_eq_one_iff.mp halone
    have hconcat : [] ++ [name] = front ++ [last] := hbelow
    obtain rfl := List.singleton_inj.mp (List.append_inj' hconcat rfl).2
    exact ⟨name, content, hat, hsuffix, hreach, hfind⟩
  · rintro ⟨name, content, hat, hsuffix, hreach, hfind⟩
    exact ⟨[name], content, hat, ⟨rfl, [], name, rfl, hsuffix⟩, hreach, hfind⟩

/-! ## From the end of the walk -/

theorem Arrives.of_mem_foundIn (h : Arrives tree dir spot) {e : Location × Entry}
    (he : e ∈ foundIn tree extension spot) :
    ∃ name content, e = (spot.location ++ [name], .file content) ∧ ('.' :: extension) <:+ name ∧
      InReach dir [name] ∧ tree.find? e.1 = some e.2 ∧ (spot.down e).path = spot.pathTo name ∧
      FoundBelow tree dir [name] (spot.down e).path := by
  obtain ⟨name, content, rfl, hsuffix, hreach, hfind⟩ := h.mem_foundIn_iff.mp he
  have hpath : (spot.down (spot.location ++ [name], .file content)).path = spot.pathTo name := by
    rw [Spot.down_child]
  refine ⟨name, content, rfl, hsuffix, hreach, hfind, hpath, ?_⟩
  rw [hpath]
  exact foundBelow_of_walk h.walk_eq (List.cons_ne_nil name []) hfind

theorem Arrives.resolve_path (h : Arrives tree dir spot) {e : Location × Entry}
    (he : e ∈ foundIn tree extension spot) : resolve (spot.down e).path = e.1 := by
  obtain ⟨name, content, rfl, -, -, -, -, hbelow⟩ := h.of_mem_foundIn he
  rw [hbelow.resolve_eq, h.location_eq]

theorem Arrives.nodup_map_resolve (h : Arrives tree dir spot) (extension : Text) :
    (((foundIn tree extension spot).map fun e => (spot.down e).path).map resolve).Nodup := by
  have hplaces : ((foundIn tree extension spot).map fun e => (spot.down e).path).map resolve =
      (foundIn tree extension spot).map Prod.fst := by
    rw [List.map_map]
    exact List.map_congr_left fun e he => h.resolve_path he
  rw [hplaces]
  exact (h.finds extension).nodup.sublist (List.filter_sublist.map Prod.fst)

/-- Reading a file that is found fails for what it holds only. -/
theorem Arrives.read_path (h : Arrives tree dir spot) {location : Location} {content : Content}
    (he : (location, .file content) ∈ foundIn tree extension spot) :
    tree.read (spot.down (location, .file content)).path = FileTree.readContent content := by
  have hsize := (List.mem_filter.mp he).2
  obtain ⟨name, content', heq, -, -, hfind, hpath, -⟩ := h.of_mem_foundIn he
  obtain ⟨rfl, hcontent⟩ := Prod.mk.inj heq
  obtain rfl := Entry.file.inj hcontent
  have hentered := (isEntered_top tree).of_walk sound_top h.walk_eq h.entry_eq
  rw [hpath] at hsize ⊢
  exact hentered.read_pathTo (sound_top.of_walk h.walk_eq) hfind hsize

theorem exists_mem_foundIn (hd : tree.isDirectory dir) (h : path ∈ filesIn tree dir extension) :
    ∃ spot content, Arrives tree dir spot ∧
      (resolve path, .file content) ∈ foundIn tree extension spot ∧
      path = (spot.down (resolve path, .file content)).path := by
  by_cases hway : LosesWay dir
  · rw [filesIn_of_losesWay tree hway] at h
    cases h
  · obtain ⟨spot, harrives⟩ := exists_arrives hd hway
    rw [harrives.filesIn_eq] at h
    obtain ⟨e, he, rfl⟩ := List.mem_map.mp (mem_sort.mp h)
    have hplace := harrives.resolve_path he
    obtain ⟨name, content, rfl, -⟩ := harrives.of_mem_foundIn he
    rw [hplace]
    exact ⟨spot, content, harrives, he, rfl⟩

/-! ## The list -/

/-- A list of the files with an extension in a directory, in strict order and each once. It is empty
when the directory is lost. -/
structure ListsIn (tree : FileTree) (dir : Path) (extension : Text) (paths : List Path) : Prop where
  increasing : paths.Pairwise Path.Before
  once : (paths.map resolve).Nodup
  mem : ∀ location, location ∈ paths.map resolve ↔ ¬LosesWay dir ∧ ∃ name content,
    location = resolve dir ++ [name] ∧ ('.' :: extension) <:+ name ∧ InReach dir [name] ∧
      tree.find? location = some (.file content)
  found : ∀ path ∈ paths, ∃ name, FoundBelow tree dir [name] path

theorem listsIn_filesIn (hd : tree.isDirectory dir) (extension : Text) :
    ListsIn tree dir extension (filesIn tree dir extension) := by
  by_cases hway : LosesWay dir
  · rw [filesIn_of_losesWay tree hway]
    exact ⟨.nil, .nil, fun _ => ⟨fun h => (nomatch h), fun h => absurd hway h.1⟩, fun _ h => nomatch h⟩
  · obtain ⟨spot, harrives⟩ := exists_arrives hd hway
    have hperm := Path.perm_sort ((foundIn tree extension spot).map fun e => (spot.down e).path)
    have honce := (hperm.map resolve).nodup_iff.mpr (harrives.nodup_map_resolve extension)
    rw [harrives.filesIn_eq]
    constructor
    case increasing => exact Path.pairwise_before (Path.pairwise_sort _) honce
    case once => exact honce
    case mem =>
      intro location
      rw [and_iff_right hway, (hperm.map resolve).mem_iff, List.map_map, List.mem_map]
      constructor
      · rintro ⟨e, he, rfl⟩
        have hplace := harrives.resolve_path he
        obtain ⟨name, content, rfl, hsuffix, hreach, hfind, -, hbelow⟩ := harrives.of_mem_foundIn he
        exact ⟨name, content, hbelow.resolve_eq, hsuffix, hreach,
          (congrArg tree.find? hplace).trans hfind⟩
      · rintro ⟨name, content, rfl, hsuffix, hreach, hfind⟩
        rw [← harrives.location_eq] at hfind ⊢
        have he := harrives.mem_foundIn_iff.mpr ⟨name, content, rfl, hsuffix, hreach, hfind⟩
        exact ⟨_, he, harrives.resolve_path he⟩
    case found =>
      intro path hpath
      obtain ⟨e, he, rfl⟩ := List.mem_map.mp (mem_sort.mp hpath)
      obtain ⟨name, -, -, -, -, -, -, hbelow⟩ := harrives.of_mem_foundIn he
      exact ⟨name, hbelow⟩

theorem read_of_mem_filesIn (hd : tree.isDirectory dir) (h : path ∈ filesIn tree dir extension) :
    ∃ content, tree.find? (resolve path) = some (.file content) ∧
      tree.read path = FileTree.readContent content := by
  obtain ⟨spot, content, harrives, he, hpath⟩ := exists_mem_foundIn hd h
  obtain ⟨-, -, -, -, -, hfind, -⟩ := harrives.of_mem_foundIn he
  have hread := harrives.read_path he
  rw [← hpath] at hread
  exact ⟨content, hfind, hread⟩

/-! ## Without some of the files -/

theorem foundIn_without (gone : Location → Bool) :
    foundIn (tree.without gone) extension spot =
      (foundIn tree extension spot).filter fun e => !gone e.1 := by
  unfold foundIn shortOnes
  rw [FileTree.children_without, List.filter_filter, List.filter_filter, List.filter_filter,
    List.filter_filter]
  refine List.filter_congr fun e _ => ?_
  cases hentry : e.2 with
  | directory => simp [isFileWith, hentry, Entry.isDirectory]
  | file content => simp [FileTree.keeps, Entry.isDirectory, Bool.and_comm, Bool.and_left_comm]

theorem filesIn_without (hd : tree.isDirectory dir) (gone : Location → Bool) (extension : Text) :
    filesIn (tree.without gone) dir extension =
      (filesIn tree dir extension).filter fun path => !gone (resolve path) := by
  by_cases hway : LosesWay dir
  · rw [filesIn_of_losesWay _ hway, filesIn_of_losesWay tree hway, List.filter_nil]
  · obtain ⟨spot, harrives⟩ := exists_arrives hd hway
    rw [harrives.filesIn_eq, (harrives.without gone).filesIn_eq, foundIn_without,
      ← Path.sort_filter (harrives.nodup_map_resolve extension), List.filter_map]
    congr 2
    refine List.filter_congr fun e he => ?_
    rw [Function.comp_apply, harrives.resolve_path he]

/-- The files that are left are read as before. -/
theorem read_without {gone : Location → Bool} (hd : tree.isDirectory dir)
    (h : path ∈ filesIn tree dir extension) (hstays : gone (resolve path) = false) :
    (tree.without gone).read path = tree.read path := by
  obtain ⟨spot, content, harrives, he, hpath⟩ := exists_mem_foundIn hd h
  have hleft : (resolve path, .file content) ∈ foundIn (tree.without gone) extension spot := by
    rw [foundIn_without, List.mem_filter]
    exact ⟨he, by rw [hstays]; rfl⟩
  rw [hpath, harrives.read_path he, (harrives.without gone).read_path hleft]

end FilePattern
end DocTools
