import DocTools.Proofs.FileTree.Making

/-! # Trees without some of their files

Files can be taken out of a tree one by one, as nothing lies below them; the directories stay. The main
statements: `find?_without` for every place of the tree, and `children_without`. -/
namespace DocTools

namespace Dictionary
set_option autoImplicit false

variable {κ α : Type} [LT κ]

/-- The entries that are kept, in their order. -/
def filter (keep : κ → α → Bool) (d : Dictionary κ α) : Dictionary κ α :=
  ⟨d.toList.filter fun e => keep e.1 e.2, d.increasing.filter _⟩

theorem get?_filter [DecidableEq κ] [Std.Irrefl (· < · : κ → κ → Prop)] (keep : κ → α → Bool)
    (d : Dictionary κ α) (k : κ) : (d.filter keep).get? k = (d.get? k).filter (keep k) := by
  ext x
  rw [get?_eq_some_iff, Option.filter_eq_some_iff, get?_eq_some_iff]
  exact List.mem_filter

end Dictionary

namespace FileTree
set_option autoImplicit false

variable {tree : FileTree} {gone : Location → Bool} {location : Location}

/-- Directories are kept, and the files at places that are not gone. -/
def keeps (gone : Location → Bool) (place : Location) (entry : Entry) : Bool :=
  entry.isDirectory || !gone place

/-- The tree without the files at some places. -/
def without (tree : FileTree) (gone : Location → Bool) : FileTree where
  entries := tree.entries.filter (keeps gone)
  root_absent := by rw [Dictionary.get?_filter, tree.root_absent, Option.filter_none]
  parent_directory at' name h := by
    rw [Dictionary.get?_filter] at h
    refine (tree.parent_directory at' name (Option.isSome_of_isSome_filter _ _ h)).imp id fun hd => ?_
    rw [Dictionary.get?_filter, hd]
    rfl
  isEntryName at' h := by
    rw [Dictionary.get?_filter] at h
    exact tree.isEntryName at' (Option.isSome_of_isSome_filter _ _ h)
  size_le at' h := by
    rw [Dictionary.get?_filter] at h
    exact tree.size_le at' (Option.isSome_of_isSome_filter _ _ h)

theorem find?_without (tree : FileTree) (gone : Location → Bool) (location : Location) :
    (tree.without gone).find? location = (tree.find? location).filter (keeps gone location) := by
  unfold find?
  split
  · rfl
  · exact Dictionary.get?_filter _ _ _

theorem find?_without_directory :
    (tree.without gone).find? location = some .directory ↔ tree.find? location = some .directory := by
  rw [find?_without, Option.filter_eq_some_iff]
  exact and_iff_left rfl

theorem children_without (tree : FileTree) (gone : Location → Bool) (location : Location) :
    (tree.without gone).children location =
      (tree.children location).filter fun e => keeps gone e.1 e.2 := by
  have hentries : (tree.without gone).entries.toList =
      tree.entries.toList.filter fun e => keeps gone e.1 e.2 := rfl
  unfold children below
  rw [hentries]
  simp only [List.filter_filter]
  refine List.filter_congr fun e _ => ?_
  rw [Bool.and_comm (keeps gone e.1 e.2)]
  exact (Bool.and_assoc _ _ _).symm

end FileTree
end DocTools
