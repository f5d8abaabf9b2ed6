import DocTools.Proofs.FileTree.Growth
import DocTools.Proofs.Path.Names

/-! # Reading what was written

Where a path leads is settled by its spelling, as long as it leads anywhere. So a write changes the
tree at one location that is known beforehand, and what it does to the reading of any other path
depends on the two paths alone. The main statements: `read_of_write`, `read_after_write` and
`read_of_save`. -/
namespace DocTools.FileTree
set_option autoImplicit false

open DocTools.Path (Component follow resolve)

variable {tree after : FileTree}

/-! ## Where a path leads -/

theorem location_of_step {dir : tree.Directory} {name : Text} {location : Location}
    (h : tree.step dir name = .ok location) :
    location = (Component.ofName? name).toList.foldl follow dir.1 := by
  unfold step at h
  by_cases hhere : name = ['.']
  · rw [if_pos hhere] at h
    cases h
    rw [Component.ofName?, if_pos hhere]
    rfl
  · rw [if_neg hhere] at h
    rw [Component.ofName?, if_neg hhere]
    by_cases hup : name = ['.', '.']
    · rw [if_pos hup] at h ⊢
      split at h
      · cases h
      · cases h
        rfl
    · rw [if_neg hup] at h ⊢
      split at h
      · cases h
      · cases h
        rfl

theorem filterMap_ofName?_cons (name : Text) (names : List Text) :
    (name :: names).filterMap Component.ofName? =
      (Component.ofName? name).toList ++ names.filterMap Component.ofName? := by
  cases h : Component.ofName? name with
  | none => rw [List.filterMap_cons_none h]; rfl
  | some c => rw [List.filterMap_cons_some h]; rfl

theorem location_of_enterAll {dir last : tree.Directory} {names : List Text}
    (h : tree.enterAll dir names = .ok last) :
    last.1 = (names.filterMap Component.ofName?).foldl follow dir.1 := by
  induction names generalizing dir with
  | nil =>
    cases h
    rfl
  | cons name names ih =>
    obtain ⟨next, hnext, hlast⟩ := bind_eq_ok.mp h
    have hstep := location_of_step (enter_eq_ok_iff.mp hnext)
    rw [filterMap_ofName?_cons, List.foldl_append, ← hstep]
    exact ih hlast

/-- All that a path which the file system takes is known by. -/
theorem route_cases {path : Path} {r : Route} (h : route path = .ok r) :
    '\x00' ∉ path ∧ Utf8.size path ≤ longestPath ∧ path.isAbsolute = false ∧
      path.names = r.way ++ [r.last] ∧ r.slash = path.endsInSlash := by
  unfold route at h
  split at h
  · cases h
  · rename_i hnul
    split at h
    · cases h
    · rename_i hsize
      split at h
      · cases h
      · rename_i habs
        split at h
        · cases h
        · rename_i last way hnames
          cases h
          refine ⟨hnul, Nat.le_of_not_lt hsize, Bool.eq_false_iff.mpr habs, ?_, rfl⟩
          rw [← List.reverse_cons, ← hnames, List.reverse_reverse]

theorem names_of_route {path : Path} {r : Route} (h : route path = .ok r) :
    path.isAbsolute = false ∧ path.names = r.way ++ [r.last] := by
  obtain ⟨-, -, habs, hnames, -⟩ := route_cases h
  exact ⟨habs, hnames⟩

theorem resolve_eq_foldl {path : Path} (h : path.isAbsolute = false) :
    resolve path = (path.names.filterMap Component.ofName?).foldl follow [] := by
  rw [resolve, Path.components_eq_append, h, if_neg Bool.false_ne_true, List.foldl_append]
  -- a leading `.` stays where it is
  split <;> rfl

theorem location_eq_resolve {path : Path} {r : Route} {dir : tree.Directory} {location : Location}
    (hr : route path = .ok r) (hdir : tree.enterAll tree.root r.way = .ok dir)
    (hstep : tree.step dir r.last = .ok location) : location = resolve path := by
  obtain ⟨habs, hnames⟩ := names_of_route hr
  rw [resolve_eq_foldl habs, hnames, List.filterMap_append, List.foldl_append,
    filterMap_ofName?_cons, List.filterMap_nil, List.append_nil, location_of_step hstep,
    location_of_enterAll hdir]
  rfl

theorem location_of_locate {path : Path} {location : Location} {content : Content}
    (h : tree.locate path = .ok (location, .file content)) : location = resolve path := by
  obtain ⟨r, dir, hr, hdir, hstep, -, -⟩ := locate_eq_file_iff.mp h
  exact location_eq_resolve hr hdir hstep

/-! ## Reading -/

theorem read_eq_ok_iff {path : Path} {text : Text} :
    tree.read path = .ok text ↔
      tree.HasFile path ∧ tree.find? (resolve path) = some (.file (.text text)) := by
  constructor
  · intro h
    obtain ⟨⟨location, entry⟩, hlocate, h⟩ := bind_eq_ok.mp h
    split at h
    · cases h
    · cases h
    · rename_i found hentry
      cases h
      obtain rfl : entry = .file (.text text) := hentry
      obtain ⟨_, _, _, _, _, _, hfind⟩ := locate_eq_file_iff.mp hlocate
      rw [location_of_locate hlocate] at hfind
      exact ⟨⟨_, _, hlocate⟩, hfind⟩
  · rintro ⟨⟨location, content, hlocate⟩, hfind⟩
    obtain ⟨_, _, _, _, _, _, hfind'⟩ := locate_eq_file_iff.mp hlocate
    rw [location_of_locate hlocate, hfind] at hfind'
    cases hfind'
    exact bind_eq_ok.mpr ⟨_, hlocate, rfl⟩

/-- A write puts a file where its path leads and leaves the rest of the tree. -/
theorem find?_of_write {path : Path} {content : Content} (h : tree.write path content = .ok after)
    (location : Location) : after.find? location =
      if location = resolve path then some (.file content) else tree.find? location := by
  obtain ⟨r, dir, hr, hdir, -, hname, -, hfind⟩ := exists_of_write_eq_ok h
  have hstep : tree.step dir r.last = .ok (dir.1 ++ [r.last]) := by
    rw [step, if_neg hname.ne_here, if_neg hname.ne_up, if_neg (Nat.not_lt_of_le hname.size_le)]
  rw [hfind, location_eq_resolve hr hdir hstep]

theorem read_of_write {path : Path} {text : Text} (h : tree.write path (.text text) = .ok after) :
    after.read path = .ok text := by
  refine read_eq_ok_iff.mpr ⟨hasFile_of_write h, ?_⟩
  rw [find?_of_write h, if_pos rfl]

theorem read_after_write {path other : Path} {old text : Text}
    (h : tree.write other (.text text) = .ok after) (hold : tree.read path = .ok old) :
    after.read path = .ok (if resolve path = resolve other then text else old) := by
  obtain ⟨hfile, hfind⟩ := read_eq_ok_iff.mp hold
  refine read_eq_ok_iff.mpr ⟨(grows_write h).hasFile hfile, ?_⟩
  rw [find?_of_write h]
  by_cases hsame : resolve path = resolve other
  · rw [if_pos hsame, if_pos hsame]
  · rw [if_neg hsame, if_neg hsame, hfind]

theorem read_of_save {path : Path} {text : Text} (h : tree.save path text = (after, none)) :
    after.read path = .ok text := by
  obtain ⟨grown, -, hwrite⟩ := exists_of_save h
  exact read_of_write hwrite

end DocTools.FileTree
