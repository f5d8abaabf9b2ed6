import DocTools.Proofs.FileTree.Making

/-! # Reading files by the names on the way

A file is read through the directories that the names of its path enter, dots included, and by a path
that is not too long reading it can only fail for what it holds. The main statements:
`exists_enterAll_names`, by which all names of a directory that is there can be entered, and
`read_entered`. -/
namespace DocTools

/-! ## Characters of paths -/

namespace Text
set_option autoImplicit false

theorem exists_mem_splitOn (mark : Char) {c : Char} {text : Text} (h : c ∈ text) (hne : c ≠ mark) :
    ∃ piece ∈ splitOn mark text, c ∈ piece := by
  induction text with
  | nil => cases h
  | cons d rest ih =>
    by_cases hd : d = mark
    · subst hd
      obtain ⟨piece, hpiece, hc⟩ := ih ((List.mem_cons.mp h).resolve_left hne)
      rw [splitOn_cons_mark]
      exact ⟨piece, List.mem_cons_of_mem _ hpiece, hc⟩
    · obtain ⟨first, pieces, hsplit⟩ := exists_splitOn_eq_cons mark rest
      rw [splitOn_cons_of_ne hd hsplit]
      rcases List.mem_cons.mp h with rfl | hrest
      · exact ⟨c :: first, List.mem_cons_self, List.mem_cons_self⟩
      · obtain ⟨piece, hpiece, hc⟩ := ih hrest
        rw [hsplit] at hpiece
        rcases List.mem_cons.mp hpiece with rfl | hpiece
        · exact ⟨d :: piece, List.mem_cons_self, List.mem_cons_of_mem _ hc⟩
        · exact ⟨piece, List.mem_cons_of_mem _ hpiece, hc⟩

end Text

namespace FileTree
set_option autoImplicit false

open DocTools.Path (resolve)

variable {tree : FileTree} {path : Path}

theorem enterAll_append (dir : tree.Directory) (names more : List Text) :
    tree.enterAll dir (names ++ more) = (tree.enterAll dir names).bind (tree.enterAll · more) := by
  induction names generalizing dir with
  | nil => rfl
  | cons name names ih =>
    rw [List.cons_append, enterAll, enterAll]
    cases tree.enter dir name with
    | error e => rfl
    | ok next => exact ih next

/-- All names of a directory that is there can be entered. -/
theorem exists_enterAll_names (h : tree.isDirectory path) :
    ∃ goal, tree.enterAll tree.root path.names = .ok goal ∧ goal.1 = resolve path := by
  have hstands := find?_of_isDirectory h
  unfold isDirectory locate at h
  split at h
  · rename_i place entry hlocate
    obtain ⟨r, hr, hlocate⟩ := bind_eq_ok.mp hlocate
    obtain ⟨dir, hdir, hlocate⟩ := bind_eq_ok.mp hlocate
    obtain ⟨location, hstep, -⟩ := bind_eq_ok.mp hlocate
    obtain rfl := location_eq_resolve hr hdir hstep
    refine ⟨⟨_, hstands⟩, ?_, rfl⟩
    have henter : tree.enter dir r.last = .ok ⟨_, hstands⟩ := enter_eq_ok_iff.mpr hstep
    rw [(names_of_route hr).2, enterAll_append, hdir]
    show tree.enterAll dir [r.last] = _
    exact bind_eq_ok.mpr ⟨_, henter, rfl⟩
  · cases h

/-! ## Names that can be entered -/

theorem nul_not_mem_of_enter {dir next : tree.Directory} {name : Text}
    (h : tree.enter dir name = .ok next) : '\x00' ∉ name := by
  have hstep := enter_eq_ok_iff.mp h
  unfold step at hstep
  split at hstep
  · rename_i hhere
    rw [hhere]
    decide
  · split at hstep
    · rename_i hup
      rw [hup]
      decide
    · split at hstep
      · cases hstep
      · have hmem : name ∈ next.1 := by
          rw [← Except.ok.inj hstep]
          exact List.mem_append_right _ (List.mem_singleton_self name)
        exact (isEntryName_of_find? (Option.isSome_of_eq_some next.2) name hmem).nul_not_mem

theorem nul_not_mem_of_enterAll {dir last : tree.Directory} {names : List Text}
    (h : tree.enterAll dir names = .ok last) : ∀ name ∈ names, '\x00' ∉ name := by
  induction names generalizing dir with
  | nil => exact fun _ hname => nomatch hname
  | cons first names ih =>
    obtain ⟨next, hnext, hlast⟩ := bind_eq_ok.mp h
    exact List.forall_mem_cons.mpr ⟨nul_not_mem_of_enter hnext, ih hlast⟩

theorem nul_not_mem_of_names (h : ∀ name ∈ path.names, '\x00' ∉ name) : '\x00' ∉ path := by
  intro hmem
  obtain ⟨piece, hpiece, hnul⟩ := Text.exists_mem_splitOn '/' hmem (by decide)
  exact h piece (Path.mem_names_iff.mpr ⟨hpiece, List.ne_nil_of_mem hnul⟩) hnul

/-! ## Reading -/

/-- What reading gives of a file that is found. -/
def readContent : Content → Except IoError Text
  | .bytes _ => .error .invalidText
  | .text text => .ok text

theorem step_of_find? (dir : tree.Directory) {name : Text} {entry : Entry}
    (h : tree.find? (dir.1 ++ [name]) = some entry) : tree.step dir name = .ok (dir.1 ++ [name]) := by
  have hname := isEntryName_of_find? (Option.isSome_of_eq_some h) name
    (List.mem_append_right _ (List.mem_singleton_self name))
  exact step_name dir (Path.ofName?_of_isEntryName hname) hname.size_le

/-- A file in a directory that the names before the last one enter. -/
theorem read_entered {way : List Text} {last : Text} {dir : tree.Directory} {content : Content}
    (hrelative : path.isAbsolute = false) (hnames : path.names = way ++ [last])
    (hslash : path.endsInSlash = false) (hdir : tree.enterAll tree.root way = .ok dir)
    (hfind : tree.find? (dir.1 ++ [last]) = some (.file content)) (hsize : withinLimit path) :
    tree.read path = readContent content := by
  have hlast := isEntryName_of_find? (Option.isSome_of_eq_some hfind) last
    (List.mem_append_right _ (List.mem_singleton_self last))
  have hnul : '\x00' ∉ path := by
    refine nul_not_mem_of_names fun name hname => ?_
    rw [hnames, List.mem_append, List.mem_singleton] at hname
    rcases hname with hway | rfl
    · exact nul_not_mem_of_enterAll hdir name hway
    · exact hlast.nul_not_mem
  have hne : path.names ≠ [] := by
    rw [hnames]
    exact List.concat_ne_nil last way
  obtain ⟨r, hr⟩ := exists_route_iff.mpr ⟨hnul, of_decide_eq_true hsize, hrelative, hne⟩
  obtain ⟨-, -, -, hroute, hend⟩ := route_cases hr
  obtain ⟨hway, hname⟩ := List.append_inj' (hnames.symm.trans hroute) rfl
  obtain rfl := hway
  obtain rfl := List.singleton_inj.mp hname
  have hlocate := locate_eq_file_iff.mpr
    ⟨r, dir, hr, hdir, step_of_find? dir hfind, hend.trans hslash, hfind⟩
  rw [read, hlocate]
  cases content <;> rfl

end FileTree
end DocTools
