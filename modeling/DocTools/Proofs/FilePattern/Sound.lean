import DocTools.Proofs.FilePattern.Spelling
import DocTools.Proofs.FileTree.Making

/-! # Where a walk stands

Every spot that a search comes to is where its path leads, with the entry that the tree has there. The
main statements: `Sound.of_walk` for the walk along any names, `Sound.walk_names`, by which the names of
entries lead to the entry below, and `Alike.of_walk`, by which a walk does not tell between spellings
of the top. -/
namespace DocTools.FilePattern
set_option autoImplicit false

open DocTools.Path (Component follow resolve)

variable {tree : FileTree} {spot next : Spot}

/-! ## Spots that are spelled right -/

/-- A spot that is where its path leads, with the entry that the tree has there. -/
structure Sound (tree : FileTree) (spot : Spot) : Prop where
  ne_nil : spot.path ≠ []
  relative : spot.path.isAbsolute = false
  location_eq : spot.location = resolve spot.path
  entry_eq : tree.find? spot.location = some spot.entry

theorem sound_top : Sound tree .top := ⟨List.cons_ne_nil _ _, rfl, rfl, rfl⟩

/-- The path is `.` alone, however often it is said. -/
def Spot.AtDot (spot : Spot) : Prop := spot.path.components = [.here]

instance (spot : Spot) : Decidable spot.AtDot := inferInstanceAs (Decidable (_ = _))

theorem Spot.pathTo_of_atDot (hdot : spot.AtDot) (name : Text) : spot.pathTo name = name := if_pos hdot

theorem Spot.pathTo_of_not_atDot (hdot : ¬spot.AtDot) (name : Text) :
    spot.pathTo name = Path.join spot.path name := if_neg hdot

theorem Sound.location_of_atDot (h : Sound tree spot) (hdot : spot.AtDot) : spot.location = [] := by
  rw [h.location_eq, resolve, hdot]
  rfl

theorem components_pathTo (h : Sound tree spot) {name : Text} (hslash : '/' ∉ name) :
    (spot.pathTo name).components = if spot.AtDot then Path.components name
      else spot.path.components ++ (Path.names name).filterMap Component.ofName? := by
  have hcont := Path.continues_join h.ne_nil (Path.isAbsolute_of_slash_not_mem hslash)
  by_cases hdot : spot.AtDot
  · rw [if_pos hdot, Spot.pathTo_of_atDot hdot]
  · rw [if_neg hdot, Spot.pathTo_of_not_atDot hdot, hcont.components_eq h.ne_nil]

theorem pathTo_nil_ne_nil_iff (h : Sound tree spot) : spot.pathTo [] ≠ [] ↔ ¬spot.AtDot := by
  by_cases hdot : spot.AtDot
  · rw [Spot.pathTo_of_atDot hdot]
    exact ⟨fun hne => absurd rfl hne, fun hn => absurd hdot hn⟩
  · rw [Spot.pathTo_of_not_atDot hdot]
    exact ⟨fun _ => hdot, fun _ => Path.join_ne_nil h.ne_nil rfl⟩

/-- A name behind the path, followed from the location. -/
theorem Sound.join (h : Sound tree spot) {name : Text} (hslash : '/' ∉ name) {entry : Entry}
    {location : Location}
    (hlocation : location = ((Path.names name).filterMap Component.ofName?).foldl follow spot.location)
    (hentry : tree.find? location = some entry) :
    Sound tree ⟨Path.join spot.path name, location, entry⟩ := by
  have habs := Path.isAbsolute_of_slash_not_mem hslash
  have hcont := Path.continues_join h.ne_nil habs
  refine ⟨hcont.ne_nil, hcont.isAbsolute_eq.trans h.relative, ?_, hentry⟩
  rw [hlocation, h.location_eq, resolve, resolve, hcont.components_eq h.ne_nil, List.foldl_append]

/-- The name alone, as the first one after `.`. -/
theorem Sound.lone (h : Sound tree spot) (hdot : spot.AtDot) {name : Text} (hslash : '/' ∉ name)
    (hne : name ≠ []) {entry : Entry} {location : Location}
    (hlocation : location = ((Path.names name).filterMap Component.ofName?).foldl follow spot.location)
    (hentry : tree.find? location = some entry) : Sound tree ⟨name, location, entry⟩ := by
  have habs := Path.isAbsolute_of_slash_not_mem hslash
  refine ⟨hne, habs, ?_, hentry⟩
  rw [hlocation, h.location_of_atDot hdot, FileTree.resolve_eq_foldl habs]

theorem Sound.pathTo (h : Sound tree spot) {name : Text} (hslash : '/' ∉ name)
    (hne : spot.pathTo name ≠ []) {entry : Entry} {location : Location}
    (hlocation : location = ((Path.names name).filterMap Component.ofName?).foldl follow spot.location)
    (hentry : tree.find? location = some entry) : Sound tree ⟨spot.pathTo name, location, entry⟩ := by
  by_cases hdot : spot.AtDot
  · rw [Spot.pathTo_of_atDot hdot] at hne ⊢
    exact h.lone hdot hslash hne hlocation hentry
  · rw [Spot.pathTo_of_not_atDot hdot]
    exact h.join hslash hlocation hentry

/-! ## One name after another -/

theorem find?_dropLast {location : Location} (h : tree.find? location = some .directory) :
    tree.find? location.dropLast = some .directory := by
  rcases List.eq_nil_or_concat' location with rfl | ⟨front, name, rfl⟩
  · exact h
  · rw [List.dropLast_concat]
    exact FileTree.find?_of_child (Option.isSome_of_eq_some h)

theorem Sound.pathTo_ne_nil (h : Sound tree spot) {name : Text} (hslash : '/' ∉ name)
    (hne : name ≠ []) : spot.pathTo name ≠ [] := by
  unfold Spot.pathTo
  split
  · exact hne
  · exact Path.join_ne_nil h.ne_nil (Path.isAbsolute_of_slash_not_mem hslash)

theorem Sound.of_lookUp? (h : Sound tree spot) {name : Text}
    (hnext : spot.lookUp? tree name = some next) : Sound tree next := by
  have hslash := slash_not_mem_of_lookUp? hnext
  have hlocation := (path_location_of_lookUp? hnext).2
  have hpath := h.pathTo_ne_nil hslash
  obtain ⟨hd, hcases⟩ := Spot.lookUp?_cases hnext
  have hstands := h.entry_eq
  rw [hd] at hstands
  obtain ⟨rfl, rfl⟩ | ⟨rfl, hne, rfl⟩ | ⟨rfl, -, rfl⟩ | ⟨hname, entry, hfind, rfl⟩ := hcases
  · exact h.pathTo hslash (hpath (List.cons_ne_nil _ _)) hlocation hstands
  · exact h.pathTo hslash hne hlocation hstands
  · exact h.pathTo hslash (hpath (List.cons_ne_nil _ _)) hlocation (find?_dropLast hstands)
  · exact h.pathTo hslash (hpath hname.ne_nil) hlocation hfind

theorem Sound.of_walk (h : Sound tree spot) {names : List Text}
    (hnext : walk tree spot names = some next) : Sound tree next := by
  induction names generalizing spot with
  | nil =>
    cases hnext
    exact h
  | cons name names ih =>
    rw [walk_cons, Option.bind_eq_some_iff] at hnext
    obtain ⟨middle, hmiddle, hnext⟩ := hnext
    exact ih (h.of_lookUp? hmiddle) hnext

theorem walk_append (tree : FileTree) (spot : Spot) (names more : List Text) :
    walk tree spot (names ++ more) = (walk tree spot names).bind fun next => walk tree next more := by
  unfold walk
  rw [List.foldlM_append]
  rfl

/-! ## Along the names of entries -/

theorem Sound.not_atDot (h : Sound tree spot) (hne : spot.location ≠ []) : ¬spot.AtDot :=
  fun hdot => hne (h.location_of_atDot hdot)

theorem lookUp?_of_isEntryName (h : Sound tree spot) {name : Text} (hname : IsEntryName name) :
    spot.lookUp? tree name = (tree.find? (spot.location ++ [name])).map fun entry =>
      ⟨spot.pathTo name, spot.location ++ [name], entry⟩ := by
  unfold Spot.lookUp?
  dsimp only
  rw [if_neg hname.ne_here, if_neg hname.ne_up, if_neg hname.ne_nil]
  cases hentry : spot.entry with
  | directory => rfl
  | file content =>
    -- nothing lies below a file
    cases hfind : tree.find? (spot.location ++ [name]) with
    | none => rfl
    | some entry =>
      have hd := FileTree.find?_of_child (Option.isSome_of_eq_some hfind)
      rw [h.entry_eq, hentry] at hd
      cases hd

theorem pathDown_cons (spot : Spot) (name : Text) (names : List Text) :
    spot.pathDown (name :: names) = names.foldl Path.join (spot.pathTo name) := rfl

/-- Along names of entries a walk ends at the entry of that location, if there is one. -/
theorem Sound.walk_names (h : Sound tree spot) {names : List Text} (hne : names ≠ [])
    (hnames : ∀ name ∈ names, IsEntryName name) :
    walk tree spot names = (tree.find? (spot.location ++ names)).map fun entry =>
      spot.down (spot.location ++ names, entry) := by
  have hdown (entry : Entry) : spot.down (spot.location ++ names, entry) =
      ⟨spot.pathDown names, spot.location ++ names, entry⟩ := by
    rw [Spot.down, List.drop_left]
  simp only [hdown]
  clear hdown
  induction names generalizing spot with
  | nil => exact absurd rfl hne
  | cons name names ih =>
    rw [walk_cons, lookUp?_of_isEntryName h (hnames name List.mem_cons_self)]
    cases hfind : tree.find? (spot.location ++ [name]) with
    | none =>
      have hnone : tree.find? (spot.location ++ name :: names) = none := by
        rw [← List.singleton_append, ← List.append_assoc]
        by_cases hmore : names = []
        · rw [hmore, List.append_nil, hfind]
        · refine Option.eq_none_iff_forall_not_mem.mpr fun entry hentry => ?_
          have habove := FileTree.find?_above hmore (Option.isSome_of_mem hentry)
          rw [hfind] at habove
          cases habove
      rw [hnone]
      rfl
    | some entry =>
      rw [Option.map_some, Option.bind_some]
      by_cases hmore : names = []
      · subst hmore
        rw [hfind]
        rfl
      · have hnext : Sound tree ⟨spot.pathTo name, spot.location ++ [name], entry⟩ := by
          apply h.of_lookUp?
          rw [lookUp?_of_isEntryName h (hnames name List.mem_cons_self), hfind]
          rfl
        have hdot := hnext.not_atDot (List.concat_ne_nil _ _)
        have hpath : Spot.pathDown ⟨spot.pathTo name, spot.location ++ [name], entry⟩ names =
            spot.pathDown (name :: names) := by
          obtain ⟨second, others, rfl⟩ := List.exists_cons_of_ne_nil hmore
          rw [pathDown_cons, pathDown_cons, List.foldl_cons, Spot.pathTo_of_not_atDot hdot]
        rw [ih hnext hmore fun n hn => hnames n (List.mem_cons_of_mem _ hn), hpath, List.append_assoc,
          List.singleton_append]

/-! ## Spots that only differ in how the top is spelled -/

/-- Two spots at the same place, spelled the same unless both are the top, however often that is said. -/
structure Alike (s t : Spot) : Prop where
  location_eq : s.location = t.location
  entry_eq : s.entry = t.entry
  path_eq : s.path = t.path ∨ s.AtDot ∧ t.AtDot

theorem Alike.refl (s : Spot) : Alike s s := ⟨rfl, rfl, .inl rfl⟩

section
variable {s t s' : Spot}

theorem Alike.atDot_iff (h : Alike s t) : s.AtDot ↔ t.AtDot := by
  rcases h.path_eq with hpath | ⟨hs, ht⟩
  · rw [Spot.AtDot.eq_def, Spot.AtDot.eq_def, hpath]
  · exact iff_of_true hs ht

/-- Behind a name they are no longer told apart. -/
theorem Alike.pathTo_eq (h : Alike s t) (name : Text) : s.pathTo name = t.pathTo name := by
  rcases h.path_eq with hpath | ⟨hs, ht⟩
  · rw [Spot.pathTo, Spot.pathTo, hpath]
  · rw [Spot.pathTo_of_atDot hs, Spot.pathTo_of_atDot ht]

theorem Alike.of_lookUp? (h : Alike s t) {name : Text} (hnext : s.lookUp? tree name = some s') :
    ∃ t', t.lookUp? tree name = some t' ∧ Alike s' t' := by
  have hpath := h.pathTo_eq name
  obtain ⟨hd, hcases⟩ := Spot.lookUp?_cases hnext
  rw [h.entry_eq] at hd
  unfold Spot.lookUp?
  simp only [hd, Entry.isDirectory, Bool.not_true, Bool.false_eq_true, if_false]
  obtain ⟨rfl, rfl⟩ | ⟨rfl, hne, rfl⟩ | ⟨rfl, hne, rfl⟩ | ⟨hname, entry, hfind, rfl⟩ := hcases
  · exact ⟨_, rfl, h.location_eq, rfl, .inl hpath⟩
  · rw [if_neg (by decide), if_neg (by decide), if_pos rfl, if_neg (hpath ▸ hne)]
    exact ⟨_, rfl, h.location_eq, rfl, .inl hpath⟩
  · rw [if_neg (by decide), if_pos rfl, if_neg (h.location_eq ▸ hne)]
    exact ⟨_, rfl, congrArg List.dropLast h.location_eq, rfl, .inl hpath⟩
  · rw [if_neg hname.ne_here, if_neg hname.ne_up, if_neg hname.ne_nil, ← h.location_eq, hfind]
    exact ⟨_, rfl, rfl, rfl, .inl hpath⟩

theorem Alike.symm (h : Alike s t) : Alike t s :=
  ⟨h.location_eq.symm, h.entry_eq.symm, h.path_eq.imp Eq.symm And.symm⟩

theorem Alike.trans {u : Spot} (h : Alike s t) (h' : Alike t u) : Alike s u := by
  refine ⟨h.location_eq.trans h'.location_eq, h.entry_eq.trans h'.entry_eq, ?_⟩
  rcases h'.path_eq with hpath | ⟨ht, hu⟩
  · exact h.path_eq.imp (·.trans hpath) fun hboth => ⟨hboth.1, h'.atDot_iff.mp hboth.2⟩
  · exact .inr ⟨h.atDot_iff.mpr ht, hu⟩

/-- Walks from spots that are alike end at spots that are alike. -/
theorem Alike.of_walk (h : Alike s t) {names : List Text} (hlast : walk tree s names = some s') :
    ∃ t', walk tree t names = some t' ∧ Alike s' t' := by
  induction names generalizing s t with
  | nil =>
    cases hlast
    exact ⟨t, rfl, h⟩
  | cons name names ih =>
    rw [walk_cons, Option.bind_eq_some_iff] at hlast
    obtain ⟨middle, hmiddle, hlast⟩ := hlast
    obtain ⟨other, hother, halike⟩ := h.of_lookUp? hmiddle
    obtain ⟨t', ht', hend⟩ := ih halike hlast
    rw [walk_cons, hother, Option.bind_some]
    exact ⟨t', ht', hend⟩

/-- Files are not the top, and are spelled the same. -/
theorem Alike.path_eq_of_file (h : Alike s t) (hs : Sound tree s) (hfile : s.entry.isDirectory = false) :
    s.path = t.path := by
  refine h.path_eq.resolve_right fun hdots => ?_
  have hentry := hs.entry_eq
  rw [hs.location_of_atDot hdots.1] at hentry
  rw [← Option.some.inj hentry] at hfile
  cases hfile

end

end DocTools.FilePattern
