import DocTools.FileTree.Basic

/-! # Names and components of joined paths

What joining does to a path, seen through its names and its components: the names of the second path
come after those of the first, whatever slashes are written in between. The main statements:
`names_join`, `continues_foldl_join` for a walk down several directories, and `below?_of_components`,
which says what is left below a directory. -/
namespace DocTools

/-! ## Splitting and joining texts -/

namespace Text
set_option autoImplicit false

theorem splitOn_cons_mark (mark : Char) (rest : Text) :
    splitOn mark (mark :: rest) = [] :: splitOn mark rest := by
  rw [splitOn, if_pos rfl]

theorem splitOn_cons_of_ne {mark c : Char} {rest piece : Text} {pieces : List Text} (h : c ≠ mark)
    (hs : splitOn mark rest = piece :: pieces) :
    splitOn mark (c :: rest) = (c :: piece) :: pieces := by
  rw [splitOn, if_neg h, hs]

theorem exists_splitOn_eq_cons (mark : Char) (text : Text) :
    ∃ piece pieces, splitOn mark text = piece :: pieces :=
  List.exists_cons_of_ne_nil (splitOn_ne_nil mark text)

theorem splitOn_append (mark : Char) (a b : Text) :
    splitOn mark (a ++ mark :: b) = splitOn mark a ++ splitOn mark b := by
  induction a with
  | nil => exact splitOn_cons_mark mark b
  | cons c a ih =>
    rw [List.cons_append]
    by_cases h : c = mark
    · rw [h, splitOn_cons_mark, splitOn_cons_mark, ih, List.cons_append]
    · obtain ⟨piece, pieces, hs⟩ := exists_splitOn_eq_cons mark a
      rw [hs, List.cons_append] at ih
      rw [splitOn_cons_of_ne h ih, splitOn_cons_of_ne h hs, List.cons_append]

theorem splitOn_of_not_mem {mark : Char} {text : Text} (h : mark ∉ text) :
    splitOn mark text = [text] := by
  induction text with
  | nil => rfl
  | cons c rest ih =>
    rw [List.mem_cons, not_or] at h
    rw [splitOn, if_neg (Ne.symm h.1), ih h.2]

theorem splitOn_join {mark : Char} {pieces : List Text} (hne : pieces ≠ [])
    (h : ∀ piece ∈ pieces, mark ∉ piece) : splitOn mark (join [mark] pieces) = pieces := by
  induction pieces with
  | nil => exact absurd rfl hne
  | cons piece pieces ih =>
    have hpiece := splitOn_of_not_mem (h piece List.mem_cons_self)
    cases pieces with
    | nil => exact hpiece
    | cons next pieces =>
      have hrest := ih (List.cons_ne_nil _ _) fun p hp => h p (List.mem_cons_of_mem _ hp)
      rw [join_cons _ _ (List.cons_ne_nil _ _), List.append_assoc, List.singleton_append,
        splitOn_append, hpiece, hrest]
      rfl

end Text

namespace Path
set_option autoImplicit false

/-! ## Names of joined paths -/

theorem names_append_slash (a b : Path) : names (a ++ '/' :: b) = names a ++ names b := by
  rw [names, Text.splitOn_append, List.filter_append]
  rfl

theorem names_nil : names [] = [] := rfl

theorem names_of_name {name : Text} (hne : name ≠ []) (h : '/' ∉ name) : names name = [name] := by
  rw [names, Text.splitOn_of_not_mem h, List.filter_cons_of_pos (by simpa using hne)]
  rfl

theorem exists_append_slash {path : Path} (h : path.endsInSlash) : ∃ front, path = front ++ ['/'] := by
  have hlast : path.getLast? = some '/' := eq_of_beq h
  obtain ⟨front, hfront⟩ := List.getLast?_eq_some_iff.mp hlast
  exact ⟨front, hfront⟩

theorem join_of_endsInSlash {base path : Path} (hbase : base ≠ []) (hpath : path.isAbsolute = false)
    (h : base.endsInSlash) : join base path = base ++ path := by
  rw [join, hpath, List.isEmpty_eq_false_iff.mpr hbase, h]
  rfl

theorem join_of_not_endsInSlash {base path : Path} (hbase : base ≠ [])
    (hpath : path.isAbsolute = false) (h : base.endsInSlash = false) :
    join base path = base ++ '/' :: path := by
  rw [join, hpath, List.isEmpty_eq_false_iff.mpr hbase, h]
  rfl

theorem names_join {base path : Path} (hbase : base ≠ []) (hpath : path.isAbsolute = false) :
    names (join base path) = names base ++ names path := by
  cases h : base.endsInSlash with
  | true =>
    obtain ⟨front, rfl⟩ := exists_append_slash h
    rw [join_of_endsInSlash hbase hpath h, List.append_assoc, List.singleton_append,
      names_append_slash, names_append_slash, names_nil, List.append_nil]
  | false => rw [join_of_not_endsInSlash hbase hpath h, names_append_slash]

theorem isAbsolute_join {base path : Path} (hbase : base ≠ []) (hpath : path.isAbsolute = false) :
    (join base path).isAbsolute = base.isAbsolute := by
  cases base with
  | nil => exact absurd rfl hbase
  | cons c base =>
    cases h : endsInSlash (c :: base) with
    | true => rw [join_of_endsInSlash hbase hpath h]; rfl
    | false => rw [join_of_not_endsInSlash hbase hpath h]; rfl

theorem join_ne_nil {base path : Path} (hbase : base ≠ []) (hpath : path.isAbsolute = false) :
    join base path ≠ [] := by
  cases h : base.endsInSlash with
  | true =>
    rw [join_of_endsInSlash hbase hpath h]
    exact List.append_ne_nil_of_left_ne_nil hbase path
  | false =>
    rw [join_of_not_endsInSlash hbase hpath h]
    exact List.append_ne_nil_of_left_ne_nil hbase _

theorem prefix_join (base : Path) {path : Path} (hpath : path.isAbsolute = false) :
    base <+: join base path := by
  by_cases hbase : base = []
  · rw [hbase]
    exact List.nil_prefix
  · cases h : base.endsInSlash with
    | true =>
      rw [join_of_endsInSlash hbase hpath h]
      exact List.prefix_append base path
    | false =>
      rw [join_of_not_endsInSlash hbase hpath h]
      exact List.prefix_append base _

theorem endsInSlash_join_nil {base : Path} (hbase : base ≠ []) : (join base []).endsInSlash := by
  cases h : base.endsInSlash with
  | true => rwa [join_of_endsInSlash hbase rfl h, List.append_nil]
  | false =>
    rw [join_of_not_endsInSlash hbase rfl h, endsInSlash, List.getLast?_concat]
    rfl

theorem join_right_cancel {base p q : Path} (hp : p.isAbsolute = false) (hq : q.isAbsolute = false)
    (h : join base p = join base q) : p = q := by
  unfold join at h
  rw [hp, hq, Bool.false_or] at h
  by_cases hbase : base.isEmpty
  · rwa [if_pos hbase, if_pos hbase] at h
  · rw [if_neg hbase, if_neg hbase] at h
    by_cases hend : base.endsInSlash
    · rw [if_pos hend, if_pos hend] at h
      exact List.append_cancel_left h
    · rw [if_neg hend, if_neg hend] at h
      exact (List.cons.inj (List.append_cancel_left h)).2

/-! ## Further names -/

/-- A path that is spelled as another one with further names below it. -/
structure Continues (base : Path) (more : List Text) (path : Path) : Prop where
  ne_nil : path ≠ []
  names_eq : path.names = base.names ++ more
  isAbsolute_eq : path.isAbsolute = base.isAbsolute

theorem continues_self {base : Path} (h : base ≠ []) : Continues base [] base :=
  ⟨h, (List.append_nil _).symm, rfl⟩

theorem continues_join {base path : Path} (hbase : base ≠ []) (hpath : path.isAbsolute = false) :
    Continues base path.names (join base path) :=
  ⟨join_ne_nil hbase hpath, names_join hbase hpath, isAbsolute_join hbase hpath⟩

theorem Continues.trans {base middle path : Path} {first second : List Text}
    (h : Continues base first middle) (h' : Continues middle second path) :
    Continues base (first ++ second) path where
  ne_nil := h'.ne_nil
  names_eq := by rw [h'.names_eq, h.names_eq, List.append_assoc]
  isAbsolute_eq := h'.isAbsolute_eq.trans h.isAbsolute_eq

theorem isAbsolute_of_slash_not_mem {name : Text} (h : '/' ∉ name) : isAbsolute name = false := by
  cases name with
  | nil => rfl
  | cons c name =>
    rw [List.mem_cons, not_or] at h
    exact beq_false_of_ne fun hc => h.1 (Option.some.inj hc).symm

theorem names_of_isEntryName {name : Text} (h : IsEntryName name) : names name = [name] :=
  names_of_name h.ne_nil h.slash_not_mem

theorem continues_foldl_join {base : Path} (hbase : base ≠ []) {below : List Text}
    (h : ∀ name ∈ below, IsEntryName name) : Continues base below (below.foldl join base) := by
  induction below generalizing base with
  | nil => exact continues_self hbase
  | cons name below ih =>
    have hname := h name List.mem_cons_self
    have hstep := continues_join hbase (isAbsolute_of_slash_not_mem hname.slash_not_mem)
    rw [names_of_isEntryName hname] at hstep
    exact hstep.trans (ih hstep.ne_nil fun n hn => h n (List.mem_cons_of_mem _ hn))

theorem names_ne_nil {path : Path} (hne : path ≠ []) (habs : path.isAbsolute = false) :
    path.names ≠ [] := by
  cases path with
  | nil => exact absurd rfl hne
  | cons c rest =>
    have hc : c ≠ '/' := by
      rintro rfl
      cases habs
    obtain ⟨piece, pieces, hs⟩ := Text.exists_splitOn_eq_cons '/' rest
    have hmem : c :: piece ∈ names (c :: rest) := by
      rw [mem_names_iff, Text.splitOn_cons_of_ne hc hs]
      exact ⟨List.mem_cons_self, List.cons_ne_nil c piece⟩
    exact List.ne_nil_of_mem hmem

/-! ## Components -/

theorem components_eq_append (path : Path) :
    path.components =
      (if path.isAbsolute then [.root] else if path.names.head? = some ['.'] then [.here] else []) ++
        path.names.filterMap Component.ofName? := rfl

theorem components_of_head {path : Path} (habs : path.isAbsolute = false)
    (hhead : path.names.head? ≠ some ['.']) :
    path.components = path.names.filterMap Component.ofName? := by
  rw [components_eq_append, habs, if_neg hhead]
  rfl

theorem Continues.components_eq {base path : Path} {more : List Text} (h : Continues base more path)
    (hbase : base ≠ []) : path.components = base.components ++ more.filterMap Component.ofName? := by
  rw [components_eq_append, components_eq_append base, h.isAbsolute_eq, h.names_eq, List.filterMap_append,
    ← List.append_assoc]
  cases habs : base.isAbsolute with
  | true => rfl
  | false =>
    obtain ⟨name, names, hnames⟩ := List.exists_cons_of_ne_nil (names_ne_nil hbase habs)
    rw [hnames]
    rfl

theorem ofName?_of_isEntryName {name : Text} (h : IsEntryName name) :
    Component.ofName? name = some (.name name) := by
  rw [Component.ofName?, if_neg h.ne_here, if_neg h.ne_up]

theorem filterMap_ofName? {below : List Text} (h : ∀ name ∈ below, IsEntryName name) :
    below.filterMap Component.ofName? = below.map Component.name := by
  induction below with
  | nil => rfl
  | cons name below ih =>
    rw [List.filterMap_cons_some (ofName?_of_isEntryName (h name List.mem_cons_self)), List.map_cons,
      ih fun n hn => h n (List.mem_cons_of_mem _ hn)]

theorem below?_of_components {base path : Path} {below : List Text}
    (h : path.components = base.components ++ below.map Component.name) :
    below? base path = some (FileTree.pathOf below) := by
  have hbegins : base.components.isPrefixOf path.components :=
    List.isPrefixOf_iff_prefix.mpr ⟨_, h.symm⟩
  rw [below?, if_pos hbegins, h, List.drop_left, List.map_map]
  congr 2
  exact List.map_id below

theorem endsInSlash_append {front name : Text} (hne : name ≠ []) (h : '/' ∉ name) :
    endsInSlash (front ++ name) = false := by
  apply beq_false_of_ne
  intro hlast
  rw [List.getLast?_append, List.getLast?_eq_some_getLast hne, Option.some_or] at hlast
  exact h (Option.some.inj hlast ▸ List.getLast_mem hne)

theorem foldl_join_eq_append {base : Path} (hne : base ≠ []) (hend : base.endsInSlash = false)
    {below : List Text} (h : ∀ name ∈ below, IsEntryName name) :
    below.foldl join base = base ++ below.flatMap ('/' :: ·) := by
  induction below generalizing base with
  | nil => exact (List.append_nil base).symm
  | cons name below ih =>
    have hname := h name List.mem_cons_self
    have hstep := join_of_not_endsInSlash hne (isAbsolute_of_slash_not_mem hname.slash_not_mem) hend
    have hend' : endsInSlash (base ++ '/' :: name) = false := by
      rw [← List.singleton_append, ← List.append_assoc]
      exact endsInSlash_append hname.ne_nil hname.slash_not_mem
    rw [List.foldl_cons, hstep, ih (List.append_ne_nil_of_left_ne_nil hne _) hend'
      fun n hn => h n (List.mem_cons_of_mem _ hn), List.flatMap_cons, List.append_assoc]

theorem pathOf_cons (name : Text) (below : List Text) :
    FileTree.pathOf (name :: below) = name ++ below.flatMap ('/' :: ·) := by
  induction below generalizing name with
  | nil => exact (List.append_nil name).symm
  | cons next below ih =>
    rw [FileTree.pathOf, Text.join, List.append_assoc, List.singleton_append, List.flatMap_cons]
    congr 2
    exact ih next

theorem foldl_join_eq_pathOf {name : Text} {below : List Text}
    (h : ∀ n ∈ name :: below, IsEntryName n) :
    below.foldl join name = FileTree.pathOf (name :: below) := by
  have hname := h name List.mem_cons_self
  have hend : endsInSlash ([] ++ name) = false := endsInSlash_append hname.ne_nil hname.slash_not_mem
  rw [pathOf_cons, foldl_join_eq_append hname.ne_nil hend fun n hn => h n (List.mem_cons_of_mem _ hn)]

theorem pathOf_append {location : Location} (hne : location ≠ []) (below : List Text) :
    FileTree.pathOf (location ++ below) = FileTree.pathOf location ++ below.flatMap ('/' :: ·) := by
  obtain ⟨name, names, rfl⟩ := List.exists_cons_of_ne_nil hne
  rw [List.cons_append, pathOf_cons, pathOf_cons, List.flatMap_append, List.append_assoc]

theorem names_pathOf {below : List Text} (h : ∀ name ∈ below, IsEntryName name) :
    names (FileTree.pathOf below) = below := by
  cases below with
  | nil => rfl
  | cons name below =>
    rw [names, FileTree.pathOf, Text.splitOn_join (List.cons_ne_nil _ _) fun n hn => (h n hn).slash_not_mem]
    rw [List.filter_eq_self]
    intro n hn
    simpa using (h n hn).ne_nil

theorem isAbsolute_pathOf {below : List Text} (h : ∀ name ∈ below, IsEntryName name) :
    isAbsolute (FileTree.pathOf below) = false := by
  cases below with
  | nil => rfl
  | cons name below =>
    have hname := h name List.mem_cons_self
    have hcont := continues_foldl_join hname.ne_nil fun n hn => h n (List.mem_cons_of_mem _ hn)
    rw [← foldl_join_eq_pathOf h, hcont.isAbsolute_eq]
    exact isAbsolute_of_slash_not_mem hname.slash_not_mem

theorem components_pathOf {below : List Text} (h : ∀ name ∈ below, IsEntryName name) :
    components (FileTree.pathOf below) = below.map Component.name := by
  have hhead : (names (FileTree.pathOf below)).head? ≠ some ['.'] := by
    rw [names_pathOf h]
    intro hc
    exact (h _ (List.mem_of_head? hc)).ne_here rfl
  rw [components_of_head (isAbsolute_pathOf h) hhead, names_pathOf h, filterMap_ofName? h]

theorem components_join_of_ofName? {name : Text} (hne : name ≠ []) (hslash : '/' ∉ name)
    (hname : Component.ofName? name = some (.name name)) (base : Path) :
    (join base name).components = base.components ++ [.name name] := by
  have habs := isAbsolute_of_slash_not_mem hslash
  have hnames := names_of_name hne hslash
  by_cases hbase : base = []
  · have hhead : (names name).head? ≠ some ['.'] := by
      rw [hnames]
      intro hhere
      obtain rfl : name = ['.'] := Option.some.inj hhere
      cases hname
    rw [hbase, join, if_pos (by rw [habs]; rfl), components_of_head habs hhead, hnames,
      List.filterMap_cons_some hname]
    rfl
  · rw [(continues_join hbase habs).components_eq hbase, hnames, List.filterMap_cons_some hname]
    rfl

theorem components_join_name {name : Text} (h : IsEntryName name) (base : Path) :
    (join base name).components = base.components ++ [.name name] :=
  components_join_of_ofName? h.ne_nil h.slash_not_mem (ofName?_of_isEntryName h) base

/-! ## Paths with single slashes -/

/-- One slash stands between the names, and at most one behind them. -/
def Tidy (path : Path) : Prop :=
  path = FileTree.pathOf path.names ++ if path.endsInSlash then ['/'] else []

theorem tidy_of_name {name : Text} (hne : name ≠ []) (hslash : '/' ∉ name) : Tidy name := by
  have hend : endsInSlash ([] ++ name) = false := endsInSlash_append hne hslash
  rw [List.nil_append] at hend
  rw [Tidy, hend, names_of_name hne hslash]
  exact (List.append_nil name).symm

section
variable {base : Path} (h : Tidy base) (hbase : base ≠ [])
include h hbase

theorem Tidy.join_eq {path : Path} (hpath : path.isAbsolute = false) :
    join base path = FileTree.pathOf base.names ++ '/' :: path := by
  unfold Tidy at h
  cases hend : base.endsInSlash with
  | true =>
    rw [hend, if_pos rfl] at h
    calc join base path = base ++ path := join_of_endsInSlash hbase hpath hend
      _ = FileTree.pathOf base.names ++ ['/'] ++ path := congrArg (· ++ path) h
      _ = FileTree.pathOf base.names ++ '/' :: path := List.append_assoc ..
  | false =>
    rw [hend, if_neg Bool.false_ne_true, List.append_nil] at h
    calc join base path = base ++ '/' :: path := join_of_not_endsInSlash hbase hpath hend
      _ = FileTree.pathOf base.names ++ '/' :: path := congrArg (· ++ '/' :: path) h

theorem Tidy.join (hrelative : base.isAbsolute = false) {name : Text} (hslash : '/' ∉ name) :
    Tidy (base.join name) := by
  have habs := isAbsolute_of_slash_not_mem hslash
  have hjoin := h.join_eq hbase habs
  have hnames := names_join hbase habs
  by_cases hnil : name = []
  · subst hnil
    rw [names_nil, List.append_nil] at hnames
    rw [Tidy, hnames, endsInSlash_join_nil hbase]
    exact hjoin
  · have hend : endsInSlash (base.join name) = false := by
      rw [hjoin, List.append_cons]
      exact endsInSlash_append hnil hslash
    rw [names_of_name hnil hslash] at hnames
    rw [Tidy, hnames, hend, if_neg Bool.false_ne_true, List.append_nil,
      pathOf_append (names_ne_nil hbase hrelative), hjoin, List.flatMap_singleton]

/-- Joining names goes on with single slashes. -/
theorem Tidy.foldl_join (hrelative : base.isAbsolute = false) {below : List Text} (hne : below ≠ [])
    (hbelow : ∀ name ∈ below, IsEntryName name) :
    below.foldl Path.join base = FileTree.pathOf (base.names ++ below) := by
  obtain ⟨name, more, rfl⟩ := List.exists_cons_of_ne_nil hne
  have hname := hbelow name List.mem_cons_self
  have habs := isAbsolute_of_slash_not_mem hname.slash_not_mem
  have hend : endsInSlash (FileTree.pathOf base.names ++ '/' :: name) = false := by
    rw [List.append_cons]
    exact endsInSlash_append hname.ne_nil hname.slash_not_mem
  rw [List.foldl_cons, h.join_eq hbase habs, foldl_join_eq_append (by simp) hend
    fun n hn => hbelow n (List.mem_cons_of_mem _ hn), pathOf_append (names_ne_nil hbase hrelative),
    List.flatMap_cons, List.append_assoc]

end

/-! ## Where a path leads -/

def follow (location : Location) : Component → Location
  | .root | .here => location
  | .up => location.dropLast
  | .name text => location ++ [text]

/-- Where a path leads from the top, whatever the tree holds. -/
def resolve (path : Path) : Location := path.components.foldl follow []

theorem foldl_follow_names (location : Location) (below : List Text) :
    (below.map Component.name).foldl follow location = location ++ below := by
  induction below generalizing location with
  | nil => exact (List.append_nil location).symm
  | cons name below ih =>
    rw [List.map_cons, List.foldl_cons, ih, follow, List.append_assoc, List.singleton_append]

theorem resolve_of_components {path : Path} {front : List Component} {below : List Text}
    (h : path.components = front ++ below.map Component.name) :
    resolve path = front.foldl follow [] ++ below := by
  rw [resolve, h, List.foldl_append, foldl_follow_names]

theorem resolve_join_of_ofName? {name : Text} (hne : name ≠ []) (hslash : '/' ∉ name)
    (hname : Component.ofName? name = some (.name name)) (base : Path) :
    resolve (join base name) = resolve base ++ [name] := by
  rw [resolve, components_join_of_ofName? hne hslash hname, List.foldl_append]
  rfl

theorem resolve_pathOf {below : List Text} (h : ∀ name ∈ below, IsEntryName name) :
    resolve (FileTree.pathOf below) = below := by
  rw [resolve, components_pathOf h, foldl_follow_names, List.nil_append]

end Path
end DocTools
