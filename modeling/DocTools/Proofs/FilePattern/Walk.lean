import DocTools.Proofs.FilePattern.Literal
import Mathlib.Data.List.Nodup

/-! # Searching below a literal directory

Literal segments are walked one after the other, and a walk ends at one spot or nowhere. The main
statements: `search_literals` replaces the search along literal segments by the walk, and
`mem_files_iff` says which files the pattern for an extension below a directory stands for. -/
namespace DocTools

/-! ## Entries by their locations -/

namespace FileTree
set_option autoImplicit false

variable {tree : FileTree}

theorem find?_eq_some_iff {location : Location} (h : location ≠ []) {entry : Entry} :
    tree.find? location = some entry ↔ (location, entry) ∈ tree.entries.toList := by
  rw [find?, if_neg h, Dictionary.get?_eq_some_iff]

theorem mem_below_iff {location : Location} {e : Location × Entry} :
    e ∈ tree.below location ↔
      ∃ further, further ≠ [] ∧ e.1 = location ++ further ∧ tree.find? e.1 = some e.2 := by
  rw [below, List.mem_filter, Bool.and_eq_true, decide_eq_true_iff, List.isPrefixOf_iff_prefix]
  constructor
  · rintro ⟨hmem, ⟨further, hfurther⟩, hlen⟩
    refine ⟨further, ?_, hfurther.symm, ?_⟩
    · rintro rfl
      rw [← hfurther, List.append_nil] at hlen
      exact Nat.lt_irrefl _ hlen
    · have hne : e.1 ≠ [] := List.ne_nil_of_length_pos (Nat.zero_lt_of_lt hlen)
      exact (find?_eq_some_iff hne).mpr hmem
  · rintro ⟨further, hne, hfurther, hfind⟩
    have hlen : location.length < e.1.length := by
      have := List.length_pos_of_ne_nil hne
      rw [hfurther, List.length_append]
      omega
    have he : e.1 ≠ [] := List.ne_nil_of_length_pos (Nat.zero_lt_of_lt hlen)
    exact ⟨(find?_eq_some_iff he).mp hfind, ⟨further, hfurther.symm⟩, hlen⟩

theorem mem_children_iff {location : Location} {e : Location × Entry} :
    e ∈ tree.children location ↔
      ∃ name, e.1 = location ++ [name] ∧ tree.find? e.1 = some e.2 := by
  rw [children, List.mem_filter, mem_below_iff, decide_eq_true_iff]
  constructor
  · rintro ⟨⟨further, hne, hfurther, hfind⟩, hlen⟩
    rw [hfurther, List.length_append, Nat.add_left_cancel_iff, List.length_eq_one_iff] at hlen
    obtain ⟨name, rfl⟩ := hlen
    exact ⟨name, hfurther, hfind⟩
  · rintro ⟨name, hname, hfind⟩
    refine ⟨⟨[name], List.cons_ne_nil _ _, hname, hfind⟩, ?_⟩
    rw [hname, List.length_append, List.length_singleton]

theorem nodup_below (location : Location) : (tree.below location).Nodup :=
  (Dictionary.nodup_toList tree.entries).filter _

theorem nodup_children (location : Location) : (tree.children location).Nodup :=
  (nodup_below location).filter _

end FileTree

namespace FilePattern
set_option autoImplicit false

/-! ## What a literal segment stands for -/

theorem inClass_single {c d : Char} : inClass [(c, c)] d = true ↔ d = c := by
  simp only [inClass, List.any_cons, List.any_nil, Bool.or_false, Bool.and_eq_true, decide_eq_true_iff]
  constructor
  · rintro ⟨h1, h2⟩
    exact Char.le_antisymm h2 h1
  · rintro rfl
    exact ⟨Char.le_refl d, Char.le_refl d⟩

theorem fits_literal {name other : Text} : fits (literal name) other = true ↔ other = name := by
  induction name generalizing other with
  | nil => exact List.isEmpty_iff
  | cons c name ih =>
    rw [literal, List.map_cons, literalChar]
    cases other with
    | nil =>
      have hne : c :: name ≠ [] := List.cons_ne_nil c name
      split
      · exact ⟨fun h => absurd h Bool.false_ne_true, fun h => absurd h.symm hne⟩
      · exact ⟨fun h => absurd h Bool.false_ne_true, fun h => absurd h.symm hne⟩
    | cons d other =>
      rw [List.cons.injEq, ← ih]
      split
      · rw [fits, Bool.and_eq_true, inClass_single]
        rfl
      · rw [fits, Bool.and_eq_true, beq_iff_eq, eq_comm]
        rfl

theorem plainName?_literal {name other : Text} (h : plainName? (literal name) = some other) :
    other = name := by
  induction name generalizing other with
  | nil => exact (Option.some.inj h).symm
  | cons c name ih =>
    rw [literal, List.map_cons, literalChar] at h
    split at h
    · cases h
    · obtain ⟨rest, hrest, rfl⟩ := Option.map_eq_some_iff.mp h
      rw [ih hrest]

theorem exists_mem_of_plainName?_literal {name : Text} (h : plainName? (literal name) = none) :
    ∃ c ∈ name, c ∈ ['?', '*', '[', ']'] := by
  induction name with
  | nil => cases h
  | cons c name ih =>
    rw [literal, List.map_cons, literalChar] at h
    split at h
    · rename_i hc
      exact ⟨c, List.mem_cons_self, hc⟩
    · obtain ⟨d, hd, hmem⟩ := ih (Option.map_eq_none_iff.mp h)
      exact ⟨d, List.mem_cons_of_mem _ hd, hmem⟩

/-! ## One literal segment -/

theorem search_cons_plain (tree : FileTree) {segment : Segment} {name : Text}
    (h : plainName? segment = some name) (rest : List Segment) (spot : Spot) :
    search tree (segment :: rest) spot = (spot.lookUp? tree name).toList.flatMap (search tree rest) := by
  have hne : segment ≠ [.anyDepth] := by
    rintro rfl
    cases h
  rw [search]
  · simp only [h]
  · exact fun hs => absurd hs hne
  · exact fun _ _ hs => absurd hs hne

theorem search_cons_wild (tree : FileTree) {segment : Segment} (hne : segment ≠ .deep)
    (h : plainName? segment = none) (rest : List Segment) (spot : Spot) :
    search tree (segment :: rest) spot =
      if !spot.entry.isDirectory then []
      else (spot.dots segment).flatMap (search tree rest) ++
        (tree.children spot.location).flatMap fun e =>
          if fits segment (spot.down e).name then search tree rest (spot.down e) else [] := by
  rw [search]
  · simp only [h]
  · exact fun hs => absurd hs hne
  · exact fun _ _ hs => absurd hs hne

theorem filter_children (tree : FileTree) (location : Location) (name : Text) :
    ((tree.children location).filter fun e => e.1 = location ++ [name]) =
      (tree.find? (location ++ [name])).toList.map fun entry => (location ++ [name], entry) := by
  cases h : tree.find? (location ++ [name]) with
  | none =>
    rw [Option.toList_none, List.map_nil, List.filter_eq_nil_iff]
    intro e he hname
    obtain ⟨-, -, hfind⟩ := FileTree.mem_children_iff.mp he
    rw [of_decide_eq_true hname, h] at hfind
    cases hfind
  | some entry =>
    apply List.perm_singleton.mp
    refine (List.perm_ext_iff_of_nodup ((FileTree.nodup_children location).filter _)
      (List.nodup_singleton _)).mpr ?_
    intro e
    rw [List.mem_filter, List.mem_singleton, FileTree.mem_children_iff, decide_eq_true_iff]
    constructor
    · rintro ⟨⟨-, -, hfind⟩, hname⟩
      rw [hname, h] at hfind
      exact Prod.ext hname (Option.some.inj hfind).symm
    · rintro rfl
      exact ⟨⟨name, rfl, h⟩, rfl⟩

theorem flatMap_ite_nil {α β : Type} (p : α → Bool) (f : α → List β) (l : List α) :
    (l.flatMap fun a => if p a then f a else []) = (l.filter p).flatMap f := by
  induction l with
  | nil => rfl
  | cons a l ih =>
    rw [List.flatMap_cons, ih]
    by_cases h : p a
    · rw [if_pos h, List.filter_cons_of_pos h, List.flatMap_cons]
    · rw [if_neg h, List.filter_cons_of_neg h, List.nil_append]

theorem Spot.down_child (spot : Spot) (name : Text) (entry : Entry) :
    spot.down (spot.location ++ [name], entry) =
      ⟨spot.pathTo name, spot.location ++ [name], entry⟩ := by
  rw [Spot.down, List.drop_left]
  rfl

theorem Spot.name_down (spot : Spot) (e : Location × Entry) :
    (spot.down e).name = e.1.getLast?.getD [] := rfl

theorem ne_dots_of_wild {name : Text} {c : Char} (hc : c ∈ name) (hwild : c ∈ ['?', '*', '[', ']']) :
    name ≠ ['.'] ∧ name ≠ ['.', '.'] := by
  have hdot : c ≠ '.' := by
    rintro rfl
    exact absurd hwild (by decide)
  constructor
  · rintro rfl
    exact hdot (List.mem_singleton.mp hc)
  · rintro rfl
    exact hdot (List.eq_of_mem_replicate (n := 2) hc)

theorem Spot.lookUp?_of_wild (tree : FileTree) (spot : Spot) {name : Text} {c : Char} (hc : c ∈ name)
    (hwild : c ∈ ['?', '*', '[', ']']) : spot.lookUp? tree name =
      if !spot.entry.isDirectory then none
      else (tree.find? (spot.location ++ [name])).map fun entry =>
        ⟨spot.pathTo name, spot.location ++ [name], entry⟩ := by
  obtain ⟨hhere, hup⟩ := ne_dots_of_wild hc hwild
  rw [Spot.lookUp?, if_neg hhere, if_neg hup, if_neg (List.ne_nil_of_mem hc)]

theorem Spot.dots_of_wild (spot : Spot) {name : Text} {c : Char} (hc : c ∈ name)
    (hwild : c ∈ ['?', '*', '[', ']']) : spot.dots (literal name) = [] := by
  obtain ⟨hhere, hup⟩ := ne_dots_of_wild hc hwild
  have hfits : ∀ other, other ≠ name → ¬fits (literal name) other :=
    fun other hne h => hne (fits_literal.mp h)
  simp only [Spot.dots, if_neg (hfits _ hup.symm), if_neg (hfits _ hhere.symm), List.append_nil,
    ite_self]

/-- A literal segment is looked up, with or without wildcards escaped in it. -/
theorem search_literal (tree : FileTree) (name : Text) (rest : List Segment) (spot : Spot) :
    search tree (literal name :: rest) spot =
      (spot.lookUp? tree name).toList.flatMap (search tree rest) := by
  cases h : plainName? (literal name) with
  | some other =>
    obtain rfl := plainName?_literal h
    exact search_cons_plain tree h rest spot
  | none =>
    -- the children are gone through, of which one at most has the name
    obtain ⟨c, hc, hwild⟩ := exists_mem_of_plainName?_literal h
    rw [search_cons_wild tree (literal_ne_deep name) h, Spot.lookUp?_of_wild tree spot hc hwild]
    by_cases hdir : !spot.entry.isDirectory
    · rw [if_pos hdir, if_pos hdir]
      rfl
    · have hchildren : ((tree.children spot.location).flatMap fun e =>
          if fits (literal name) (spot.down e).name then search tree rest (spot.down e) else []) =
            ((tree.children spot.location).filter fun e => e.1 = spot.location ++ [name]).flatMap
              fun e => search tree rest (spot.down e) := by
        rw [flatMap_ite_nil]
        congr 1
        apply List.filter_congr
        intro e he
        obtain ⟨last, hlast, -⟩ := FileTree.mem_children_iff.mp he
        rw [Bool.eq_iff_iff, fits_literal, decide_eq_true_iff, Spot.name_down, hlast,
          List.getLast?_concat, Option.getD_some, List.append_cancel_left_eq, List.singleton_inj]
      rw [if_neg hdir, if_neg hdir, spot.dots_of_wild hc hwild, hchildren, filter_children,
        List.flatMap_nil, List.nil_append]
      cases tree.find? (spot.location ++ [name]) with
      | none => rfl
      | some entry =>
        rw [Option.toList_some, List.map_singleton, Option.map_some, Option.toList_some,
          List.flatMap_singleton, List.flatMap_singleton, Spot.down_child]

/-! ## A walk along literal segments -/

def walk (tree : FileTree) (spot : Spot) (names : List Text) : Option Spot :=
  names.foldlM (Spot.lookUp? tree) spot

theorem walk_cons (tree : FileTree) (spot : Spot) (name : Text) (names : List Text) :
    walk tree spot (name :: names) = (spot.lookUp? tree name).bind fun next => walk tree next names :=
  rfl

theorem search_literals (tree : FileTree) (names : List Text) (rest : List Segment) (spot : Spot) :
    search tree (names.map literal ++ rest) spot =
      (walk tree spot names).toList.flatMap (search tree rest) := by
  induction names generalizing spot with
  | nil =>
    show search tree rest spot = [spot].flatMap (search tree rest)
    rw [List.flatMap_singleton]
  | cons name names ih =>
    rw [List.map_cons, List.cons_append, search_literal, walk_cons]
    cases spot.lookUp? tree name with
    | none => rfl
    | some next =>
      rw [Option.toList_some, List.flatMap_singleton, Option.bind_some]
      exact ih next

theorem search_deep (tree : FileTree) (segment : Segment) (spot : Spot) :
    search tree [.deep, segment] spot = (tree.below spot.location).flatMap fun e =>
      if fits segment (spot.down e).name then [spot.down e] else [] := by
  show search tree ([.anyDepth] :: segment :: []) spot = _
  rw [search]
  rfl

theorem mem_sort {path : Path} {paths : List Path} : path ∈ Path.sort paths ↔ path ∈ paths :=
  (List.mergeSort_perm ..).mem_iff

/-! ## Names with an extension -/

theorem someEnd_iff {p : Text → Bool} {text : Text} :
    someEnd p text ↔ ∃ rest, rest <:+ text ∧ p rest := by
  induction text with
  | nil =>
    constructor
    · exact fun h => ⟨[], List.suffix_rfl, h⟩
    · rintro ⟨rest, hrest, hp⟩
      rwa [List.suffix_nil.mp hrest] at hp
  | cons c text ih =>
    rw [someEnd, Bool.or_eq_true, ih]
    constructor
    · rintro (hp | ⟨rest, hrest, hp⟩)
      · exact ⟨c :: text, List.suffix_rfl, hp⟩
      · exact ⟨rest, hrest.trans (List.suffix_cons c text), hp⟩
    · rintro ⟨rest, hrest, hp⟩
      rcases List.suffix_cons_iff.mp hrest with rfl | hrest
      · exact .inl hp
      · exact .inr ⟨rest, hrest, hp⟩

theorem fits_extensionSegment {extension name : Text} :
    fits (extensionSegment extension) name ↔ ('.' :: extension) <:+ name := by
  rw [extensionSegment, fits, someEnd_iff]
  constructor
  · rintro ⟨rest, hrest, hfits⟩
    rwa [fits_literal.mp hfits] at hrest
  · exact fun h => ⟨_, h, fits_literal.mpr rfl⟩

/-- The last name on the way ends in a dot and the extension. -/
def HasExtension (extension : Text) (below : Location) : Prop :=
  ∃ front name, below = front ++ [name] ∧ ('.' :: extension) <:+ name

theorem HasExtension.ne_nil {extension : Text} {below : Location} (h : HasExtension extension below) :
    below ≠ [] := by
  obtain ⟨front, name, rfl, -⟩ := h
  exact List.concat_ne_nil name front

theorem HasExtension.append {extension : Text} {below : Location} (h : HasExtension extension below)
    (base : Location) : HasExtension extension (base ++ below) := by
  obtain ⟨front, name, rfl, hname⟩ := h
  exact ⟨base ++ front, name, (List.append_assoc ..).symm, hname⟩

/-- Of two extensions that one name has, one ends like the other. -/
theorem HasExtension.suffix_or_suffix {extension other : Text} {below : Location}
    (h : HasExtension extension below) (h' : HasExtension other below) :
    ('.' :: extension) <:+ ('.' :: other) ∨ ('.' :: other) <:+ ('.' :: extension) := by
  obtain ⟨front, name, rfl, hname⟩ := h
  obtain ⟨front', name', heq, hname'⟩ := h'
  obtain rfl := List.singleton_inj.mp (List.append_inj' heq rfl).2
  exact List.suffix_or_suffix_of_suffix hname hname'

/-! ## Searching from the end of a walk -/

/-- A search from a spot that ends at the files of the wanted places below it. -/
structure Finds (tree : FileTree) (segments : List Segment) (wanted : Location → Prop) (spot : Spot)
    (found : List (Location × Entry)) : Prop where
  sublist : found.Sublist tree.entries.toList
  search_eq : (search tree segments spot).filter (fun s => !s.entry.isDirectory) = found.map spot.down
  mem : ∀ e, e ∈ found ↔ ∃ below content, e = (spot.location ++ below, .file content) ∧
    wanted below ∧ tree.find? e.1 = some e.2

theorem Finds.nodup {tree : FileTree} {segments : List Segment} {wanted : Location → Prop}
    {spot : Spot} {found : List (Location × Entry)} (h : Finds tree segments wanted spot found) :
    (found.map Prod.fst).Nodup := by
  rw [List.Nodup, List.pairwise_map]
  refine (tree.entries.increasing.sublist h.sublist).imp fun {a b} hab heq => ?_
  rw [heq] at hab
  exact List.lt_irrefl _ hab

/-- Those of the entries that were found whose paths are not too long. -/
def shortOnes (spot : Spot) (found : List (Location × Entry)) : List (Location × Entry) :=
  found.filter fun e => FileTree.withinLimit (spot.down e).path

theorem files_of_walk {tree : FileTree} {dir : Path} {segments : List Segment}
    {wanted : Location → Prop} {spot : Spot} {found : List (Location × Entry)}
    (hfinds : Finds tree segments wanted spot found)
    (h : walk tree .top (Text.splitOn '/' (trimEnd dir)) = some spot) :
    files tree ⟨(Text.splitOn '/' (trimEnd dir)).map literal ++ segments, false⟩ =
      Path.sort ((shortOnes spot found).map fun e => (spot.down e).path) := by
  rw [files, if_neg Bool.false_ne_true, search_literals, h, Option.toList_some,
    List.flatMap_singleton, hfinds.search_eq, List.map_map, List.filter_map]
  rfl

def isFileWith (extension : Text) (e : Location × Entry) : Bool :=
  !e.2.isDirectory && fits (extensionSegment extension) (e.1.getLast?.getD [])

theorem isFileWith_iff {extension : Text} {base below : Location} {e : Location × Entry}
    (hat : e.1 = base ++ below) (hne : below ≠ []) :
    isFileWith extension e ↔ (∃ content, e = (base ++ below, .file content)) ∧
      HasExtension extension below := by
  obtain ⟨location, entry⟩ := e
  obtain rfl : location = base ++ below := hat
  obtain ⟨front, name, rfl⟩ := (List.eq_nil_or_concat' below).resolve_left hne
  rw [isFileWith, Bool.and_eq_true, fits_extensionSegment, ← List.append_assoc, List.getLast?_concat]
  refine and_congr ?_ ⟨fun h => ⟨front, name, rfl, h⟩, ?_⟩
  · cases entry with
    | directory => exact ⟨fun h => (nomatch h), fun ⟨_, h⟩ => nomatch h⟩
    | file content => exact ⟨fun _ => ⟨content, rfl⟩, fun _ => rfl⟩
  · rintro ⟨front', name', hsame, hsuffix⟩
    obtain rfl := List.singleton_inj.mp (List.append_inj' hsame rfl).2
    exact hsuffix

/-- The files among the entries that the segment for an extension is held against. -/
theorem filter_held (spot : Spot) (extension : Text) (entries : List (Location × Entry)) :
    (entries.flatMap fun e =>
      if fits (extensionSegment extension) (spot.down e).name then [spot.down e] else []).filter
        (fun s => !s.entry.isDirectory) = (entries.filter (isFileWith extension)).map spot.down := by
  rw [flatMap_ite_nil, ← List.map_eq_flatMap, List.filter_map, List.filter_filter]
  rfl

/-- Behind `**` the search ends at the files at any depth. -/
theorem finds_deep (tree : FileTree) (extension : Text) (spot : Spot) :
    Finds tree [.deep, extensionSegment extension] (HasExtension extension) spot
      ((tree.below spot.location).filter (isFileWith extension)) where
  sublist := List.filter_sublist.trans List.filter_sublist
  search_eq := by rw [search_deep, filter_held]
  mem e := by
    rw [List.mem_filter, FileTree.mem_below_iff]
    constructor
    · rintro ⟨⟨below, hne, hat, hfind⟩, hfile⟩
      obtain ⟨⟨content, hentry⟩, hextension⟩ := (isFileWith_iff hat hne).mp hfile
      exact ⟨below, content, hentry, hextension, hfind⟩
    · rintro ⟨below, content, rfl, hextension, hfind⟩
      have hne := hextension.ne_nil
      exact ⟨⟨below, hne, rfl, hfind⟩, (isFileWith_iff rfl hne).mpr ⟨⟨content, rfl⟩, hextension⟩⟩

theorem files_of_no_walk {tree : FileTree} {dir : Path} (segments : List Segment)
    (h : walk tree .top (Text.splitOn '/' (trimEnd dir)) = none) :
    files tree ⟨(Text.splitOn '/' (trimEnd dir)).map literal ++ segments, false⟩ = [] := by
  rw [files, if_neg Bool.false_ne_true, search_literals, h]
  exact List.mergeSort_nil

/-- The files with an extension below a directory: the walk along the directory ends at a spot, and
the files are those below it whose names have the extension and whose paths are not too long. -/
theorem mem_files_iff (tree : FileTree) (dir : Path) (extension : Text) (path : Path) :
    path ∈ files tree ⟨segmentsBelow dir extension, false⟩ ↔ FileTree.withinLimit path ∧
      ∃ spot, walk tree .top (Text.splitOn '/' (trimEnd dir)) = some spot ∧
        ∃ below content, path = spot.pathDown below ∧ HasExtension extension below ∧
          tree.find? (spot.location ++ below) = some (.file content) := by
  cases hwalk : walk tree .top (Text.splitOn '/' (trimEnd dir)) with
  | none =>
    rw [segmentsBelow, files_of_no_walk _ hwalk]
    exact ⟨fun h => (nomatch h), fun ⟨_, _, h, _⟩ => nomatch h⟩
  | some spot =>
    have hfinds := finds_deep tree extension spot
    have hdown (below : Location) (content : Content) :
        (spot.down (spot.location ++ below, .file content)).path = spot.pathDown below := by
      rw [Spot.down, List.drop_left]
    rw [segmentsBelow, files_of_walk hfinds hwalk, mem_sort, List.mem_map]
    constructor
    · rintro ⟨e, he, rfl⟩
      obtain ⟨he, hlimit⟩ := List.mem_filter.mp he
      obtain ⟨below, content, rfl, hextension, hfind⟩ := (hfinds.mem e).mp he
      exact ⟨hlimit, spot, rfl, below, content, hdown below content, hextension, hfind⟩
    · rintro ⟨hlimit, _, ⟨⟩, below, content, rfl, hextension, hfind⟩
      have hfound := (hfinds.mem _).mpr ⟨below, content, rfl, hextension, hfind⟩
      exact ⟨_, List.mem_filter.mpr ⟨hfound, (congrArg _ (hdown below content)).trans hlimit⟩,
        hdown below content⟩

end FilePattern
end DocTools
