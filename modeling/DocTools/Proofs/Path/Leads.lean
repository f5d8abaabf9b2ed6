import DocTools.Proofs.Path.Names
import DocTools.Text.Utf8
import Mathlib.Data.List.DropRight

/-! # Paths that lead straight down

A path without `.` and `..` among its components leads from the top of a tree along the names that it
is made of. The main statements: `pointsAt_join`, by which a path below a directory leads below the
location of the directory, and `PointsAt.parent?`, by which the parent of a path is a shorter path to
the location above. -/
namespace DocTools.Path
set_option autoImplicit false

/-! ## Where paths lead -/

structure Direct (path : Path) : Prop where
  here_not_mem : Component.here ∉ path.components
  up_not_mem : Component.up ∉ path.components

instance (path : Path) : Decidable (Direct path) :=
  decidable_of_iff (Component.here ∉ path.components ∧ Component.up ∉ path.components)
    ⟨fun h => ⟨h.1, h.2⟩, fun h => ⟨h.1, h.2⟩⟩

/-- The location that a path leads to. An absolute path leads to none in the tree. -/
def place? (path : Path) : Option Location :=
  if path.isAbsolute then none else some (resolve path)

/-- The components of a path are the names of a location. -/
structure LeadsTo (path : Path) (location : Location) : Prop where
  relative : path.isAbsolute = false
  components_eq : path.components = location.map Component.name

/-- A path leads to a location and ends with its last name, but for slashes. -/
structure PointsAt (path : Path) (location : Location) : Prop extends LeadsTo path location where
  last_eq : path.names.getLast? = location.getLast?

variable {path : Path} {location : Location}

theorem root_mem_components_iff : Component.root ∈ path.components ↔ path.isAbsolute := by
  rw [components_eq_append, List.mem_append]
  constructor
  · rintro (hlead | hname)
    · split at hlead
      · assumption
      · split at hlead <;> simp at hlead
    · obtain ⟨name, -, hname⟩ := List.mem_filterMap.mp hname
      unfold Component.ofName? at hname
      split at hname
      · cases hname
      · split at hname <;> cases hname
  · intro habs
    rw [if_pos habs]
    exact .inl List.mem_cons_self

theorem LeadsTo.resolve_eq (h : LeadsTo path location) : resolve path = location := by
  rw [resolve, h.components_eq, foldl_follow_names, List.nil_append]

theorem place?_of_relative (h : path.isAbsolute = false) : path.place? = some (resolve path) := by
  rw [place?, h, if_neg Bool.false_ne_true]

theorem LeadsTo.place?_eq (h : LeadsTo path location) : path.place? = some location := by
  rw [place?_of_relative h.relative, h.resolve_eq]

theorem LeadsTo.head_ne (h : LeadsTo path location) : path.names.head? ≠ some ['.'] := by
  intro hhead
  have hcomponents := h.components_eq
  rw [components_eq_append, h.relative, if_neg Bool.false_ne_true, if_pos hhead] at hcomponents
  have hmem : Component.here ∈ location.map Component.name := hcomponents ▸ List.mem_cons_self
  obtain ⟨_, -, hname⟩ := List.mem_map.mp hmem
  cases hname

theorem LeadsTo.filterMap_names (h : LeadsTo path location) :
    path.names.filterMap Component.ofName? = location.map Component.name := by
  rw [← components_of_head h.relative h.head_ne, h.components_eq]

theorem exists_map_name {components : List Component} (h : ∀ c ∈ components, ∃ name, c = .name name) :
    ∃ location : Location, components = location.map Component.name := by
  induction components with
  | nil => exact ⟨[], rfl⟩
  | cons c components ih =>
    obtain ⟨name, rfl⟩ := h c List.mem_cons_self
    obtain ⟨location, rfl⟩ := ih fun d hd => h d (List.mem_cons_of_mem _ hd)
    exact ⟨name :: location, rfl⟩

theorem Direct.leadsTo (h : Direct path) (hrelative : path.isAbsolute = false) :
    LeadsTo path (resolve path) := by
  have hhead : path.names.head? ≠ some ['.'] := by
    intro hhead
    apply h.here_not_mem
    rw [components_eq_append, hrelative, if_neg Bool.false_ne_true, if_pos hhead]
    exact List.mem_cons_self
  have hname : ∀ c ∈ path.components, ∃ name, c = .name name := by
    intro c hc
    have hup : c ≠ .up := fun heq => h.up_not_mem (heq ▸ hc)
    rw [components_of_head hrelative hhead] at hc
    obtain ⟨name, -, hname⟩ := List.mem_filterMap.mp hc
    unfold Component.ofName? at hname
    split at hname
    · cases hname
    · split at hname
      · exact absurd (Option.some.inj hname).symm hup
      · exact ⟨name, (Option.some.inj hname).symm⟩
  obtain ⟨location, hlocation⟩ := exists_map_name hname
  have hleads : LeadsTo path location := ⟨hrelative, hlocation⟩
  rwa [hleads.resolve_eq]

theorem PointsAt.eq_nil (h : PointsAt path []) : path = [] := by
  by_contra hne
  have hlast := List.getLast?_eq_none_iff.mp h.last_eq
  exact names_ne_nil hne h.relative hlast

theorem PointsAt.ne_nil {last : Text} {front : Location} (h : PointsAt path (front ++ [last])) :
    path ≠ [] := by
  rintro rfl
  have hlast := h.last_eq
  rw [List.getLast?_concat] at hlast
  cases hlast

/-- A path below a directory leads below the location that the directory leads to. -/
theorem pointsAt_join {dir : Path} {base below : Location} (h : LeadsTo dir base) (hdir : dir ≠ [])
    (hbelow : below ≠ []) (hnames : ∀ name ∈ below, IsEntryName name) :
    PointsAt (join dir (FileTree.pathOf below)) (base ++ below) := by
  have hcont := continues_join hdir (isAbsolute_pathOf hnames)
  rw [names_pathOf hnames] at hcont
  refine ⟨⟨?_, ?_⟩, ?_⟩
  · rw [hcont.isAbsolute_eq, h.relative]
  · rw [hcont.components_eq hdir, h.components_eq, filterMap_ofName? hnames, List.map_append]
  · rw [hcont.names_eq, List.getLast?_append_of_ne_nil _ hbelow, List.getLast?_append_of_ne_nil _ hbelow]

/-! ## Pieces between slashes -/

theorem filterMap_pieces_eq_iff {pieces : List Text} :
    (pieces.filter fun piece => !piece.isEmpty).filterMap Component.ofName? =
        location.map Component.name ↔
      (pieces.filter fun piece => !isIdle piece) = location ∧ ['.', '.'] ∉ location := by
  induction pieces generalizing location with
  | nil => cases location <;> simp
  | cons piece pieces ih =>
    by_cases hidle : isIdle piece
    · have hskip : ((piece :: pieces).filter fun p => !p.isEmpty).filterMap Component.ofName? =
          (pieces.filter fun p => !p.isEmpty).filterMap Component.ofName? := by
        rcases Bool.or_eq_true_iff.mp hidle with hnil | hhere
        · rw [List.filter_cons_of_neg (by rw [hnil]; decide)]
        · rw [eq_of_beq hhere]
          rfl
      rw [hskip, List.filter_cons_of_neg (by rw [hidle]; decide), ih]
    · obtain ⟨hnil, hhere⟩ := Bool.or_eq_false_iff.mp (Bool.eq_false_iff.mpr hidle)
      have hhere : piece ≠ ['.'] := ne_of_beq_false hhere
      rw [List.filter_cons_of_pos (by rw [hnil]; rfl), List.filter_cons_of_pos (by simpa using hidle)]
      by_cases hup : piece = ['.', '.']
      · subst hup
        rw [List.filterMap_cons_some (show Component.ofName? ['.', '.'] = some .up from rfl)]
        constructor
        · intro h
          cases location with
          | nil => cases h
          | cons name location => cases (List.cons.inj h).1
        · rintro ⟨rfl, hno⟩
          exact absurd List.mem_cons_self hno
      · have hname : Component.ofName? piece = some (.name piece) := by
          rw [Component.ofName?, if_neg hhere, if_neg hup]
        rw [List.filterMap_cons_some hname]
        cases location with
        | nil => exact ⟨fun h => absurd h (List.cons_ne_nil _ _), fun h => absurd h.1 (List.cons_ne_nil _ _)⟩
        | cons name location =>
          rw [List.map_cons, List.cons.injEq, ih, Component.name.injEq, List.cons.injEq, List.mem_cons,
            not_or, and_assoc]
          constructor
          · rintro ⟨rfl, hrest, hno⟩
            exact ⟨rfl, hrest, Ne.symm hup, hno⟩
          · rintro ⟨rfl, hrest, -, hno⟩
            exact ⟨rfl, hrest, hno⟩

theorem filter_rdropWhile {α : Type} (p : α → Bool) (l : List α) :
    (l.rdropWhile p).filter (fun a => !p a) = l.filter fun a => !p a := by
  induction l using List.reverseRecOn with
  | nil => rfl
  | append_singleton l a ih =>
    rw [List.rdropWhile_concat]
    split
    · rename_i ha
      rw [ih, List.filter_append, List.filter_cons_of_neg (by rw [ha]; decide), List.filter_nil,
        List.append_nil]
    · rfl

theorem join_prefix (glue : Text) {pieces more : List Text} (h : pieces <+: more) :
    Text.join glue pieces <+: Text.join glue more := by
  obtain ⟨rest, rfl⟩ := h
  induction pieces with
  | nil => exact List.nil_prefix
  | cons piece pieces ih =>
    cases pieces with
    | nil =>
      cases rest with
      | nil => exact List.prefix_rfl
      | cons next rest =>
        rw [List.singleton_append, Text.join_cons _ _ (List.cons_ne_nil next rest), List.append_assoc]
        exact List.prefix_append _ _
    | cons next pieces =>
      have hmore : next :: pieces ++ rest ≠ [] := List.cons_ne_nil _ _
      rw [List.cons_append, Text.join_cons _ _ hmore, Text.join_cons _ _ (List.cons_ne_nil next pieces)]
      exact (List.prefix_append_right_inj _).mpr ih

theorem isAbsolute_eq_false_iff {path : Path} (hne : path ≠ []) :
    path.isAbsolute = false ↔ (Text.splitOn '/' path).head? ≠ some [] := by
  obtain ⟨c, rest, rfl⟩ := List.exists_cons_of_ne_nil hne
  by_cases hc : c = '/'
  · subst hc
    rw [Text.splitOn_cons_mark]
    exact ⟨fun h => (nomatch h), fun h => absurd rfl h⟩
  · obtain ⟨piece, pieces, hpieces⟩ := Text.exists_splitOn_eq_cons '/' rest
    rw [Text.splitOn_cons_of_ne hc hpieces]
    exact ⟨fun _ h => (nomatch h), fun _ => beq_false_of_ne fun h => hc (Option.some.inj h)⟩

theorem head?_eq_of_begins {α : Type} {l m : List α} (h : l <+: m) (hne : l ≠ []) : l.head? = m.head? := by
  obtain ⟨rest, rfl⟩ := h
  rw [List.head?_append_of_ne_nil l hne]

theorem LeadsTo.filter_splitOn (h : LeadsTo path location) :
    ((Text.splitOn '/' path).filter fun piece => !isIdle piece) = location ∧ ['.', '.'] ∉ location :=
  filterMap_pieces_eq_iff.mp h.filterMap_names

theorem getLast?_filter_of_last {pieces : List Text} {last : Text} (h : pieces.getLast? = some last)
    {p : Text → Bool} (hp : p last) : (pieces.filter p).getLast? = some last := by
  obtain ⟨front, rfl⟩ := List.getLast?_eq_some_iff.mp h
  rw [List.filter_append, List.filter_cons_of_pos hp, List.filter_nil, List.getLast?_concat]

/-- A path made of the first pieces of another one, up to a name, leads along the names among them. -/
theorem LeadsTo.pointsAt_join (h : LeadsTo path location) {pieces : List Text}
    (hpieces : pieces <+: Text.splitOn '/' path) {last : Text} (hlast : pieces.getLast? = some last)
    (hidle : isIdle last = false) :
    PointsAt (Text.join ['/'] pieces) (pieces.filter fun piece => !isIdle piece) := by
  have hne : pieces ≠ [] := by
    rintro rfl
    cases hlast
  have hnil : last ≠ [] := by
    rintro rfl
    cases hidle
  have hslash : ∀ piece ∈ pieces, '/' ∉ piece :=
    fun piece hpiece => Text.not_mem_of_mem_splitOn (hpieces.subset hpiece)
  have hsplit := Text.splitOn_join hne hslash
  have hnames : names (Text.join ['/'] pieces) = pieces.filter fun piece => !piece.isEmpty := by
    rw [names, hsplit]
  obtain ⟨hlocation, hup⟩ := h.filter_splitOn
  have hrelative : isAbsolute (Text.join ['/'] pieces) = false := by
    by_cases hjoin : Text.join ['/'] pieces = []
    · rw [hjoin]
      rfl
    · have hpath : path ≠ [] := by
        rintro rfl
        have hone := List.prefix_cons_iff.mp hpieces
        rcases hone with rfl | ⟨more, rfl, hmore⟩
        · exact hne rfl
        · rw [List.prefix_nil.mp hmore] at hlast
          exact hnil (Option.some.inj hlast).symm
      rw [isAbsolute_eq_false_iff hjoin, hsplit, head?_eq_of_begins hpieces hne]
      exact (isAbsolute_eq_false_iff hpath).mp h.relative
  have hhead : (names (Text.join ['/'] pieces)).head? ≠ some ['.'] := by
    rw [hnames]
    by_cases hempty : (pieces.filter fun piece => !piece.isEmpty) = []
    · rw [hempty]
      exact (Option.some_ne_none ['.']).symm
    · rw [head?_eq_of_begins (hpieces.filter _) hempty]
      exact h.head_ne
  refine ⟨⟨hrelative, ?_⟩, ?_⟩
  · rw [components_of_head hrelative hhead, hnames, filterMap_pieces_eq_iff]
    exact ⟨rfl, fun hmem => hup (hlocation ▸ (hpieces.filter _).subset hmem)⟩
  · rw [hnames, getLast?_filter_of_last hlast (by simpa using hnil),
      getLast?_filter_of_last hlast (by rw [hidle]; rfl)]

/-! ## Parents -/

theorem parent?_of_relative {path : Path} (hrelative : path.isAbsolute = false)
    (hhead : path.names.head? ≠ some ['.']) : path.parent? =
      match ((Text.splitOn '/' path).rdropWhile isIdle).reverse with
      | _ :: before => some (Text.join ['/'] (before.reverse.rdropWhile isIdle))
      | [] => none := by
  have hreverse (pieces : List Text) :
      (pieces.rdropWhile isIdle).reverse = pieces.reverse.dropWhile isIdle := List.reverse_reverse _
  unfold parent?
  split
  rename_i lead body hlead
  split at hlead
  · cases hrelative
  · exact absurd rfl hhead
  · rename_i rest
    have hnames := names_append_slash ['.'] rest
    rw [List.singleton_append] at hnames
    exact absurd (by rw [hnames]; rfl) hhead
  · obtain ⟨rfl, rfl⟩ := Prod.mk.inj hlead
    rw [hreverse]
    cases (Text.splitOn '/' path).reverse.dropWhile isIdle with
    | nil => rfl
    | cons last before =>
      show some ([] ++ Text.join ['/'] (before.dropWhile isIdle).reverse) =
        some (Text.join ['/'] (before.reverse.reverse.dropWhile isIdle).reverse)
      rw [List.reverse_reverse]
      rfl

theorem not_idle_of_last (pieces : List Text) :
    ∀ piece ∈ (pieces.rdropWhile isIdle).getLast?, isIdle piece = false := by
  intro piece hpiece
  obtain ⟨front, hfront⟩ := List.getLast?_eq_some_iff.mp hpiece
  have hnot := List.rdropWhile_last_not isIdle pieces (by rw [hfront]; simp)
  simpa [hfront] using hnot

/-- Without idle pieces at the end, pieces end with the last that is not idle. -/
theorem exists_kept {pieces front : List Text} {last : Text}
    (h : (pieces.filter fun piece => !isIdle piece) = front ++ [last]) : ∃ kept,
    pieces.rdropWhile isIdle = kept ++ [last] ∧
      ((kept.rdropWhile isIdle).filter fun piece => !isIdle piece) = front ∧
      kept.rdropWhile isIdle <+: pieces := by
  rw [← filter_rdropWhile] at h
  have hbegins := List.rdropWhile_prefix isIdle pieces
  rcases List.eq_nil_or_concat' (pieces.rdropWhile isIdle) with hnil | ⟨kept, final, hkept⟩
  · rw [hnil] at h
    exact absurd h.symm (List.concat_ne_nil last front)
  · have hfinal : isIdle final = false :=
      not_idle_of_last pieces final (by rw [hkept]; exact List.getLast?_concat)
    rw [hkept, List.filter_append, List.filter_cons_of_pos (by rw [hfinal]; rfl), List.filter_nil] at h
    obtain ⟨hfront, hlast⟩ := List.append_inj' h rfl
    rw [hkept] at hbegins
    refine ⟨kept, by rw [hkept, hlast], by rw [filter_rdropWhile, hfront], ?_⟩
    exact (List.rdropWhile_prefix _ _).trans ((List.prefix_append _ _).trans hbegins)

/-- The parent of a path leads to the location above, and is what the path begins with. -/
theorem PointsAt.parent? {front : Location} {last : Text} (h : PointsAt path (front ++ [last])) :
    ∃ parent, path.parent? = some parent ∧ PointsAt parent front ∧ parent <+: path := by
  obtain ⟨hsteps, -⟩ := h.filter_splitOn
  obtain ⟨kept, hkept, hfront, habove⟩ := exists_kept hsteps
  refine ⟨Text.join ['/'] (kept.rdropWhile isIdle), ?_, ?_, ?_⟩
  · rw [parent?_of_relative h.relative h.head_ne, hkept, List.reverse_append]
    show some (Text.join ['/'] (kept.reverse.reverse.rdropWhile isIdle)) = _
    rw [List.reverse_reverse]
  · rw [← hfront]
    rcases List.eq_nil_or_concat' (kept.rdropWhile isIdle) with hnil | ⟨more, above, hlast⟩
    · rw [hnil]
      exact ⟨⟨rfl, rfl⟩, rfl⟩
    · have hat : (kept.rdropWhile isIdle).getLast? = some above := by rw [hlast, List.getLast?_concat]
      exact h.pointsAt_join habove hat (not_idle_of_last kept above hat)
  · have hjoin := join_prefix ['/'] habove
    rwa [Text.join_splitOn] at hjoin

end DocTools.Path
