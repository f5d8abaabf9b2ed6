import DocTools.Proofs.FilePattern.Listed
import DocTools.Proofs.FilePattern.Ways

/-! # Files that are listed once

A listing has a file once for each way through the pattern that leads to it, in the order of paths. So
every file is listed once, and the paths are strictly increasing, exactly when no two ways lead to one
file. The main statements: `glob_by_ways`, `ListsByWays.once_iff` for this, and `Simple.oneWay`, by
which patterns with at most one `**` and without dots among what their wildcards stand for have this
in every tree. -/
namespace DocTools

/-! ## Strict order -/

namespace Path
set_option autoImplicit false

/-- `p` stands before `q` in the order by components, and not level with it. -/
def Before (p q : Path) : Prop := le p q ∧ ¬le q p

theorem rank_injective : Function.Injective Component.rank := by
  intro a b h
  have hchar : Function.Injective Char.toNat := fun c d hcd => Char.ext (UInt32.toNat_inj.mp hcd)
  cases a <;> cases b <;> simp only [Component.rank, List.cons.injEq] at h
  case name.name text other => rw [List.map_injective_iff.mpr hchar h.2]
  all_goals first | rfl | exact absurd h.1 (by decide)

theorem components_eq_of_le_of_le {a b : Path} (h : le a b) (h' : le b a) :
    a.components = b.components := by
  unfold le notAfter at h h'
  rw [Bool.not_eq_true', decide_eq_false_iff_not, List.not_lt] at h h'
  exact List.map_injective_iff.mpr rank_injective (List.le_antisymm h h')

/-- Paths in order that lead to different places are in strict order. -/
theorem pairwise_before {paths : List Path} (hsorted : paths.Pairwise fun a b => le a b)
    (honce : (paths.map resolve).Nodup) : paths.Pairwise Before := by
  have hplaces : paths.Pairwise fun a b => resolve a ≠ resolve b := List.pairwise_map.mp honce
  refine hsorted.imp₂ (fun a b hle hne => ⟨hle, fun hback => hne ?_⟩) hplaces
  rw [resolve, resolve, components_eq_of_le_of_le hle hback]

end Path

namespace FilePattern
set_option autoImplicit false

open DocTools.Path (resolve)

variable {tree : FileTree} {dir : Path} {pattern : Text}

/-! ## Ways below a directory -/

/-- A way through a pattern that leads from a directory to a file, by a path that is short enough to
be asked for. -/
structure Way (tree : FileTree) (dir : Path) (pattern : Text) (way : List (List Text))
    (location : Location) : Prop where
  reads : ∃ q, ofText pattern = .ok q ∧ Reads q.segments way
  not_slash : Path.endsInSlash ('/' :: pattern) = false
  leads : ∃ spot, walk tree .top (Text.splitOn '/' (trimEnd dir) ++ way.flatten) = some spot ∧
    spot.location = location ∧ spot.entry.isDirectory = false ∧ FileTree.withinLimit spot.path

/-- In order, a file once for each way that leads to it. -/
structure ListsByWays (tree : FileTree) (dir : Path) (pattern : Text) (paths : List Path) : Prop where
  sorted : paths.Pairwise fun a b => Path.le a b
  ways : ∃ found : List (List (List Text) × Location), found.Nodup ∧
    (∀ way location, (way, location) ∈ found ↔ Way tree dir pattern way location) ∧
    (paths.map resolve).Perm (found.map Prod.snd)

/-- In strict order, every file once. -/
structure ListsOnce (paths : List Path) : Prop where
  increasing : paths.Pairwise Path.Before
  once : (paths.map resolve).Nodup

/-- No two ways lead to one file. -/
def OneWay (tree : FileTree) (dir : Path) (pattern : Text) : Prop :=
  ∀ way other location, Way tree dir pattern way location → Way tree dir pattern other location →
    way = other

theorem ListsByWays.once_iff {paths : List Path} (h : ListsByWays tree dir pattern paths) :
    ListsOnce paths ↔ OneWay tree dir pattern := by
  obtain ⟨found, hnodup, hmem, hperm⟩ := h.ways
  constructor
  · intro honce way other location hway hother
    have hplaces := hperm.nodup_iff.mp honce.once
    have hsame := List.inj_on_of_nodup_map hplaces ((hmem _ _).mpr hway) ((hmem _ _).mpr hother) rfl
    exact (Prod.mk.inj hsame).1
  · intro hone
    have hplaces : (found.map Prod.snd).Nodup := by
      refine hnodup.map_on fun a ha b hb hab => ?_
      obtain ⟨way, location⟩ := a
      obtain ⟨other, location'⟩ := b
      obtain rfl : location = location' := hab
      rw [hone way other location ((hmem _ _).mp ha) ((hmem _ _).mp hb)]
    have honce := hperm.nodup_iff.mpr hplaces
    exact ⟨Path.pairwise_before h.sorted honce, honce⟩

/-! ## The listing -/

/-- What a way leads to. -/
def placeOf (tree : FileTree) (spot : Spot) (way : List (List Text)) : Location :=
  ((walk tree spot way.flatten).map (·.location)).getD []

theorem placeOf_of_walk {spot t : Spot} {way : List (List Text)}
    (h : walk tree spot way.flatten = some t) : placeOf tree spot way = t.location := by
  rw [placeOf, h]
  rfl

theorem map_resolve_eq {spot : Spot} {found : List Spot} {ways : List (List (List Text))}
    (h : List.Forall₂ (Ends tree spot) found ways) :
    found.map (fun s => resolve s.path) = ways.map (placeOf tree spot) := by
  rw [← List.forall₂_eq_eq_eq, List.forall₂_map_left_iff, List.forall₂_map_right_iff]
  refine h.imp fun s way hends => ?_
  obtain ⟨hsound, -, t, ht, halike⟩ := hends
  rw [← hsound.location_eq, halike.location_eq, placeOf_of_walk ht]

/-- The files that a search finds along paths that are short enough to be asked for. -/
def filesFrom (tree : FileTree) (segments : List Segment) (spot : Spot) : List Spot :=
  ((search tree segments spot).filter fun s => !s.entry.isDirectory).filter
    fun s => FileTree.withinLimit s.path

/-- A way leads along such a path. -/
def isShort (tree : FileTree) (spot : Spot) (way : List (List Text)) : Bool :=
  (walk tree spot way.flatten).any fun t => FileTree.withinLimit t.path

section
variable {segments : List Segment} {spot : Spot} {ways : List (List (List Text))}

/-- The files along short paths are what the short ways lead to. -/
theorem Ways.found_short (h : Ways tree segments spot ways) :
    List.Forall₂ (Ends tree spot) (filesFrom tree segments spot)
      (ways.filter (isShort tree spot)) := by
  refine List.rel_filter (fun found way hends => ?_) h.found
  obtain ⟨t, ht, hpath⟩ := hends.exists_path_eq
  show FileTree.withinLimit found.path ↔ isShort tree spot way
  rw [isShort, ht, Option.any_some, hpath]

theorem Ways.mem_short_iff (h : Ways tree segments spot ways) (way : List (List Text)) :
    way ∈ ways.filter (isShort tree spot) ↔ Reads segments way ∧
      ∃ t, walk tree spot way.flatten = some t ∧ t.entry.isDirectory = false ∧
        FileTree.withinLimit t.path := by
  rw [List.mem_filter, h.mem]
  constructor
  · rintro ⟨⟨hreads, t, ht, hfile⟩, hshort⟩
    rw [isShort, ht, Option.any_some] at hshort
    exact ⟨hreads, t, ht, hfile, hshort⟩
  · rintro ⟨hreads, t, ht, hfile, hshort⟩
    refine ⟨⟨hreads, t, ht, hfile⟩, ?_⟩
    rw [isShort, ht, Option.any_some, hshort]

end

theorem search_below (tree : FileTree) (dir : Path) (segments : List Segment) :
    search tree ((Text.splitOn '/' (trimEnd dir)).map literal ++ segments) .top =
      (walk tree .top (Text.splitOn '/' (trimEnd dir))).toList.flatMap (search tree segments) :=
  search_literals tree _ segments .top

/-- The files that are found below a directory, and the ways that lead to them. -/
theorem exists_found (tree : FileTree) (dir : Path) {q : FilePattern} (hq : ofText pattern = .ok q)
    (hslash : Path.endsInSlash ('/' :: pattern) = false) :
    ∃ found : List (List (List Text) × Location), found.Nodup ∧
      (∀ way location, (way, location) ∈ found ↔ Way tree dir pattern way location) ∧
      (filesFrom tree ((Text.splitOn '/' (trimEnd dir)).map literal ++ q.segments) .top).map
        (fun s => resolve s.path) = found.map Prod.snd := by
  rw [filesFrom, search_below]
  cases hwalk : walk tree .top (Text.splitOn '/' (trimEnd dir)) with
  | none =>
    refine ⟨[], List.nodup_nil, fun way location => ⟨fun h => (nomatch h), fun h => ?_⟩, rfl⟩
    obtain ⟨spot, hspot, -⟩ := h.leads
    rw [walk_append, hwalk] at hspot
    cases hspot
  | some spot =>
    obtain ⟨ways, hways⟩ := exists_ways tree q.segments (sound_top.of_walk hwalk)
    refine ⟨(ways.filter (isShort tree spot)).map fun way => (way, placeOf tree spot way), ?_,
      fun way location => ?_, ?_⟩
    · exact (hways.nodup.filter _).map fun _ _ hsame => (Prod.mk.inj hsame).1
    · rw [List.mem_map]
      constructor
      · rintro ⟨way, hway, hsame⟩
        obtain ⟨rfl, rfl⟩ := Prod.mk.inj hsame
        obtain ⟨hreads, t, ht, hfile, hshort⟩ := (hways.mem_short_iff way).mp hway
        refine ⟨⟨q, hq, hreads⟩, hslash, t, ?_, (placeOf_of_walk ht).symm, hfile, hshort⟩
        rw [walk_append, hwalk, Option.bind_some, ht]
      · rintro ⟨⟨q', hq', hreads⟩, -, t, ht, rfl, hfile, hshort⟩
        obtain rfl : q = q' := Except.ok.inj (hq.symm.trans hq')
        rw [walk_append, hwalk, Option.bind_some] at ht
        have hway := (hways.mem_short_iff way).mpr ⟨hreads, t, ht, hfile, hshort⟩
        exact ⟨way, hway, by rw [placeOf_of_walk ht]⟩
    · rw [Option.toList_some, List.flatMap_singleton, List.map_map]
      exact map_resolve_eq hways.found_short

/-- The listing of a valid pattern, in any tree and below any directory. -/
theorem glob_by_ways (tree : FileTree) (dir : Path) {q : FilePattern} (hq : ofText pattern = .ok q) :
    ∃ paths, tree.glob dir pattern = .ok paths ∧ ListsByWays tree dir pattern paths := by
  refine ⟨_, glob_below tree (ofText_below dir hq), ?_⟩
  unfold files
  cases hslash : Path.endsInSlash ('/' :: pattern) with
  | true =>
    refine ⟨.nil, [], List.nodup_nil, fun way location => ⟨fun h => (nomatch h), fun h => ?_⟩, .nil⟩
    rw [h.not_slash] at hslash
    cases hslash
  | false =>
    rw [if_neg Bool.false_ne_true]
    obtain ⟨found, hnodup, hmem, hfound⟩ := exists_found tree dir hq hslash
    refine ⟨Path.pairwise_sort _, found, hnodup, hmem, ?_⟩
    refine ((Path.perm_sort _).map resolve).trans (.of_eq ?_)
    rw [List.filter_map, List.map_map]
    exact hfound

/-! ## Patterns through which a file has one way -/

/-- Segments with `**` at most once, of which none stands for `..`, and for `.` only `.` itself. -/
structure Simple (segments : List Segment) : Prop where
  deep : segments.count .deep ≤ 1
  up : ∀ segment ∈ segments, ¬StandsFor segment ['.', '.']
  here : ∀ segment ∈ segments, StandsFor segment ['.'] → segment = [.char '.']

instance (segments : List Segment) : Decidable (Simple segments) :=
  decidable_of_iff (segments.count .deep ≤ 1 ∧ (∀ segment ∈ segments, ¬StandsFor segment ['.', '.']) ∧
      ∀ segment ∈ segments, StandsFor segment ['.'] → segment = [.char '.'])
    ⟨fun h => ⟨h.1, h.2.1, h.2.2⟩, fun h => ⟨h.deep, h.up, h.here⟩⟩

/-- The names that are not idle. -/
def kept (names : List Text) : List Text := names.filter fun name => !Path.isIdle name

theorem kept_append (names more : List Text) : kept (names ++ more) = kept names ++ kept more :=
  List.filter_append ..

theorem kept_of_isEntryName {names : List Text} (h : ∀ name ∈ names, IsEntryName name) :
    kept names = names := by
  rw [kept, List.filter_eq_self]
  intro name hname
  have hne := (h name hname).ne_nil
  have hhere := (h name hname).ne_here
  simp [Path.isIdle, hne, hhere]

/-- A walk without `..` goes down along the names that are not idle. -/
theorem location_of_walk {spot last : Spot} {names : List Text} (hup : ['.', '.'] ∉ names)
    (h : walk tree spot names = some last) : last.location = spot.location ++ kept names := by
  induction names generalizing spot with
  | nil =>
    cases h
    exact (List.append_nil _).symm
  | cons name names ih =>
    rw [walk_cons, Option.bind_eq_some_iff] at h
    obtain ⟨next, hnext, h⟩ := h
    rw [List.mem_cons, not_or] at hup
    have hrest := ih hup.2 h
    obtain ⟨-, ⟨rfl, rfl⟩ | ⟨rfl, -, rfl⟩ | ⟨rfl, -, -⟩ | ⟨hname, entry, -, rfl⟩⟩ :=
      Spot.lookUp?_cases hnext
    · exact hrest
    · exact hrest
    · exact absurd rfl hup.1
    · have hkept : kept (name :: names) = name :: kept names := by
        rw [← List.singleton_append, kept_append,
          kept_of_isEntryName fun n hn => List.mem_singleton.mp hn ▸ hname]
        rfl
      rw [hrest, hkept, List.append_assoc]
      rfl

section
variable {segment : Segment} {segments : List Segment} {way other : List (List Text)}

theorem Simple.tail (h : Simple (segment :: segments)) : Simple segments where
  deep := (List.count_le_count_cons).trans h.deep
  up s hs := h.up s (List.mem_cons_of_mem _ hs)
  here s hs := h.here s (List.mem_cons_of_mem _ hs)

theorem Simple.up_not_mem (h : Simple segments) (hway : Reads segments way) :
    ['.', '.'] ∉ way.flatten := by
  induction hway with
  | done => exact List.not_mem_nil
  | next hbegins _ ih =>
    rw [List.flatten_cons, List.mem_append, not_or]
    cases hbegins with
    | one _ stands =>
      refine ⟨fun hmem => ?_, ih h.tail⟩
      rw [← List.mem_singleton.mp hmem] at stands
      exact h.up _ List.mem_cons_self stands
    | deep proper _ => exact ⟨fun hmem => (proper _ hmem).ne_up rfl, ih h.tail.tail⟩

/-- What a segment stands for is idle always or never, and an idle name is the only one. -/
theorem eq_of_isIdle (hhere : StandsFor segment ['.'] → segment = [.char '.']) {name name' : Text}
    (h : StandsFor segment name) (h' : StandsFor segment name') (hidle : Path.isIdle name) :
    name' = name := by
  rcases Bool.or_eq_true_iff.mp hidle with hnil | hdot
  · obtain rfl := List.isEmpty_iff.mp hnil
    have hsegment : segment = [] := List.head?_eq_none_iff.mp (h.2 List.mem_cons_self)
    rw [hsegment] at h'
    exact (standsFor_of_plainName? rfl).mp h'
  · obtain rfl := eq_of_beq hdot
    rw [hhere h] at h'
    exact (standsFor_of_plainName? rfl).mp h'

theorem kept_cons_cases (hhere : StandsFor segment ['.'] → segment = [.char '.']) {name name' : Text}
    (h : StandsFor segment name) (h' : StandsFor segment name') :
    (name' = name ∧ kept [name] = []) ∨ (kept [name] = [name] ∧ kept [name'] = [name']) := by
  by_cases hidle : Path.isIdle name
  · exact .inl ⟨eq_of_isIdle hhere h h' hidle, List.filter_cons_of_neg (by simpa using hidle)⟩
  · have hidle' : ¬Path.isIdle name' := fun hi => hidle (eq_of_isIdle hhere h' h hi ▸ hi)
    exact .inr ⟨List.filter_cons_of_pos (by simpa using hidle),
      List.filter_cons_of_pos (by simpa using hidle')⟩

theorem reads_nil_iff : Reads [] way ↔ way = [] := by
  constructor
  · intro h
    cases h with
    | done => rfl
    | next hbegins _ => cases hbegins
  · rintro rfl
    exact .done

/-- Without `**`, all ways go down by the same number of names. -/
theorem Simple.length_kept (h : Simple segments) (hnone : segments.count .deep = 0)
    (hway : Reads segments way) (hother : Reads segments other) :
    (kept way.flatten).length = (kept other.flatten).length := by
  induction hway generalizing other with
  | done => rw [reads_nil_iff.mp hother]
  | next hbegins hmore ih =>
    cases hbegins with
    | one hne stands =>
      cases hother with
      | next hbegins' hmore' =>
        obtain ⟨rfl, name', rfl, stands'⟩ := hbegins'.one_cases hne
        have hrest := ih h.tail (List.count_eq_zero.mpr fun hmem =>
          List.count_eq_zero.mp hnone (List.mem_cons_of_mem _ hmem)) hmore'
        rw [List.flatten_cons, List.flatten_cons, kept_append, kept_append, List.length_append,
          List.length_append, hrest]
        obtain ⟨rfl, -⟩ | ⟨hname, hname'⟩ :=
          kept_cons_cases (h.here _ List.mem_cons_self) stands stands'
        · rfl
        · rw [hname, hname']
          rfl
    | deep _ _ => exact absurd List.mem_cons_self (List.count_eq_zero.mp hnone)

/-- With `**` at most once, a way is known by the names that it goes down by: those in front of `**`
are told from the left, and those behind it are of a known number. -/
theorem Simple.way_unique (h : Simple segments) (hway : Reads segments way)
    (hother : Reads segments other) (hkept : kept way.flatten = kept other.flatten) : way = other := by
  induction hway generalizing other with
  | done => exact (reads_nil_iff.mp hother).symm
  | @next _ rest _ _ hbegins hmore ih =>
    cases hother with
    | done => cases hbegins
    | next hbegins' hmore' =>
      rw [List.flatten_cons, List.flatten_cons, kept_append, kept_append] at hkept
      cases hbegins with
      | one hne stands =>
        obtain ⟨rfl, name', rfl, stands'⟩ := hbegins'.one_cases hne
        obtain ⟨rfl, -⟩ | ⟨hname, hname'⟩ :=
          kept_cons_cases (h.here _ List.mem_cons_self) stands stands'
        · rw [ih h.tail hmore' (List.append_cancel_left hkept)]
        · rw [hname, hname'] at hkept
          obtain ⟨rfl, hrest⟩ := List.cons.inj hkept
          rw [ih h.tail hmore' hrest]
      | deep proper _ =>
        cases hbegins' with
        | one hne _ => exact absurd rfl hne
        | deep proper' _ =>
          have hnone : rest.count .deep = 0 := by
            have hdeep := h.deep
            rw [List.count_cons_self] at hdeep
            exact Nat.le_zero.mp ((List.count_le_count_cons).trans (Nat.le_of_succ_le_succ hdeep))
          have hrest := h.tail.tail
          rw [kept_of_isEntryName proper, kept_of_isEntryName proper'] at hkept
          obtain ⟨hnames, htail⟩ := List.append_inj' hkept (hrest.length_kept hnone hmore hmore')
          rw [hnames, ih hrest hmore' htail]

end

/-- Through a simple pattern no two ways lead to one file, whatever the tree holds. -/
theorem Simple.oneWay {q : FilePattern} (h : Simple q.segments) (hq : ofText pattern = .ok q)
    (tree : FileTree) (dir : Path) : OneWay tree dir pattern := by
  intro way other location hway hother
  obtain ⟨q', hq', hreads⟩ := hway.reads
  obtain ⟨q'', hq'', hreads'⟩ := hother.reads
  obtain rfl : q = q' := Except.ok.inj (hq.symm.trans hq')
  obtain rfl : q = q'' := Except.ok.inj (hq.symm.trans hq'')
  obtain ⟨spot, hspot, hlocation, -⟩ := hway.leads
  obtain ⟨spot', hspot', hlocation', -⟩ := hother.leads
  rw [walk_append, Option.bind_eq_some_iff] at hspot hspot'
  obtain ⟨base, hbase, hspot⟩ := hspot
  obtain ⟨base', hbase', hspot'⟩ := hspot'
  obtain rfl : base = base' := Option.some.inj (hbase.symm.trans hbase')
  have hgone := location_of_walk (h.up_not_mem hreads) hspot
  have hgone' := location_of_walk (h.up_not_mem hreads') hspot'
  rw [hlocation] at hgone
  rw [hlocation'] at hgone'
  exact h.way_unique hreads hreads' (List.append_cancel_left (hgone.symm.trans hgone'))

end FilePattern
end DocTools
