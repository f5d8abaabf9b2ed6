import DocTools.Proofs.FilePattern.Sound
import Mathlib.Data.List.Forall2
import Mathlib.Data.List.Nodup
import Mathlib.Tactic.Choose

/-! # Ways through a pattern

A segment of a pattern stands for names, and `**` with the segment after it for several names in a
row. A way says what each segment stands for, and so leads along plain names. The main statement,
`exists_ways`: a search ends at the files that ways lead to, once for each way, so that a file to which
several ways lead is found several times. -/
namespace DocTools.FilePattern
set_option autoImplicit false

variable {tree : FileTree} {spot next : Spot}

/-! ## What segments stand for -/

/-- A segment stands for the names that fit it. The empty name, `.` and `..` are no names of entries:
only a segment that begins as they do stands for them. -/
def StandsFor (segment : Segment) (name : Text) : Prop :=
  fits segment name ∧
    (name ∈ [[], ['.'], ['.', '.']] → segment.head? = name.head?.map Wildcard.char)

instance (segment : Segment) (name : Text) : Decidable (StandsFor segment name) :=
  inferInstanceAs (Decidable (_ ∧ _))

/-- The names that the first segments stand for, and the segments after them. -/
inductive Begins : List Segment → List Text → List Segment → Prop
  | one {segment : Segment} {rest : List Segment} {name : Text} (hne : segment ≠ .deep)
      (stands : StandsFor segment name) : Begins (segment :: rest) [name] rest
  | deep {segment : Segment} {rest : List Segment} {names : List Text} {name : Text}
      (proper : ∀ n ∈ names ++ [name], IsEntryName n) (hfits : fits segment name) :
      Begins (.deep :: segment :: rest) (names ++ [name]) rest

/-- A way through segments: what each of them stands for, `**` together with the one after it. -/
inductive Reads : List Segment → List (List Text) → Prop
  | done : Reads [] []
  | next {segments rest : List Segment} {names : List Text} {more : List (List Text)}
      (begins : Begins segments names rest) (reads : Reads rest more) : Reads segments (names :: more)

theorem eq_map_of_plainName? {segment : Segment} {name : Text} (h : plainName? segment = some name) :
    segment = name.map Wildcard.char := by
  fun_induction plainName? segment generalizing name with
  | case1 =>
    cases h
    rfl
  | case2 c rest ih =>
    obtain ⟨more, hmore, rfl⟩ := Option.map_eq_some_iff.mp h
    rw [ih hmore, List.map_cons]
  | case3 => cases h

theorem fits_map_char {name other : Text} : fits (name.map Wildcard.char) other ↔ other = name := by
  induction name generalizing other with
  | nil => exact List.isEmpty_iff
  | cons c name ih =>
    rw [List.map_cons]
    cases other with
    | nil =>
      have hne := List.cons_ne_nil c name
      exact ⟨fun h => absurd h Bool.false_ne_true, fun h => absurd h.symm hne⟩
    | cons d other =>
      rw [List.cons.injEq, ← ih, fits, Bool.and_eq_true, beq_iff_eq, eq_comm]

/-- A segment without wildcards stands for its name. -/
theorem standsFor_of_plainName? {segment : Segment} {name other : Text}
    (h : plainName? segment = some name) : StandsFor segment other ↔ other = name := by
  obtain rfl := eq_map_of_plainName? h
  unfold StandsFor
  rw [fits_map_char]
  constructor
  · exact fun hstands => hstands.1
  · rintro rfl
    exact ⟨rfl, fun _ => List.head?_map⟩

theorem ne_deep_of_plainName? {segment : Segment} {name : Text} (h : plainName? segment = some name) :
    segment ≠ .deep := by
  rintro rfl
  cases h

/-- A name of an entry is stood for when it fits. -/
theorem standsFor_of_isEntryName {segment : Segment} {name : Text} (h : IsEntryName name) :
    StandsFor segment name ↔ fits segment name := by
  refine ⟨fun hstands => hstands.1, fun hfits => ⟨hfits, fun hmem => ?_⟩⟩
  simp only [List.mem_cons, List.not_mem_nil, or_false] at hmem
  rcases hmem with hnil | hhere | hup
  · exact absurd hnil h.ne_nil
  · exact absurd hhere h.ne_here
  · exact absurd hup h.ne_up

/-! ## One step of the search -/

/-- The spots that a search goes on from after one step, each with the names that lead there. -/
structure Steps (tree : FileTree) (segments rest : List Segment) (spot : Spot)
    (nexts : List (List Text × Spot)) : Prop where
  search_eq : search tree segments spot = nexts.flatMap fun p => search tree rest p.2
  nodup : (nexts.map Prod.fst).Nodup
  sound : ∀ p ∈ nexts, Sound tree p.2
  walked : ∀ p ∈ nexts, ∃ t, walk tree spot p.1 = some t ∧ Alike p.2 t
  begins : ∀ p ∈ nexts, Begins segments p.1 rest
  complete : ∀ names others t, Begins segments names others → walk tree spot names = some t →
    others = rest ∧ names ∈ nexts.map Prod.fst

theorem walk_singleton (tree : FileTree) (spot : Spot) (name : Text) :
    walk tree spot [name] = spot.lookUp? tree name := by
  rw [walk_cons]
  cases spot.lookUp? tree name <;> rfl

theorem Begins.one_cases {segment : Segment} {rest others : List Segment} {names : List Text}
    (h : Begins (segment :: rest) names others) (hne : segment ≠ .deep) :
    others = rest ∧ ∃ name, names = [name] ∧ StandsFor segment name := by
  cases h with
  | one _ stands => exact ⟨rfl, _, rfl, stands⟩
  | deep _ _ => exact absurd rfl hne

/-- A segment without wildcards: its name is looked up. -/
theorem Sound.steps_plain (h : Sound tree spot) {segment : Segment} {name : Text}
    (hplain : plainName? segment = some name) (rest : List Segment) :
    Steps tree (segment :: rest) rest spot
      ((spot.lookUp? tree name).toList.map fun s => ([name], s)) := by
  have hne := ne_deep_of_plainName? hplain
  have hmem {p : List Text × Spot}
      (hp : p ∈ (spot.lookUp? tree name).toList.map fun s => ([name], s)) :
      ∃ s, spot.lookUp? tree name = some s ∧ p = ([name], s) := by
    obtain ⟨s, hs, rfl⟩ := List.mem_map.mp hp
    exact ⟨s, Option.mem_toList.mp hs, rfl⟩
  constructor
  case search_eq => rw [search_cons_plain tree hplain, List.flatMap_map]
  case nodup =>
    cases spot.lookUp? tree name with
    | none => exact List.nodup_nil
    | some s => exact List.nodup_singleton _
  case sound =>
    intro p hp
    obtain ⟨s, hs, rfl⟩ := hmem hp
    exact h.of_lookUp? hs
  case walked =>
    intro p hp
    obtain ⟨s, hs, rfl⟩ := hmem hp
    exact ⟨s, (walk_singleton tree spot name).trans hs, .refl s⟩
  case begins =>
    intro p hp
    obtain ⟨s, hs, rfl⟩ := hmem hp
    exact .one hne ((standsFor_of_plainName? hplain).mpr rfl)
  case complete =>
    intro names others t hbegins hwalk
    obtain ⟨rfl, other, rfl, hstands⟩ := hbegins.one_cases hne
    obtain rfl := (standsFor_of_plainName? hplain).mp hstands
    rw [walk_singleton] at hwalk
    exact ⟨rfl, List.mem_map_of_mem (List.mem_map.mpr ⟨t, Option.mem_toList.mpr hwalk, rfl⟩)⟩

/-! ## Steps down to entries -/

/-- The spot of an entry below, with the names that lead there. -/
def Spot.goDown (spot : Spot) (e : Location × Entry) : List Text × Spot :=
  (e.1.drop spot.location.length, spot.down e)

/-- What is below a spot is walked to by its names. -/
theorem Sound.walk_goDown (h : Sound tree spot) {e : Location × Entry}
    (he : e ∈ tree.below spot.location) :
    ∃ names, names ≠ [] ∧ (∀ n ∈ names, IsEntryName n) ∧ e.1 = spot.location ++ names ∧
      spot.goDown e = (names, spot.down e) ∧ walk tree spot names = some (spot.down e) := by
  obtain ⟨names, hne, hat, hfind⟩ := FileTree.mem_below_iff.mp he
  obtain ⟨location, entry⟩ := e
  obtain rfl : location = spot.location ++ names := hat
  have hnames : ∀ n ∈ names, IsEntryName n := fun n hn =>
    FileTree.isEntryName_of_find? (Option.isSome_of_eq_some hfind) n (List.mem_append_right _ hn)
  refine ⟨names, hne, hnames, rfl, ?_, ?_⟩
  · rw [Spot.goDown, List.drop_left]
  · rw [h.walk_names hne hnames, hfind]
    rfl

theorem Sound.mem_below_of_walk (h : Sound tree spot) {names : List Text} {t : Spot} (hne : names ≠ [])
    (hnames : ∀ n ∈ names, IsEntryName n) (hwalk : walk tree spot names = some t) :
    ∃ entry, (spot.location ++ names, entry) ∈ tree.below spot.location := by
  rw [h.walk_names hne hnames] at hwalk
  obtain ⟨entry, hfind, -⟩ := Option.map_eq_some_iff.mp hwalk
  exact ⟨entry, FileTree.mem_below_iff.mpr ⟨names, hne, rfl, hfind⟩⟩

section
variable {chosen : List (Location × Entry)}

theorem nodup_goDown (hnodup : chosen.Nodup) (hsub : ∀ e ∈ chosen, e ∈ tree.below spot.location) :
    ((chosen.map spot.goDown).map Prod.fst).Nodup := by
  rw [List.map_map]
  refine hnodup.map_on fun a ha b hb hab => ?_
  obtain ⟨names, -, hnames, hfind⟩ := FileTree.mem_below_iff.mp (hsub a ha)
  obtain ⟨others, -, hothers, hfind'⟩ := FileTree.mem_below_iff.mp (hsub b hb)
  have hdrop : a.1.drop spot.location.length = b.1.drop spot.location.length := hab
  rw [hnames, hothers, List.drop_left, List.drop_left] at hdrop
  have hat : a.1 = b.1 := by rw [hnames, hothers, hdrop]
  rw [hat, hfind'] at hfind
  exact Prod.ext hat (Option.some.inj hfind).symm

theorem Sound.walked_goDown (h : Sound tree spot) (hsub : ∀ e ∈ chosen, e ∈ tree.below spot.location)
    {p : List Text × Spot} (hp : p ∈ chosen.map spot.goDown) :
    Sound tree p.2 ∧ ∃ t, walk tree spot p.1 = some t ∧ Alike p.2 t := by
  obtain ⟨e, he, rfl⟩ := List.mem_map.mp hp
  obtain ⟨names, -, -, -, hdown, hwalk⟩ := h.walk_goDown (hsub e he)
  rw [hdown]
  exact ⟨h.of_walk hwalk, _, hwalk, .refl _⟩

end

/-- Any number of directories and the segment behind them: all that is below and fits. -/
theorem Sound.steps_deep (h : Sound tree spot) (segment : Segment) (rest : List Segment) :
    Steps tree (.deep :: segment :: rest) rest spot
      (((tree.below spot.location).filter fun e =>
        fits segment (spot.down e).name).map spot.goDown) := by
  have hsub : ∀ e ∈ (tree.below spot.location).filter fun e => fits segment (spot.down e).name,
      e ∈ tree.below spot.location := fun e he => (List.mem_filter.mp he).1
  have hlast {names : List Text} {name : Text} {e : Location × Entry}
      (hat : e.1 = spot.location ++ (names ++ [name])) : (spot.down e).name = name := by
    rw [Spot.name_down, hat, ← List.append_assoc, List.getLast?_concat]
    rfl
  constructor
  case search_eq =>
    rw [List.flatMap_map, ← flatMap_ite_nil]
    rfl
  case nodup => exact nodup_goDown ((FileTree.nodup_below spot.location).filter _) hsub
  case sound => exact fun p hp => (h.walked_goDown hsub hp).1
  case walked => exact fun p hp => (h.walked_goDown hsub hp).2
  case begins =>
    intro p hp
    obtain ⟨e, he, rfl⟩ := List.mem_map.mp hp
    obtain ⟨names, hne, hnames, hat, hdown, -⟩ := h.walk_goDown (hsub e he)
    obtain ⟨front, name, rfl⟩ := (List.eq_nil_or_concat' names).resolve_left hne
    have hfits := (List.mem_filter.mp he).2
    rw [hlast hat] at hfits
    rw [hdown]
    exact .deep hnames hfits
  case complete =>
    intro names others t hbegins hwalk
    cases hbegins with
    | one hne _ => exact absurd rfl hne
    | @deep _ _ front name proper hfits =>
      obtain ⟨entry, hmem⟩ := h.mem_below_of_walk (List.concat_ne_nil _ _) proper hwalk
      refine ⟨rfl, List.mem_map.mpr ⟨spot.goDown (_, entry), List.mem_map_of_mem ?_, List.drop_left⟩⟩
      exact List.mem_filter.mpr ⟨hmem, by rw [hlast rfl]; exact hfits⟩

/-! ## Steps to the names of dots -/

/-- The spots of `..` and `.`, each with its name. -/
def Spot.goDots (spot : Spot) (segment : Segment) : List (List Text × Spot) :=
  (if StandsFor segment ['.', '.'] ∧ spot.location ≠ [] then
    [([['.', '.']], ⟨Path.join spot.path ['.', '.'], spot.location.dropLast, .directory⟩)] else []) ++
  (if StandsFor segment ['.'] then
    [([['.']], ⟨Path.join spot.path ['.'], spot.location, .directory⟩)] else [])

theorem standsFor_dots {segment : Segment} {name : Text} (hname : name ∈ [['.'], ['.', '.']]) :
    StandsFor segment name ↔ fits segment name ∧ segment.head? = some (.char '.') := by
  have hhead : name.head?.map Wildcard.char = some (.char '.') := by
    rcases List.mem_pair.mp hname with rfl | rfl <;> rfl
  rw [StandsFor, hhead]
  exact and_congr_right fun _ => ⟨fun h => h (List.mem_cons_of_mem _ hname), fun h _ => h⟩

theorem dots_eq_map_goDots (spot : Spot) (segment : Segment) :
    spot.dots segment = (spot.goDots segment).map Prod.snd := by
  have hup : StandsFor segment ['.', '.'] ↔ _ := standsFor_dots (by decide)
  have hhere : StandsFor segment ['.'] ↔ _ := standsFor_dots (by decide)
  unfold Spot.dots Spot.goDots
  by_cases hhead : segment.head? = some (.char '.')
  · simp only [hup, hhere, hhead, and_true, List.map_append, if_true]
    congr 1
    · by_cases hlocation : spot.location = []
      · simp [hlocation]
      · by_cases hfits : fits segment ['.', '.'] <;> simp [hlocation, hfits]
    · by_cases hfits : fits segment ['.'] <;> simp [hfits]
  · simp [hup, hhere, hhead]

theorem mem_goDots {segment : Segment} {p : List Text × Spot} (h : p ∈ spot.goDots segment) :
    (StandsFor segment ['.', '.'] ∧ spot.location ≠ [] ∧
      p = ([['.', '.']], ⟨Path.join spot.path ['.', '.'], spot.location.dropLast, .directory⟩)) ∨
    (StandsFor segment ['.'] ∧
      p = ([['.']], ⟨Path.join spot.path ['.'], spot.location, .directory⟩)) := by
  unfold Spot.goDots at h
  rcases List.mem_append.mp h with hp | hp
  · split at hp
    · rename_i hup
      exact .inl ⟨hup.1, hup.2, List.mem_singleton.mp hp⟩
    · cases hp
  · split at hp
    · rename_i hhere
      exact .inr ⟨hhere, List.mem_singleton.mp hp⟩
    · cases hp

theorem here_mem_goDots {segment : Segment} (h : StandsFor segment ['.']) :
    [['.']] ∈ (spot.goDots segment).map Prod.fst := by
  simp [Spot.goDots, h]

theorem up_mem_goDots {segment : Segment} (h : StandsFor segment ['.', '.'])
    (hne : spot.location ≠ []) : [['.', '.']] ∈ (spot.goDots segment).map Prod.fst := by
  simp [Spot.goDots, h, hne]

theorem nodup_goDots (spot : Spot) (segment : Segment) :
    ((spot.goDots segment).map Prod.fst).Nodup := by
  unfold Spot.goDots
  split <;> split <;> simp

/-- The spot of a name of dots is spelled behind the path, and a walk spells it so but for `.`
alone. -/
theorem Sound.walked_goDots (h : Sound tree spot) (hd : spot.entry = .directory) {segment : Segment}
    {p : List Text × Spot} (hp : p ∈ spot.goDots segment) :
    Sound tree p.2 ∧ ∃ t, walk tree spot p.1 = some t ∧ Alike p.2 t := by
  have hstands := h.entry_eq
  rw [hd] at hstands
  rcases mem_goDots hp with ⟨-, hne, rfl⟩ | ⟨-, rfl⟩
  · refine ⟨h.join (by decide) rfl (find?_dropLast hstands),
      ⟨spot.pathTo ['.', '.'], spot.location.dropLast, .directory⟩, ?_, ?_⟩
    · rw [walk_singleton, Spot.lookUp?, hd, if_neg (by decide), if_neg (by decide), if_pos rfl,
        if_neg hne]
    · rw [Spot.pathTo_of_not_atDot (h.not_atDot hne)]
      exact .refl _
  · refine ⟨h.join (by decide) rfl hstands, ⟨spot.pathTo ['.'], spot.location, .directory⟩, ?_,
      rfl, rfl, ?_⟩
    · rw [walk_singleton, Spot.lookUp?, hd, if_neg (by decide), if_pos rfl]
    · by_cases hdot : spot.AtDot
      · have hcont := Path.continues_join h.ne_nil (show Path.isAbsolute ['.'] = false from rfl)
        have hjoin : (Path.join spot.path ['.']).components = [.here] := by
          rw [hcont.components_eq h.ne_nil, show spot.path.components = [.here] from hdot]
          exact List.append_nil _
        have hgoes : (spot.pathTo ['.']).components = [.here] := by
          rw [Spot.pathTo_of_atDot hdot]
          rfl
        exact .inr ⟨hjoin, hgoes⟩
      · exact .inl (Spot.pathTo_of_not_atDot hdot _).symm

/-- A segment with wildcards: the names of dots that it stands for, and the entries of the
directory. -/
def Spot.goWild (tree : FileTree) (spot : Spot) (segment : Segment) : List (List Text × Spot) :=
  spot.goDots segment ++
    ((tree.children spot.location).filter fun e => fits segment (spot.down e).name).map spot.goDown

theorem not_standsFor_nil {segment : Segment} (hwild : plainName? segment = none) :
    ¬StandsFor segment [] := by
  intro h
  have hhead : segment.head? = none := h.2 List.mem_cons_self
  rw [List.head?_eq_none_iff.mp hhead] at hwild
  cases hwild

/-- Of a directory, a segment with wildcards takes the entries that fit and the dots it stands for. -/
theorem Sound.steps_wild (h : Sound tree spot) (hd : spot.entry = .directory) {segment : Segment}
    (hne : segment ≠ .deep) (hwild : plainName? segment = none) (rest : List Segment) :
    Steps tree (segment :: rest) rest spot (spot.goWild tree segment) := by
  have hchild {e : Location × Entry}
      (he : e ∈ (tree.children spot.location).filter fun e => fits segment (spot.down e).name) :
      e ∈ tree.below spot.location ∧ ∃ name, IsEntryName name ∧ fits segment name ∧
        spot.goDown e = ([name], spot.down e) := by
    obtain ⟨he, hfits⟩ := List.mem_filter.mp he
    obtain ⟨name, hat, hfind⟩ := FileTree.mem_children_iff.mp he
    have hname := FileTree.isEntryName_of_find? (Option.isSome_of_eq_some hfind) name
      (hat ▸ List.mem_append_right _ (List.mem_singleton_self name))
    rw [Spot.name_down, hat, List.getLast?_concat] at hfits
    refine ⟨(List.mem_filter.mp he).1, name, hname, hfits, ?_⟩
    rw [Spot.goDown, hat, List.drop_left]
  have hgone {p : List Text × Spot} (hp : p ∈ spot.goWild tree segment) :
      Sound tree p.2 ∧ ∃ t, walk tree spot p.1 = some t ∧ Alike p.2 t := by
    rcases List.mem_append.mp hp with hp | hp
    · exact h.walked_goDots hd hp
    · exact h.walked_goDown (fun e he => (hchild he).1) hp
  constructor
  case search_eq =>
    rw [search_cons_wild tree hne hwild, hd, if_neg (by decide), Spot.goWild, List.flatMap_append,
      dots_eq_map_goDots, List.flatMap_map, List.flatMap_map, ← flatMap_ite_nil]
    rfl
  case nodup =>
    rw [Spot.goWild, List.map_append]
    refine (nodup_goDots spot segment).append (nodup_goDown ((FileTree.nodup_children _).filter _)
      fun e he => (hchild he).1) fun names hdots hdown => ?_
    -- no entry has a name of dots
    obtain ⟨_, hp, rfl⟩ := List.mem_map.mp hdown
    obtain ⟨e, he, rfl⟩ := List.mem_map.mp hp
    obtain ⟨-, name, hname, -, hgo⟩ := hchild he
    obtain ⟨q, hq, hsame⟩ := List.mem_map.mp hdots
    rw [hgo] at hsame
    rcases mem_goDots hq with ⟨-, -, rfl⟩ | ⟨-, rfl⟩
    · exact hname.ne_up (List.singleton_inj.mp hsame).symm
    · exact hname.ne_here (List.singleton_inj.mp hsame).symm
  case sound => exact fun p hp => (hgone hp).1
  case walked => exact fun p hp => (hgone hp).2
  case begins =>
    intro p hp
    rcases List.mem_append.mp hp with hp | hp
    · rcases mem_goDots hp with ⟨hstands, -, rfl⟩ | ⟨hstands, rfl⟩
      · exact .one hne hstands
      · exact .one hne hstands
    · obtain ⟨e, he, rfl⟩ := List.mem_map.mp hp
      obtain ⟨-, name, hname, hfits, hgo⟩ := hchild he
      rw [hgo]
      exact .one hne ((standsFor_of_isEntryName hname).mpr hfits)
  case complete =>
    intro names others t hbegins hwalk
    obtain ⟨rfl, name, rfl, hstands⟩ := hbegins.one_cases hne
    refine ⟨rfl, ?_⟩
    rw [walk_singleton] at hwalk
    rw [Spot.goWild, List.map_append, List.mem_append]
    obtain ⟨-, ⟨rfl, -⟩ | ⟨rfl, -, -⟩ | ⟨rfl, hup, -⟩ | ⟨hname, entry, hfind, -⟩⟩ :=
      Spot.lookUp?_cases hwalk
    · exact .inl (here_mem_goDots hstands)
    · exact absurd hstands (not_standsFor_nil hwild)
    · exact .inl (up_mem_goDots hstands hup)
    · refine .inr (List.mem_map.mpr ⟨spot.goDown (spot.location ++ [name], entry),
        List.mem_map_of_mem (List.mem_filter.mpr ⟨?_, ?_⟩), List.drop_left⟩)
      · exact FileTree.mem_children_iff.mpr ⟨name, rfl, hfind⟩
      · rw [Spot.name_down, List.getLast?_concat]
        exact hstands.1

/-! ## All ways -/

/-- A file that a search found is what a way leads to. -/
def Ends (tree : FileTree) (spot : Spot) (found : Spot) (way : List (List Text)) : Prop :=
  Sound tree found ∧ found.entry.isDirectory = false ∧
    ∃ t, walk tree spot way.flatten = some t ∧ Alike found t

theorem Ends.exists_path_eq {found : Spot} {way : List (List Text)} (h : Ends tree spot found way) :
    ∃ t, walk tree spot way.flatten = some t ∧ found.path = t.path := by
  obtain ⟨hfound, hfile, t, ht, halike⟩ := h
  exact ⟨t, ht, halike.path_eq_of_file hfound hfile⟩

/-- The ways through segments that lead to files, each once, and one for each file that a search
finds. -/
structure Ways (tree : FileTree) (segments : List Segment) (spot : Spot)
    (ways : List (List (List Text))) : Prop where
  nodup : ways.Nodup
  mem : ∀ way, way ∈ ways ↔ Reads segments way ∧
    ∃ t, walk tree spot way.flatten = some t ∧ t.entry.isDirectory = false
  found : List.Forall₂ (Ends tree spot)
    ((search tree segments spot).filter fun s => !s.entry.isDirectory) ways

theorem ways_nil (h : Sound tree spot) (hfile : spot.entry.isDirectory = false) :
    Ways tree [] spot [[]] where
  nodup := List.nodup_singleton _
  mem way := by
    rw [List.mem_singleton]
    constructor
    · rintro rfl
      exact ⟨.done, spot, rfl, hfile⟩
    · rintro ⟨hreads, -⟩
      cases hreads with
      | done => rfl
      | next hbegins _ => cases hbegins
  found := by
    have hkept : ([spot].filter fun s => !s.entry.isDirectory) = [spot] := by
      rw [List.filter_cons_of_pos (by rw [hfile]; rfl), List.filter_nil]
    rw [search, hkept]
    exact .cons ⟨h, hfile, spot, rfl, .refl spot⟩ .nil

/-- No way leads to a file when the search finds none and no walk does. -/
theorem ways_of_none {segments : List Segment}
    (hsearch : ∀ s ∈ search tree segments spot, s.entry.isDirectory = true)
    (hwalk : ∀ way t, Reads segments way → walk tree spot way.flatten = some t →
      t.entry.isDirectory = true) : Ways tree segments spot [] where
  nodup := List.nodup_nil
  mem way := by
    refine ⟨fun hmem => (nomatch hmem), ?_⟩
    rintro ⟨hreads, t, ht, hfile⟩
    rw [hwalk way t hreads ht] at hfile
    cases hfile
  found := by
    have hnone : (search tree segments spot).filter (fun s => !s.entry.isDirectory) = [] := by
      rw [List.filter_eq_nil_iff]
      intro s hs
      rw [hsearch s hs]
      decide
    rw [hnone]
    exact .nil

theorem walk_cons_flatten {names : List Text} {more : List (List Text)} {t : Spot}
    (h : walk tree spot names = some t) :
    walk tree spot (names :: more).flatten = walk tree t more.flatten := by
  rw [List.flatten_cons, walk_append, h, Option.bind_some]

theorem Ends.cons {found t : Spot} {names : List Text} {more : List (List Text)}
    (h : Ends tree next found more) (hwalk : walk tree spot names = some t)
    (halike : Alike next t) :
    Ends tree spot found (names :: more) := by
  obtain ⟨hfound, hfile, last, hlast, hend⟩ := h
  obtain ⟨last', hlast', hsame⟩ := halike.of_walk hlast
  exact ⟨hfound, hfile, last', (walk_cons_flatten hwalk).trans hlast', hend.trans hsame⟩

theorem Steps.mem_iff {segments rest : List Segment} {nexts : List (List Text × Spot)}
    (h : Steps tree segments rest spot nexts) (hne : segments ≠ []) (way : List (List Text)) :
    (Reads segments way ∧ ∃ t, walk tree spot way.flatten = some t ∧ t.entry.isDirectory = false) ↔
      ∃ p ∈ nexts, ∃ more, way = p.1 :: more ∧ Reads rest more ∧
        ∃ t, walk tree p.2 more.flatten = some t ∧ t.entry.isDirectory = false := by
  constructor
  · rintro ⟨hreads, last, hlast, hfile⟩
    cases hreads with
    | done => exact absurd rfl hne
    | @next _ others names more hbegins hmore =>
      rw [List.flatten_cons, walk_append, Option.bind_eq_some_iff] at hlast
      obtain ⟨t, ht, hlast⟩ := hlast
      obtain ⟨rfl, hmem⟩ := h.complete names others t hbegins ht
      obtain ⟨p, hp, rfl⟩ := List.mem_map.mp hmem
      obtain ⟨t', ht', halike⟩ := h.walked p hp
      obtain rfl : t = t' := Option.some.inj (ht.symm.trans ht')
      obtain ⟨last', hlast', hsame⟩ := halike.symm.of_walk hlast
      exact ⟨p, hp, more, rfl, hmore, last', hlast', hsame.entry_eq ▸ hfile⟩
  · rintro ⟨p, hp, more, rfl, hmore, last, hlast, hfile⟩
    obtain ⟨t, ht, halike⟩ := h.walked p hp
    obtain ⟨last', hlast', hsame⟩ := halike.of_walk hlast
    exact ⟨.next (h.begins p hp) hmore, last', (walk_cons_flatten ht).trans hlast',
      hsame.entry_eq ▸ hfile⟩

/-- The ways of a step followed by those from each spot that it leads to. -/
theorem Steps.exists_ways {segments rest : List Segment} {nexts : List (List Text × Spot)}
    (h : Steps tree segments rest spot nexts) (hne : segments ≠ [])
    (hrest : ∀ next, Sound tree next → ∃ ways, Ways tree rest next ways) :
    ∃ ways, Ways tree segments spot ways := by
  choose! further hfurther using hrest
  refine ⟨nexts.flatMap fun p => (further p.2).map (p.1 :: ·), ?_, fun way => ?_, ?_⟩
  · refine List.nodup_flatMap.mpr ⟨fun p hp => ?_, ?_⟩
    · exact (hfurther p.2 (h.sound p hp)).nodup.map (List.cons_injective)
    · refine (List.pairwise_map.mp h.nodup).imp fun {p q} hpq way hway hway' => ?_
      obtain ⟨_, -, rfl⟩ := List.mem_map.mp hway
      obtain ⟨_, -, hsame⟩ := List.mem_map.mp hway'
      exact hpq (List.cons.inj hsame).1.symm
  · rw [h.mem_iff hne, List.mem_flatMap]
    constructor
    · rintro ⟨p, hp, hmem⟩
      obtain ⟨more, hmore, rfl⟩ := List.mem_map.mp hmem
      exact ⟨p, hp, more, rfl, ((hfurther p.2 (h.sound p hp)).mem more).mp hmore⟩
    · rintro ⟨p, hp, more, rfl, hmore⟩
      exact ⟨p, hp, List.mem_map_of_mem (((hfurther p.2 (h.sound p hp)).mem more).mpr hmore)⟩
  · rw [h.search_eq, List.filter_flatMap]
    have hsame : List.Forall₂ (fun p q => p = q ∧ p ∈ nexts) nexts nexts :=
      List.forall₂_same.mpr fun p hp => ⟨rfl, hp⟩
    refine List.rel_flatMap hsame ?_
    rintro p _ ⟨rfl, hp⟩
    obtain ⟨t, ht, halike⟩ := h.walked p hp
    rw [List.forall₂_map_right_iff]
    exact (hfurther p.2 (h.sound p hp)).found.imp fun found more hends =>
      hends.cons ht halike

/-- A file has nothing below it, so no way goes on from there. -/
theorem ways_of_file {segment : Segment} (hne : segment ≠ .deep) (hwild : plainName? segment = none)
    {content : Content} (hfile : spot.entry = .file content) (rest : List Segment) :
    Ways tree (segment :: rest) spot [] := by
  refine ways_of_none (fun s hs => ?_) fun way t hreads ht => ?_
  · rw [search_cons_wild tree hne hwild, hfile] at hs
    cases hs
  · cases hreads with
    | @next _ _ names more hbegins _ =>
      obtain ⟨-, name, rfl, -⟩ := hbegins.one_cases hne
      rw [List.flatten_cons, List.singleton_append, walk_cons, Option.bind_eq_some_iff] at ht
      obtain ⟨_, hlook, -⟩ := ht
      have hd := (Spot.lookUp?_cases hlook).1
      rw [hfile] at hd
      cases hd

theorem Sound.ways_one (h : Sound tree spot) {segment : Segment} (hne : segment ≠ .deep)
    {rest : List Segment} (hrest : ∀ next, Sound tree next → ∃ ways, Ways tree rest next ways) :
    ∃ ways, Ways tree (segment :: rest) spot ways := by
  have hcons := List.cons_ne_nil segment rest
  cases hplain : plainName? segment with
  | some name => exact (h.steps_plain hplain rest).exists_ways hcons hrest
  | none =>
    cases hentry : spot.entry with
    | directory => exact (h.steps_wild hentry hne hplain rest).exists_ways hcons hrest
    | file content => exact ⟨[], ways_of_file hne hplain hentry rest⟩

/-- `**` at the end finds directories only. -/
theorem ways_lastDeep : Ways tree [.deep] spot [] := by
  refine ways_of_none (fun s hs => ?_) fun way t hreads ht => ?_
  · exact (List.mem_filter.mp hs).2
  · cases hreads with
    | next hbegins _ =>
      cases hbegins with
      | one hne _ => exact absurd rfl hne

/-- A search through segments ends at files once for each way that leads to one. -/
theorem exists_ways (tree : FileTree) : ∀ (segments : List Segment) {spot : Spot}, Sound tree spot →
    ∃ ways, Ways tree segments spot ways
  | [], spot, h => by
    cases hfile : spot.entry.isDirectory with
    | false => exact ⟨[[]], ways_nil h hfile⟩
    | true =>
      refine ⟨[], ways_of_none (fun s hs => ?_) fun way t hreads ht => ?_⟩
      · rw [List.mem_singleton.mp hs, hfile]
      · cases hreads with
        | done =>
          rw [← Option.some.inj ht, hfile]
        | next hbegins _ => cases hbegins
  | [segment], spot, h => by
    by_cases hdeep : segment = .deep
    · rw [hdeep]
      exact ⟨[], ways_lastDeep⟩
    · exact h.ways_one hdeep fun _ hnext => exists_ways tree [] hnext
  | segment :: second :: rest, spot, h => by
    by_cases hdeep : segment = .deep
    · rw [hdeep]
      exact (h.steps_deep second rest).exists_ways (List.cons_ne_nil _ _)
        fun _ hnext => exists_ways tree rest hnext
    · exact h.ways_one hdeep fun _ hnext => exists_ways tree (second :: rest) hnext

end DocTools.FilePattern
