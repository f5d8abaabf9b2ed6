import DocTools.Proofs.FileTree.Writable
import DocTools.Proofs.Snippet.Turns

/-! # Pages amid templates

The directory of the pages may lie anywhere, in that of the templates, around it or both in one, and be
spelled in any way. A page may then replace a template that is still to be read, but no page is in the
way of another one, because no template is on the way to another one. The main statements:
`Amid.writable_iff`, by which a page can be saved exactly if it could be saved at first, and for a whole
run of turns `Turns.isPage_iff`, `Turns.isSome_text?` and `Turns.read_page`. -/
namespace DocTools.Snippet.Injector
set_option autoImplicit false

open FilePattern (FoundBelow)
open FileTree (ComesBy Grows placeOf)
open DocTools.Path (Component Ends resolve steps)

/-! ## The way to a page -/

/-- The steps that the ways to all pages begin with. -/
def pageLead (inputDir outputDir : Path) : List Component :=
  outputDir.steps ++ if IsDotted inputDir then inputDir.steps else []

theorem filter_names (below : Location) :
    (below.map Component.name).filter (fun c => c ≠ .here ∧ c ≠ .root) = below.map .name := by
  refine List.filter_eq_self.mpr fun c hc => ?_
  obtain ⟨name, -, rfl⟩ := List.mem_map.mp hc
  exact decide_eq_true ⟨nofun, nofun⟩

section
variable {tree : FileTree} {dir outputDir path : Path} {below : Location}

theorem steps_of_found (h : FoundBelow tree dir below path) :
    path.steps = dir.steps ++ below.map .name := by
  rw [Path.steps_eq_filter, Path.steps_eq_filter]
  cases h.spelled with
  | top hdir hpath =>
    rw [hdir, hpath, Path.components_pathOf h.names, filter_names]
    rfl
  | plain _ hpath => rw [hpath, List.filter_append, filter_names]
  | dotted _ _ hdir hpath =>
    rw [hdir, hpath, List.filter_append, filter_names]
    rfl

theorem steps_pathOf (h : ∀ name ∈ below, IsEntryName name) :
    (FileTree.pathOf below).steps = below.map .name := by
  rw [Path.steps, Path.names_pathOf h, Path.filterMap_ofName? h]

/-- What is joined to the directory of the pages. -/
theorem exists_outputPath (h : FoundBelow tree dir below path) (outputDir : Path)
    (hnames : ∃ front, path.names = front ++ below) : ∃ rest front,
    outputPath dir outputDir path = outputDir.join rest ∧ rest.isAbsolute = false ∧
      outputDir.steps ++ rest.steps = pageLead dir outputDir ++ below.map .name ∧
      rest.names = front ++ below := by
  by_cases hdotted : IsDotted dir
  · obtain ⟨front, hfront⟩ := hnames
    refine ⟨path, front, outputPath_of_isDotted h hdotted outputDir, h.relative, ?_, hfront⟩
    rw [pageLead, if_pos hdotted, steps_of_found h, List.append_assoc]
  · refine ⟨_, [], outputPath_of_not_isDotted h hdotted outputDir, Path.isAbsolute_pathOf h.names, ?_,
      Path.names_pathOf h.names⟩
    rw [pageLead, if_neg hdotted, steps_pathOf h.names, List.append_nil]

end

/-- A template that a search finds, named as it is below the directory. -/
structure Template (tree : FileTree) (dir : Path) (below : Location) (path : Path) : Prop
    extends FoundBelow tree dir below path where
  names_eq : ∃ front, path.names = front ++ below

/-- Where the path of the page of a template leads. An absolute path leads nowhere in the tree. -/
inductive Aims (lead : List Component) (below : Location) (path : Path) : Prop where
  | outside (absolute : path.isAbsolute)
  | inside (ends : Ends path (lead ++ below.map .name))

theorem Template.aims {tree : FileTree} {dir path : Path} {below : Location}
    (h : Template tree dir below path) (outputDir : Path) :
    Aims (pageLead dir outputDir) below (outputPath dir outputDir path) := by
  obtain ⟨rest, front, hpath, hrelative, hsteps, hrest⟩ :=
    exists_outputPath h.toFoundBelow outputDir h.names_eq
  rw [hpath]
  cases habs : (outputDir.join rest).isAbsolute with
  | true => exact .outside habs
  | false =>
    refine .inside ⟨habs, by rw [Path.steps_join outputDir hrelative, hsteps], fun c hc => ?_⟩
    obtain ⟨above, last, hlast⟩ := (List.eq_nil_or_concat' below).resolve_left h.ne_nil
    have hnames : (outputDir.join rest).names.getLast? = some last := by
      by_cases hdir : outputDir = []
      · rw [hdir, Path.join, hrelative]
        show rest.names.getLast? = _
        rw [hrest, hlast, ← List.append_assoc, List.getLast?_concat]
      · rw [Path.names_join hdir hrelative, hrest, hlast, ← List.append_assoc, ← List.append_assoc,
          List.getLast?_concat]
    rw [hlast, List.map_append, List.map_singleton, ← List.append_assoc, List.getLast?_concat] at hc
    obtain rfl := Option.some.inj hc
    exact hnames

/-! ## Pages that were added -/

/-- No wanted place is on the way to another one. -/
def Separate (wanted : Location → Prop) : Prop :=
  ∀ ⦃below more⦄, wanted below → wanted more → below <+: more → below = more

theorem separate_isTemplate (tree : FileTree) (inputDir : Path) : Separate (IsTemplate tree inputDir) :=
  fun _ _ h hmore hway => h.eq_of_prefix hmore hway

/-- What is new at a place: a page, or a directory on the way to one. -/
inductive New (tree : FileTree) (lead : List Component) (wanted : Location → Prop) (after : FileTree)
    (place : Location) : Prop where
  | page {below : Location} {text : Text} (is_wanted : wanted below)
      (place_eq : place = placeOf lead ++ below) (aside : ¬ComesBy lead place)
      (found : after.find? place = some (.file (.text text)))
  | directory {front : Location} {last : Text} (is_wanted : wanted (front ++ [last]))
      (way : ComesBy (lead ++ front.map .name) place) (missing : tree.find? place = none)
      (found : after.find? place = some .directory)

/-- A tree to which pages of wanted places were added, and else is as it was. -/
structure Amid (tree : FileTree) (lead : List Component) (wanted : Location → Prop)
    (after : FileTree) : Prop where
  grows : Grows tree after
  changed : ∀ place, after.find? place = tree.find? place ∨ New tree lead wanted after place

section
variable {tree after : FileTree} {lead : List Component} {wanted : Location → Prop}
  {below more : Location} {path page : Path}

theorem Amid.refl (tree : FileTree) (lead : List Component) (wanted : Location → Prop) :
    Amid tree lead wanted tree := ⟨.refl tree, fun _ => .inl rfl⟩

theorem ends_concat {front : Location} {last : Text}
    (h : Ends path (lead ++ (front ++ [last]).map .name)) :
    Ends path (lead ++ front.map .name ++ [.name last]) := by
  rwa [List.map_append, List.map_singleton, ← List.append_assoc] at h

section
variable (h : Amid tree lead wanted after) (hsep : Separate wanted)
include h hsep

/-- On the way to a wanted place that is aside there are no other files than before. -/
theorem Amid.file_on_way {front place : Location} {last : Text} {content : Content}
    (hwanted : wanted (front ++ [last])) (hway : ComesBy (lead ++ front.map .name) place)
    (hfile : after.find? place = some (.file content)) : ∃ old, tree.find? place = some (.file old) := by
  rcases h.changed place with hsame | hnew
  · exact ⟨content, hsame ▸ hfile⟩
  · cases hnew with
    | page hpage hplace haside _ =>
      obtain ⟨start, hstart, hat⟩ := (FileTree.comesBy_names_iff.mp hway).resolve_left haside
      obtain rfl := List.append_cancel_left (hplace.symm.trans hat)
      have heq := hsep hpage hwanted (hstart.trans (List.prefix_append _ _))
      rw [heq] at hstart
      exact absurd hstart (FileTree.not_concat_prefix front last)
    | directory _ _ _ hd =>
      rw [hd] at hfile
      cases hfile

/-- In a wanted place that is aside there is a directory only if there was one before. -/
theorem Amid.directory_in_place {front : Location} {last : Text} (hwanted : wanted (front ++ [last]))
    (haside : ¬ComesBy lead (placeOf lead ++ (front ++ [last])))
    (hd : after.find? (placeOf lead ++ (front ++ [last])) = some .directory) :
    tree.find? (placeOf lead ++ (front ++ [last])) = some .directory := by
  rcases h.changed (placeOf lead ++ (front ++ [last])) with hsame | hnew
  · exact hsame ▸ hd
  · cases hnew with
    | page _ _ _ hfile =>
      rw [hd] at hfile
      cases hfile
    | @directory above final hother hway _ _ =>
      obtain ⟨start, hstart, hat⟩ := (FileTree.comesBy_names_iff.mp hway).resolve_left haside
      rw [← List.append_cancel_left hat] at hstart
      have heq := hsep hwanted hother (hstart.trans (List.prefix_append _ _))
      rw [heq] at hstart
      exact absurd hstart (FileTree.not_concat_prefix above final)

/-- Whether a page can be saved does not depend on the pages that were saved before. -/
theorem Amid.writable_iff (hwanted : wanted below) (hne : below ≠ []) (haims : Aims lead below path) :
    after.Writable path ↔ tree.Writable path := by
  cases haims with
  | outside habs =>
    have hnot (t : FileTree) : ¬t.Writable path := by
      rintro ⟨_, _, hat⟩
      rw [hat.ends.relative] at habs
      cases habs
    exact iff_of_false (hnot after) (hnot tree)
  | inside hends =>
    obtain ⟨front, last, rfl⟩ := (List.eq_nil_or_concat' below).resolve_left hne
    have hplace : resolve path = placeOf lead ++ (front ++ [last]) := by
      rw [hends.resolve_eq]
      exact FileTree.placeOf_names lead _
    have hlast := ends_concat hends
    rw [FileTree.writable_iff_of_ends hlast, FileTree.writable_iff_of_ends hlast]
    constructor
    · intro hat
      refine { hat with way := { hat.way with clear := fun place hway content hfile => ?_ }, place := ?_ }
      · obtain ⟨content', hfile'⟩ := h.grows.file place content hfile
        exact hat.way.clear place hway content' hfile'
      · exact fun hd => hat.place (h.grows.directory _ hd)
    · intro hat
      refine { hat with way := { hat.way with clear := fun place hway content hfile => ?_ }, place := ?_ }
      · obtain ⟨old, hold⟩ := h.file_on_way hsep hwanted hway hfile
        exact hat.way.clear place hway old hold
      · have haside : ¬ComesBy lead (placeOf lead ++ (front ++ [last])) := fun hway =>
          hat.aside (hplace ▸ hway.mono (List.prefix_append _ _))
        have hold := hat.place
        rw [hplace] at hold ⊢
        exact fun hd => hold (h.directory_in_place hsep hwanted haside hd)

end

/-! ## What saving leaves -/

/-- A page that is saved, or not, is one more amid the templates. -/
theorem Amid.save (h : Amid tree lead wanted after) (hwanted : wanted below) (hne : below ≠ [])
    (haims : Aims lead below path) (text : Text) : Amid tree lead wanted (after.save path text).1 := by
  refine ⟨h.grows.trans (FileTree.grows_save path text), fun place => ?_⟩
  cases haims with
  | outside habs =>
    obtain ⟨failure, hafter⟩ := FileTree.save_of_isAbsolute after habs text
    rw [hafter]
    exact h.changed place
  | inside hends =>
    obtain ⟨front, last, rfl⟩ := (List.eq_nil_or_concat' below).resolve_left hne
    have hlast := ends_concat hends
    rcases FileTree.find?_of_save_along hlast text place with
      hsame | ⟨hway, hnone, hd⟩ | ⟨hdone, hplace, hfile⟩
    · rw [hsame]
      refine (h.changed place).imp_right fun hnew => ?_
      cases hnew with
      | page hpage hat haside hfile => exact .page hpage hat haside (hsame.trans hfile)
      | directory hother hway hnone hd => exact .directory hother hway hnone (hsame.trans hd)
    · refine .inr (.directory hwanted hway ?_ hd)
      rcases h.changed place with hbefore | hnew
      · rw [← hbefore, hnone]
      · cases hnew with
        | page _ _ _ hfile =>
          rw [hnone] at hfile
          cases hfile
        | directory _ _ hmissing _ => exact hmissing
    · have hat := (FileTree.writable_iff_of_ends hlast).mp
        ((FileTree.save_eq_none_iff_writable after path text).mp hdone)
      refine .inr (.page hwanted ?_ (fun hway => ?_) hfile)
      · rw [hplace, hends.resolve_eq]
        exact FileTree.placeOf_names lead _
      · exact hat.aside (hplace ▸ hway.mono (List.prefix_append _ _))

/-- A page that is saved, or not, leaves the pages of other places. -/
theorem read_page_of_save {old : Text} (hread : after.read page = .ok old) (hpage : Aims lead more page)
    (haims : Aims lead below path) (hne : below ≠ []) (hother : more ≠ below) (text : Text) :
    (after.save path text).1.read page = .ok old := by
  obtain ⟨hfile, hfind⟩ := FileTree.read_eq_ok_iff.mp hread
  cases haims with
  | outside habs =>
    obtain ⟨failure, hafter⟩ := FileTree.save_of_isAbsolute after habs text
    rwa [hafter]
  | inside hends =>
    cases hpage with
    | outside habs =>
      obtain ⟨r, -, -, -, hr, -⟩ := FileTree.hasFile_iff.mp hfile
      exact absurd hr (FileTree.route_of_isAbsolute habs r)
    | inside hends' =>
      refine FileTree.read_eq_ok_iff.mpr ⟨(FileTree.grows_save path text).hasFile hfile, ?_⟩
      obtain ⟨front, last, rfl⟩ := (List.eq_nil_or_concat' below).resolve_left hne
      rcases FileTree.find?_of_save_along (ends_concat hends) text (resolve page) with
        hsame | ⟨-, hnone, -⟩ | ⟨-, hplace, -⟩
      · rw [hsame, hfind]
      · rw [hnone] at hfind
        cases hfind
      · rw [hends.resolve_eq, hends'.resolve_eq] at hplace
        have hplaces : placeOf lead ++ more = placeOf lead ++ (front ++ [last]) := by
          rw [← FileTree.placeOf_names, ← FileTree.placeOf_names]
          exact hplace
        exact absurd (List.append_cancel_left hplaces) hother

/-- What could be read at first can be read, if only as a page in its place. -/
theorem Amid.exists_read (h : Amid tree lead wanted after) {text : Text}
    (hread : tree.read path = .ok text) : ∃ now, after.read path = .ok now := by
  obtain ⟨hfile, hfind⟩ := FileTree.read_eq_ok_iff.mp hread
  have hstill := h.grows.hasFile hfile
  rcases h.changed (resolve path) with hsame | hnew
  · exact ⟨text, FileTree.read_eq_ok_iff.mpr ⟨hstill, hsame.trans hfind⟩⟩
  · cases hnew with
    | page _ _ _ hpage => exact ⟨_, FileTree.read_eq_ok_iff.mpr ⟨hstill, hpage⟩⟩
    | directory _ _ hmissing _ =>
      rw [hmissing] at hfind
      cases hfind

end

/-! ## Turns amid templates -/

section
variable {snippets : Snippets} {inputDir outputDir : Path} {start after : FileTree}
  {done : List (Path × Fate)}

/-- The templates that have had their turns stand in the tree at first. -/
def AllTemplates (start : FileTree) (inputDir : Path) (done : List (Path × Fate)) : Prop :=
  ∀ turn ∈ done, ∃ below, Template start inputDir below turn.1

/-- A turn leaves the tree as it is, or saves a page, whether that succeeds or not. -/
theorem Comes.eq_or_save {tree : FileTree} {template : Path} {fate : Fate}
    (h : Comes snippets inputDir outputDir tree template fate after) :
    after = tree ∨ ∃ text, after = (tree.save (outputPath inputDir outputDir template) text).1 := by
  cases h with
  | unread _ => exact .inl rfl
  | unsaved _ save => exact .inr ⟨_, (congrArg Prod.fst save).symm⟩
  | page _ save => exact .inr ⟨_, (congrArg Prod.fst save).symm⟩

theorem Comes.amid {tree : FileTree} {template : Path} {fate : Fate} {below : Location}
    {wanted : Location → Prop} (h : Comes snippets inputDir outputDir tree template fate after)
    (hamid : Amid start (pageLead inputDir outputDir) wanted tree)
    (htemplate : Template start inputDir below template) (hwanted : wanted below) :
    Amid start (pageLead inputDir outputDir) wanted after := by
  rcases h.eq_or_save with rfl | ⟨text, rfl⟩
  · exact hamid
  · exact hamid.save hwanted htemplate.ne_nil (htemplate.aims outputDir) text

theorem Turns.amid_wanted {wanted : Location → Prop}
    (h : Turns snippets inputDir outputDir start done after)
    (hall : ∀ turn ∈ done, ∃ below, Template start inputDir below turn.1 ∧ wanted below) :
    Amid start (pageLead inputDir outputDir) wanted after := by
  induction h with
  | start => exact .refl start _ _
  | next past comes ih =>
    obtain ⟨below, htemplate, hwanted⟩ :=
      hall _ (List.mem_append_right _ (List.mem_singleton_self _))
    exact comes.amid (ih fun turn hturn => hall turn (List.mem_append_left _ hturn)) htemplate hwanted

theorem Turns.amid (h : Turns snippets inputDir outputDir start done after)
    (hall : AllTemplates start inputDir done) :
    Amid start (pageLead inputDir outputDir) (IsTemplate start inputDir) after :=
  h.amid_wanted fun turn hturn => (hall turn hturn).imp fun _ htemplate => ⟨htemplate, htemplate.stands⟩

/-- A property of every turn that each has in the tree of its turn. -/
theorem Turns.forall_turns (h : Turns snippets inputDir outputDir start done after)
    (hall : AllTemplates start inputDir done) {P : Path × Fate → Prop}
    (hone : ∀ tree template fate next below,
      Amid start (pageLead inputDir outputDir) (IsTemplate start inputDir) tree →
      Template start inputDir below template →
      Comes snippets inputDir outputDir tree template fate next → P (template, fate)) :
    ∀ turn ∈ done, P turn := by
  induction h with
  | start => exact fun turn hturn => nomatch hturn
  | next past comes ih =>
    have hpast := fun turn hturn => hall turn (List.mem_append_left _ hturn)
    obtain ⟨below, htemplate⟩ := hall _ (List.mem_append_right _ (List.mem_singleton_self _))
    rw [List.forall_mem_append, List.forall_mem_singleton]
    exact ⟨ih hpast, hone _ _ _ _ _ (past.amid hpast) htemplate comes⟩

/-- A template has a page exactly if it is read and a text could be saved under the path of its page
at first, whatever came of the templates before it. -/
theorem Turns.isPage_iff (h : Turns snippets inputDir outputDir start done after)
    (hall : AllTemplates start inputDir done) : ∀ turn ∈ done, turn.2.isPage ↔
      turn.2.text?.isSome ∧ start.Writable (outputPath inputDir outputDir turn.1) := by
  refine h.forall_turns hall fun tree template fate next below hamid htemplate hcomes => ?_
  have hwritable := hamid.writable_iff (separate_isTemplate start inputDir) htemplate.stands
    htemplate.ne_nil (htemplate.aims outputDir)
  have hsave (text : Text) :=
    FileTree.save_eq_none_iff_writable tree (outputPath inputDir outputDir template) text
  cases hcomes with
  | unread _ => exact ⟨fun hc => (nomatch hc), fun hc => nomatch hc.1⟩
  | @unsaved text _ _ _ save =>
    refine ⟨fun hc => (nomatch hc), fun hc => ?_⟩
    have hnone := (hsave (inject snippets text).output).mpr (hwritable.mpr hc.2)
    rw [save] at hnone
    cases hnone
  | page _ save => exact ⟨fun _ => ⟨rfl, hwritable.mp ((hsave _).mp (by rw [save]))⟩, fun _ => rfl⟩

/-- A template that could be read at first is read in its turn. -/
theorem Turns.isSome_text? (h : Turns snippets inputDir outputDir start done after)
    (hall : AllTemplates start inputDir done) : ∀ turn ∈ done,
      (∃ text, start.read turn.1 = .ok text) → turn.2.text?.isSome := by
  refine h.forall_turns hall fun tree template fate next below hamid _ hcomes => ?_
  rintro ⟨text, hread⟩
  obtain ⟨now, hnow⟩ := hamid.exists_read hread
  cases hcomes with
  | unread read =>
    rw [hnow] at read
    cases read
  | unsaved _ _ => rfl
  | page _ _ => rfl

theorem Comes.read_page {tree : FileTree} {template : Path} {fate : Fate} {text : Text}
    (h : Comes snippets inputDir outputDir tree template fate after) (hpage : fate = .page text) :
    after.read (outputPath inputDir outputDir template) = .ok (inject snippets text).output := by
  cases h with
  | unread _ => cases hpage
  | unsaved _ _ => cases hpage
  | page _ save =>
    cases hpage
    exact FileTree.read_of_save save

/-- The pages are there at the end, if every template had one turn. -/
theorem Turns.read_page (h : Turns snippets inputDir outputDir start done after)
    (hall : AllTemplates start inputDir done) (honce : (done.map fun turn => resolve turn.1).Nodup) :
    ∀ turn ∈ done, ∀ text, turn.2 = .page text →
      after.read (outputPath inputDir outputDir turn.1) = .ok (inject snippets text).output := by
  induction h with
  | start => exact fun turn hturn => nomatch hturn
  | @next done tree after template fate past comes ih =>
    have hpast := fun turn hturn => hall turn (List.mem_append_left _ hturn)
    obtain ⟨below, htemplate⟩ := hall _ (List.mem_append_right _ (List.mem_singleton_self _))
    rw [List.map_append, List.nodup_append] at honce
    obtain ⟨hdone, -, hfresh⟩ := honce
    rw [List.forall_mem_append, List.forall_mem_singleton]
    refine ⟨fun turn hturn text hpage => ?_, fun text hpage => comes.read_page hpage⟩
    have hread := ih hpast hdone turn hturn text hpage
    obtain ⟨more, hmore⟩ := hpast turn hturn
    have hother : more ≠ below := by
      rintro rfl
      refine hfresh _ (List.mem_map_of_mem hturn) _ (List.mem_singleton_self _) ?_
      exact hmore.resolve_eq.trans htemplate.resolve_eq.symm
    rcases comes.eq_or_save with rfl | ⟨saved, rfl⟩
    · exact hread
    · exact read_page_of_save hread (hmore.aims outputDir) (htemplate.aims outputDir)
        htemplate.ne_nil hother saved

theorem Template.resolve_outputPath {below : Location} {path : Path}
    (h : Template start inputDir below path)
    (hrelative : (outputPath inputDir outputDir path).isAbsolute = false) :
    resolve (outputPath inputDir outputDir path) = placeOf (pageLead inputDir outputDir) ++ below := by
  cases h.aims outputDir with
  | outside habs =>
    rw [hrelative] at habs
    cases habs
  | inside hends =>
    rw [hends.resolve_eq]
    exact FileTree.placeOf_names _ _

/-- Every page has a place of its own. -/
theorem Turns.nodup_pages (h : Turns snippets inputDir outputDir start done after)
    (hall : AllTemplates start inputDir done) (honce : (done.map fun turn => resolve turn.1).Nodup) :
    ((done.filter fun turn => turn.2.isPage).map fun turn =>
      resolve (outputPath inputDir outputDir turn.1)).Nodup := by
  have hplace : ∀ turn ∈ done.filter (fun turn => turn.2.isPage), ∃ below,
      resolve turn.1 = resolve inputDir ++ below ∧
      resolve (outputPath inputDir outputDir turn.1) =
        placeOf (pageLead inputDir outputDir) ++ below := by
    intro turn hturn
    obtain ⟨hdone, hpage⟩ := List.mem_filter.mp hturn
    obtain ⟨below, htemplate⟩ := hall turn hdone
    obtain ⟨-, front, last, hat⟩ := (h.isPage_iff hall turn hdone).mp hpage
    exact ⟨below, htemplate.resolve_eq, htemplate.resolve_outputPath hat.ends.relative⟩
  have hturns := (List.pairwise_map.mp honce).filter fun turn => turn.2.isPage
  refine List.pairwise_map.mpr (hturns.imp_of_mem fun ha hb hne heq => hne ?_)
  obtain ⟨below, htemplate, hpage⟩ := hplace _ ha
  obtain ⟨more, htemplate', hpage'⟩ := hplace _ hb
  rw [hpage, hpage'] at heq
  rw [htemplate, htemplate', List.append_cancel_left heq]

end

end DocTools.Snippet.Injector
