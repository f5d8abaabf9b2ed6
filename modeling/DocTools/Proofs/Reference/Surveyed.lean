import DocTools.Proofs.FilePattern.InDirectory
import DocTools.Proofs.Reference.Merging
import DocTools.Reference.Directory

/-! # What a survey tells of a directory

Every documentation file is read by itself. One that can not be read is told of and leaves no trace in
the model, so the model is the same without it. The main statement, `survey_of_directory`, is for every
tree and every directory in it; a directory that is spelled with more than one slash behind the dots at
its beginning is taken for an empty one (`survey_misses_slashedDir`). -/
namespace DocTools.Reference
set_option autoImplicit false

open DocTools.Path (resolve)
open FilePattern (ListsIn LosesWay filesIn)

variable {tree : FileTree} {dir path : Path} {paths : List Path} {s : Survey} {f : Failure}
  {found : List Namespace}

/-! ## One file -/

def fragments? (tree : FileTree) (path : Path) : Option (List Namespace) := (readFile tree path).toOption

def failure? (tree : FileTree) (path : Path) : Option (Path × Failure) :=
  match readFile tree path with
  | .ok _ => none
  | .error f => some (path, f)

theorem failure?_eq_some_iff {told : Path × Failure} :
    failure? tree path = some told ↔ readFile tree path = .error told.2 ∧ path = told.1 := by
  unfold failure?
  cases readFile tree path with
  | ok found => exact ⟨fun h => (nomatch h), fun h => nomatch h.1⟩
  | error f =>
    rw [Option.some_inj, Except.error.injEq]
    constructor
    · rintro rfl
      exact ⟨rfl, rfl⟩
    · rintro ⟨rfl, rfl⟩
      rfl

theorem fragments?_of_error (h : readFile tree path = .error f) : fragments? tree path = none := by
  rw [fragments?, h]
  rfl

/-- Why nothing is read from a file: its bytes are no text, or its text is not a document. -/
inductive Unreadable : Content → Prop where
  | invalid (bytes : List UInt8) : Unreadable (.bytes bytes)
  | malformed {text : Text} {e : Xml.Error} (h : Xml.parse text = .error e) : Unreadable (.text text)

theorem readFile_eq_error_iff {content : Content}
    (hread : tree.read path = FileTree.readContent content) :
    (∃ f, readFile tree path = .error f) ↔ Unreadable content := by
  unfold readFile
  rw [hread]
  cases content with
  | bytes bytes => exact ⟨fun _ => .invalid bytes, fun _ => ⟨_, rfl⟩⟩
  | text text =>
    show (∃ f, ((Xml.parse text).map fragments).mapError Failure.document = .error f) ↔ _
    cases hparse : Xml.parse text with
    | error e => exact ⟨fun _ => .malformed hparse, fun _ => ⟨_, rfl⟩⟩
    | ok root =>
      refine ⟨fun ⟨f, h⟩ => (nomatch h), fun h => ?_⟩
      cases h with
      | malformed h => cases hparse.symm.trans h

/-! ## All files -/

theorem Survey.add_of_ok (h : readFile tree path = .ok found) :
    (s.add tree path).files = s.files ∧ (s.add tree path).failures = s.failures ∧
      (s.add tree path).model = s.model.merge found := by
  unfold Survey.add
  rw [h]
  exact ⟨rfl, rfl, rfl⟩

theorem Survey.add_of_error (h : readFile tree path = .error f) :
    (s.add tree path).files = s.files ∧ (s.add tree path).failures = s.failures ++ [(path, f)] ∧
      (s.add tree path).model = s.model := by
  unfold Survey.add
  rw [h]
  exact ⟨rfl, rfl, rfl⟩

theorem Model.merge_append (model : Model) (found more : List Namespace) :
    model.merge (found ++ more) = (model.merge found).merge more := List.foldl_append

/-- What is told of some files, in their order. -/
structure Survey.Tells (s : Survey) (tree : FileTree) (paths : List Path) : Prop where
  files : s.files = paths.length
  failures : s.failures = paths.filterMap (failure? tree)
  model : s.model = Model.merge ∅ (paths.filterMap (fragments? tree)).flatten

theorem Survey.foldl_add (tree : FileTree) (paths : List Path) (s : Survey) :
    (paths.foldl (Survey.add tree) s).files = s.files ∧
      (paths.foldl (Survey.add tree) s).failures = s.failures ++ paths.filterMap (failure? tree) ∧
      (paths.foldl (Survey.add tree) s).model =
        s.model.merge (paths.filterMap (fragments? tree)).flatten := by
  induction paths generalizing s with
  | nil => exact ⟨rfl, (List.append_nil _).symm, rfl⟩
  | cons path paths ih =>
    rw [List.foldl_cons]
    obtain ⟨hfiles, hfailures, hmodel⟩ := ih (s.add tree path)
    cases hread : readFile tree path with
    | ok found =>
      have hnone : failure? tree path = none := by
        rw [failure?, hread]
      have hsome : fragments? tree path = some found := by
        rw [fragments?, hread]
        rfl
      obtain ⟨hfiles', hfailures', hmodel'⟩ := Survey.add_of_ok (s := s) hread
      rw [List.filterMap_cons_none hnone, List.filterMap_cons_some hsome, List.flatten_cons,
        Model.merge_append, ← hmodel', ← hfailures', ← hfiles']
      exact ⟨hfiles, hfailures, hmodel⟩
    | error f =>
      have hsome : failure? tree path = some (path, f) := by
        rw [failure?, hread]
      obtain ⟨hfiles', hfailures', hmodel'⟩ := Survey.add_of_error (s := s) hread
      rw [List.filterMap_cons_some hsome, List.filterMap_cons_none (fragments?_of_error hread),
        ← hmodel', ← hfiles', List.append_cons, ← hfailures']
      exact ⟨hfiles, hfailures, hmodel⟩

theorem documentFiles_eq (tree : FileTree) (dir : Path) :
    documentFiles tree dir = .ok (filesIn tree dir "xml".toList) := by
  have hplain : FilePattern.IsPlain "xml".toList := by decide
  exact FilePattern.glob_below tree (FilePattern.ofText_below_of_ne_nil dir (List.cons_ne_nil _ _)
    (FilePattern.ofText_extension hplain))

theorem exists_survey (tree : FileTree) (dir : Path) :
    ∃ s, survey tree dir = .ok s ∧ s.Tells tree (filesIn tree dir "xml".toList) := by
  obtain ⟨hfiles, hfailures, hmodel⟩ := Survey.foldl_add tree (filesIn tree dir "xml".toList)
    ⟨Dictionary.empty, (filesIn tree dir "xml".toList).length, [], [], []⟩
  refine ⟨_, ?_, hfiles, hfailures, hmodel⟩
  rw [survey, documentFiles_eq]
  rfl

theorem Survey.Tells.mem_failures_iff (h : s.Tells tree paths) (hpath : path ∈ paths) :
    path ∈ s.failures.map Prod.fst ↔ ∃ f, readFile tree path = .error f := by
  rw [h.failures, List.mem_map]
  constructor
  · rintro ⟨told, htold, rfl⟩
    obtain ⟨other, -, hother⟩ := List.mem_filterMap.mp htold
    obtain ⟨hread, rfl⟩ := failure?_eq_some_iff.mp hother
    exact ⟨told.2, hread⟩
  · rintro ⟨f, hread⟩
    exact ⟨(path, f), List.mem_filterMap.mpr ⟨path, hpath, failure?_eq_some_iff.mpr ⟨hread, rfl⟩⟩, rfl⟩

/-! ## Without some of the files that failed -/

theorem filterMap_filter_of_none {α β : Type} {g : α → Option β} {keep : α → Bool} {l : List α}
    (h : ∀ a ∈ l, keep a = false → g a = none) : (l.filter keep).filterMap g = l.filterMap g := by
  rw [List.filterMap_filter]
  refine List.filterMap_congr fun a ha => ?_
  cases hkeep : keep a with
  | false => rw [if_neg Bool.false_ne_true, h a ha hkeep]
  | true => rw [if_pos rfl]

theorem filterMap_failure?_filter (tree : FileTree) (keep : Path → Bool) (paths : List Path) :
    (paths.filter keep).filterMap (failure? tree) =
      (paths.filterMap (failure? tree)).filter fun told => keep told.1 := by
  rw [List.filterMap_filter, List.filter_filterMap]
  refine List.filterMap_congr fun path _ => ?_
  cases htold : failure? tree path with
  | none => rw [ite_self, Option.filter_none]
  | some told =>
    obtain ⟨-, rfl⟩ := failure?_eq_some_iff.mp htold
    rfl

/-- Files that failed can be gone: what is told of the others stays the same. -/
theorem Survey.Tells.survey_without (hd : tree.isDirectory dir)
    (h : s.Tells tree (filesIn tree dir "xml".toList)) {gone : Location → Bool}
    (hgone : ∀ location, gone location → location ∈ s.failures.map fun told => resolve told.1) :
    ∃ left, survey (tree.without gone) dir = .ok left ∧ left.model = s.model ∧
      left.failures = s.failures.filter fun told => !gone (resolve told.1) := by
  obtain ⟨left, hleft, htells⟩ := exists_survey (tree.without gone) dir
  have hlist := FilePattern.listsIn_filesIn hd "xml".toList
  rw [FilePattern.filesIn_without hd] at htells
  have hreads : ∀ path ∈ (filesIn tree dir "xml".toList).filter fun path => !gone (resolve path),
      readFile (tree.without gone) path = readFile tree path := by
    intro path hpath
    obtain ⟨hpath, hstays⟩ := List.mem_filter.mp hpath
    rw [Bool.not_eq_true'] at hstays
    rw [readFile, readFile, FilePattern.read_without hd hpath hstays]
  have hfails : ∀ path ∈ filesIn tree dir "xml".toList, (!gone (resolve path)) = false →
      fragments? tree path = none := by
    intro path hpath hnot
    rw [Bool.not_eq_false'] at hnot
    obtain ⟨told, htold, hplace⟩ := List.mem_map.mp (hgone _ hnot)
    rw [h.failures] at htold
    obtain ⟨other, hother, htold⟩ := List.mem_filterMap.mp htold
    obtain ⟨hread, rfl⟩ := failure?_eq_some_iff.mp htold
    obtain rfl := List.inj_on_of_nodup_map hlist.once hother hpath hplace
    exact fragments?_of_error hread
  refine ⟨left, hleft, ?_, ?_⟩
  · rw [htells.model, h.model, ← filterMap_filter_of_none hfails]
    congr 2
    exact List.filterMap_congr fun path hpath => by rw [fragments?, fragments?, hreads path hpath]
  · rw [htells.failures, h.failures, ← filterMap_failure?_filter tree fun path => !gone (resolve path)]
    exact List.filterMap_congr fun path hpath => by rw [failure?, failure?, hreads path hpath]

/-! ## Any directory -/

/-- In every tree, for every directory that is there: the documentation files are listed in order and
each once, those that can not be read are told of in this order, and the model is made of what the
others hold. When some that can not be read are gone, the model is the same. -/
theorem survey_of_directory (tree : FileTree) {dir : Path} (hd : tree.isDirectory dir) :
    ∃ s paths, survey tree dir = .ok s ∧ ListsIn tree dir "xml".toList paths ∧ s.Tells tree paths ∧
      (∀ path ∈ paths, ∃ content, tree.find? (resolve path) = some (.file content) ∧
        (path ∈ s.failures.map Prod.fst ↔ Unreadable content)) ∧
      ∀ gone : Location → Bool,
        (∀ location, gone location → location ∈ s.failures.map fun told => resolve told.1) →
        ∃ left, survey (tree.without gone) dir = .ok left ∧ left.model = s.model ∧
          left.failures = s.failures.filter fun told => !gone (resolve told.1) := by
  obtain ⟨s, hs, htells⟩ := exists_survey tree dir
  refine ⟨s, _, hs, FilePattern.listsIn_filesIn hd _, htells, fun path hpath => ?_,
    fun gone hgone => htells.survey_without hd hgone⟩
  obtain ⟨content, hfind, hread⟩ := FilePattern.read_of_mem_filesIn hd hpath
  exact ⟨content, hfind, (htells.mem_failures_iff hpath).trans (readFile_eq_error_iff hread)⟩

def treeOf (files : List (String × String)) : FileTree :=
  files.foldl (fun tree file => (tree.save file.1.toList file.2.toList).1) ∅

/-- A document that can be read, one that is cut off and one further down. -/
def mixedFiles : FileTree := treeOf [("d/a.xml", "<namespace name=\"n\"/>"), ("d/b.xml", "<namespace"),
  ("d/e/c.xml", "<namespace name=\"m\"/>")]

def mixedDir : Path := "./d/.//".toList

def cutOff : Location := ["d".toList, "b.xml".toList]

theorem survey_of_directory_mixedFiles : mixedFiles.isDirectory mixedDir ∧
    ∃ s, survey mixedFiles mixedDir = .ok s ∧
      (cutOff ∈ s.failures.map fun told => resolve told.1) ∧
      ∃ left, survey (mixedFiles.without fun location => location = cutOff) mixedDir = .ok left ∧
        left.model = s.model ∧ cutOff ∉ left.failures.map fun told => resolve told.1 := by
  have hd : mixedFiles.isDirectory mixedDir := by decide +kernel
  have hfind : mixedFiles.find? cutOff = some (.file (.text "<namespace".toList)) := by decide +kernel
  obtain ⟨s, paths, hs, hlist, -, hfails, hwithout⟩ := survey_of_directory mixedFiles hd
  have hcutOff : cutOff ∈ s.failures.map fun told => resolve told.1 := by
    have hplace := (hlist.mem cutOff).mpr ⟨by decide, _, _, rfl, by decide, by decide, hfind⟩
    obtain ⟨path, hpath, hat⟩ := List.mem_map.mp hplace
    obtain ⟨content, hcontent, hiff⟩ := hfails path hpath
    rw [hat, hfind, Option.some_inj, Entry.file.injEq] at hcontent
    subst hcontent
    have hparse : (Xml.parse "<namespace".toList).toOption = none := by decide +kernel
    cases hresult : Xml.parse "<namespace".toList with
    | ok root => rw [hresult] at hparse; cases hparse
    | error e =>
      obtain ⟨told, htold, rfl⟩ := List.mem_map.mp (hiff.mpr (.malformed hresult))
      exact List.mem_map.mpr ⟨told, htold, hat⟩
  have hgone : ∀ location, decide (location = cutOff) = true →
      location ∈ s.failures.map fun told => resolve told.1 := by
    intro location hlocation
    rwa [of_decide_eq_true hlocation]
  obtain ⟨left, hleft, hmodel, hfailures⟩ := hwithout _ hgone
  refine ⟨hd, s, hs, hcutOff, left, hleft, hmodel, fun hmem => ?_⟩
  obtain ⟨told, htold, hat⟩ := List.mem_map.mp hmem
  rw [hfailures, List.mem_filter, hat] at htold
  exact absurd htold.2 (by decide)

/-- A directory with one document. -/
def slashedTree : FileTree := treeOf [("d/a.xml", "<namespace name=\"n\"/>")]

def slashedDir : Path := ".//d".toList

/-- Behind the doubled slash the search goes no further, and the document is not surveyed. -/
theorem survey_misses_slashedDir : slashedTree.isDirectory slashedDir ∧
    slashedTree.find? (resolve slashedDir ++ ["a.xml".toList]) =
      some (.file (.text "<namespace name=\"n\"/>".toList)) ∧
    ∃ s, survey slashedTree slashedDir = .ok s ∧ s.files = 0 ∧ s.failures = [] ∧ s.model = ∅ := by
  obtain ⟨s, hs, htells⟩ := exists_survey slashedTree slashedDir
  have hlost : LosesWay slashedDir := by decide
  rw [FilePattern.filesIn_of_losesWay slashedTree hlost] at htells
  exact ⟨by decide +kernel, by decide +kernel, s, hs, htells.files, htells.failures, htells.model⟩

end DocTools.Reference
