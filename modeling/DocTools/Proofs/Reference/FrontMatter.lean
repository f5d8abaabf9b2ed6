import DocTools.Except
import DocTools.Proofs.Text.Lines
import DocTools.Reference.Page
import DocTools.Reference.Reader

/-! # What pages begin with

Every page begins with a title and a description between lines of dashes, as long as a title is one
line. Titles are made of names, and a name is taken from a document as it stands there, with its line
breaks. The main statement, `pages_open_iff`, says for which names the pages begin as they have to; a
document with a name in lines of its own is one for which they do not (`page_breaks_linedName`). -/
namespace DocTools

namespace Text
set_option autoImplicit false

variable {line other x y : Text}

/-- The first line is known by the newline behind it. -/
theorem line_unique (h : '\n' ∉ line) (h' : '\n' ∉ other)
    (heq : line ++ '\n' :: x = other ++ '\n' :: y) : line = other ∧ x = y := by
  have hline : breakAt? '\n' (line ++ '\n' :: x) = some (line, x) := breakAt?_eq_some_iff.mpr ⟨rfl, h⟩
  have hother := breakAt?_eq_some_iff.mpr ⟨heq, h'⟩
  exact Prod.mk.inj (Option.some.inj (hline.symm.trans hother))

/-- What stands behind some newline stands behind the first one. -/
theorem suffix_of_newline (h : '\n' ∉ line) (heq : line ++ '\n' :: x = other ++ '\n' :: y) : y <:+ x := by
  induction line generalizing other with
  | nil =>
    cases other with
    | nil => exact (List.cons.inj heq).2 ▸ List.suffix_rfl
    | cons c other => exact ⟨other ++ ['\n'], by simpa using (List.cons.inj heq).2.symm⟩
  | cons c line ih =>
    rw [List.mem_cons, not_or] at h
    cases other with
    | nil => exact absurd (List.cons.inj heq).1.symm h.1
    | cons d other => exact ih h.2 (List.cons.inj heq).2

end Text

namespace Reference
set_option autoImplicit false

open Text (ofLines)

/-! ## Lines of front matter -/

/-- One line that says something. -/
structure IsFilledLine (text : Text) : Prop where
  newline_not_mem : '\n' ∉ text
  return_not_mem : '\r' ∉ text
  not_blank : text.allBlank = false

instance (text : Text) : Decidable (IsFilledLine text) :=
  decidable_of_iff ('\n' ∉ text ∧ '\r' ∉ text ∧ text.allBlank = false)
    ⟨fun h => ⟨h.1, h.2.1, h.2.2⟩, fun h => ⟨h.1, h.2, h.3⟩⟩

def descriptionLead : Text := "description: ".toList

def closingDashes : Text := "---".toList

/-- The lines from a title on: the description, the dashes and an empty line. -/
def titleLines (title description : Text) : List Text :=
  [title, descriptionLead ++ description, closingDashes, []]

/-- A page begins with dashes, a title, a description, dashes and an empty line. -/
def Opens (content : Text) : Prop :=
  ∃ title description rest, IsFilledLine title ∧ IsFilledLine description ∧
    content = "---\ntitle: ".toList ++ (ofLines (titleLines title description) ++ rest)

/-- A text that goes on with a description of its own, dashes and an empty line, so that what follows
it is not taken for front matter. -/
def BringsDescription (text : Text) : Prop :=
  ∃ title description rest, IsFilledLine title ∧ IsFilledLine description ∧
    text ++ ['\n'] = ofLines (titleLines title description) ++ rest

/-- A text that can stand as a title. -/
def FitsTitle (text : Text) : Prop := IsFilledLine text ∨ BringsDescription text

section
variable {title description line rest : Text}

theorem ofLines_titleLines_append (title description rest : Text) :
    ofLines (titleLines title description) ++ rest =
      title ++ '\n' :: (descriptionLead ++ description ++ '\n' :: (closingDashes ++ '\n' :: '\n' :: rest)) := by
  simp only [ofLines, titleLines, List.flatMap_cons, List.flatMap_nil, List.append_nil,
    List.append_assoc, List.nil_append, List.cons_append]

theorem frontMatter_append (title description rest : Text) :
    frontMatter title description ++ rest =
      "---\ntitle: ".toList ++ (ofLines (titleLines title description) ++ rest) := by
  have hlead : "\ndescription: ".toList = '\n' :: descriptionLead := rfl
  have hdashes : "\n---\n\n".toList = '\n' :: (closingDashes ++ ['\n', '\n']) := rfl
  unfold frontMatter
  rw [ofLines_titleLines_append, hlead, hdashes]
  generalize "---\ntitle: ".toList = opening
  simp only [List.append_assoc, List.cons_append, List.nil_append]

theorem FitsTitle.exists_line (h : FitsTitle title) :
    ∃ line, IsFilledLine line ∧ ∃ rest, title ++ ['\n'] = line ++ '\n' :: rest := by
  rcases h with hfilled | ⟨line, description, rest, hline, -, heq⟩
  · exact ⟨title, hfilled, [], rfl⟩
  · rw [ofLines_titleLines_append] at heq
    exact ⟨line, hline, _, heq⟩

/-- A title over several lines brings its own description, as the one behind it does not follow its
first line. -/
theorem bringsDescription_of_lines {more known : Text} (hline : IsFilledLine line)
    (hdescription : IsFilledLine description)
    (heq : more ++ '\n' :: (descriptionLead ++ known) =
      descriptionLead ++ description ++ '\n' :: (closingDashes ++ '\n' :: '\n' :: rest)) :
    BringsDescription (line ++ '\n' :: more) := by
  have hnewline : '\n' ∉ descriptionLead ++ description := by
    rw [List.mem_append, not_or]
    exact ⟨by decide, hdescription.newline_not_mem⟩
  have hbrings (behind : Text) (h : more ++ ['\n'] =
      descriptionLead ++ description ++ '\n' :: (closingDashes ++ '\n' :: '\n' :: behind)) :
      BringsDescription (line ++ '\n' :: more) := by
    refine ⟨line, description, behind, hline, hdescription, ?_⟩
    rw [ofLines_titleLines_append, ← h, List.append_assoc, List.cons_append]
  have hahead : (more ++ ['\n']) ++ (descriptionLead ++ known) =
      (descriptionLead ++ description ++ '\n' :: (closingDashes ++ ['\n', '\n'])) ++ rest := by
    simpa only [List.append_assoc, List.cons_append, List.nil_append] using heq
  rcases List.append_eq_append_iff.mp hahead with ⟨m, hm, hlead⟩ | ⟨m, hm, -⟩
  · cases m with
    | nil => exact hbrings [] (by simpa using hm.symm)
    | cons c m =>
      -- the known description starts behind the dashes, or its first character is one of them
      have hc : c = 'd' := (List.cons.inj hlead).1.symm
      have hmem : c :: m <:+ closingDashes ++ ['\n', '\n'] :=
        Text.suffix_of_newline hnewline (by simpa using hm)
      exact absurd (hmem.subset List.mem_cons_self) (by rw [hc]; decide)
  · exact hbrings m (by simpa using hm)

/-- The front matter that a title makes, if the description is one line as long as the title is. -/
theorem opens_frontMatter_iff (h : IsFilledLine title → IsFilledLine description) :
    Opens (frontMatter title description ++ rest) ↔ FitsTitle title := by
  rw [frontMatter_append]
  constructor
  · rintro ⟨line, said, behind, hline, hsaid, heq⟩
    have heq := List.append_cancel_left heq
    rw [ofLines_titleLines_append, ofLines_titleLines_append] at heq
    by_cases hnewline : '\n' ∈ title
    · obtain ⟨first, more, rfl, hfirst⟩ := List.eq_append_cons_of_mem hnewline
      rw [List.append_assoc, List.cons_append] at heq
      obtain ⟨rfl, hmore⟩ := Text.line_unique hfirst hline.newline_not_mem heq
      rw [List.append_assoc descriptionLead description] at hmore
      exact .inr (bringsDescription_of_lines hline hsaid hmore)
    · obtain ⟨rfl, -⟩ := Text.line_unique hnewline hline.newline_not_mem heq
      exact .inl hline
  · rintro (hfilled | ⟨line, said, behind, hline, hsaid, heq⟩)
    · exact ⟨title, description, rest, hfilled, h hfilled, rfl⟩
    · refine ⟨line, said, behind ++ (descriptionLead ++ description ++
        '\n' :: (closingDashes ++ '\n' :: '\n' :: rest)), hline, hsaid, ?_⟩
      rw [ofLines_titleLines_append title, List.append_cons, heq, List.append_assoc]

end

/-! ## Pages -/

/-- A description that is made of a title is one line as long as the title is. -/
theorem isFilledLine_around (before behind : Text) {title : Text} (h : IsFilledLine title)
    (hbefore : '\n' ∉ before ∧ '\r' ∉ before) (hbehind : '\n' ∉ behind ∧ '\r' ∉ behind) :
    IsFilledLine (before ++ title ++ behind) where
  newline_not_mem := by simp [h.newline_not_mem, hbefore.1, hbehind.1]
  return_not_mem := by simp [h.return_not_mem, hbefore.2, hbehind.2]
  not_blank := by
    have hblank := h.not_blank
    simp only [Text.allBlank] at hblank ⊢
    rw [List.all_append, List.all_append, hblank, Bool.and_false, Bool.false_and]

theorem opens_class_iff (c : Class) : Opens c.render ↔ FitsTitle c.name := by
  unfold Class.render
  simp only [List.append_assoc (frontMatter _ _)]
  exact opens_frontMatter_iff fun h => isFilledLine_around _ _ h (by decide) (by decide)

theorem opens_functionsPage (owner : Text) (functions : List Function) :
    Opens (functionsPage owner functions) := by
  unfold functionsPage
  simp only [List.append_assoc (frontMatter _ _)]
  exact (opens_frontMatter_iff fun _ => by decide).mpr (.inl (by decide))

/-- The title of the overview of a namespace. -/
def Namespace.title (n : Namespace) : Text := n.name ++ " namespace".toList

theorem opens_overview_iff (n : Namespace) : Opens n.overview ↔ FitsTitle n.title := by
  unfold Namespace.overview
  simp only [List.append_assoc (frontMatter _ _)]
  refine opens_frontMatter_iff fun h => ?_
  have haround := isFilledLine_around "API reference for the ".toList [] h (by decide) (by decide)
  simpa [Namespace.title] using haround

theorem Namespace.opens_pages_iff (n : Namespace) (index : Bool) :
    (∀ page ∈ n.pages index, Opens page.content) ↔
      (∀ c ∈ n.classes, FitsTitle c.name) ∧ (index = true → FitsTitle n.title) := by
  have hfunctions : ∀ page ∈ (if n.functions.isEmpty then []
      else [⟨functionsPageName, functionsPage n.name n.functions⟩] : List Page), Opens page.content := by
    intro page hpage
    split at hpage
    · cases hpage
    · obtain rfl := List.mem_singleton.mp hpage
      exact opens_functionsPage n.name n.functions
  have hindex : (∀ page ∈ (if index then [⟨indexPage, n.overview⟩] else [] : List Page),
      Opens page.content) ↔ (index = true → FitsTitle n.title) := by
    cases index with
    | false => exact ⟨fun _ h => absurd h Bool.false_ne_true, fun _ _ h => absurd h List.not_mem_nil⟩
    | true => simp only [if_true, List.forall_mem_singleton, opens_overview_iff, forall_const]
  have hclasses : (∀ page ∈ n.classes.map Class.page, Opens page.content) ↔
      ∀ c ∈ n.classes, FitsTitle c.name := by
    rw [List.forall_mem_map]
    exact forall₂_congr fun c _ => opens_class_iff c
  unfold Namespace.pages
  rw [List.forall_mem_append, List.forall_mem_append, hindex, hclasses, and_iff_left hfunctions,
    and_comm]

/-- The pages of any model begin as they have to exactly if the names of the classes that are
documented can stand as titles, and the name of the namespace where it has a page. -/
theorem pages_open_iff (g : Generator) (model : Model) :
    (∀ page ∈ g.pages model, Opens page.content) ↔
      ∀ n, model.get? g.target = some n →
        (∀ c ∈ n.classes, FitsTitle c.name) ∧ (g.index = true → FitsTitle n.title) := by
  unfold Generator.pages
  split
  next hget =>
    constructor
    · intro _ n hn
      exact nomatch hget.symm.trans hn
    · intro _ page hpage
      exact absurd hpage List.not_mem_nil
  next n hget =>
    rw [n.opens_pages_iff]
    constructor
    · rintro h other hother
      obtain rfl := Option.some.inj (hget.symm.trans hother)
      exact h
    · exact fun h => h n hget

/-- A class without anything in it, its name in lines of their own. -/
def linedClass : Class := ⟨"\n  Step\n".toList, [], [], standardTarget, [], [], [], false, []⟩

def linedNameText : Text :=
  "<namespace name=\"allure\"><class><name>\n  Step\n</name></class></namespace>".toList

def linedNameRoot : Xml.Node :=
  .element namespaceWord [⟨none, nameWord, standardTarget⟩]
    [.element classWord [] [.element nameWord [] [.text linedClass.name]]]

/-- A name that stands in a line of its own is taken with the line breaks around it, so nothing stands
behind the word for the title. -/
theorem page_breaks_linedName :
    ∃ found page, read linedNameText = .ok found ∧
      page ∈ Generator.standard.pages (Model.merge ∅ found) ∧ ¬Opens page.content := by
  have hparse : Xml.parse linedNameText = .ok linedNameRoot := eq_ok_of_toOption (by decide +kernel)
  refine ⟨_, linedClass.page, read_eq_ok hparse, by decide +kernel, fun hopens => ?_⟩
  obtain ⟨line, hline, rest, heq⟩ := ((opens_class_iff linedClass).mp hopens).exists_line
  have hnil : '\n' ∉ ([] : Text) := List.not_mem_nil
  obtain ⟨rfl, -⟩ := Text.line_unique hnil hline.newline_not_mem heq
  exact absurd hline.not_blank (by decide)

end Reference
end DocTools
