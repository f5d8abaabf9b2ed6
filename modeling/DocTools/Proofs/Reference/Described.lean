import DocTools.Proofs.Reference.Provenance
import DocTools.Proofs.Xml.Change

/-! # Parameters and the entries that describe them

The parameters of a function stand beside its documentation, and the two are matched by name alone. The
main statement, `read_matches_by_name`, is for every function element of every document: a parameter is
described by the first entry under its name that says anything, entries under different names may change
places, entries under other names may come in, and parameters that are moved take their descriptions
along. -/
namespace DocTools.Reference
set_option autoImplicit false

open Xml (Node Address)

variable {entries kids kids' before after : List Node} {names : List Text} {name said : Text}
  {owner : Text} {node node' doc doc' entry : Node} {f : Function}

/-! ## What an entry tells -/

/-- An entry tells something of the parameter with a name: it stands under exactly this name, and the
text that its first `text` element begins with is not all blank. -/
def Tells (name : Text) (entry : Node) (said : Text) : Prop :=
  entry.attribute? nameWord = some name ∧ ∃ part raw, entry.child? textWord = some part ∧
    part.text? = some raw ∧ raw.allBlank = false ∧ said = raw.trim

/-- The description of a parameter among the entries of a documentation. -/
inductive Described (entries : List Node) (name : Text) : Text → Prop
  | unnamed (h : name = []) : Described entries name []
  | silent (h : name ≠ []) (hentries : ∀ entry ∈ entries, ∀ said, ¬Tells name entry said) :
      Described entries name []
  | told {before after : List Node} {entry : Node} {said : Text} (h : name ≠ [])
      (hentries : entries = before ++ entry :: after) (htells : Tells name entry said)
      (hfirst : ∀ earlier ∈ before, ∀ said, ¬Tells name earlier said) : Described entries name said

def told? (name : Text) (entry : Node) : Option Text :=
  if entry.attribute? nameWord = some name then (entry.child? textWord).bind trimmedText? else none

theorem trimmedText?_eq_some_iff : trimmedText? node = some said ↔
    ∃ raw, node.text? = some raw ∧ raw.allBlank = false ∧ said = raw.trim := by
  rw [trimmedText?, nonEmpty?, Option.filter_eq_some_iff, Option.map_eq_some_iff, Bool.not_eq_true',
    List.isEmpty_eq_false_iff]
  constructor
  · rintro ⟨⟨raw, hraw, rfl⟩, hne⟩
    exact ⟨raw, hraw, Bool.eq_false_iff.mpr fun hblank => hne (Text.trim_eq_nil_iff.mpr hblank), rfl⟩
  · rintro ⟨raw, hraw, hblank, rfl⟩
    refine ⟨⟨raw, hraw, rfl⟩, fun hnil => ?_⟩
    rw [Text.trim_eq_nil_iff.mp hnil] at hblank
    cases hblank

theorem told?_eq_some_iff : told? name entry = some said ↔ Tells name entry said := by
  unfold told? Tells
  split
  · next hname =>
    rw [Option.bind_eq_some_iff, and_iff_right hname]
    simp only [trimmedText?_eq_some_iff, exists_and_left]
  · next hname => exact ⟨fun hc => (nomatch hc), fun hc => absurd hc.1 hname⟩

theorem told?_eq_none_iff : told? name entry = none ↔ ∀ said, ¬Tells name entry said := by
  simp only [Option.eq_none_iff_forall_ne_some, ne_eq, told?_eq_some_iff]

/-- A description is settled by the entries and the name. -/
theorem described_iff : Described entries name said ↔
    said = if name = [] then [] else (entries.findSome? (told? name)).getD [] := by
  constructor
  · rintro (h | ⟨h, hentries⟩ | ⟨h, hentries, htells, hfirst⟩)
    · rw [if_pos h]
    · rw [if_neg h, List.findSome?_eq_none_iff.mpr fun e he => told?_eq_none_iff.mpr (hentries e he)]
      rfl
    · rw [if_neg h, List.findSome?_eq_some_iff.mpr ⟨_, _, _, hentries, told?_eq_some_iff.mpr htells,
        fun e he => told?_eq_none_iff.mpr (hfirst e he)⟩]
      rfl
  · rintro rfl
    by_cases h : name = []
    · rw [if_pos h]
      exact .unnamed h
    · rw [if_neg h]
      cases hfound : entries.findSome? (told? name) with
      | none =>
        exact .silent h fun e he => told?_eq_none_iff.mp (List.findSome?_eq_none_iff.mp hfound e he)
      | some said =>
        obtain ⟨_, _, _, hentries, htold, hfirst⟩ := List.findSome?_eq_some_iff.mp hfound
        exact .told h hentries (told?_eq_some_iff.mp htold)
          fun e he => told?_eq_none_iff.mp (hfirst e he)

/-! ## Parameters -/

/-- The entries for parameters in a documentation. -/
def docEntries (doc : Option Node) : List Node := (doc.map (Node.childrenNamed paramWord)).getD []

/-- The entries for one parameter. -/
def entriesUnder (name : Text) (doc : Option Node) : List Node :=
  (docEntries doc).filter fun entry => entry.attribute? nameWord = some name

theorem paramDescription_eq_head? (doc : Option Node) (name : Text) : paramDescription doc name =
    if name = [] then [] else
      ((entriesUnder name doc).filterMap fun entry =>
        (entry.child? textWord).bind trimmedText?).head?.getD [] := by
  unfold paramDescription
  simp only [List.isEmpty_iff]
  rfl

theorem paramDescription_eq_findSome? (doc : Option Node) (name : Text) : paramDescription doc name =
    if name = [] then [] else ((docEntries doc).findSome? (told? name)).getD [] := by
  rw [paramDescription_eq_head?, entriesUnder, List.filterMap_filter, List.head?_filterMap]
  simp only [decide_eq_true_eq]
  rfl

theorem paramDescription_congr {doc doc' : Option Node}
    (h : name ≠ [] → entriesUnder name doc' = entriesUnder name doc) :
    paramDescription doc' name = paramDescription doc name := by
  rw [paramDescription_eq_head?, paramDescription_eq_head?]
  split
  · rfl
  · next hne => rw [h hne]

/-- A parameter has the name of its element and the description under this name. -/
structure ParameterOf (entries : List Node) (element : Node) (p : Parameter) : Prop where
  name_eq : p.name = (element.attribute? nameWord).getD []
  described : ∀ said, Described entries p.name said ↔ said = p.description

theorem parameterOf_parameter (doc : Option Node) (element : Node) :
    ParameterOf (docEntries doc) element (parameter doc element) := by
  refine ⟨rfl, fun said => ?_⟩
  rw [described_iff, parameter, paramDescription_eq_findSome?]

theorem parameters_of_function? (h : function? owner node = some f) :
    f.parameters = (node.childrenNamed paramWord).map (parameter (node.child? docWord)) := by
  obtain ⟨-, -, rfl⟩ := Option.map_eq_some_iff.mp h
  rfl

/-- A parameter depends only on the entries under its own name. -/
theorem parameter_congr {doc doc' : Option Node} {element : Node}
    (h : (parameter doc element).name ≠ [] →
      entriesUnder (parameter doc element).name doc' = entriesUnder (parameter doc element).name doc) :
    parameter doc' element = parameter doc element := by
  have hsame := paramDescription_congr h
  unfold parameter at hsame ⊢
  dsimp only at hsame ⊢
  rw [hsame]

/-! ## Entries in another order, and entries of other names -/

/-- What stands in a documentation is changed, but under none of some names: neighbouring entries under
different names change places, entries under other names come in. -/
inductive Shuffled (names : List Text) : List Node → List Node → Prop
  | swap (front between rest : List Node) {entry other : Node} (hentry : entry.isNamed paramWord)
      (hother : other.isNamed paramWord) (hbetween : ∀ node ∈ between, ¬node.isNamed paramWord)
      (hne : entry.attribute? nameWord ≠ other.attribute? nameWord) :
      Shuffled names (front ++ entry :: (between ++ other :: rest))
        (front ++ other :: (between ++ entry :: rest))
  | add (front rest : List Node) {entry : Node} (hentry : entry.isNamed paramWord)
      (hother : ∀ name ∈ names, name ≠ [] → entry.attribute? nameWord ≠ some name) :
      Shuffled names (front ++ rest) (front ++ entry :: rest)
  | trans {a b c : List Node} (h : Shuffled names a b) (h' : Shuffled names b c) : Shuffled names a c

theorem Shuffled.filter_eq (h : Shuffled names kids kids') (hname : name ∈ names) (hne : name ≠ []) :
    (kids'.filter (Node.isNamed paramWord)).filter
        (fun entry => entry.attribute? nameWord = some name) =
      (kids.filter (Node.isNamed paramWord)).filter
        fun entry => entry.attribute? nameWord = some name := by
  induction h with
  | @swap front between rest entry other hentry hother hbetween hdiffer =>
    have hnone : between.filter (Node.isNamed paramWord) = [] := List.filter_eq_nil_iff.mpr hbetween
    simp only [List.filter_append, List.filter_cons_of_pos hentry, List.filter_cons_of_pos hother, hnone,
      List.nil_append, List.filter_cons, decide_eq_true_eq]
    congr 1
    -- at most one of the two stands under the name
    by_cases hfirst : entry.attribute? nameWord = some name
    · have hsecond : other.attribute? nameWord ≠ some name := fun hc => hdiffer (hfirst.trans hc.symm)
      simp only [if_pos hfirst, if_neg hsecond]
    · simp only [if_neg hfirst]
  | @add front rest entry hentry hother =>
    have hout := hother name hname hne
    simp only [List.filter_append, List.filter_cons_of_pos hentry, List.filter_cons, decide_eq_true_eq,
      if_neg hout]
  | trans h h' ih ih' => exact ih'.trans ih

/-- An element is changed inside its first `doc` element, and there under none of some names. -/
structure DocShuffled (names : List Text) (node node' : Node) (before after : List Node)
    (doc doc' : Node) : Prop where
  attributes : node'.attributes = node.attributes
  children : node.children = before ++ doc :: after
  children' : node'.children = before ++ doc' :: after
  first : ∀ child ∈ before, ¬child.isNamed docWord
  isNamed : doc.isNamed docWord
  isNamed' : doc'.isNamed docWord
  entries : Shuffled names doc.children doc'.children

section
variable (h : DocShuffled names node node' before after doc doc')
include h

theorem DocShuffled.child?_doc :
    node.child? docWord = some doc ∧ node'.child? docWord = some doc' := by
  have hbefore : before.find? (Node.isNamed docWord) = none := List.find?_eq_none.mpr h.first
  unfold Node.child?
  rw [h.children, h.children', List.find?_append, List.find?_append, hbefore,
    List.find?_cons_of_pos h.isNamed, List.find?_cons_of_pos h.isNamed']
  exact ⟨rfl, rfl⟩

theorem DocShuffled.child?_eq {word : Text} (hword : docWord ≠ word) :
    node'.child? word = node.child? word := by
  unfold Node.child?
  rw [h.children, h.children', List.find?_append, List.find?_append,
    List.find?_cons_of_neg fun hc => hword (Node.eq_of_isNamed h.isNamed hc),
    List.find?_cons_of_neg fun hc => hword (Node.eq_of_isNamed h.isNamed' hc)]

theorem DocShuffled.childrenNamed_eq {word : Text} (hword : docWord ≠ word) :
    node'.childrenNamed word = node.childrenNamed word := by
  unfold Node.childrenNamed
  rw [h.children, h.children', List.filter_append, List.filter_append,
    List.filter_cons_of_neg fun hc => hword (Node.eq_of_isNamed h.isNamed hc),
    List.filter_cons_of_neg fun hc => hword (Node.eq_of_isNamed h.isNamed' hc)]

end

theorem nameOf?_congr (hattributes : node'.attributes = node.attributes)
    (hchild : node'.child? nameWord = node.child? nameWord) : nameOf? node' = nameOf? node := by
  unfold nameOf? Node.attribute?
  rw [hattributes, hchild]

theorem exists_function? (h : function? owner node = some f) (hname : nameOf? node' = nameOf? node) :
    ∃ f', function? owner node' = some f' := by
  rw [← Option.isSome_iff_exists, isSome_function?, hname, ← isSome_function? owner, h]
  rfl

theorem exists_function?_of_docShuffled (hf : function? owner node = some f)
    (h : DocShuffled (f.parameters.map (·.name)) node node' before after doc doc') :
    ∃ f', function? owner node' = some f' ∧ f'.parameters = f.parameters := by
  obtain ⟨f', hf'⟩ := exists_function? hf (nameOf?_congr h.attributes (h.child?_eq (by decide)))
  obtain ⟨hdoc, hdoc'⟩ := h.child?_doc
  have hparameters := parameters_of_function? hf
  refine ⟨f', hf', ?_⟩
  rw [parameters_of_function? hf', hparameters, h.childrenNamed_eq (by decide), hdoc, hdoc']
  refine List.map_congr_left fun element helement => parameter_congr fun hne => ?_
  refine h.entries.filter_eq (List.mem_map_of_mem ?_) hne
  rw [hparameters, hdoc]
  exact List.mem_map_of_mem helement

/-! ## Parameters in another order -/

/-- The `param` children of an element are moved among its other children, which stay in order. -/
structure ParamsMoved (node node' : Node) : Prop where
  attributes : node'.attributes = node.attributes
  others : (node'.children.filter fun child => !child.isNamed paramWord) =
    node.children.filter fun child => !child.isNamed paramWord
  params : (node'.childrenNamed paramWord).Perm (node.childrenNamed paramWord)

theorem child?_eq_find?_others (node : Node) {word : Text} (hword : word ≠ paramWord) :
    node.child? word =
      (node.children.filter fun child => !child.isNamed paramWord).find? (Node.isNamed word) := by
  rw [List.find?_filter, Node.child?]
  congr 1
  funext child
  rw [Bool.eq_iff_iff, decide_eq_true_iff, Bool.not_eq_true']
  exact ⟨fun hc => ⟨Bool.eq_false_iff.mpr fun hp => hword (Node.eq_of_isNamed hc hp), hc⟩, And.right⟩

theorem ParamsMoved.child?_eq (h : ParamsMoved node node') {word : Text} (hword : word ≠ paramWord) :
    node'.child? word = node.child? word := by
  rw [child?_eq_find?_others node hword, child?_eq_find?_others node' hword, h.others]

theorem exists_function?_of_paramsMoved (hf : function? owner node = some f)
    (h : ParamsMoved node node') :
    ∃ f', function? owner node' = some f' ∧ f'.parameters.Perm f.parameters ∧
      ∀ i j : Nat, (node'.childrenNamed paramWord)[i]? = (node.childrenNamed paramWord)[j]? →
        f'.parameters[i]? = f.parameters[j]? := by
  obtain ⟨f', hf'⟩ := exists_function? hf (nameOf?_congr h.attributes (h.child?_eq (by decide)))
  refine ⟨f', hf', ?_⟩
  rw [parameters_of_function? hf', parameters_of_function? hf, h.child?_eq (by decide)]
  refine ⟨h.params.map _, fun i j hij => ?_⟩
  rw [List.getElem?_map, List.getElem?_map, hij]

/-! ## All function elements -/

/-- The parameters of a function are matched with the entries of its documentation by name. -/
structure MatchesByName (owner : Text) (node : Node) (f : Function) : Prop where
  parameters : List.Forall₂ (ParameterOf (docEntries (node.child? docWord)))
    (node.childrenNamed paramWord) f.parameters
  /-- Where the entries stand does not matter, nor what there is for other names. -/
  entries : ∀ node' before after doc doc',
    DocShuffled (f.parameters.map (·.name)) node node' before after doc doc' →
      ∃ f', function? owner node' = some f' ∧ f'.parameters = f.parameters
  /-- Parameters take their descriptions along. -/
  order : ∀ node', ParamsMoved node node' →
    ∃ f', function? owner node' = some f' ∧ f'.parameters.Perm f.parameters ∧
      ∀ i j : Nat, (node'.childrenNamed paramWord)[i]? = (node.childrenNamed paramWord)[j]? →
        f'.parameters[i]? = f.parameters[j]?

theorem matchesByName_of_function? (hf : function? owner node = some f) :
    MatchesByName owner node f := by
  refine ⟨?_, fun _ _ _ _ _ h => exists_function?_of_docShuffled hf h,
    fun _ h => exists_function?_of_paramsMoved hf h⟩
  rw [parameters_of_function? hf, List.forall₂_map_right_iff, List.forall₂_same]
  exact fun element _ => parameterOf_parameter _ element

/-- The functions in fragments: those of namespaces and the methods of classes. -/
def functionsIn (found : List Namespace) : List Function :=
  found.flatMap fun n => n.functions ++ n.classes.flatMap (·.methods)

theorem exists_of_forall₂ {α β : Type} {R : α → β → Prop} {as : List α} {bs : List β}
    (h : List.Forall₂ R as bs) {b : β} (hb : b ∈ bs) : ∃ a, R a b := by
  obtain ⟨i, rfl⟩ := List.get_of_mem hb
  have hi : i < as.length := by
    rw [h.length_eq]
    exact i.2
  exact ⟨as.get ⟨i, hi⟩, h.get hi i.2⟩

/-- Every function that is read off a document is described by one of its function elements. -/
theorem exists_functionAt {root : Node} (h : f ∈ functionsIn (fragments root)) :
    ∃ owner p, FunctionAt root owner p f := by
  obtain ⟨fragment, hfragment, hmem⟩ := List.mem_flatMap.mp h
  obtain ⟨o, ho⟩ := exists_of_forall₂ (forall₂_gives root) hfragment
  rcases List.mem_append.mp hmem with hfree | hmethod
  · obtain ⟨p, hp⟩ := exists_of_forall₂ ho.functions hfree
    exact ⟨fragment.name, p, hp⟩
  · obtain ⟨c, hc, hmethod⟩ := List.mem_flatMap.mp hmethod
    obtain ⟨q, hq⟩ := exists_of_forall₂ ho.classes hc
    obtain ⟨p, hp⟩ := exists_of_forall₂ hq.methods hmethod
    exact ⟨[], p, hp⟩

/-- In every document that parses, the functions come from function elements, and the parameters of each
such element are matched with the entries of its documentation by name. -/
theorem read_matches_by_name {text : Text} {root : Node} (h : Xml.parse text = .ok root) :
    ∃ found, read text = .ok found ∧ (∀ f ∈ functionsIn found, ∃ owner p, FunctionAt root owner p f) ∧
      ∀ owner p f, FunctionAt root owner p f →
        ∃ node, root.at? p = some node ∧ function? owner node = some f ∧ MatchesByName owner node f := by
  refine ⟨fragments root, read_eq_ok h, fun f hf => exists_functionAt hf, ?_⟩
  rintro owner p f ⟨node, hnode, -, hf⟩
  exact ⟨node, hnode, hf, matchesByName_of_function? hf⟩

/-- Entries under one name, the first of which is blank, and a parameter without a name. -/
def valveDocument : Text :=
  ("<function name=\"v\"><param name=\"a\"/><param/><doc><param name=\"a\"><text> </text></param>" ++
    "<param name=\"a\"><text> in </text></param></doc></function>").toList

theorem read_matches_by_name_valve : ∃ root, Xml.parse valveDocument = .ok root ∧
    ∃ found, read valveDocument = .ok found ∧
      (functionsIn found).map (fun f => f.parameters.map (·.description)) =
        [["in".toList, []]] ∧
      ∀ owner p f, FunctionAt root owner p f →
        ∃ node, root.at? p = some node ∧ function? owner node = some f ∧ MatchesByName owner node f := by
  have hread : ((read valveDocument).map fun found =>
      (functionsIn found).map fun f => f.parameters.map (·.description)) =
        .ok [["in".toList, []]] := by decide +kernel
  cases h : Xml.parse valveDocument with
  | error e =>
    rw [read, h] at hread
    cases hread
  | ok root =>
    obtain ⟨found, hfound, -, hmatches⟩ := read_matches_by_name h
    rw [hfound] at hread
    exact ⟨root, rfl, found, hfound, Except.ok.inj hread, hmatches⟩

end DocTools.Reference
