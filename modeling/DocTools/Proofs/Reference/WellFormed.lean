import DocTools.Except
import DocTools.Proofs.Reference.Merging
import DocTools.Proofs.Text.Trim
import DocTools.Reference.Reader

/-! # Models that come from documents

What pages are made from has no empty names and no blanks around its texts, and whatever stands in a
namespace says so itself. This is nowhere checked: it holds as every part is read so, and as merging
keeps it. The main statement, `wellFormed_of_reached`, is about any number of documents. -/
namespace DocTools

namespace Text
set_option autoImplicit false

variable {glue : Text} {pieces : List Text}

theorem join_ne_nil (hne : pieces ≠ []) (h : ∀ piece ∈ pieces, piece ≠ []) : join glue pieces ≠ [] := by
  cases pieces with
  | nil => exact absurd rfl hne
  | cons piece pieces =>
    have hpiece := h piece List.mem_cons_self
    by_cases hmore : pieces = []
    · subst hmore
      exact hpiece
    · rw [join_cons glue piece hmore]
      simp [hpiece]

/-- Joined pieces have no blanks at the ends when the pieces have none. -/
theorem isTrimmed_join (h : ∀ piece ∈ pieces, piece ≠ [] ∧ IsTrimmed piece) :
    IsTrimmed (join glue pieces) := by
  induction pieces with
  | nil => exact isTrimmed_nil
  | cons piece pieces ih =>
    obtain ⟨hne, htrimmed⟩ := h piece List.mem_cons_self
    have hrest := fun p hp => h p (List.mem_cons_of_mem piece hp)
    by_cases hmore : pieces = []
    · subst hmore
      exact htrimmed
    · rw [join_cons glue piece hmore]
      exact htrimmed.append (ih hrest) hne (join_ne_nil hmore fun p hp => (hrest p hp).1) glue

end Text

namespace Reference
set_option autoImplicit false

open Text (IsTrimmed)
open Xml (Node)

/-! ## Well-formed models -/

structure Function.WellFormed (f : Function) : Prop where
  name : f.name ≠ []
  returnType : f.returnType ≠ []
  templateParams : ∀ param ∈ f.templateParams, param ≠ []
  brief : IsTrimmed f.brief
  description : IsTrimmed f.description
  returnDescription : IsTrimmed f.returnDescription
  parameters : ∀ p ∈ f.parameters, IsTrimmed p.description

structure Member.WellFormed (m : Member) : Prop where
  name : m.name ≠ []
  brief : IsTrimmed m.brief
  description : IsTrimmed m.description

structure Class.WellFormed (c : Class) : Prop where
  name : c.name ≠ []
  brief : IsTrimmed c.brief
  description : IsTrimmed c.description
  methods : ∀ f ∈ c.methods, f.WellFormed
  members : ∀ m ∈ c.members, m.WellFormed
  baseClasses : ∀ base ∈ c.baseClasses, base ≠ []
  templateParams : ∀ param ∈ c.templateParams, param ≠ []
  isTemplate_iff : c.isTemplate ↔ c.templateParams ≠ []

/-- Classes and functions are filed under the namespace that they are in. -/
structure Namespace.WellFormed (n : Namespace) : Prop where
  name : n.name ≠ []
  brief : IsTrimmed n.brief
  description : IsTrimmed n.description
  classes : ∀ c ∈ n.classes, c.WellFormed ∧ c.owner = n.name
  functions : ∀ f ∈ n.functions, f.WellFormed ∧ f.owner = n.name

def Model.WellFormed (model : Model) : Prop :=
  ∀ key n, model.get? key = some n → n.name = key ∧ n.WellFormed

/-! ## What is read from an element -/

section
variable {node : Node} {owner text : Text}

theorem ne_nil_of_nonEmpty? {said : Option Text} (h : nonEmpty? said = some text) : text ≠ [] :=
  (nonEmpty?_eq_some_iff.mp h).2

theorem trimmed_of_trimmedText? (h : trimmedText? node = some text) : text ≠ [] ∧ IsTrimmed text := by
  refine ⟨ne_nil_of_nonEmpty? h, ?_⟩
  obtain ⟨raw, -, rfl⟩ := Option.map_eq_some_iff.mp (nonEmpty?_eq_some_iff.mp h).1
  exact Text.isTrimmed_trim raw

theorem ne_nil_of_nameOf? (h : nameOf? node = some text) : text ≠ [] := (nameOf?_eq_some_iff.mp h).1

theorem ne_nil_of_baseName? (h : baseName? node = some text) : text ≠ [] := by
  rcases Option.or_eq_some_iff.mp h with h | ⟨-, h⟩
  · exact ne_nil_of_nonEmpty? h
  · exact (trimmed_of_trimmedText? h).1

theorem isTrimmed_docText (heading : Text) (node : Node) : IsTrimmed (docText heading node) := by
  unfold docText
  split
  · exact Text.isTrimmed_nil
  · refine Text.isTrimmed_join fun piece hpiece => ?_
    obtain ⟨part, -, htext⟩ := List.mem_filterMap.mp hpiece
    exact trimmed_of_trimmedText? htext

theorem ne_nil_of_mem_templateParams (h : text ∈ templateParams node) : text ≠ [] := by
  obtain ⟨param, -, hname⟩ := List.mem_filterMap.mp h
  exact ne_nil_of_nameOf? hname

/-- What holds of a text that is said and of the one taken otherwise. -/
theorem getD_of_said {P : Text → Prop} {said : Option Text} {otherwise : Text} (hother : P otherwise)
    (hsaid : ∀ text, said = some text → P text) : P (said.getD otherwise) := by
  cases said with
  | none => exact hother
  | some text => exact hsaid text rfl

theorem returnType_ne_nil (node : Node) : returnType node ≠ [] :=
  getD_of_said (P := (· ≠ [])) (List.cons_ne_nil _ _) fun _ => ne_nil_of_nonEmpty?

theorem isTrimmed_paramDescription (doc : Option Node) (name : Text) :
    IsTrimmed (paramDescription doc name) := by
  unfold paramDescription
  split
  · exact Text.isTrimmed_nil
  · refine getD_of_said Text.isTrimmed_nil fun text hfirst => ?_
    obtain ⟨entry, -, htext⟩ := List.mem_filterMap.mp (List.mem_of_head? hfirst)
    obtain ⟨said, -, htrimmed⟩ := Option.bind_eq_some_iff.mp htext
    exact (trimmed_of_trimmedText? htrimmed).2

/-! ## One part after another -/

theorem wellFormed_of_function? {f : Function} (h : function? owner node = some f) :
    f.WellFormed ∧ f.owner = owner := by
  obtain ⟨name, hname, rfl⟩ := Option.map_eq_some_iff.mp h
  refine ⟨?_, rfl⟩
  constructor
  case name => exact ne_nil_of_nameOf? hname
  case returnType => exact returnType_ne_nil node
  case templateParams => exact fun param => ne_nil_of_mem_templateParams
  case brief => exact isTrimmed_docText briefWord node
  case description => exact isTrimmed_docText descriptionWord node
  case returnDescription => exact isTrimmed_docText _ node
  case parameters =>
    intro p hp
    obtain ⟨param, -, rfl⟩ := List.mem_map.mp hp
    exact isTrimmed_paramDescription _ _

theorem wellFormed_of_member? {m : Member} (h : member? node = some m) : m.WellFormed := by
  obtain ⟨name, hname, rfl⟩ := Option.map_eq_some_iff.mp h
  exact ⟨ne_nil_of_nameOf? hname, isTrimmed_docText briefWord node,
    isTrimmed_docText descriptionWord node⟩

theorem wellFormed_of_class? {c : Class} (h : class? owner node = some c) :
    c.WellFormed ∧ c.owner = owner := by
  obtain ⟨name, hname, rfl⟩ := Option.map_eq_some_iff.mp h
  refine ⟨?_, rfl⟩
  constructor
  case name => exact ne_nil_of_nameOf? hname
  case brief => exact isTrimmed_docText briefWord node
  case description => exact isTrimmed_docText descriptionWord node
  case methods =>
    intro f hf
    obtain ⟨child, -, hfunction⟩ := List.mem_filterMap.mp hf
    exact (wellFormed_of_function? hfunction).1
  case members =>
    intro m hm
    obtain ⟨below, -, hmember⟩ := List.mem_filterMap.mp hm
    exact wellFormed_of_member? hmember
  case baseClasses =>
    intro base hbase
    obtain ⟨below, -, hname⟩ := List.mem_filterMap.mp hbase
    exact ne_nil_of_baseName? hname
  case templateParams => exact fun param => ne_nil_of_mem_templateParams
  case isTemplate_iff => simp

/-! ## Fragments of a document -/

theorem wellFormed_of_namespace? {n : Namespace} (h : namespace? node = some n) : n.WellFormed := by
  obtain ⟨name, hname, rfl⟩ := Option.map_eq_some_iff.mp h
  constructor
  case name => exact ne_nil_of_nameOf? hname
  case brief => exact isTrimmed_docText briefWord node
  case description => exact isTrimmed_docText descriptionWord node
  case classes =>
    intro c hc
    obtain ⟨child, -, hclass⟩ := List.mem_filterMap.mp hc
    exact wellFormed_of_class? hclass
  case functions =>
    intro f hf
    obtain ⟨child, -, hfunction⟩ := List.mem_filterMap.mp hf
    exact wellFormed_of_function? hfunction

theorem statedNamespace_ne_nil (node : Node) : statedNamespace node ≠ [] :=
  getD_of_said (P := (· ≠ [])) (List.cons_ne_nil _ _) fun _ => ne_nil_of_nonEmpty?

/-- A fragment that only has what it was made for. -/
theorem wellFormed_lone {name : Text} {classes : List Class} {functions : List Function}
    (hname : name ≠ []) (hclasses : ∀ c ∈ classes, c.WellFormed ∧ c.owner = name)
    (hfunctions : ∀ f ∈ functions, f.WellFormed ∧ f.owner = name) :
    Namespace.WellFormed { Namespace.named name with classes := classes, functions := functions } :=
  ⟨hname, Text.isTrimmed_nil, Text.isTrimmed_nil, hclasses, hfunctions⟩

theorem wellFormed_of_strayClass? {n : Namespace} (h : strayClass? node = some n) : n.WellFormed := by
  obtain ⟨c, hclass, rfl⟩ := Option.map_eq_some_iff.mp h
  obtain ⟨hc, howner⟩ := wellFormed_of_class? hclass
  refine wellFormed_lone (howner ▸ statedNamespace_ne_nil node) ?_ fun _ hf => nomatch hf
  intro d hd
  rw [List.mem_singleton.mp hd]
  exact ⟨hc, rfl⟩

theorem wellFormed_of_strayFunction? {n : Namespace} (h : strayFunction? node = some n) :
    n.WellFormed := by
  obtain ⟨f, hfunction, rfl⟩ := Option.map_eq_some_iff.mp h
  obtain ⟨hf, howner⟩ := wellFormed_of_function? hfunction
  refine wellFormed_lone (howner ▸ statedNamespace_ne_nil node) (fun _ hc => nomatch hc) ?_
  intro g hg
  rw [List.mem_singleton.mp hg]
  exact ⟨hf, rfl⟩

theorem wellFormed_of_mem_fragments {root : Node} {n : Namespace} (h : n ∈ fragments root) :
    n.WellFormed := by
  simp only [fragments, List.mem_append, List.mem_filterMap] at h
  rcases h with (⟨o, -, h⟩ | ⟨o, -, h⟩) | ⟨o, -, h⟩
  · exact wellFormed_of_namespace? h
  · exact wellFormed_of_strayClass? h
  · exact wellFormed_of_strayFunction? h

theorem wellFormed_of_mem_read {n : Namespace} {found : List Namespace} (h : read text = .ok found)
    (hn : n ∈ found) : n.WellFormed := by
  unfold read at h
  cases hroot : Xml.parse text with
  | error e =>
    rw [hroot] at h
    cases h
  | ok root =>
    rw [hroot] at h
    cases h
    exact wellFormed_of_mem_fragments hn

end

/-! ## Merging -/

theorem isTrimmed_firstText {a b : Text} (ha : IsTrimmed a) (hb : IsTrimmed b) :
    IsTrimmed (firstText a b) := by
  unfold firstText
  split
  · exact hb
  · exact ha

theorem Namespace.WellFormed.append {n m : Namespace} (hn : n.WellFormed) (hm : m.WellFormed)
    (hname : m.name = n.name) : (n.append m).WellFormed where
  name := hn.name
  brief := isTrimmed_firstText hn.brief hm.brief
  description := isTrimmed_firstText hn.description hm.description
  classes c hc := by
    rcases List.mem_append.mp hc with hc | hc
    · exact hn.classes c hc
    · exact ⟨(hm.classes c hc).1, (hm.classes c hc).2.trans hname⟩
  functions f hf := by
    rcases List.mem_append.mp hf with hf | hf
    · exact hn.functions f hf
    · exact ⟨(hm.functions f hf).1, (hm.functions f hf).2.trans hname⟩

namespace Model

variable {model : Model}

theorem wellFormed_empty : WellFormed Dictionary.empty := fun _ _ h => nomatch h

theorem WellFormed.add (h : WellFormed model) {fragment : Namespace} (hf : fragment.WellFormed) :
    WellFormed (model.add fragment) := by
  intro key n hn
  rw [Model.get?_add] at hn
  split at hn
  · rename_i hkey
    subst hkey
    cases hknown : model.get? fragment.name with
    | none =>
      rw [hknown] at hn
      cases hn
      exact ⟨rfl, hf⟩
    | some known =>
      rw [hknown] at hn
      cases hn
      obtain ⟨hname, hwell⟩ := h _ _ hknown
      exact ⟨hname, hwell.append hf hname.symm⟩
  · exact h key n hn

theorem WellFormed.merge (h : WellFormed model) {found : List Namespace}
    (hfound : ∀ n ∈ found, n.WellFormed) : WellFormed (model.merge found) := by
  induction found generalizing model with
  | nil => exact h
  | cons fragment found ih =>
    exact ih (h.add (hfound fragment List.mem_cons_self))
      fun n hn => hfound n (List.mem_cons_of_mem fragment hn)

/-- A model that comes from the empty one by reading documents and merging their fragments. -/
inductive Reached : Model → Prop
  | empty : Reached Dictionary.empty
  | merge {model : Model} {text : Text} {found : List Namespace} (reached : Reached model)
      (reads : read text = .ok found) : Reached (model.merge found)

/-- Whatever documents a model comes from, it is well formed. -/
theorem wellFormed_of_reached (h : Reached model) : WellFormed model := by
  induction h with
  | empty => exact wellFormed_empty
  | merge _ reads ih => exact ih.merge fun _ hn => wellFormed_of_mem_read reads hn

/-- A class of a namespace, and in another document a stray one that states the namespace. -/
def dialDocument : Text :=
  "<namespace name=\"a\"><class name=\"Dial\"><template-param name=\"T\"/></class></namespace>".toList

def knobDocument : Text :=
  ("<r><namespace name=\"a\"><doc><brief><text> turns </text></brief></doc></namespace>" ++
    "<class name=\"Knob\" namespace=\"a\"/></r>").toList

theorem wellFormed_of_reached_dialAndKnob : ∃ dial knob model,
    read dialDocument = .ok dial ∧ read knobDocument = .ok knob ∧
    model = (Model.merge Dictionary.empty dial).merge knob ∧ Reached model ∧ WellFormed model ∧
    (model.get? ['a']).map (fun n => (n.brief, n.classes.map (·.name))) =
      some ("turns".toList, ["Dial".toList, "Knob".toList]) := by
  have hdial : read dialDocument = .ok ((read dialDocument).toOption.getD []) :=
    eq_ok_of_toOption (by decide +kernel)
  have hknob : read knobDocument = .ok ((read knobDocument).toOption.getD []) :=
    eq_ok_of_toOption (by decide +kernel)
  have hreached := (Reached.empty.merge hdial).merge hknob
  exact ⟨_, _, _, hdial, hknob, rfl, hreached, wellFormed_of_reached hreached, by decide +kernel⟩

end Model
end Reference
end DocTools
