import Mathlib.Data.List.Perm.Basic
import DocTools.Except
import DocTools.Proofs.Reference.Merging
import DocTools.Proofs.Xml.Change
import DocTools.Reference.Reader

/-! # One file or several

A document makes its fragments in three passes: namespaces, then stray classes, then stray functions.
Split into several files under the same root tag, the passes come file by file, so the fragments come
in another order. The main statement: `merge_of_split`, by which the namespaces, their documentation
and what they hold stay the same, and only the order of classes and of functions may change. A stray
class or function carries no documentation of its namespace, so it does not matter where it comes. -/
namespace DocTools.Reference
set_option autoImplicit false

open Xml (Node Attribute)

/-! ## Equal but for the order -/

structure Namespace.SameButOrder (n m : Namespace) : Prop where
  name_eq : n.name = m.name
  brief_eq : n.brief = m.brief
  description_eq : n.description = m.description
  classes : n.classes.Perm m.classes
  functions : n.functions.Perm m.functions

structure Model.SameButOrder (a b : Model) : Prop where
  keys_eq : a.keys = b.keys
  namespaces : ∀ key n m, a.get? key = some n → b.get? key = some m → n.SameButOrder m

def isDocumented (n : Namespace) : Bool := !(n.brief.isEmpty && n.description.isEmpty)

/-- The same fragments, of which those with documentation come in the same order. -/
structure Rearranged (a b : List Namespace) : Prop where
  perm : a.Perm b
  documented : a.filter isDocumented = b.filter isDocumented

variable {a b : List Namespace}

theorem Rearranged.append_left (h : Rearranged a b) (before : List Namespace) :
    Rearranged (before ++ a) (before ++ b) where
  perm := h.perm.append_left before
  documented := by rw [List.filter_append, List.filter_append, h.documented]

theorem Rearranged.filter (h : Rearranged a b) (p : Namespace → Bool) :
    Rearranged (a.filter p) (b.filter p) where
  perm := h.perm.filter p
  documented := by rw [List.filter_comm, h.documented, List.filter_comm]

/-- What is said first is said by a fragment with documentation. -/
theorem firstSaid_filter_isDocumented {part : Namespace → Text}
    (hpart : ∀ n, part n ≠ [] → isDocumented n) (fragments : List Namespace) :
    firstSaid ((fragments.filter isDocumented).map part) = firstSaid (fragments.map part) := by
  induction fragments with
  | nil => rfl
  | cons fragment fragments ih =>
    by_cases h : isDocumented fragment
    · rw [List.filter_cons_of_pos h, List.map_cons, List.map_cons, firstSaid_cons, firstSaid_cons, ih]
    · have hsilent : part fragment = [] :=
        Classical.byContradiction fun hsaid => h (hpart fragment hsaid)
      rw [List.filter_cons_of_neg h, ih, List.map_cons, hsilent, firstSaid_cons]
      rfl

theorem isDocumented_of_brief {n : Namespace} (h : n.brief ≠ []) : isDocumented n := by
  unfold isDocumented
  rw [List.isEmpty_eq_false_iff.mpr h, Bool.false_and]
  rfl

theorem isDocumented_of_description {n : Namespace} (h : n.description ≠ []) : isDocumented n := by
  unfold isDocumented
  rw [List.isEmpty_eq_false_iff.mpr h, Bool.and_false]
  rfl

theorem Rearranged.firstSaid_eq (h : Rearranged a b) {part : Namespace → Text}
    (hpart : ∀ n, part n ≠ [] → isDocumented n) :
    firstSaid (a.map part) = firstSaid (b.map part) := by
  rw [← firstSaid_filter_isDocumented hpart a, h.documented, firstSaid_filter_isDocumented hpart b]

theorem Rearranged.sameButOrder (h : Rearranged a b) {n m : Namespace} (hn : Joins a n)
    (hm : Joins b m) (hname : n.name = m.name) : n.SameButOrder m where
  name_eq := hname
  brief_eq := by
    rw [hn.brief_eq, hm.brief_eq, h.firstSaid_eq fun _ => isDocumented_of_brief]
  description_eq := by
    rw [hn.description_eq, hm.description_eq, h.firstSaid_eq fun _ => isDocumented_of_description]
  classes := by
    rw [hn.classes_eq, hm.classes_eq]
    exact h.perm.flatMap_right _
  functions := by
    rw [hn.functions_eq, hm.functions_eq]
    exact h.perm.flatMap_right _

/-! ## Merging fragments in another order -/

theorem Joins.name_mem {parts : List Namespace} {whole : Namespace} (h : Joins parts whole) :
    ∃ first others, parts = first :: others ∧ whole.name = first.name := by
  cases parts with
  | nil => cases h.name_eq
  | cons first others => exact ⟨first, others, rfl, Option.some.inj h.name_eq.symm⟩

/-- A namespace takes its name from the one before or, when there is none, has it as its key. -/
theorem Joins.name_of_partsOf {model : Model} {fragments : List Namespace} {key : Text}
    {whole : Namespace} (h : Joins (model.partsOf fragments key) whole) :
    whole.name = ((model.get? key).map (·.name)).getD key := by
  obtain ⟨first, others, hparts, hname⟩ := h.name_mem
  unfold Model.partsOf at hparts
  cases hknown : model.get? key with
  | some known =>
    rw [hknown] at hparts
    rw [hname, ← (List.cons.inj hparts).1]
    rfl
  | none =>
    rw [hknown] at hparts
    have hfirst : first ∈ fragments.filter (·.name = key) := by
      have hmem : first ∈ [] ++ fragments.filter (·.name = key) := hparts ▸ List.mem_cons_self
      exact hmem
    rw [hname]
    simpa using (List.mem_filter.mp hfirst).2

theorem Model.merge_rearranged (model : Model) (h : Rearranged a b) :
    Model.SameButOrder (model.merge a) (model.merge b) where
  keys_eq := Dictionary.keys_eq fun key => by
    simp only [mem_keys_merge_iff, h.perm.mem_iff]
  namespaces := by
    intro key n m hn hm
    rw [get?_merge, join?_eq_some_iff] at hn hm
    have hparts : Rearranged (model.partsOf a key) (model.partsOf b key) :=
      (h.filter (·.name = key)).append_left _
    exact hparts.sameButOrder hn hm (hn.name_of_partsOf.trans hm.name_of_partsOf.symm)

/-! ## The three passes -/

def ownFragment? (o : Node.Occurrence) : Option Namespace :=
  if o.node.isNamed namespaceWord then namespace? o.node else none

def strayClassFragment? (o : Node.Occurrence) : Option Namespace :=
  if isStrayClass o then strayClass? o.node else none

def strayFunctionFragment? (o : Node.Occurrence) : Option Namespace :=
  if isStrayFunction o then strayFunction? o.node else none

/-- What a pass makes of some elements that stand in a parent. -/
def passOver (give : Node.Occurrence → Option Namespace) (parent : Node) (nodes : List Node) :
    List Namespace := (Node.occurrencesIn parent nodes).filterMap give

theorem fragments_eq_passes (root : Node) : fragments root =
    (root.occurrences none).filterMap ownFragment? ++
      (root.occurrences none).filterMap strayClassFragment? ++
      (root.occurrences none).filterMap strayFunctionFragment? := by
  unfold fragments
  dsimp only
  rw [List.filterMap_filter, List.filterMap_filter, List.filterMap_filter]
  rfl

section
variable {give : Node.Occurrence → Option Namespace}

theorem passOver_append (parent : Node) (before after : List Node) :
    passOver give parent (before ++ after) = passOver give parent before ++ passOver give parent after := by
  unfold passOver
  rw [Node.occurrencesIn_append, List.filterMap_append]

theorem passOver_flatten (parent : Node) (parts : List (List Node)) :
    passOver give parent parts.flatten = parts.flatMap (passOver give parent) := by
  induction parts with
  | nil => rfl
  | cons part parts ih => rw [List.flatten_cons, passOver_append, ih, List.flatMap_cons]

/-- Texts, comments and instructions make no fragments. -/
theorem passOver_filter_isElement
    (h : ∀ o : Node.Occurrence, o.node.isElement = false → give o = none) (parent : Node)
    (nodes : List Node) :
    passOver give parent (nodes.filter Node.isElement) = passOver give parent nodes := by
  induction nodes with
  | nil => rfl
  | cons node nodes ih =>
    have hsplit (others : List Node) : passOver give parent (node :: others) =
        passOver give parent [node] ++ passOver give parent others := passOver_append parent [node] others
    by_cases hnode : node.isElement
    · rw [List.filter_cons_of_pos hnode, hsplit, ih, ← hsplit]
    · have hnone : passOver give parent [node] = [] := by
        cases node with
        | element name attributes children => exact absurd rfl hnode
        | text content | comment content | instruction target =>
          exact List.filterMap_cons_none (h _ rfl)
      rw [List.filter_cons_of_neg hnode, ih, hsplit, hnone, List.nil_append]

end

theorem isNamed_of_not_isElement {node : Node} (h : node.isElement = false) (word : Text) :
    node.isNamed word = false := by
  cases node with
  | element name attributes children => cases h
  | text content | comment content | instruction target => rfl

theorem give_of_not_isElement {o : Node.Occurrence} (h : o.node.isElement = false) :
    ownFragment? o = none ∧ strayClassFragment? o = none ∧ strayFunctionFragment? o = none := by
  have hnamed := isNamed_of_not_isElement h
  unfold ownFragment? strayClassFragment? strayFunctionFragment? isStrayClass isStrayFunction
  rw [hnamed, hnamed, hnamed]
  exact ⟨rfl, rfl, rfl⟩

/-! ## Under one root tag -/

section
variable {word : Text} (attributes : List Attribute)

/-- The fragments of some elements under a root tag, whatever else is there. -/
def fragmentsUnder (word : Text) (attributes : List Attribute) (nodes : List Node) : List Namespace :=
  passOver ownFragment? (.element word attributes []) nodes ++
    passOver strayClassFragment? (.element word attributes []) nodes ++
    passOver strayFunctionFragment? (.element word attributes []) nodes

theorem isNamed_root (hword : word ∉ [namespaceWord, classWord, functionWord]) (kids : List Node) :
    (Node.element word attributes kids).isNamed namespaceWord = false ∧
      (Node.element word attributes kids).isNamed classWord = false ∧
      (Node.element word attributes kids).isNamed functionWord = false := by
  simp only [List.mem_cons, List.not_mem_nil, or_false, not_or] at hword
  exact ⟨beq_false_of_ne hword.1, beq_false_of_ne hword.2.1, beq_false_of_ne hword.2.2⟩

variable (hword : word ∉ [namespaceWord, classWord, functionWord])
include hword

/-- Elements right below the root are told only that the root is none of the three kinds. -/
theorem give_below_root (kids : List Node) (node : Node) :
    strayClassFragment? ⟨some (.element word attributes kids), node⟩ =
        strayClassFragment? ⟨some (.element word attributes []), node⟩ ∧
      strayFunctionFragment? ⟨some (.element word attributes kids), node⟩ =
        strayFunctionFragment? ⟨some (.element word attributes []), node⟩ := by
  have hroot := isNamed_root attributes hword
  unfold strayClassFragment? strayFunctionFragment? isStrayClass isStrayFunction
  simp only [Option.any_some, isNamedNamespace, (hroot kids).1, (hroot kids).2.1, (hroot []).1,
    (hroot []).2.1, Bool.false_and, Bool.or_false, and_self]

theorem give_root (kids : List Node) :
    ownFragment? ⟨none, .element word attributes kids⟩ = none ∧
      strayClassFragment? ⟨none, .element word attributes kids⟩ = none ∧
      strayFunctionFragment? ⟨none, .element word attributes kids⟩ = none := by
  obtain ⟨hnamespace, hclass, hfunction⟩ := isNamed_root attributes hword kids
  unfold ownFragment? strayClassFragment? strayFunctionFragment? isStrayClass isStrayFunction
  rw [hnamespace, hclass, hfunction]
  exact ⟨rfl, rfl, rfl⟩

omit hword in
/-- A pass that makes nothing of the root, and does not tell what else is below it. -/
theorem filterMap_occurrences_root {give : Node.Occurrence → Option Namespace} {kids : List Node}
    (hroot : give ⟨none, .element word attributes kids⟩ = none)
    (hbelow : ∀ node, give ⟨some (.element word attributes kids), node⟩ =
      give ⟨some (.element word attributes []), node⟩) :
    ((Node.element word attributes kids).occurrences none).filterMap give =
      passOver give (.element word attributes []) kids := by
  rw [Node.occurrences, List.filterMap_cons_none hroot]
  exact Node.filterMap_occurrencesIn_congr hbelow kids

theorem fragments_eq_fragmentsUnder (kids : List Node) :
    fragments (.element word attributes kids) = fragmentsUnder word attributes kids := by
  obtain ⟨hown, hclass, hfunction⟩ := give_root attributes hword kids
  have hbelow := give_below_root attributes hword kids
  rw [fragments_eq_passes, filterMap_occurrences_root attributes hown fun _ => rfl,
    filterMap_occurrences_root attributes hclass fun node => (hbelow node).1,
    filterMap_occurrences_root attributes hfunction fun node => (hbelow node).2]
  rfl

end

theorem fragmentsUnder_filter_isElement (word : Text) (attributes : List Attribute)
    (nodes : List Node) :
    fragmentsUnder word attributes (nodes.filter Node.isElement) =
      fragmentsUnder word attributes nodes := by
  unfold fragmentsUnder
  rw [passOver_filter_isElement fun _ h => (give_of_not_isElement h).1,
    passOver_filter_isElement fun _ h => (give_of_not_isElement h).2.1,
    passOver_filter_isElement fun _ h => (give_of_not_isElement h).2.2]

/-! ## Stray elements say nothing of their namespace -/

theorem filter_passOver_eq_nil {give : Node.Occurrence → Option Namespace}
    (h : ∀ o n, give o = some n → isDocumented n = false) (parent : Node) (nodes : List Node) :
    (passOver give parent nodes).filter isDocumented = [] := by
  rw [List.filter_eq_nil_iff]
  intro n hn hdocumented
  obtain ⟨o, _, ho⟩ := List.mem_filterMap.mp hn
  rw [h o n ho] at hdocumented
  cases hdocumented

theorem isDocumented_of_strayClassFragment? (o : Node.Occurrence) (n : Namespace)
    (h : strayClassFragment? o = some n) : isDocumented n = false := by
  unfold strayClassFragment? at h
  split at h
  · obtain ⟨c, _, rfl⟩ := Option.map_eq_some_iff.mp h
    rfl
  · cases h

theorem isDocumented_of_strayFunctionFragment? (o : Node.Occurrence) (n : Namespace)
    (h : strayFunctionFragment? o = some n) : isDocumented n = false := by
  unfold strayFunctionFragment? at h
  split at h
  · obtain ⟨f, _, rfl⟩ := Option.map_eq_some_iff.mp h
    rfl
  · cases h

theorem filter_isDocumented_fragmentsUnder (word : Text) (attributes : List Attribute)
    (nodes : List Node) : (fragmentsUnder word attributes nodes).filter isDocumented =
      (passOver ownFragment? (.element word attributes []) nodes).filter isDocumented := by
  unfold fragmentsUnder
  rw [List.filter_append, List.filter_append,
    filter_passOver_eq_nil isDocumented_of_strayClassFragment?,
    filter_passOver_eq_nil isDocumented_of_strayFunctionFragment?, List.append_nil, List.append_nil]

/-! ## Several files -/

theorem fragmentsUnder_flatten (word : Text) (attributes : List Attribute)
    (parts : List (List Node)) :
    Rearranged (fragmentsUnder word attributes parts.flatten)
      (parts.flatMap (fragmentsUnder word attributes)) where
  perm := by
    unfold fragmentsUnder
    rw [passOver_flatten, passOver_flatten, passOver_flatten]
    exact ((List.flatMap_append_perm parts _ _).append_right _).trans
      (List.flatMap_append_perm parts _ _)
  documented := by
    rw [filter_isDocumented_fragmentsUnder, passOver_flatten, List.filter_flatMap,
      List.filter_flatMap]
    exact congrArg (List.flatMap · parts)
      (funext fun part => (filter_isDocumented_fragmentsUnder word attributes part).symm)

/-- One file, or its elements in several files under the same root tag: the namespaces are the same,
with the same documentation, and hold the same classes and functions. -/
theorem merge_of_split (model : Model) {word : Text} {attributes : List Attribute}
    (hword : word ∉ [namespaceWord, classWord, functionWord]) {kids : List Node}
    {parts : List (List Node)} {whole : Text} {files : List Text}
    (hwhole : Xml.parse whole = .ok (.element word attributes kids))
    (hfiles : files.map Xml.parse = parts.map fun part => .ok (.element word attributes part))
    (helements : kids.filter Node.isElement = parts.flatten.filter Node.isElement) :
    ∃ (all : List Namespace) (pieces : List (List Namespace)), read whole = .ok all ∧
      files.map read = pieces.map .ok ∧
      Model.SameButOrder (model.merge all) (pieces.foldl Model.merge model) := by
  have hfragments := fragments_eq_fragmentsUnder attributes hword
  have hpieces : files.map read = (parts.map (fragmentsUnder word attributes)).map .ok := by
    have hread : read = fun file => (Xml.parse file).map fragments := rfl
    calc files.map read = (files.map Xml.parse).map (·.map fragments) := by
          rw [List.map_map]
          rfl
      _ = (parts.map (fragmentsUnder word attributes)).map .ok := by
          rw [hfiles, List.map_map, List.map_map]
          exact List.map_congr_left fun part _ => congrArg Except.ok (hfragments part)
  refine ⟨fragments (.element word attributes kids), _, read_eq_ok hwhole, hpieces, ?_⟩
  have hkids : fragmentsUnder word attributes kids = fragmentsUnder word attributes parts.flatten := by
    rw [← fragmentsUnder_filter_isElement, helements, fragmentsUnder_filter_isElement]
  rw [model.foldl_merge, hfragments kids, hkids, ← List.flatMap_def]
  exact model.merge_rearranged (fragmentsUnder_flatten word attributes parts)

def rectClass : Node := .element classWord
  [⟨none, namespaceWord, "ui".toList⟩, ⟨none, nameWord, "Rect".toList⟩] []

def uiNamespace : Node := .element namespaceWord [⟨none, nameWord, "ui".toList⟩]
  [.element docWord [] [.element briefWord [] [.element textWord [] [.text "Widgets".toList]]],
    .element classWord [⟨none, nameWord, "Dial".toList⟩] []]

def rectText : Text := "<class namespace=\"ui\" name=\"Rect\"/>".toList

def uiText : Text := ("<namespace name=\"ui\"><doc><brief><text>Widgets</text></brief></doc>" ++
  "<class name=\"Dial\"/></namespace>").toList

def mrdocsText (inside : Text) : Text := "<mrdocs>".toList ++ inside ++ "</mrdocs>".toList

/-- In one file the stray class comes behind that of the namespace, in two files before it. -/
theorem merge_of_split_rectAndDial :
    ∃ (all : List Namespace) (pieces : List (List Namespace)),
      read (mrdocsText (rectText ++ '\n' :: uiText)) = .ok all ∧
      [mrdocsText rectText, mrdocsText uiText].map read = pieces.map .ok ∧
      Model.SameButOrder (Model.merge ∅ all) (pieces.foldl Model.merge ∅) := by
  have hrect : Xml.parse (mrdocsText rectText) = .ok (.element "mrdocs".toList [] [rectClass]) :=
    eq_ok_of_toOption (by decide +kernel)
  have hui : Xml.parse (mrdocsText uiText) = .ok (.element "mrdocs".toList [] [uiNamespace]) :=
    eq_ok_of_toOption (by decide +kernel)
  have hwhole : Xml.parse (mrdocsText (rectText ++ '\n' :: uiText)) =
      .ok (.element "mrdocs".toList [] [rectClass, .text ['\n'], uiNamespace]) :=
    eq_ok_of_toOption (by decide +kernel)
  have hfiles : [mrdocsText rectText, mrdocsText uiText].map Xml.parse =
      [[rectClass], [uiNamespace]].map fun part => .ok (.element "mrdocs".toList [] part) := by
    rw [List.map_cons, List.map_cons, hrect, hui]
    rfl
  exact merge_of_split ∅ (by decide) hwhole hfiles rfl

end DocTools.Reference
