import DocTools.Proofs.Reference.Home

/-! # Where the entries of a documentation file come from

Every entry of a fragment is what one element of the document describes. The main statement: the
fragments of a document that parses are those of its origins, with one entry for each element that is
listed there and no others. -/
namespace DocTools.Reference
set_option autoImplicit false

open Xml (Node Address)

/-! ## Entries and their elements -/

/-- A function is what the element at an address describes. -/
def FunctionAt (root : Node) (owner : Text) (p : Address) (f : Function) : Prop :=
  ∃ node, root.at? p = some node ∧ node.isNamed functionWord ∧ function? owner node = some f

/-- A class is what the element at an address describes, with the methods from its children. -/
structure ClassAt (root : Node) (owner : Text) (p : Address) (c : Class) : Prop where
  stands : ∃ node, root.at? p = some node ∧ node.isNamed classWord ∧ class? owner node = some c
  methods : List.Forall₂ (FunctionAt root []) (methods root p) c.methods

/-- The name and the documentation of a fragment: those of the namespace element it is made for, or
the name that a class or function asks for. -/
def Origin.Heads (root : Node) (fragment : Namespace) : Origin → Prop
  | namespaceAt p => ∃ node, root.at? p = some node ∧ nameOf? node = some fragment.name ∧
      fragment.brief = docText briefWord node ∧ fragment.description = docText descriptionWord node
  | classAt p | functionAt p => ∃ node, root.at? p = some node ∧
      fragment.name = statedNamespace node ∧ fragment.brief = [] ∧ fragment.description = []

structure Origin.Gives (root : Node) (o : Origin) (fragment : Namespace) : Prop where
  heading : o.Heads root fragment
  classes : List.Forall₂ (ClassAt root fragment.name) (o.classes root) fragment.classes
  functions : List.Forall₂ (FunctionAt root fragment.name) (o.functions root) fragment.functions

/-- The fragments of a document have an entry for every element that is to have one, at its home and
nowhere else. -/
structure Filed (root : Node) (found : List Namespace) : Prop where
  gives : List.Forall₂ (Origin.Gives root) (origins root) found
  origins_once : (origins root).Nodup
  mem_origins : ∀ o, o ∈ origins root ↔ o.occurs root
  classes_once : (classElements root).Nodup
  mem_classes : ∀ p, p ∈ classElements root ↔ namedAt root classWord p
  home_class : ∀ o ∈ origins root, ∀ p,
    p ∈ o.classes root ↔ namedAt root classWord p ∧ classHome root p = o
  functions_once : (functionElements root).Nodup
  mem_functions : ∀ p, p ∈ functionElements root ↔ namedAt root functionWord p ∧
    ∀ q, functionHome root p = .methodOf q → namedAt root classWord q
  home_function : ∀ o ∈ origins root, ∀ p,
    p ∈ o.functions root ↔ namedAt root functionWord p ∧ functionHome root p = .freeIn o
  home_method : ∀ q ∈ classElements root, ∀ p,
    p ∈ methods root q ↔ namedAt root functionWord p ∧ functionHome root p = .methodOf q

/-! ## One entry for each element kept -/

/-- Keeping the elements that give something, and taking what each gives, run side by side. -/
theorem forall₂_filter_filterMap {α β : Type} {R : α → β → Prop} {keep : α → Bool}
    {give : α → Option β} (all : List α)
    (h : ∀ a ∈ all, if keep a then ∃ b, give a = some b ∧ R a b else give a = none) :
    List.Forall₂ R (all.filter keep) (all.filterMap give) := by
  induction all with
  | nil => exact List.Forall₂.nil
  | cons a all ih =>
    have ha := h a (List.mem_cons_self ..)
    have hall := ih fun a ha => h a (List.mem_cons_of_mem _ ha)
    by_cases hk : keep a
    · rw [if_pos hk] at ha
      obtain ⟨b, hb, hr⟩ := ha
      rw [List.filter_cons_of_pos hk, List.filterMap_cons_some hb]
      exact List.Forall₂.cons hr hall
    · rw [if_neg hk] at ha
      rw [List.filter_cons_of_neg hk, List.filterMap_cons_none ha]
      exact hall

theorem filterMap_childrenNamed {β : Type} {root node : Node} {p : Address}
    (h : root.at? p = some node) (word : Text) (give : Node → Option β) :
    (node.childrenNamed word).filterMap give =
      (root.childAddresses p).filterMap fun q =>
        (root.at? q).bind fun child => if child.isNamed word then give child else none := by
  have hmap := Node.map_at?_childAddresses h
  have hbind : (fun q => (root.at? q).bind fun child => if child.isNamed word then give child else none) =
      (fun found : Option Node => found.bind fun child => if child.isNamed word then give child else none) ∘
        root.at? := rfl
  rw [hbind, ← List.filterMap_map, hmap, List.filterMap_map, Node.childrenNamed, List.filterMap_filter]
  rfl

/-- The entries for the children of a kind, when a child gives one exactly if it has a name. -/
theorem forall₂_namedChildren {β : Type} {R : Address → β → Prop} {root node : Node} {p : Address}
    (h : root.at? p = some node) (word : Text) (give : Node → Option β)
    (hname : ∀ child, (give child).isSome = (nameOf? child).isSome)
    (hR : ∀ q child b, root.at? q = some child → child.isNamed word → give child = some b → R q b) :
    List.Forall₂ R (namedChildren root word p) ((node.childrenNamed word).filterMap give) := by
  rw [filterMap_childrenNamed h]
  apply forall₂_filter_filterMap
  intro q _
  unfold namedAt
  cases hq : root.at? q with
  | none => rfl
  | some child =>
    rw [Option.any_some, Option.bind_some]
    by_cases hw : child.isNamed word
    · rw [hw, Bool.true_and, ← hname, if_pos rfl]
      cases hg : give child with
      | none => rfl
      | some b => exact ⟨b, rfl, hR q child b hq hw hg⟩
    · rw [Bool.eq_false_iff.mpr hw]
      rfl

theorem isSome_function? (owner : Text) (node : Node) :
    (function? owner node).isSome = (nameOf? node).isSome := Option.isSome_map

theorem isSome_class? (owner : Text) (node : Node) :
    (class? owner node).isSome = (nameOf? node).isSome := Option.isSome_map

theorem forall₂_functions {root node : Node} {p : Address} (h : root.at? p = some node) (owner : Text) :
    List.Forall₂ (FunctionAt root owner) (namedChildren root functionWord p)
      ((node.childrenNamed functionWord).filterMap (function? owner)) := by
  apply forall₂_namedChildren h
  · exact isSome_function? owner
  · intro q child f hq hw hf
    exact ⟨child, hq, hw, hf⟩

theorem classAt_of_class? {root node : Node} {p : Address} {owner : Text} {c : Class}
    (h : root.at? p = some node) (hw : node.isNamed classWord) (hc : class? owner node = some c) :
    ClassAt root owner p c := by
  refine ⟨⟨node, h, hw, hc⟩, ?_⟩
  obtain ⟨name, -, rfl⟩ := Option.map_eq_some_iff.mp hc
  exact forall₂_functions h []

theorem forall₂_classes {root node : Node} {p : Address} (h : root.at? p = some node) (owner : Text) :
    List.Forall₂ (ClassAt root owner) (namedChildren root classWord p)
      ((node.childrenNamed classWord).filterMap (class? owner)) := by
  apply forall₂_namedChildren h
  · exact isSome_class? owner
  · intro q child c hq hw hc
    exact classAt_of_class? hq hw hc

/-! ## What is left over, by addresses -/

theorem occurrenceAt_none {root node : Node} {p : Address} (h : root.at? p = some node) :
    Node.occurrenceAt none root p = ⟨root.parentAt? p, node⟩ := by
  unfold Node.occurrenceAt
  rw [h, Option.getD_some]
  congr 1
  by_cases hp : p = []
  · rw [if_pos hp, hp]
    rfl
  · rw [if_neg hp]

theorem any_parentAt?_eq_false_iff (root : Node) (p : Address) (keep : Node → Bool) :
    (root.parentAt? p).any keep = false ↔
      ∀ q, p.parent? = some q → ¬(root.at? q).any keep := by
  unfold Node.parentAt?
  cases p.parent? with
  | none => exact ⟨fun _ _ h => (nomatch h), fun _ => rfl⟩
  | some r =>
    rw [Option.bind_some]
    constructor
    · rintro h q ⟨⟩
      exact Bool.eq_false_iff.mp h
    · exact fun h => Bool.eq_false_iff.mpr (h r rfl)

theorem classHome_eq_classAt_iff (root : Node) (p : Address) :
    classHome root p = .classAt p ↔ (root.parentAt? p).any isNamedNamespace = false := by
  rw [any_parentAt?_eq_false_iff]
  rcases classHome_cases root p with ⟨q, hq, hn, hhome⟩ | ⟨hno, hhome⟩
  · rw [hhome]
    exact ⟨fun h => (nomatch h), fun h => absurd hn (h q hq)⟩
  · exact ⟨fun _ => hno, fun _ => hhome⟩

theorem any_namespace_or_class (root : Node) (q : Address) :
    (root.at? q).any (fun parent => isNamedNamespace parent || parent.isNamed classWord) =
      (namedAt root namespaceWord q || standsAt root classWord q) := by
  unfold namedAt standsAt
  cases root.at? q <;> rfl

theorem functionHome_eq_functionAt_iff (root : Node) (p : Address) :
    functionHome root p = .freeIn (.functionAt p) ↔
      (root.parentAt? p).any (fun parent => isNamedNamespace parent || parent.isNamed classWord) =
        false := by
  rw [any_parentAt?_eq_false_iff]
  simp only [any_namespace_or_class, Bool.or_eq_true, not_or]
  rcases functionHome_cases root p with ⟨q, hq, hc, hhome⟩ | ⟨q, hq, hn, hhome⟩ | ⟨hno, hhome⟩
  · rw [hhome]
    exact ⟨fun h => (nomatch h), fun h => absurd hc (h q hq).2⟩
  · rw [hhome]
    exact ⟨fun h => (nomatch Place.freeIn.inj h), fun h => absurd hn (h q hq).1⟩
  · exact ⟨fun _ q hq => (hno q hq).symm, fun _ => hhome⟩

theorem isStrayClass_occurrenceAt {root node : Node} {p : Address} (h : root.at? p = some node) :
    isStrayClass (Node.occurrenceAt none root p) =
      (node.isNamed classWord && classHome root p = .classAt p) := by
  rw [occurrenceAt_none h, isStrayClass]
  congr 1
  rw [Bool.eq_iff_iff, Bool.not_eq_true', decide_eq_true_iff, classHome_eq_classAt_iff]

theorem isStrayFunction_occurrenceAt {root node : Node} {p : Address} (h : root.at? p = some node) :
    isStrayFunction (Node.occurrenceAt none root p) =
      (node.isNamed functionWord && functionHome root p = .freeIn (.functionAt p)) := by
  rw [occurrenceAt_none h, isStrayFunction]
  congr 1
  rw [Bool.eq_iff_iff, Bool.not_eq_true', decide_eq_true_iff, functionHome_eq_functionAt_iff]

theorem namedAt_of_at? {root node : Node} {p : Address} (h : root.at? p = some node) (word : Text) :
    namedAt root word p = (node.isNamed word && (nameOf? node).isSome) := by
  rw [namedAt, h, Option.any_some]

theorem exists_of_mem_addresses {root : Node} {p : Address} (h : p ∈ root.addresses) :
    ∃ node, root.at? p = some node :=
  Option.isSome_iff_exists.mp ((Node.mem_addresses_iff root p).mp h)

/-! ## Fragments and their origins -/

def Origin.fragment? (root : Node) : Origin → Option Namespace
  | namespaceAt p =>
    let o := Node.occurrenceAt none root p
    if o.node.isNamed namespaceWord then namespace? o.node else none
  | classAt p =>
    let o := Node.occurrenceAt none root p
    if isStrayClass o then strayClass? o.node else none
  | functionAt p =>
    let o := Node.occurrenceAt none root p
    if isStrayFunction o then strayFunction? o.node else none

theorem gives_namespaceAt {root node : Node} {p : Address} {fragment : Namespace}
    (h : root.at? p = some node) (hf : namespace? node = some fragment) :
    (Origin.namespaceAt p).Gives root fragment := by
  obtain ⟨name, hname, rfl⟩ := Option.map_eq_some_iff.mp hf
  exact ⟨⟨node, h, hname, rfl, rfl⟩, forall₂_classes h name, forall₂_functions h name⟩

theorem gives_classAt {root node : Node} {p : Address} {fragment : Namespace}
    (h : root.at? p = some node) (hw : node.isNamed classWord)
    (hf : strayClass? node = some fragment) : (Origin.classAt p).Gives root fragment := by
  obtain ⟨c, hc, rfl⟩ := Option.map_eq_some_iff.mp hf
  have howner : c.owner = statedNamespace node := by
    obtain ⟨name, -, rfl⟩ := Option.map_eq_some_iff.mp hc
    rfl
  refine ⟨⟨node, h, howner, rfl, rfl⟩, ?_, List.Forall₂.nil⟩
  refine List.Forall₂.cons ?_ List.Forall₂.nil
  rw [← howner] at hc
  exact classAt_of_class? h hw hc

theorem gives_functionAt {root node : Node} {p : Address} {fragment : Namespace}
    (h : root.at? p = some node) (hw : node.isNamed functionWord)
    (hf : strayFunction? node = some fragment) : (Origin.functionAt p).Gives root fragment := by
  obtain ⟨f, hfun, rfl⟩ := Option.map_eq_some_iff.mp hf
  have howner : f.owner = statedNamespace node := by
    obtain ⟨name, -, rfl⟩ := Option.map_eq_some_iff.mp hfun
    rfl
  refine ⟨⟨node, h, howner, rfl, rfl⟩, List.Forall₂.nil, ?_⟩
  refine List.Forall₂.cons ?_ List.Forall₂.nil
  rw [← howner] at hfun
  exact ⟨node, h, hw, hfun⟩

theorem pass_eq_filterMap (root : Node) (keep : Node.Occurrence → Bool)
    (give : Node → Option Namespace) (make : Address → Origin)
    (h : ∀ p, (make p).fragment? root =
      let o := Node.occurrenceAt none root p
      if keep o then give o.node else none) :
    ((root.occurrences none).filter keep).filterMap (fun o => give o.node) =
      (root.addresses.map make).filterMap (Origin.fragment? root) := by
  rw [List.filterMap_filter, Node.occurrences_eq_map, List.filterMap_map, List.filterMap_map]
  apply List.filterMap_congr
  intro p _
  exact (h p).symm

theorem fragments_eq_filterMap (root : Node) :
    fragments root = (candidates root).filterMap (Origin.fragment? root) := by
  have hspaces := pass_eq_filterMap root (fun o => o.node.isNamed namespaceWord) namespace?
    .namespaceAt fun _ => rfl
  have hclasses := pass_eq_filterMap root isStrayClass strayClass? .classAt fun _ => rfl
  have hfunctions := pass_eq_filterMap root isStrayFunction strayFunction? .functionAt fun _ => rfl
  unfold fragments candidates
  rw [List.filterMap_append, List.filterMap_append, ← hspaces, ← hclasses, ← hfunctions]

/-! ## Which origins give fragments -/

/-- An origin that occurs gives its fragment, and another none. -/
def Origin.Settled (root : Node) (o : Origin) : Prop :=
  if o.occurs root then ∃ fragment, o.fragment? root = some fragment ∧ o.Gives root fragment
  else o.fragment? root = none

theorem settled_of_test {root node : Node} {o : Origin} {test : Bool} {give : Option Namespace}
    (hoccurs : o.occurs root = (test && (nameOf? node).isSome))
    (hfragment : o.fragment? root = if test then give else none)
    (hsome : give.isSome = (nameOf? node).isSome)
    (hgives : ∀ fragment, test → give = some fragment → o.Gives root fragment) :
    o.Settled root := by
  rw [Origin.Settled, hoccurs, hfragment, ← hsome]
  cases test with
  | false => rfl
  | true =>
    rw [Bool.true_and, if_pos rfl]
    cases hgive : give with
    | none => rfl
    | some fragment => exact ⟨fragment, rfl, hgives fragment rfl hgive⟩

theorem settled_namespaceAt {root node : Node} {p : Address} (h : root.at? p = some node) :
    (Origin.namespaceAt p).Settled root := by
  apply settled_of_test
  · exact namedAt_of_at? h namespaceWord
  · rw [Origin.fragment?, occurrenceAt_none h]
  · exact Option.isSome_map
  · exact fun fragment _ hf => gives_namespaceAt h hf

theorem settled_classAt {root node : Node} {p : Address} (h : root.at? p = some node) :
    (Origin.classAt p).Settled root := by
  have hstray := isStrayClass_occurrenceAt h
  apply settled_of_test
  · rw [Origin.occurs, namedAt_of_at? h, Bool.and_right_comm]
  · rw [← hstray, Origin.fragment?, occurrenceAt_none h]
  · exact Option.isSome_map.trans (isSome_class? _ node)
  · exact fun fragment ht hf => gives_classAt h (Bool.and_eq_true_iff.mp ht).1 hf

theorem settled_functionAt {root node : Node} {p : Address} (h : root.at? p = some node) :
    (Origin.functionAt p).Settled root := by
  have hstray := isStrayFunction_occurrenceAt h
  apply settled_of_test
  · rw [Origin.occurs, namedAt_of_at? h, Bool.and_right_comm]
  · rw [← hstray, Origin.fragment?, occurrenceAt_none h]
  · exact Option.isSome_map.trans (isSome_function? _ node)
  · exact fun fragment ht hf => gives_functionAt h (Bool.and_eq_true_iff.mp ht).1 hf

/-- The fragments are those of the origins, one each and in their order. -/
theorem forall₂_gives (root : Node) :
    List.Forall₂ (Origin.Gives root) (origins root) (fragments root) := by
  rw [fragments_eq_filterMap, origins]
  -- the same candidates on both sides: those that occur, and those that give a fragment
  apply forall₂_filter_filterMap
  intro o ho
  obtain ⟨p, hp, h⟩ := (mem_candidates_iff root o).mp ho
  obtain ⟨node, hnode⟩ := exists_of_mem_addresses hp
  rcases h with rfl | rfl | rfl
  · exact settled_namespaceAt hnode
  · exact settled_classAt hnode
  · exact settled_functionAt hnode

/-! ## Everything in its place -/

theorem filed_fragments (root : Node) : Filed root (fragments root) where
  gives := forall₂_gives root
  origins_once := nodup_origins root
  mem_origins := mem_origins_iff root
  classes_once := nodup_classElements root
  mem_classes := mem_classElements_iff root
  home_class o ho := mem_classes_iff ((mem_origins_iff root o).mp ho)
  functions_once := nodup_functionElements root
  mem_functions := mem_functionElements_iff root
  home_function o ho := mem_functions_iff ((mem_origins_iff root o).mp ho)
  home_method q hq := mem_methods_iff (standsAt_of_namedAt ((mem_classElements_iff root q).mp hq))

/-- Reading a document that parses files every class and every function of it at its home, once. -/
theorem read_files_each_element_once (text : Text) (root : Node) (h : Xml.parse text = .ok root) :
    ∃ found, read text = .ok found ∧ Filed root found := by
  exact ⟨fragments root, read_eq_ok h, filed_fragments root⟩

/-- A class in a class, which has its name from a child, and a function in a class without a name. -/
def nestedDocument : Text :=
  ("<namespace name=\"a\"><class name=\"C\"><class name=\"\"><name>D</name><function name=\"g\"/>" ++
    "</class></class><class><function name=\"h\"/></class></namespace>").toList

/-- The names of the classes in a fragment, with those of their methods, and of its functions. -/
def listedNames (fragment : Namespace) : List (Text × List Text) × List Text :=
  (fragment.classes.map fun c => (c.name, c.methods.map (·.name)), fragment.functions.map (·.name))

/-- The function in the class without a name is listed nowhere. -/
theorem read_files_nestedDocument : ∃ root, Xml.parse nestedDocument = .ok root ∧
    ∃ found, read nestedDocument = .ok found ∧ Filed root found ∧
      found.map (fun fragment => (fragment.name, listedNames fragment)) =
        [(['a'], [(['C'], [])], []), (globalNamespace, [(['D'], [['g']])], [])] := by
  have hnames : (Xml.parse nestedDocument).toOption.any fun root => decide
      ((fragments root).map (fun fragment => (fragment.name, listedNames fragment)) =
        [(['a'], [(['C'], [])], []), (globalNamespace, [(['D'], [['g']])], [])]) := by
    decide +kernel
  obtain ⟨root, hroot, hnames⟩ := (Option.any_eq_true _ _).mp hnames
  have hparse := eq_ok_of_toOption hroot
  obtain ⟨found, hread, hfiled⟩ := read_files_each_element_once nestedDocument root hparse
  obtain rfl : found = fragments root := Except.ok.inj (hread.symm.trans (read_eq_ok hparse))
  exact ⟨root, hparse, _, hread, hfiled, of_decide_eq_true hnames⟩

end DocTools.Reference
