import DocTools.Proofs.Reference.Provenance

/-! # Reading a document in passes

A document can be read in three passes that keep account of what is taken. The namespaces with names
come first and take their classes and functions. The classes that are left come next, and the functions
that are left come last. A class is taken together with the functions in it, even if it has no name
and gives nothing. The main statement, `found_afterFunctions`: the passes find the fragments of the
document, for which the parent of an element tells whether it is left. What is taken before the turn
of a class or a function is told by `class_mem_taken_iff` and `function_mem_taken_iff`. -/
namespace DocTools.Reference
set_option autoImplicit false

open Xml (Node Address)

variable {root : Node} {word : Text} {p q : Address}

/-! ## Elements of a kind -/

def elementsAt (root : Node) (word : Text) : List Address := root.addresses.filter (standsAt root word)

def childrenAt (root : Node) (word : Text) (p : Address) : List Address :=
  (root.childAddresses p).filter (standsAt root word)

theorem mem_elementsAt_iff : p ∈ elementsAt root word ↔ standsAt root word p := by
  rw [elementsAt, List.mem_filter, Node.mem_addresses_iff]
  refine and_iff_right_of_imp fun h => ?_
  obtain ⟨node, hnode, -⟩ := (standsAt_iff root word p).mp h
  exact Option.isSome_of_eq_some hnode

theorem mem_childrenAt_iff :
    q ∈ childrenAt root word p ↔ standsAt root word q ∧ q.parent? = some p := by
  rw [childrenAt, List.mem_filter, Node.mem_childAddresses_iff]
  constructor
  · rintro ⟨⟨-, hparent⟩, hstands⟩
    exact ⟨hstands, hparent⟩
  · rintro ⟨hstands, hparent⟩
    obtain ⟨node, hnode, -⟩ := (standsAt_iff root word q).mp hstands
    exact ⟨⟨Option.isSome_of_eq_some hnode, hparent⟩, hstands⟩

/-- A class and the functions in it. -/
def withFunctions (root : Node) (p : Address) : List Address := p :: childrenAt root functionWord p

theorem class_mem_withFunctions_iff (hq : standsAt root classWord q) :
    q ∈ withFunctions root p ↔ q = p := by
  rw [withFunctions, List.mem_cons, mem_childrenAt_iff]
  exact or_iff_left fun h => absurd (word_unique hq h.1) (by decide)

theorem function_mem_withFunctions_iff (hq : standsAt root functionWord q)
    (hp : standsAt root classWord p) : q ∈ withFunctions root p ↔ q.parent? = some p := by
  rw [withFunctions, List.mem_cons, mem_childrenAt_iff, and_iff_right hq]
  refine or_iff_right ?_
  rintro rfl
  exact absurd (word_unique hq hp) (by decide)

/-! ## The passes -/

/-- The elements that are taken, and the fragments that were found. -/
structure Progress where
  taken : List Address
  found : List Namespace

def givenAt (root : Node) (give : Node → Option Namespace) (p : Address) : Option Namespace :=
  (root.at? p).bind give

/-- What a namespace takes: all its classes and functions, even those without a name. -/
def takenBy (root : Node) (p : Address) : List Address :=
  (childrenAt root classWord p).flatMap (withFunctions root) ++ childrenAt root functionWord p

/-- The turn of a namespace. One without a name takes nothing. -/
def Progress.addNamespace (root : Node) (w : Progress) (p : Address) : Progress :=
  match givenAt root namespace? p with
  | none => w
  | some fragment => ⟨w.taken ++ takenBy root p, w.found ++ [fragment]⟩

/-- The turn of an element that is passed over when it was taken before. -/
def Progress.addLeft (root : Node) (takes : Address → List Address) (give : Node → Option Namespace)
    (w : Progress) (p : Address) : Progress :=
  if p ∈ w.taken then w
  else ⟨w.taken ++ takes p, w.found ++ (givenAt root give p).toList⟩

def afterNamespaces (root : Node) : Progress :=
  (elementsAt root namespaceWord).foldl (Progress.addNamespace root) ⟨[], []⟩

def afterClasses (root : Node) : Progress :=
  (elementsAt root classWord).foldl (Progress.addLeft root (withFunctions root) strayClass?)
    (afterNamespaces root)

def afterFunctions (root : Node) : Progress :=
  (elementsAt root functionWord).foldl (Progress.addLeft root (fun p => [p]) strayFunction?)
    (afterClasses root)

/-! ## Runs of turns -/

section
variable {w : Progress} {ps : List Address} {takes : Address → List Address}
  {give : Node → Option Namespace}

theorem found_foldl_addNamespace : (ps.foldl (Progress.addNamespace root) w).found =
    w.found ++ ps.filterMap (givenAt root namespace?) := by
  induction ps generalizing w with
  | nil => exact (List.append_nil _).symm
  | cons p ps ih =>
    rw [List.foldl_cons, ih, Progress.addNamespace]
    cases hgive : givenAt root namespace? p with
    | none => rw [List.filterMap_cons_none hgive]
    | some fragment => rw [List.filterMap_cons_some hgive, List.append_assoc, List.singleton_append]

theorem mem_taken_addNamespace_iff : q ∈ (w.addNamespace root p).taken ↔
    q ∈ w.taken ∨ (givenAt root namespace? p).isSome ∧ q ∈ takenBy root p := by
  rw [Progress.addNamespace]
  cases givenAt root namespace? p with
  | none => simp
  | some fragment => simp

theorem mem_taken_foldl_addNamespace_iff : q ∈ (ps.foldl (Progress.addNamespace root) w).taken ↔
    q ∈ w.taken ∨ ∃ p ∈ ps, (givenAt root namespace? p).isSome ∧ q ∈ takenBy root p := by
  induction ps generalizing w with
  | nil => simp
  | cons p ps ih => rw [List.foldl_cons, ih, mem_taken_addNamespace_iff, List.exists_mem_cons_iff, or_assoc]

theorem mem_taken_addLeft_iff : q ∈ (w.addLeft root takes give p).taken ↔
    q ∈ w.taken ∨ p ∉ w.taken ∧ q ∈ takes p := by
  rw [Progress.addLeft]
  by_cases hp : p ∈ w.taken
  · simp [hp]
  · simp [hp]

/-- When no element takes another one of the same pass, all that are left at the beginning of the pass
are left at their turn. -/
structure RunsLeft (root : Node) (takes : Address → List Address) (give : Node → Option Namespace)
    (ps : List Address) (w after : Progress) : Prop where
  found_eq : after.found =
    w.found ++ (ps.filter (· ∉ w.taken)).filterMap (givenAt root give)
  mem_taken_iff : ∀ q, q ∈ after.taken ↔ q ∈ w.taken ∨ ∃ p ∈ ps, p ∉ w.taken ∧ q ∈ takes p

theorem runsLeft_foldl (hnodup : ps.Nodup)
    (hapart : ∀ p ∈ ps, ∀ q ∈ ps, q ∈ takes p → q = p) :
    RunsLeft root takes give ps w (ps.foldl (Progress.addLeft root takes give) w) := by
  induction ps generalizing w with
  | nil => exact ⟨(List.append_nil _).symm, fun q => by simp⟩
  | cons p ps ih =>
    rw [List.nodup_cons] at hnodup
    have hrest := @ih (w.addLeft root takes give p) hnodup.2
      fun r hr q hq => hapart r (List.mem_cons_of_mem _ hr) q (List.mem_cons_of_mem _ hq)
    have hleft : ∀ r ∈ ps, r ∈ (w.addLeft root takes give p).taken ↔ r ∈ w.taken := by
      intro r hr
      refine mem_taken_addLeft_iff.trans (or_iff_left fun h => ?_)
      have hsame := hapart p List.mem_cons_self r (List.mem_cons_of_mem _ hr) h.2
      exact hnodup.1 (hsame ▸ hr)
    have hfilter : ps.filter (· ∉ (w.addLeft root takes give p).taken) = ps.filter (· ∉ w.taken) :=
      List.filter_congr fun r hr => decide_eq_decide.mpr (not_congr (hleft r hr))
    constructor
    case found_eq =>
      rw [List.foldl_cons, hrest.found_eq, hfilter, Progress.addLeft]
      by_cases hp : p ∈ w.taken
      · rw [if_pos hp, List.filter_cons_of_neg (by simpa using hp)]
      · rw [if_neg hp, List.filter_cons_of_pos (by simpa using hp), List.append_assoc]
        cases hgive : givenAt root give p with
        | none => rw [List.filterMap_cons_none hgive]; rfl
        | some fragment => rw [List.filterMap_cons_some hgive]; rfl
    case mem_taken_iff =>
      intro q
      rw [List.foldl_cons, hrest.mem_taken_iff, mem_taken_addLeft_iff, List.exists_mem_cons_iff, or_assoc]
      refine or_congr_right (or_congr_right (exists_congr fun r => ?_))
      exact and_congr_right fun hr => by rw [hleft r hr]

end

/-! ## What is taken before its turn -/

theorem isSome_namespace?_iff (hp : standsAt root namespaceWord p) :
    (givenAt root namespace? p).isSome ↔ namedAt root namespaceWord p := by
  obtain ⟨node, hnode, hword⟩ := (standsAt_iff root namespaceWord p).mp hp
  rw [namedAt_of_at? hnode, givenAt, hnode, Option.bind_some, hword, Bool.true_and]
  exact Bool.eq_iff_iff.mp Option.isSome_map

theorem mem_taken_afterNamespaces_iff : q ∈ (afterNamespaces root).taken ↔
    ∃ p, namedAt root namespaceWord p ∧ q ∈ takenBy root p := by
  rw [afterNamespaces, mem_taken_foldl_addNamespace_iff]
  constructor
  · rintro (h | ⟨p, hp, hsome, hq⟩)
    · cases h
    · exact ⟨p, (isSome_namespace?_iff (mem_elementsAt_iff.mp hp)).mp hsome, hq⟩
  · rintro ⟨p, hnamed, hq⟩
    have hp := standsAt_of_namedAt hnamed
    exact .inr ⟨p, mem_elementsAt_iff.mpr hp, (isSome_namespace?_iff hp).mpr hnamed, hq⟩

/-- Before the turn of a class it is taken if its parent is a namespace with a name. -/
theorem class_mem_taken_iff (hq : standsAt root classWord q) : q ∈ (afterNamespaces root).taken ↔
    ∃ p, q.parent? = some p ∧ namedAt root namespaceWord p := by
  rw [mem_taken_afterNamespaces_iff]
  refine exists_congr fun p => ?_
  rw [and_comm]
  refine and_congr_left fun _ => ?_
  rw [takenBy, List.mem_append, List.mem_flatMap, mem_childrenAt_iff]
  constructor
  · rintro (⟨r, hr, hmem⟩ | ⟨hfunction, -⟩)
    · obtain rfl := (class_mem_withFunctions_iff hq).mp hmem
      exact (mem_childrenAt_iff.mp hr).2
    · exact absurd (word_unique hq hfunction) (by decide)
  · intro hparent
    exact .inl ⟨q, mem_childrenAt_iff.mpr ⟨hq, hparent⟩, (class_mem_withFunctions_iff hq).mpr rfl⟩

theorem runsLeft_classes : RunsLeft root (withFunctions root) strayClass? (elementsAt root classWord)
    (afterNamespaces root) (afterClasses root) :=
  runsLeft_foldl ((Node.nodup_addresses root).filter _) fun _ _ _ hq hmem =>
    (class_mem_withFunctions_iff (mem_elementsAt_iff.mp hq)).mp hmem

/-- Before the turn of a function it is taken if its parent is a namespace with a name or a class. -/
theorem function_mem_taken_iff (hq : standsAt root functionWord q) : q ∈ (afterClasses root).taken ↔
    ∃ p, q.parent? = some p ∧ (namedAt root namespaceWord p ∨ standsAt root classWord p) := by
  rw [runsLeft_classes.mem_taken_iff]
  constructor
  · rintro (h | ⟨p, hp, -, hmem⟩)
    · obtain ⟨p, hnamed, hmem⟩ := mem_taken_afterNamespaces_iff.mp h
      rcases List.mem_append.mp hmem with hmem | hmem
      · obtain ⟨r, hr, hmem⟩ := List.mem_flatMap.mp hmem
        have hclass := (mem_childrenAt_iff.mp hr).1
        exact ⟨r, (function_mem_withFunctions_iff hq hclass).mp hmem, .inr hclass⟩
      · exact ⟨p, (mem_childrenAt_iff.mp hmem).2, .inl hnamed⟩
    · have hclass := mem_elementsAt_iff.mp hp
      exact ⟨p, (function_mem_withFunctions_iff hq hclass).mp hmem, .inr hclass⟩
  · rintro ⟨p, hparent, hnamed | hclass⟩
    · refine .inl (mem_taken_afterNamespaces_iff.mpr ⟨p, hnamed, List.mem_append_right _ ?_⟩)
      exact mem_childrenAt_iff.mpr ⟨hq, hparent⟩
    · have hmem := (function_mem_withFunctions_iff hq hclass).mpr hparent
      by_cases htaken : p ∈ (afterNamespaces root).taken
      · -- the class was taken by its parent, and with it the function
        obtain ⟨r, hr, hnamed⟩ := (class_mem_taken_iff hclass).mp htaken
        refine .inl (mem_taken_afterNamespaces_iff.mpr ⟨r, hnamed, List.mem_append_left _ ?_⟩)
        exact List.mem_flatMap.mpr ⟨p, mem_childrenAt_iff.mpr ⟨hclass, hr⟩, hmem⟩
      · exact .inr ⟨p, mem_elementsAt_iff.mpr hclass, htaken, hmem⟩

theorem runsLeft_functions : RunsLeft root (fun p => [p]) strayFunction? (elementsAt root functionWord)
    (afterClasses root) (afterFunctions root) :=
  runsLeft_foldl ((Node.nodup_addresses root).filter _) fun _ _ _ _ hmem => List.mem_singleton.mp hmem

/-! ## What is found -/

/-- Elements of one kind of which some are left give the fragments of their origins. -/
theorem filterMap_left {left : Address → Bool} {give : Node → Option Namespace}
    {make : Address → Origin}
    (h : ∀ p node, root.at? p = some node → (make p).fragment? root =
      if node.isNamed word && left p then give node else none) :
    ((elementsAt root word).filter left).filterMap (givenAt root give) =
      (root.addresses.map make).filterMap (Origin.fragment? root) := by
  rw [elementsAt, List.filter_filter, List.filterMap_filter, List.filterMap_map]
  refine List.filterMap_congr fun p hp => ?_
  obtain ⟨node, hnode⟩ := exists_of_mem_addresses hp
  rw [Function.comp_apply, h p node hnode, standsAt, givenAt, hnode, Option.any_some, Option.bind_some,
    Bool.and_comm]

theorem class_left_iff (hp : standsAt root classWord p) :
    classHome root p = .classAt p ↔ p ∉ (afterNamespaces root).taken := by
  rw [class_mem_taken_iff hp]
  rcases classHome_cases root p with ⟨q, hq, hnamed, hhome⟩ | ⟨hno, hhome⟩
  · rw [hhome]
    exact ⟨fun h => (nomatch h), fun h => absurd ⟨q, hq, hnamed⟩ h⟩
  · exact iff_of_true hhome fun ⟨q, hq, hnamed⟩ => hno q hq hnamed

theorem function_left_iff (hp : standsAt root functionWord p) :
    functionHome root p = .freeIn (.functionAt p) ↔ p ∉ (afterClasses root).taken := by
  rw [function_mem_taken_iff hp]
  rcases functionHome_cases root p with ⟨q, hq, hclass, hhome⟩ | ⟨q, hq, hnamed, hhome⟩ | ⟨hno, hhome⟩
  · rw [hhome]
    exact ⟨fun h => (nomatch h), fun h => absurd ⟨q, hq, .inr hclass⟩ h⟩
  · rw [hhome]
    exact ⟨fun h => (nomatch Place.freeIn.inj h), fun h => absurd ⟨q, hq, .inl hnamed⟩ h⟩
  · refine iff_of_true hhome ?_
    rintro ⟨q, hq, hnamed | hclass⟩
    · exact (hno q hq).2 hnamed
    · exact (hno q hq).1 hclass

/-- A test that is only made of elements of a kind can be made in another way for these. -/
theorem isNamed_and_congr {node : Node} (h : root.at? p = some node) {P Q : Prop} [Decidable P]
    [Decidable Q] (hPQ : standsAt root word p → (P ↔ Q)) :
    (node.isNamed word && decide P) = (node.isNamed word && decide Q) := by
  cases hword : node.isNamed word with
  | false => rfl
  | true =>
    have hstands := (standsAt_iff root word p).mpr ⟨node, h, hword⟩
    rw [decide_eq_decide.mpr (hPQ hstands)]

theorem found_afterNamespaces (root : Node) : (afterNamespaces root).found =
    (root.addresses.map .namespaceAt).filterMap (Origin.fragment? root) := by
  have hall := @filterMap_left root namespaceWord (fun _ => true) namespace? .namespaceAt
    fun p node h => by rw [Origin.fragment?, occurrenceAt_none h, Bool.and_true]
  rw [List.filter_true] at hall
  rw [afterNamespaces, found_foldl_addNamespace, hall]
  rfl

/-- The passes find the fragments of the document. -/
theorem found_afterFunctions (root : Node) : (afterFunctions root).found = fragments root := by
  have hclasses : ∀ p node, root.at? p = some node → (Origin.classAt p).fragment? root =
      if node.isNamed classWord && p ∉ (afterNamespaces root).taken then strayClass? node else none := by
    intro p node h
    rw [← isNamed_and_congr h class_left_iff, ← isStrayClass_occurrenceAt h, Origin.fragment?,
      occurrenceAt_none h]
  have hfunctions : ∀ p node, root.at? p = some node → (Origin.functionAt p).fragment? root =
      if node.isNamed functionWord && p ∉ (afterClasses root).taken then strayFunction? node
      else none := by
    intro p node h
    rw [← isNamed_and_congr h function_left_iff, ← isStrayFunction_occurrenceAt h, Origin.fragment?,
      occurrenceAt_none h]
  rw [runsLeft_functions.found_eq, runsLeft_classes.found_eq, found_afterNamespaces,
    filterMap_left hclasses, filterMap_left hfunctions, fragments_eq_filterMap, candidates,
    List.filterMap_append, List.filterMap_append]

end DocTools.Reference
