import DocTools.Proofs.Xml.Address
import DocTools.Reference.Reader

/-! # Homes of classes and functions

Where each class and each function of a document is listed. An `Origin` is the element that a
fragment is made for, and `Origin.classes`, `Origin.functions` and `methods` are the addresses of
the elements that are listed in a fragment or a class. The main statements: every class with a name
is listed once, in the fragment that `classHome` says, and every function with a name once, at the
place that `functionHome` says, unless it lies in a class without a name. -/
namespace DocTools.Reference
set_option autoImplicit false

open Xml (Node Address)

/-! ## Elements with names -/

def standsAt (root : Node) (word : Text) (p : Address) : Bool := (root.at? p).any (Node.isNamed word)

def namedAt (root : Node) (word : Text) (p : Address) : Bool :=
  (root.at? p).any fun node => node.isNamed word && (nameOf? node).isSome

/-- The addresses of those children that are elements of a kind and have names. -/
def namedChildren (root : Node) (word : Text) (p : Address) : List Address :=
  (root.childAddresses p).filter (namedAt root word)

def methods (root : Node) (p : Address) : List Address := namedChildren root functionWord p

/-! ## Homes -/

/-- The element that a fragment is made for. -/
inductive Origin where
  | namespaceAt (p : Address)
  | classAt (p : Address)
  | functionAt (p : Address)
  deriving DecidableEq

/-- Where a function is listed: among the functions of a fragment or the methods of a class. -/
inductive Place where
  | freeIn (o : Origin)
  | methodOf (p : Address)
  deriving DecidableEq

/-- The fragment of a class: that of its parent, if this is a namespace with a name, else its own. -/
def classHome (root : Node) (p : Address) : Origin :=
  match p.parent? with
  | none => .classAt p
  | some q => if namedAt root namespaceWord q then .namespaceAt q else .classAt p

/-- The place of a function: with its parent, if this is a class or a namespace with a name, else in
a fragment of its own. -/
def functionHome (root : Node) (p : Address) : Place :=
  match p.parent? with
  | none => .freeIn (.functionAt p)
  | some q =>
    if standsAt root classWord q then .methodOf q
    else if namedAt root namespaceWord q then .freeIn (.namespaceAt q)
    else .freeIn (.functionAt p)

namespace Origin

def classes (root : Node) : Origin → List Address
  | namespaceAt p => namedChildren root classWord p
  | classAt p => [p]
  | functionAt _ => []

def functions (root : Node) : Origin → List Address
  | namespaceAt p => namedChildren root functionWord p
  | classAt _ => []
  | functionAt p => [p]

def occurs (root : Node) : Origin → Bool
  | namespaceAt p => namedAt root namespaceWord p
  | classAt p => namedAt root classWord p && classHome root p = classAt p
  | functionAt p => namedAt root functionWord p && functionHome root p = .freeIn (functionAt p)

end Origin

/-- All that fragments can be made for, in the order in which they are made. -/
def candidates (root : Node) : List Origin :=
  root.addresses.map .namespaceAt ++ root.addresses.map .classAt ++ root.addresses.map .functionAt

def origins (root : Node) : List Origin := (candidates root).filter (Origin.occurs root)

def classElements (root : Node) : List Address := (origins root).flatMap (Origin.classes root)

def functionElements (root : Node) : List Address :=
  (origins root).flatMap (Origin.functions root) ++ (classElements root).flatMap (methods root)

/-! ## Homes and the elements listed there -/

theorem standsAt_iff (root : Node) (word : Text) (p : Address) :
    standsAt root word p ↔ ∃ node, root.at? p = some node ∧ node.isNamed word :=
  Option.any_eq_true _ _

theorem namedAt_iff (root : Node) (word : Text) (p : Address) :
    namedAt root word p ↔
      ∃ node, root.at? p = some node ∧ node.isNamed word ∧ (nameOf? node).isSome := by
  rw [namedAt, Option.any_eq_true]
  simp only [Bool.and_eq_true]

theorem mem_namedChildren_iff (root : Node) (word : Text) (p q : Address) :
    q ∈ namedChildren root word p ↔ namedAt root word q ∧ q.parent? = some p := by
  rw [namedChildren, List.mem_filter, Node.mem_childAddresses_iff]
  constructor
  · rintro ⟨⟨-, hp⟩, hn⟩
    exact ⟨hn, hp⟩
  · rintro ⟨hn, hp⟩
    refine ⟨⟨?_, hp⟩, hn⟩
    obtain ⟨node, hnode, -⟩ := (namedAt_iff root word q).mp hn
    rw [hnode]
    rfl

theorem nodup_namedChildren (root : Node) (word : Text) (p : Address) :
    (namedChildren root word p).Nodup := (Node.nodup_childAddresses root p).filter _

theorem standsAt_of_namedAt {root : Node} {word : Text} {p : Address} (h : namedAt root word p) :
    standsAt root word p := by
  obtain ⟨node, hnode, hw, -⟩ := (namedAt_iff root word p).mp h
  exact (standsAt_iff root word p).mpr ⟨node, hnode, hw⟩

theorem word_unique {root : Node} {v w : Text} {p : Address} (hv : standsAt root v p)
    (hw : standsAt root w p) : v = w := by
  obtain ⟨node, hnode, hv⟩ := (standsAt_iff root v p).mp hv
  rw [standsAt, hnode, Option.any_some] at hw
  cases node with
  | element name attributes children =>
    have h1 : name = v := eq_of_beq hv
    have h2 : name = w := eq_of_beq hw
    rw [← h1, ← h2]
  | text content => cases hv
  | comment content => cases hv
  | instruction target => cases hv

theorem classHome_cases (root : Node) (p : Address) :
    (∃ q, p.parent? = some q ∧ namedAt root namespaceWord q ∧ classHome root p = .namespaceAt q) ∨
      (∀ q, p.parent? = some q → ¬namedAt root namespaceWord q) ∧ classHome root p = .classAt p := by
  unfold classHome
  cases hp : p.parent? with
  | none => exact .inr ⟨fun _ h => (nomatch h), rfl⟩
  | some r =>
    by_cases hr : namedAt root namespaceWord r
    · exact .inl ⟨r, rfl, hr, if_pos hr⟩
    · refine .inr ⟨?_, if_neg hr⟩
      rintro q ⟨⟩
      exact hr

theorem classHome_eq_namespaceAt_iff (root : Node) (p q : Address) :
    classHome root q = .namespaceAt p ↔ q.parent? = some p ∧ namedAt root namespaceWord p := by
  rcases classHome_cases root q with ⟨r, hr, hn, hhome⟩ | ⟨hno, hhome⟩
  · rw [hhome, hr, Origin.namespaceAt.injEq, Option.some_inj]
    constructor
    · rintro rfl
      exact ⟨rfl, hn⟩
    · exact fun h => h.1
  · rw [hhome]
    exact ⟨fun h => (nomatch h), fun h => absurd h.2 (hno p h.1)⟩

theorem eq_of_classHome_eq_classAt {root : Node} {p q : Address} (h : classHome root q = .classAt p) :
    q = p := by
  rcases classHome_cases root q with ⟨r, -, -, hhome⟩ | ⟨-, hhome⟩
  · rw [hhome] at h
    cases h
  · rw [hhome] at h
    exact Origin.classAt.inj h

theorem classHome_ne_functionAt (root : Node) (p q : Address) :
    classHome root q ≠ .functionAt p := by
  intro h
  rcases classHome_cases root q with ⟨r, -, -, hhome⟩ | ⟨-, hhome⟩
  · rw [hhome] at h
    cases h
  · rw [hhome] at h
    cases h

theorem functionHome_cases (root : Node) (p : Address) :
    (∃ q, p.parent? = some q ∧ standsAt root classWord q ∧ functionHome root p = .methodOf q) ∨
      (∃ q, p.parent? = some q ∧ namedAt root namespaceWord q ∧
        functionHome root p = .freeIn (.namespaceAt q)) ∨
      (∀ q, p.parent? = some q → ¬standsAt root classWord q ∧ ¬namedAt root namespaceWord q) ∧
        functionHome root p = .freeIn (.functionAt p) := by
  unfold functionHome
  cases hp : p.parent? with
  | none => exact .inr (.inr ⟨fun _ h => (nomatch h), rfl⟩)
  | some r =>
    by_cases hc : standsAt root classWord r
    · exact .inl ⟨r, rfl, hc, if_pos hc⟩
    · by_cases hn : namedAt root namespaceWord r
      · exact .inr (.inl ⟨r, rfl, hn, (if_neg hc).trans (if_pos hn)⟩)
      · refine .inr (.inr ⟨?_, (if_neg hc).trans (if_neg hn)⟩)
        rintro q ⟨⟩
        exact ⟨hc, hn⟩

theorem not_namedAt_namespace {root : Node} {p : Address} (h : standsAt root classWord p) :
    ¬namedAt root namespaceWord p :=
  fun hn => absurd (word_unique h (standsAt_of_namedAt hn)) (by decide)

theorem functionHome_eq_methodOf_iff (root : Node) (p q : Address) :
    functionHome root q = .methodOf p ↔ q.parent? = some p ∧ standsAt root classWord p := by
  rcases functionHome_cases root q with ⟨r, hr, hc, hhome⟩ | ⟨r, hr, hn, hhome⟩ | ⟨hno, hhome⟩
  · rw [hhome, hr, Place.methodOf.injEq, Option.some_inj]
    constructor
    · rintro rfl
      exact ⟨rfl, hc⟩
    · exact fun h => h.1
  · rw [hhome, hr, Option.some_inj]
    refine ⟨fun h => (nomatch h), ?_⟩
    rintro ⟨rfl, hc⟩
    exact absurd hn (not_namedAt_namespace hc)
  · rw [hhome]
    exact ⟨fun h => (nomatch h), fun h => absurd h.2 (hno p h.1).1⟩

theorem functionHome_eq_namespaceAt_iff (root : Node) (p q : Address) :
    functionHome root q = .freeIn (.namespaceAt p) ↔
      q.parent? = some p ∧ namedAt root namespaceWord p := by
  rcases functionHome_cases root q with ⟨r, hr, hc, hhome⟩ | ⟨r, hr, hn, hhome⟩ | ⟨hno, hhome⟩
  · rw [hhome, hr, Option.some_inj]
    refine ⟨fun h => (nomatch h), ?_⟩
    rintro ⟨rfl, hn⟩
    exact absurd hn (not_namedAt_namespace hc)
  · rw [hhome, hr, Place.freeIn.injEq, Origin.namespaceAt.injEq, Option.some_inj]
    constructor
    · rintro rfl
      exact ⟨rfl, hn⟩
    · exact fun h => h.1
  · rw [hhome]
    exact ⟨fun h => (nomatch h), fun h => absurd h.2 (hno p h.1).2⟩

theorem eq_of_functionHome_eq_functionAt {root : Node} {p q : Address}
    (h : functionHome root q = .freeIn (.functionAt p)) : q = p := by
  rcases functionHome_cases root q with ⟨r, -, -, hhome⟩ | ⟨r, -, -, hhome⟩ | ⟨-, hhome⟩
  · rw [hhome] at h
    cases h
  · rw [hhome] at h
    cases Place.freeIn.inj h
  · rw [hhome] at h
    exact Origin.functionAt.inj (Place.freeIn.inj h)

theorem functionHome_ne_classAt (root : Node) (p q : Address) :
    functionHome root q ≠ .freeIn (.classAt p) := by
  intro h
  rcases functionHome_cases root q with ⟨r, -, -, hhome⟩ | ⟨r, -, -, hhome⟩ | ⟨-, hhome⟩
  · rw [hhome] at h
    cases h
  · rw [hhome] at h
    cases Place.freeIn.inj h
  · rw [hhome] at h
    cases Place.freeIn.inj h

/-! ## Every home occurs -/

theorem mem_addresses_of_namedAt {root : Node} {word : Text} {p : Address} (h : namedAt root word p) :
    p ∈ root.addresses := by
  obtain ⟨node, hnode, -⟩ := (namedAt_iff root word p).mp h
  rw [Node.mem_addresses_iff, hnode]
  rfl

theorem mem_candidates_iff (root : Node) (o : Origin) :
    o ∈ candidates root ↔ ∃ p ∈ root.addresses, o = .namespaceAt p ∨ o = .classAt p ∨ o = .functionAt p := by
  simp only [candidates, List.mem_append, List.mem_map]
  constructor
  · rintro ((⟨p, hp, rfl⟩ | ⟨p, hp, rfl⟩) | ⟨p, hp, rfl⟩)
    · exact ⟨p, hp, .inl rfl⟩
    · exact ⟨p, hp, .inr (.inl rfl)⟩
    · exact ⟨p, hp, .inr (.inr rfl)⟩
  · rintro ⟨p, hp, rfl | rfl | rfl⟩
    · exact .inl (.inl ⟨p, hp, rfl⟩)
    · exact .inl (.inr ⟨p, hp, rfl⟩)
    · exact .inr ⟨p, hp, rfl⟩

theorem mem_origins_iff (root : Node) (o : Origin) : o ∈ origins root ↔ o.occurs root := by
  rw [origins, List.mem_filter, mem_candidates_iff]
  refine ⟨fun h => h.2, fun h => ⟨?_, h⟩⟩
  cases o with
  | namespaceAt p => exact ⟨p, mem_addresses_of_namedAt h, .inl rfl⟩
  | classAt p =>
    exact ⟨p, mem_addresses_of_namedAt (Bool.and_eq_true_iff.mp h).1, .inr (.inl rfl)⟩
  | functionAt p =>
    exact ⟨p, mem_addresses_of_namedAt (Bool.and_eq_true_iff.mp h).1, .inr (.inr rfl)⟩

theorem nodup_candidates (root : Node) : (candidates root).Nodup := by
  have hall := Node.nodup_addresses root
  have hspaces : (root.addresses.map Origin.namespaceAt).Nodup :=
    hall.map fun _ _ h => Origin.namespaceAt.inj h
  have hclasses : (root.addresses.map Origin.classAt).Nodup := hall.map fun _ _ h => Origin.classAt.inj h
  have hfunctions : (root.addresses.map Origin.functionAt).Nodup :=
    hall.map fun _ _ h => Origin.functionAt.inj h
  unfold candidates
  refine (hspaces.append hclasses ?_).append hfunctions ?_
  · intro o h1 h2
    obtain ⟨p, -, rfl⟩ := List.mem_map.mp h1
    obtain ⟨q, -, h⟩ := List.mem_map.mp h2
    cases h
  · intro o h1 h2
    obtain ⟨q, -, rfl⟩ := List.mem_map.mp h2
    rcases List.mem_append.mp h1 with h1 | h1
    · obtain ⟨p, -, h⟩ := List.mem_map.mp h1
      cases h
    · obtain ⟨p, -, h⟩ := List.mem_map.mp h1
      cases h

theorem occurs_classHome {root : Node} {p : Address} (h : namedAt root classWord p) :
    (classHome root p).occurs root := by
  cases ho : classHome root p with
  | namespaceAt q => exact ((classHome_eq_namespaceAt_iff root q p).mp ho).2
  | classAt q =>
    obtain rfl := eq_of_classHome_eq_classAt ho
    rw [Origin.occurs, h, ho]
    exact decide_eq_true rfl
  | functionAt q => exact absurd ho (classHome_ne_functionAt root q p)

theorem occurs_functionHome {root : Node} {p : Address} {o : Origin}
    (h : namedAt root functionWord p) (ho : functionHome root p = .freeIn o) : o.occurs root := by
  cases o with
  | namespaceAt q => exact ((functionHome_eq_namespaceAt_iff root q p).mp ho).2
  | classAt q => exact absurd ho (functionHome_ne_classAt root q p)
  | functionAt q =>
    obtain rfl := eq_of_functionHome_eq_functionAt ho
    rw [Origin.occurs, h, ho]
    exact decide_eq_true rfl

/-! ## Each element at its home only -/

theorem mem_classes_iff {root : Node} {o : Origin} (ho : o.occurs root) (p : Address) :
    p ∈ o.classes root ↔ namedAt root classWord p ∧ classHome root p = o := by
  cases o with
  | namespaceAt q =>
    rw [Origin.classes, mem_namedChildren_iff, classHome_eq_namespaceAt_iff]
    exact and_congr_right fun _ => (and_iff_left ho).symm
  | classAt q =>
    rw [Origin.classes, List.mem_singleton]
    obtain ⟨hn, hq⟩ := Bool.and_eq_true_iff.mp ho
    constructor
    · rintro rfl
      exact ⟨hn, of_decide_eq_true hq⟩
    · exact fun h => eq_of_classHome_eq_classAt h.2
  | functionAt q =>
    constructor
    · intro h
      cases h
    · exact fun h => absurd h.2 (classHome_ne_functionAt root q p)

theorem mem_functions_iff {root : Node} {o : Origin} (ho : o.occurs root) (p : Address) :
    p ∈ o.functions root ↔ namedAt root functionWord p ∧ functionHome root p = .freeIn o := by
  cases o with
  | namespaceAt q =>
    rw [Origin.functions, mem_namedChildren_iff, functionHome_eq_namespaceAt_iff]
    exact and_congr_right fun _ => (and_iff_left ho).symm
  | classAt q =>
    constructor
    · intro h
      cases h
    · exact fun h => absurd h.2 (functionHome_ne_classAt root q p)
  | functionAt q =>
    rw [Origin.functions, List.mem_singleton]
    obtain ⟨hn, hq⟩ := Bool.and_eq_true_iff.mp ho
    constructor
    · rintro rfl
      exact ⟨hn, of_decide_eq_true hq⟩
    · exact fun h => eq_of_functionHome_eq_functionAt h.2

theorem mem_methods_iff {root : Node} {q : Address} (hq : standsAt root classWord q) (p : Address) :
    p ∈ methods root q ↔ namedAt root functionWord p ∧ functionHome root p = .methodOf q := by
  rw [methods, mem_namedChildren_iff, functionHome_eq_methodOf_iff]
  exact and_congr_right fun _ => (and_iff_left hq).symm

theorem mem_classElements_iff (root : Node) (p : Address) :
    p ∈ classElements root ↔ namedAt root classWord p := by
  rw [classElements, List.mem_flatMap]
  constructor
  · rintro ⟨o, ho, hp⟩
    exact ((mem_classes_iff ((mem_origins_iff root o).mp ho) p).mp hp).1
  · intro h
    have ho := occurs_classHome h
    exact ⟨classHome root p, (mem_origins_iff root _).mpr ho, (mem_classes_iff ho p).mpr ⟨h, rfl⟩⟩

theorem mem_functionElements_iff (root : Node) (p : Address) :
    p ∈ functionElements root ↔ namedAt root functionWord p ∧
      ∀ q, functionHome root p = .methodOf q → namedAt root classWord q := by
  rw [functionElements, List.mem_append, List.mem_flatMap, List.mem_flatMap]
  constructor
  · rintro (⟨o, ho, hp⟩ | ⟨q, hq, hp⟩)
    · obtain ⟨hn, hhome⟩ := (mem_functions_iff ((mem_origins_iff root o).mp ho) p).mp hp
      refine ⟨hn, ?_⟩
      intro q hq
      rw [hhome] at hq
      cases hq
    · have hclass := (mem_classElements_iff root q).mp hq
      obtain ⟨hn, hhome⟩ := (mem_methods_iff (standsAt_of_namedAt hclass) p).mp hp
      refine ⟨hn, ?_⟩
      intro r hr
      rw [hhome] at hr
      cases hr
      exact hclass
  · rintro ⟨hn, h⟩
    cases hhome : functionHome root p with
    | freeIn o =>
      have ho := occurs_functionHome hn hhome
      exact .inl ⟨o, (mem_origins_iff root o).mpr ho, (mem_functions_iff ho p).mpr ⟨hn, hhome⟩⟩
    | methodOf q =>
      have hclass := h q hhome
      exact .inr ⟨q, (mem_classElements_iff root q).mpr hclass,
        (mem_methods_iff (standsAt_of_namedAt hclass) p).mpr ⟨hn, hhome⟩⟩

/-- Lists put one after the other have no entry twice when each entry tells the list it is from. -/
theorem nodup_flatMap_of_home {α β γ : Type} {items : β → List α} {all : List β} (home : α → γ)
    (tag : β → γ) (htag : Function.Injective tag) (hall : all.Nodup)
    (heach : ∀ b ∈ all, (items b).Nodup) (hhome : ∀ b ∈ all, ∀ a ∈ items b, home a = tag b) :
    (all.flatMap items).Nodup := by
  refine List.nodup_flatMap.mpr ⟨heach, ?_⟩
  refine hall.imp_of_mem ?_
  intro b b' hb hb' hne a ha ha'
  exact hne (htag ((hhome b hb a ha).symm.trans (hhome b' hb' a ha')))

theorem nodup_origins (root : Node) : (origins root).Nodup := (nodup_candidates root).filter _

theorem nodup_classElements (root : Node) : (classElements root).Nodup := by
  apply nodup_flatMap_of_home (classHome root) id Function.injective_id (nodup_origins root)
  · intro o _
    cases o with
    | namespaceAt p => exact nodup_namedChildren root classWord p
    | classAt p => exact List.nodup_singleton p
    | functionAt p => exact List.nodup_nil
  · intro o ho p hp
    exact ((mem_classes_iff ((mem_origins_iff root o).mp ho) p).mp hp).2

theorem nodup_functionElements (root : Node) : (functionElements root).Nodup := by
  have hfree : ∀ o ∈ origins root, ∀ p ∈ o.functions root, functionHome root p = .freeIn o := by
    intro o ho p hp
    exact ((mem_functions_iff ((mem_origins_iff root o).mp ho) p).mp hp).2
  have hmethod : ∀ q ∈ classElements root, ∀ p ∈ methods root q, functionHome root p = .methodOf q := by
    intro q hq p hp
    have hclass := standsAt_of_namedAt ((mem_classElements_iff root q).mp hq)
    exact ((mem_methods_iff hclass p).mp hp).2
  unfold functionElements
  refine List.Nodup.append ?_ ?_ ?_
  · apply nodup_flatMap_of_home (functionHome root) Place.freeIn ?_ (nodup_origins root) ?_ hfree
    · exact fun _ _ h => Place.freeIn.inj h
    · intro o _
      cases o with
      | namespaceAt p => exact nodup_namedChildren root functionWord p
      | classAt p => exact List.nodup_nil
      | functionAt p => exact List.nodup_singleton p
  · apply nodup_flatMap_of_home (functionHome root) Place.methodOf ?_ (nodup_classElements root) ?_ hmethod
    · exact fun _ _ h => Place.methodOf.inj h
    · exact fun q _ => nodup_namedChildren root functionWord q
  · intro p h1 h2
    obtain ⟨o, ho, hp⟩ := List.mem_flatMap.mp h1
    obtain ⟨q, hq, hp'⟩ := List.mem_flatMap.mp h2
    have h := (hfree o ho p hp).symm.trans (hmethod q hq p hp')
    cases h

end DocTools.Reference
