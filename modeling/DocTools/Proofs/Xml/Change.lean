import DocTools.Xml.Node

/-! # Documents that differ in one place

Two documents that are the same but for the children of one element, and what can be told from one
without telling it from the other. A reading `Respects` such a change when it gives the same for both
documents. The main statements: a reading made of the children with a name, or of all elements with a
name below, respects a change that the readings of those elements respect, provided that the place of
the change gives the same before and after. -/
namespace DocTools.Xml
set_option autoImplicit false

/-- An element whose children change: its name and attributes, the name of the element it lies in, and
what holds of the names of all elements around it. -/
structure Spot where
  home : Text
  word : Text
  attributes : List Attribute
  around : Text → Prop

def Spot.filled (s : Spot) (kids : List Node) : Node := .element s.word s.attributes kids

namespace Node

/-- Two nodes that are the same but for one element below them, which has children `kids` in one and
`others` in the other. -/
inductive Changed (s : Spot) (kids others : List Node) : Node → Node → Prop
  | here (attributes : List Attribute) (before after : List Node) (h : s.around s.home) :
      Changed s kids others (.element s.home attributes (before ++ s.filled kids :: after))
        (.element s.home attributes (before ++ s.filled others :: after))
  | deeper (name : Text) (attributes : List Attribute) (before after : List Node) {x y : Node}
      (h : s.around name) (changed : Changed s kids others x y) :
      Changed s kids others (.element name attributes (before ++ x :: after))
        (.element name attributes (before ++ y :: after))

/-- What is read off a node does not tell which children stand at the spot. -/
def Respects {α : Type} (s : Spot) (kids others : List Node) (g : Node → α) : Prop :=
  ∀ x y, Changed s kids others x y → g x = g y

variable {s : Spot} {kids others : List Node} {x y : Node} {α : Type}

/-! ## What the element itself tells -/

theorem eq_of_isNamed {node : Node} {v w : Text} (hv : node.isNamed v) (hw : node.isNamed w) :
    v = w := by
  cases node with
  | element name attributes children => exact (eq_of_beq hv).symm.trans (eq_of_beq hw)
  | text content => cases hv
  | comment content => cases hv
  | instruction target => cases hv

theorem Changed.isNamed_eq (h : Changed s kids others x y) (word : Text) :
    x.isNamed word = y.isNamed word := by
  cases h <;> rfl

theorem Changed.around_of_isNamed (h : Changed s kids others x y) {word : Text}
    (hw : x.isNamed word) : s.around word := by
  cases h with
  | here attributes before after h => rwa [← eq_of_beq hw]
  | deeper name attributes before after h _ => rwa [← eq_of_beq hw]

theorem Changed.occurrences_left (h : Changed s kids others x y) (parent : Option Node) :
    x.occurrences parent = ⟨parent, x⟩ :: occurrencesIn x x.children := by
  cases h <;> rfl

theorem Changed.occurrences_right (h : Changed s kids others x y) (parent : Option Node) :
    y.occurrences parent = ⟨parent, y⟩ :: occurrencesIn y y.children := by
  cases h <;> rfl

theorem respects_attribute? (word : Text) : Respects s kids others (attribute? word) := by
  intro x y h
  cases h <;> rfl

theorem respects_text? : Respects s kids others text? := by
  intro x y h
  cases h with
  | here attributes before after _ =>
    cases before with
    | nil => rfl
    | cons first before => cases first <;> rfl
  | deeper name attributes before after _ changed =>
    cases before with
    | nil => cases changed <;> rfl
    | cons first before => cases first <;> rfl

/-! ## The first child with a name -/

theorem find?_append_cons {p : Node → Bool} (before after : List Node) (x : Node) :
    (before ++ x :: after).find? p =
      (before.find? p).or (if p x then some x else after.find? p) := by
  rw [List.find?_append, List.find?_cons]
  cases p x <;> rfl

theorem isNamed_filled (kids : List Node) {word : Text} (hw : word ≠ s.word) :
    (s.filled kids).isNamed word = false := beq_false_of_ne (Ne.symm hw)

/-- The first child with a name is the same, or it is the child that the spot lies in. -/
theorem Changed.child?_cases (h : Changed s kids others x y) {word : Text} (hw : word ≠ s.word) :
    x.child? word = y.child? word ∨
      ∃ p q, x.child? word = some p ∧ y.child? word = some q ∧ Changed s kids others p q ∧
        s.around word := by
  cases h with
  | here attributes before after _ =>
    refine .inl ?_
    simp only [child?, children, find?_append_cons, isNamed_filled _ hw]
    rfl
  | @deeper name attributes before after p q _ changed =>
    simp only [child?, children, find?_append_cons, changed.isNamed_eq word]
    cases before.find? (isNamed word) with
    | some found => exact .inl rfl
    | none =>
      by_cases hq : q.isNamed word
      · have hp := (changed.isNamed_eq word).trans hq
        rw [if_pos hq, if_pos hq]
        exact .inr ⟨p, q, rfl, rfl, changed, changed.around_of_isNamed hp⟩
      · rw [if_neg hq, if_neg hq]
        exact .inl rfl

theorem Changed.bind_child?_eq {word : Text} (hw : word ≠ s.word) {g : Node → Option α}
    (hg : Respects s kids others g) (h : Changed s kids others x y) :
    (x.child? word).bind g = (y.child? word).bind g := by
  rcases h.child?_cases hw with heq | ⟨p, q, hp, hq, hpq, -⟩
  · rw [heq]
  · rw [hp, hq]
    exact hg p q hpq

theorem Changed.map_child?_eq {word : Text} (hw : word ≠ s.word) {g : Node → α}
    (hg : Respects s kids others g) (h : Changed s kids others x y) :
    (x.child? word).map g = (y.child? word).map g := by
  rcases h.child?_cases hw with heq | ⟨p, q, hp, hq, hpq, -⟩
  · rw [heq]
  · rw [hp, hq]
    exact congrArg some (hg p q hpq)

/-! ## All children with a name -/

theorem filterMap_filter_append_cons {p : Node → Bool} (g : Node → Option α)
    (before after : List Node) (x : Node) :
    ((before ++ x :: after).filter p).filterMap g =
      (before.filter p).filterMap g ++ (if p x then (g x).toList else []) ++
        (after.filter p).filterMap g := by
  rw [List.filter_append, List.filterMap_append, List.filter_cons, List.append_assoc]
  congr 1
  cases p x with
  | false => rfl
  | true =>
    rw [if_pos rfl, if_pos rfl, List.filterMap_cons]
    cases g x <;> rfl

theorem Changed.filterMap_childrenNamed_eq (h : Changed s kids others x y) (word : Text)
    {g : Node → Option α}
    (hspot : s.word = word → x.isNamed s.home → g (s.filled kids) = g (s.filled others))
    (hg : Respects s kids others g) :
    (x.childrenNamed word).filterMap g = (y.childrenNamed word).filterMap g := by
  cases h with
  | here attributes before after _ =>
    simp only [childrenNamed, children, filterMap_filter_append_cons]
    congr 2
    by_cases hw : s.word = word
    · rw [hspot hw (beq_self_eq_true s.home)]
      rfl
    · rw [isNamed_filled kids (Ne.symm hw), isNamed_filled others (Ne.symm hw)]
      rfl
  | deeper name attributes before after _ changed =>
    simp only [childrenNamed, children, filterMap_filter_append_cons, changed.isNamed_eq word,
      hg _ _ changed]

theorem Changed.map_childrenNamed_eq {word : Text} (hw : word ≠ s.word) {g : Node → α}
    (hg : Respects s kids others g) (h : Changed s kids others x y) :
    (x.childrenNamed word).map g = (y.childrenNamed word).map g := by
  have hsome : Respects s kids others fun node => some (g node) :=
    fun p q hpq => congrArg some (hg p q hpq)
  have heq := h.filterMap_childrenNamed_eq word (fun hword _ => absurd hword.symm hw) hsome
  rwa [List.filterMap_eq_map'] at heq

/-! ## Everything below -/

theorem occurrencesIn_append (parent : Node) (before after : List Node) :
    occurrencesIn parent (before ++ after) =
      occurrencesIn parent before ++ occurrencesIn parent after := by
  induction before with
  | nil => rfl
  | cons node before ih => rw [List.cons_append, occurrencesIn, occurrencesIn, ih, List.append_assoc]

theorem filterMap_cons_congr {β : Type} {a b : β} {f : β → Option α} {l m : List β} (hab : f a = f b)
    (hlm : l.filterMap f = m.filterMap f) : (a :: l).filterMap f = (b :: m).filterMap f := by
  rw [List.filterMap_cons, List.filterMap_cons, hab, hlm]

/-- Of the nodes below a parent, only its children are told which parent they have. -/
theorem filterMap_occurrencesIn_congr {give : Occurrence → Option α} {p q : Node}
    (h : ∀ node, give ⟨some p, node⟩ = give ⟨some q, node⟩) (nodes : List Node) :
    (occurrencesIn p nodes).filterMap give = (occurrencesIn q nodes).filterMap give := by
  induction nodes with
  | nil => rfl
  | cons node nodes ih =>
    have hfirst : (node.occurrences (some p)).filterMap give =
        (node.occurrences (some q)).filterMap give := by
      cases node <;> exact filterMap_cons_congr (h _) rfl
    rw [occurrencesIn, occurrencesIn, List.filterMap_append, List.filterMap_append, ih, hfirst]

/-- A reading of the nodes in a document, with what they lie in, that does not tell which children
stand at the spot. -/
structure RespectsAll (s : Spot) (kids others : List Node) (give : Occurrence → Option α) : Prop where
  parents : ∀ p q node, Changed s kids others p q → give ⟨some p, node⟩ = give ⟨some q, node⟩
  nodes : ∀ parent x y, Changed s kids others x y → give ⟨parent, x⟩ = give ⟨parent, y⟩
  spot : ∀ p q, Changed s kids others p q → p.isNamed s.home →
    ((s.filled kids).occurrences (some p)).filterMap give =
      ((s.filled others).occurrences (some q)).filterMap give

variable {give : Occurrence → Option α}

theorem filterMap_occurrencesIn_append_cons (parent : Node) (before after : List Node) (x : Node) :
    (occurrencesIn parent (before ++ x :: after)).filterMap give =
      (occurrencesIn parent before).filterMap give ++
        ((x.occurrences (some parent)).filterMap give ++
          (occurrencesIn parent after).filterMap give) := by
  rw [occurrencesIn_append, occurrencesIn, List.filterMap_append, List.filterMap_append]

/-- What is read off everything below two documents is the same. -/
theorem RespectsAll.filterMap_below_eq (hgive : RespectsAll s kids others give)
    (h : Changed s kids others x y) :
    (occurrencesIn x x.children).filterMap give = (occurrencesIn y y.children).filterMap give := by
  induction h with
  | here attributes before after harea =>
    have hroot : Changed s kids others (.element s.home attributes (before ++ s.filled kids :: after))
      (.element s.home attributes (before ++ s.filled others :: after)) := .here _ _ _ harea
    simp only [children, filterMap_occurrencesIn_append_cons]
    rw [filterMap_occurrencesIn_congr (hgive.parents _ _ · hroot) before,
      filterMap_occurrencesIn_congr (hgive.parents _ _ · hroot) after,
      hgive.spot _ _ hroot (beq_self_eq_true s.home)]
  | @deeper name attributes before after x y harea changed ih =>
    have hroot : Changed s kids others (.element name attributes (before ++ x :: after))
      (.element name attributes (before ++ y :: after)) := .deeper _ _ _ _ harea changed
    have hchild := (hgive.parents _ _ x hroot).trans (hgive.nodes _ x y changed)
    simp only [children, filterMap_occurrencesIn_append_cons]
    rw [filterMap_occurrencesIn_congr (hgive.parents _ _ · hroot) before,
      filterMap_occurrencesIn_congr (hgive.parents _ _ · hroot) after, changed.occurrences_left,
      changed.occurrences_right, filterMap_cons_congr hchild ih]

theorem RespectsAll.filterMap_eq (hgive : RespectsAll s kids others give)
    (h : Changed s kids others x y) (parent : Option Node) :
    (x.occurrences parent).filterMap give = (y.occurrences parent).filterMap give := by
  rw [h.occurrences_left, h.occurrences_right]
  exact filterMap_cons_congr (hgive.nodes parent x y h) (hgive.filterMap_below_eq h)

/-! ## All elements with a name below -/

theorem filterMap_descendantsNamed (word : Text) (g : Node → Option α) (node : Node) :
    (node.descendantsNamed word).filterMap g = (occurrencesIn node node.children).filterMap
      fun o => if o.node.isNamed word then g o.node else none := by
  rw [descendantsNamed, List.filterMap_filter, List.filterMap_map]
  rfl

theorem not_isNamed_of_descendantsNamed_eq_nil {word : Text} {node : Node}
    (h : node.descendantsNamed word = []) :
    ∀ o ∈ occurrencesIn node node.children, ¬o.node.isNamed word := by
  intro o ho
  exact List.filter_eq_nil_iff.mp h o.node (List.mem_map_of_mem ho)

theorem respectsAll_named {word : Text} (hw : word ≠ s.word) {g : Node → Option α}
    (hg : Respects s kids others g)
    (hspot : ((s.filled kids).descendantsNamed word).filterMap g =
      ((s.filled others).descendantsNamed word).filterMap g) :
    RespectsAll s kids others fun o => if o.node.isNamed word then g o.node else none where
  parents _ _ _ _ := rfl
  nodes parent x y h := by simp only [h.isNamed_eq word, hg x y h]
  spot p q _ _ := by
    rw [filterMap_descendantsNamed, filterMap_descendantsNamed] at hspot
    refine filterMap_cons_congr ?_ hspot
    -- the element at the spot has another name, so it gives nothing
    exact (if_neg (Bool.eq_false_iff.mp (isNamed_filled kids hw))).trans
      (if_neg (Bool.eq_false_iff.mp (isNamed_filled others hw))).symm

theorem respects_descendantsNamed {word : Text} (hw : word ≠ s.word) {g : Node → Option α}
    (hg : Respects s kids others g)
    (hspot : ((s.filled kids).descendantsNamed word).filterMap g =
      ((s.filled others).descendantsNamed word).filterMap g) :
    Respects s kids others fun x => (x.descendantsNamed word).filterMap g := by
  intro x y h
  simp only [filterMap_descendantsNamed]
  exact (respectsAll_named hw hg hspot).filterMap_below_eq h

end Node
end DocTools.Xml
