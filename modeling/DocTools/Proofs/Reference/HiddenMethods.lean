import DocTools.Except
import DocTools.Proofs.Reference.PublicView
import DocTools.Proofs.Xml.Change
import DocTools.Reference.Reader

/-! # What is told of methods that are not public

A method that is not public has no part of its own on the pages. But a class takes its template
parameters, bases and members from everything below it, so what stands in a hidden method can come
to light as if it were the class's own. The main statements: the pages of two documents that differ
in the children of a hidden method are the same when both versions leave the `SameTraces`, and the
traces are what the public view of a document tells. -/
namespace DocTools.Reference
set_option autoImplicit false

open Xml (Node Attribute Spot)
open Xml.Node (Changed Respects RespectsAll)

/-! ## Hidden methods -/

/-- The place of a method of a class. -/
def methodSpot (attributes : List Attribute) (around : Text → Prop) : Spot :=
  ⟨classWord, functionWord, attributes, around⟩

/-- A method whose access is stated and not public, with no namespace, class or function in it. -/
structure IsHidden (method : Node) : Prop where
  access : ∃ word, method.attribute? "access".toList = some word ∧ word ≠ Access.publicAccess.name
  flat : ∀ word ∈ [namespaceWord, classWord, functionWord], method.descendantsNamed word = []

def publicMethod? (node : Node) : Option Function :=
  (function? [] node).filter fun f => f.access = .publicAccess

def publicMember? (node : Node) : Option Member :=
  (member? node).filter fun m => m.access = .publicAccess

/-- Two elements hold the same of what a class takes from everything below it. The texts count too
where the elements can lie in a documentation. -/
structure SameTraces (inDoc : Prop) (a b : Node) : Prop where
  templates : templateParams a = templateParams b
  bases : (a.descendantsNamed "base".toList).filterMap baseName? =
    (b.descendantsNamed "base".toList).filterMap baseName?
  members : (a.descendantsNamed "member".toList).filterMap publicMember? =
    (b.descendantsNamed "member".toList).filterMap publicMember?
  texts : inDoc → (a.descendantsNamed textWord).filterMap trimmedText? =
    (b.descendantsNamed textWord).filterMap trimmedText?

section
variable {attributes : List Attribute} {around : Text → Prop} {kids others : List Node} {x y : Node}

theorem ne_word {word : Text} (h : word ≠ functionWord) : word ≠ (methodSpot attributes around).word := h

/-! ## Names and types -/

theorem respects_nameOf? : Respects (methodSpot attributes around) kids others nameOf? := by
  intro x y h
  unfold nameOf?
  rw [Node.respects_attribute? nameWord x y h,
    h.bind_child?_eq (ne_word (by decide)) Node.respects_text?]

theorem respects_trimmedText? :
    Respects (methodSpot attributes around) kids others trimmedText? := by
  intro x y h
  unfold trimmedText?
  rw [Node.respects_text? x y h]

theorem respects_baseName? : Respects (methodSpot attributes around) kids others baseName? := by
  intro x y h
  unfold baseName?
  rw [Node.respects_attribute? nameWord x y h, respects_trimmedText? x y h]

theorem respects_flag (name : Text) :
    Respects (methodSpot attributes around) kids others (flag name) := by
  intro x y h
  unfold flag
  rw [Node.respects_attribute? name x y h]

theorem respects_spelledType : Respects (methodSpot attributes around) kids others spelledType := by
  intro x y h
  have hpointee := h.child?_cases (ne_word (show "pointee-type".toList ≠ functionWord by decide))
  unfold spelledType
  rw [Node.respects_attribute? nameWord x y h, Node.respects_attribute? classWord x y h]
  rcases hpointee with heq | ⟨p, q, hp, hq, hpq, -⟩
  · rw [heq]
  · rw [hp, hq]
    simp only [Node.respects_attribute? _ p q hpq]

theorem respects_returnType : Respects (methodSpot attributes around) kids others returnType := by
  intro x y h
  unfold returnType
  have htype : Respects (methodSpot attributes around) kids others
      fun r => ((r.child? typeWord).bind (Node.attribute? nameWord)) := fun p q hpq =>
    hpq.bind_child?_eq (ne_word (by decide)) (Node.respects_attribute? nameWord)
  rw [Option.bind_assoc, Option.bind_assoc, h.bind_child?_eq (ne_word (by decide)) htype]

/-! ## Parameters -/

theorem paramDescription_eq (h : Changed (methodSpot attributes around) kids others x y)
    (name : Text) :
    paramDescription (x.child? docWord) name = paramDescription (y.child? docWord) name := by
  rcases h.child?_cases (ne_word (show docWord ≠ functionWord by decide)) with heq | ⟨p, q, hp, hq, hpq, -⟩
  · rw [heq]
  · have hentry : Respects (methodSpot attributes around) kids others fun e =>
        if e.attribute? nameWord = some name then (e.child? textWord).bind trimmedText? else none := by
      intro a b hab
      dsimp only
      rw [Node.respects_attribute? nameWord a b hab,
        hab.bind_child?_eq (ne_word (by decide)) respects_trimmedText?]
    have hentries := hpq.filterMap_childrenNamed_eq paramWord
      (fun hword => absurd hword.symm (ne_word (by decide))) hentry
    unfold paramDescription
    rw [hp, hq]
    simp only [Option.map_some, Option.getD_some, List.filterMap_filter, decide_eq_true_eq]
    rw [hentries]

theorem respects_parameter (doc : Option Node) :
    Respects (methodSpot attributes around) kids others (parameter doc) := by
  intro x y h
  unfold parameter
  rw [Node.respects_attribute? nameWord x y h,
    h.map_child?_eq (ne_word (by decide)) respects_spelledType]

theorem parameters_eq (h : Changed (methodSpot attributes around) kids others x y) :
    (x.childrenNamed paramWord).map (parameter (x.child? docWord)) =
      (y.childrenNamed paramWord).map (parameter (y.child? docWord)) := by
  have hdoc : parameter (x.child? docWord) = parameter (y.child? docWord) := by
    funext node
    simp only [parameter, paramDescription_eq h]
  rw [hdoc, h.map_childrenNamed_eq (ne_word (by decide)) (respects_parameter _)]

end

section
variable {attributes : List Attribute} {around : Text → Prop} {kids others : List Node} {x y : Node}
  (hsame : SameTraces (around docWord) (.element functionWord attributes kids)
    (.element functionWord attributes others))
include hsame

/-! ## Documentation -/

theorem respects_docText {heading : Text} (hheading : heading ≠ functionWord) :
    Respects (methodSpot attributes around) kids others (docText heading) := by
  intro x y h
  unfold docText
  rcases h.child?_cases (ne_word (show docWord ≠ functionWord by decide)) with heq | ⟨p, q, hp, hq, hpq, hdoc⟩
  · rw [heq]
  · rw [hp, hq, Option.bind_some, Option.bind_some]
    rcases hpq.child?_cases (ne_word hheading) with heq | ⟨a, b, ha, hb, hab, -⟩
    · rw [heq]
    · -- the spot lies in the documentation, and its texts are told
      have htexts := Node.respects_descendantsNamed (ne_word (by decide)) respects_trimmedText?
        (hsame.texts hdoc) a b hab
      rw [ha, hb]
      exact congrArg (Text.join [' ']) htexts

/-! ## Functions and members -/

theorem respects_templateParams :
    Respects (methodSpot attributes around) kids others templateParams :=
  Node.respects_descendantsNamed (ne_word (by decide)) respects_nameOf? hsame.templates

theorem respects_function? (owner : Text) :
    Respects (methodSpot attributes around) kids others (function? owner) := by
  intro x y h
  unfold function?
  rw [respects_nameOf? x y h, respects_docText hsame (by decide) x y h,
    respects_docText hsame (by decide) x y h, respects_docText hsame (by decide) x y h,
    respects_returnType x y h, parameters_eq h, respects_flag _ x y h, respects_flag _ x y h,
    respects_flag _ x y h, respects_templateParams hsame x y h, Node.respects_attribute? _ x y h]

theorem respects_publicMember? :
    Respects (methodSpot attributes around) kids others publicMember? := by
  intro x y h
  have htype : Respects (methodSpot attributes around) kids others fun t =>
      (trimmedText? t).or (nonEmpty? (t.attribute? nameWord)) := by
    intro p q hpq
    dsimp only
    rw [respects_trimmedText? p q hpq, Node.respects_attribute? nameWord p q hpq]
  unfold publicMember? member?
  rw [respects_nameOf? x y h, respects_docText hsame (by decide) x y h,
    respects_docText hsame (by decide) x y h, h.bind_child?_eq (ne_word (by decide)) htype,
    Node.respects_attribute? _ x y h]

/-! ## Classes -/

omit hsame in
theorem visible_class? (owner : Text) (node : Node) :
    (class? owner node).map Class.visible = (nameOf? node).map fun name =>
      { name := name
        brief := docText briefWord node
        description := docText descriptionWord node
        owner := owner
        methods := (node.childrenNamed functionWord).filterMap publicMethod?
        members := (node.descendantsNamed "member".toList).filterMap publicMember?
        baseClasses := (node.descendantsNamed "base".toList).filterMap baseName?
        isTemplate := !(templateParams node).isEmpty
        templateParams := templateParams node } := by
  unfold class?
  rw [Option.map_map]
  congr 1
  funext name
  simp only [Function.comp_apply, Class.visible, Class.publicMethods, Class.publicMembers,
    List.filter_filterMap]
  rfl

omit hsame in
theorem ofAttribute_ne_public {word : Text} (h : word ≠ Access.publicAccess.name) :
    Access.ofAttribute (some word) ≠ .publicAccess := by
  simp only [Access.ofAttribute, if_neg h]
  split <;> decide

omit hsame in
theorem publicMethod?_of_isHidden {method : Node} (h : IsHidden method) :
    publicMethod? method = none := by
  obtain ⟨word, hword, hne⟩ := h.access
  unfold publicMethod? function?
  rw [hword]
  cases nameOf? method with
  | none => rfl
  | some name => exact Option.filter_some_neg (by simpa using ofAttribute_ne_public hne)

variable (hkids : IsHidden (.element functionWord attributes kids))
  (hothers : IsHidden (.element functionWord attributes others))
include hkids hothers

theorem respects_class? (owner : Text) :
    Respects (methodSpot attributes around) kids others
      fun node => (class? owner node).map Class.visible := by
  intro x y h
  have hmethod : Respects (methodSpot attributes around) kids others publicMethod? := by
    intro p q hpq
    unfold publicMethod?
    rw [respects_function? hsame [] p q hpq]
  have hmethods := h.filterMap_childrenNamed_eq functionWord
    (fun _ _ => (publicMethod?_of_isHidden hkids).trans (publicMethod?_of_isHidden hothers).symm) hmethod
  have hmembers := Node.respects_descendantsNamed (ne_word (by decide)) (respects_publicMember? hsame)
    hsame.members x y h
  have hbases := Node.respects_descendantsNamed (ne_word (by decide)) respects_baseName?
    hsame.bases x y h
  dsimp only at hmembers hbases ⊢
  rw [visible_class?, visible_class?, respects_nameOf? x y h, respects_docText hsame (by decide) x y h,
    respects_docText hsame (by decide) x y h, hmethods, hmembers, hbases,
    respects_templateParams hsame x y h]

/-! ## Namespaces -/

omit hsame hkids hothers in
theorem visible_namespace? (node : Node) :
    (namespace? node).map Namespace.visible = (nameOf? node).map fun name =>
      { name := name
        brief := docText briefWord node
        description := docText descriptionWord node
        classes := (node.childrenNamed classWord).filterMap fun c => (class? name c).map Class.visible
        functions := (node.childrenNamed functionWord).filterMap (function? name) } := by
  unfold namespace?
  rw [Option.map_map]
  congr 1
  funext name
  simp only [Function.comp_apply, Namespace.visible, List.map_filterMap]

theorem namespace?_eq (h : Changed (methodSpot attributes around) kids others x y)
    (hx : x.isNamed namespaceWord) :
    (namespace? x).map Namespace.visible = (namespace? y).map Namespace.visible := by
  have hclasses (name : Text) := h.filterMap_childrenNamed_eq classWord
    (fun hword => absurd hword.symm (ne_word (by decide))) (respects_class? hsame hkids hothers name)
  -- a namespace is no class, so the spot is not among its own functions
  have hfunctions (name : Text) := h.filterMap_childrenNamed_eq functionWord
    (fun _ hc => absurd (Node.eq_of_isNamed hx hc) (show namespaceWord ≠ classWord by decide))
    (respects_function? hsame name)
  rw [visible_namespace?, visible_namespace?, respects_nameOf? x y h,
    respects_docText hsame (by decide) x y h, respects_docText hsame (by decide) x y h]
  simp only [hclasses, hfunctions]

omit hsame hkids hothers in
theorem visible_strayClass? (node : Node) : (strayClass? node).map Namespace.visible =
    ((class? (statedNamespace node) node).map Class.visible).map
      fun c => { Namespace.named c.owner with classes := [c] } := by
  unfold strayClass?
  rw [Option.map_map, Option.map_map]
  rfl

theorem strayClass?_eq (h : Changed (methodSpot attributes around) kids others x y) :
    (strayClass? x).map Namespace.visible = (strayClass? y).map Namespace.visible := by
  have hstated : statedNamespace x = statedNamespace y := by
    unfold statedNamespace
    rw [Node.respects_attribute? _ x y h]
  rw [visible_strayClass?, visible_strayClass?, hstated]
  exact congrArg _ (respects_class? hsame hkids hothers _ x y h)

omit hkids hothers in
theorem strayFunction?_eq (h : Changed (methodSpot attributes around) kids others x y) :
    (strayFunction? x).map Namespace.visible = (strayFunction? y).map Namespace.visible := by
  have hstated : statedNamespace x = statedNamespace y := by
    unfold statedNamespace
    rw [Node.respects_attribute? _ x y h]
  unfold strayFunction?
  rw [hstated, respects_function? hsame _ x y h]

/-! ## Fragments -/

omit hsame hkids hothers in
theorem isNamedNamespace_eq (h : Changed (methodSpot attributes around) kids others x y) :
    isNamedNamespace x = isNamedNamespace y := by
  unfold isNamedNamespace
  rw [h.isNamed_eq, respects_nameOf? x y h]

/-- The fragments made for the elements of one kind in a document, by what they lie in. -/
def pass (word : Text) (keep : Option Node → Bool) (give : Node → Option Namespace)
    (o : Node.Occurrence) : Option Namespace :=
  if o.node.isNamed word && keep o.parent then (give o.node).map Namespace.visible else none

omit hsame hkids hothers in
/-- A hidden method and all below it make no fragment. -/
theorem filterMap_pass_of_isHidden (h : IsHidden (.element functionWord attributes kids))
    {word : Text} (hword : word ∈ [namespaceWord, classWord, functionWord])
    {keep : Option Node → Bool} {parent : Node} (hparent : word = functionWord → keep (some parent) = false)
    (give : Node → Option Namespace) :
    ((Node.element functionWord attributes kids).occurrences (some parent)).filterMap
      (pass word keep give) = [] := by
  rw [List.filterMap_eq_nil_iff]
  intro o ho
  refine if_neg fun hkeep => ?_
  obtain ⟨hnamed, hkeep⟩ := Bool.and_eq_true_iff.mp hkeep
  rcases List.mem_cons.mp ho with rfl | ho
  · have heq : functionWord = word := eq_of_beq hnamed
    rw [hparent heq.symm] at hkeep
    cases hkeep
  · exact Node.not_isNamed_of_descendantsNamed_eq_nil (h.flat word hword) o ho hnamed

omit hsame in
theorem respectsAll_pass (word : Text) (hword : word ∈ [namespaceWord, classWord, functionWord])
    (keep : Option Node → Bool) {give : Node → Option Namespace}
    (hkeep : ∀ p q, Changed (methodSpot attributes around) kids others p q →
      keep (some p) = keep (some q))
    (hmethod : ∀ p, word = functionWord → p.isNamed classWord → keep (some p) = false)
    (hgive : ∀ x y, Changed (methodSpot attributes around) kids others x y → x.isNamed word →
      (give x).map Namespace.visible = (give y).map Namespace.visible) :
    RespectsAll (methodSpot attributes around) kids others (pass word keep give) where
  parents p q node h := by simp only [pass, hkeep p q h]
  nodes parent x y h := by
    simp only [pass, h.isNamed_eq word]
    split
    · next hy => exact hgive x y h ((h.isNamed_eq word).trans (Bool.and_eq_true_iff.mp hy).1)
    · rfl
  spot p q h hp := by
    have hq := (h.isNamed_eq _).symm.trans hp
    show ((Node.element functionWord attributes kids).occurrences _).filterMap _ =
      ((Node.element functionWord attributes others).occurrences _).filterMap _
    rw [filterMap_pass_of_isHidden hkids hword fun hw => hmethod p hw hp,
      filterMap_pass_of_isHidden hothers hword fun hw => hmethod q hw hq]

omit hsame hkids hothers in
theorem map_visible_fragments (root : Node) :
    (fragments root).map Namespace.visible =
      (root.occurrences none).filterMap (pass namespaceWord (fun _ => true) namespace?) ++
        (root.occurrences none).filterMap
          (pass classWord (fun parent => !parent.any isNamedNamespace) strayClass?) ++
        (root.occurrences none).filterMap
          (pass functionWord
            (fun parent => !parent.any fun p => isNamedNamespace p || p.isNamed classWord)
            strayFunction?) := by
  unfold fragments pass isStrayClass isStrayFunction
  simp only [List.map_append, List.map_filterMap, List.filterMap_filter, Bool.and_true,
    apply_ite (Option.map Namespace.visible), Option.map_none]

/-- The public view of a document does not tell which children a hidden method has, when both
versions leave the same traces. -/
theorem map_visible_fragments_eq (h : Changed (methodSpot attributes around) kids others x y) :
    (fragments x).map Namespace.visible = (fragments y).map Namespace.visible := by
  have hnamespaces := respectsAll_pass hkids hothers namespaceWord (by decide)
    (fun _ => true) (fun _ _ _ => rfl) (fun _ hw => absurd hw (by decide))
    fun _ _ => namespace?_eq hsame hkids hothers
  have hclasses := respectsAll_pass hkids hothers classWord (by decide)
    (fun parent => !parent.any isNamedNamespace)
    (fun _ _ h => congrArg not (isNamedNamespace_eq h)) (fun _ hw => absurd hw (by decide))
    fun _ _ h _ => strayClass?_eq hsame hkids hothers h
  have hfunctions := respectsAll_pass hkids hothers functionWord (by decide)
    (fun parent => !parent.any fun p => isNamedNamespace p || p.isNamed classWord)
    (fun _ _ h => by
      simp only [Option.any_some]
      rw [isNamedNamespace_eq h, h.isNamed_eq])
    (fun p _ hp => by
      simp only [Option.any_some]
      rw [hp, Bool.or_true]
      rfl)
    fun _ _ h _ => strayFunction?_eq hsame h
  rw [map_visible_fragments, map_visible_fragments, hnamespaces.filterMap_eq h none,
    hclasses.filterMap_eq h none, hfunctions.filterMap_eq h none]

end

/-! ## The traces are told -/

section
variable {attributes : List Attribute} {around : Text → Prop} {kids others : List Node}

/-- A document that is one class with one method. -/
def loneClass (method : Node) : Node := .element classWord [⟨none, nameWord, ['C']⟩] [method]

theorem occurrencesIn_loneClass (method : Node) :
    Node.occurrencesIn (loneClass method) (loneClass method).children =
      method.occurrences (some (loneClass method)) := List.append_nil _

theorem occurrences_loneClass (method : Node) :
    (loneClass method).occurrences none =
      ⟨none, loneClass method⟩ :: method.occurrences (some (loneClass method)) :=
  congrArg (_ :: ·) (occurrencesIn_loneClass method)

theorem filterMap_pass_loneClass (h : IsHidden (.element functionWord attributes kids))
    {word : Text} (hword : word ∈ [namespaceWord, classWord, functionWord])
    {keep : Option Node → Bool}
    (hkeep : word = functionWord →
      keep (some (loneClass (.element functionWord attributes kids))) = false)
    (give : Node → Option Namespace) :
    ((loneClass (.element functionWord attributes kids)).occurrences none).filterMap
        (pass word keep give) =
      (pass word keep give ⟨none, loneClass (.element functionWord attributes kids)⟩).toList := by
  have hmethod := filterMap_pass_of_isHidden h hword hkeep give
  rw [occurrences_loneClass, List.filterMap_cons]
  cases pass word keep give ⟨none, loneClass (.element functionWord attributes kids)⟩ with
  | none => exact hmethod
  | some fragment => exact congrArg (fragment :: ·) hmethod

theorem descendantsNamed_loneClass {word : Text} (hw : word ≠ functionWord) {β : Type}
    (g : Node → Option β) :
    ((loneClass (.element functionWord attributes kids)).descendantsNamed word).filterMap g =
      ((Node.element functionWord attributes kids).descendantsNamed word).filterMap g := by
  have hmethod : (Node.element functionWord attributes kids).isNamed word = false :=
    beq_false_of_ne (Ne.symm hw)
  rw [Node.filterMap_descendantsNamed, Node.filterMap_descendantsNamed, occurrencesIn_loneClass]
  exact List.filterMap_cons_none (if_neg (Bool.eq_false_iff.mp hmethod))

/-- All that is told of a class with one hidden method is what traces the method leaves. -/
theorem map_visible_loneClass (h : IsHidden (.element functionWord attributes kids)) :
    (fragments (loneClass (.element functionWord attributes kids))).map Namespace.visible =
      [{ Namespace.named globalNamespace with
        classes := [
          { name := ['C']
            brief := []
            description := []
            owner := globalNamespace
            methods := []
            members := ((Node.element functionWord attributes kids).descendantsNamed
              "member".toList).filterMap publicMember?
            baseClasses := ((Node.element functionWord attributes kids).descendantsNamed
              "base".toList).filterMap baseName?
            isTemplate := !(templateParams (.element functionWord attributes kids)).isEmpty
            templateParams := templateParams (.element functionWord attributes kids) }] }] := by
  have hparams : templateParams (loneClass (.element functionWord attributes kids)) =
      templateParams (.element functionWord attributes kids) :=
    descendantsNamed_loneClass (by decide) nameOf?
  have hmethods : ((loneClass (.element functionWord attributes kids)).childrenNamed
      functionWord).filterMap publicMethod? = [] :=
    List.filterMap_cons_none (publicMethod?_of_isHidden h)
  have hclass : (strayClass? (loneClass (.element functionWord attributes kids))).map
      Namespace.visible = _ := visible_strayClass? _
  rw [visible_class?, hparams, hmethods, descendantsNamed_loneClass (by decide),
    descendantsNamed_loneClass (by decide)] at hclass
  rw [map_visible_fragments, filterMap_pass_loneClass h (by decide) (fun hw => absurd hw (by decide)),
    filterMap_pass_loneClass h (by decide) (fun hw => absurd hw (by decide)),
    filterMap_pass_loneClass h (by decide) (fun _ => rfl)]
  -- the class is the only element that a fragment is made for
  exact congrArg Option.toList hclass

/-- Where no documentation is around a hidden method, the public view of documents tells its traces
and no more. -/
theorem sameTraces_iff (hclass : around classWord) (hdoc : ¬around docWord)
    (hkids : IsHidden (.element functionWord attributes kids))
    (hothers : IsHidden (.element functionWord attributes others)) :
    SameTraces (around docWord) (.element functionWord attributes kids)
        (.element functionWord attributes others) ↔
      ∀ x y, Changed (methodSpot attributes around) kids others x y →
        (fragments x).map Namespace.visible = (fragments y).map Namespace.visible := by
  constructor
  · intro hsame x y h
    exact map_visible_fragments_eq hsame hkids hothers h
  · intro h
    have hlone := h (loneClass (.element functionWord attributes kids))
      (loneClass (.element functionWord attributes others)) (.here [⟨none, nameWord, ['C']⟩] [] [] hclass)
    rw [map_visible_loneClass hkids, map_visible_loneClass hothers] at hlone
    simp only [List.cons.injEq, Namespace.mk.injEq, Class.mk.injEq, and_true, true_and] at hlone
    exact ⟨hlone.2.2.2, hlone.2.1, hlone.1, fun hd => absurd hd hdoc⟩

end

/-! ## Pages -/

/-- Two documents that differ in the children of a hidden method have the same pages, when both
versions of it leave the same traces. -/
theorem pages_eq_of_sameTraces {text other : Text} {x y : Node} {attributes : List Attribute}
    {around : Text → Prop} {kids others : List Node} (htext : Xml.parse text = .ok x)
    (hother : Xml.parse other = .ok y) (h : Changed (methodSpot attributes around) kids others x y)
    (hkids : IsHidden (.element functionWord attributes kids))
    (hothers : IsHidden (.element functionWord attributes others))
    (hsame : SameTraces (around docWord) (.element functionWord attributes kids)
      (.element functionWord attributes others)) :
    ∃ found known, read text = .ok found ∧ read other = .ok known ∧
      ∀ g : Generator, g.pages (Model.merge ∅ found) = g.pages (Model.merge ∅ known) := by
  refine ⟨fragments x, fragments y, read_eq_ok htext, read_eq_ok hother, fun g => ?_⟩
  exact g.pages_merge_congr ∅ (map_visible_fragments_eq hsame hkids hothers h)

def privateMethod : List Attribute :=
  [⟨none, nameWord, ['f']⟩, ⟨none, "access".toList, "private".toList⟩]

/-- A class with one private method, and what stands in the method. -/
def privateMethodText (inside : Text) : Text :=
  "<namespace name=\"allure\"><class name=\"C\"><function name=\"f\" access=\"private\">".toList ++
    inside ++ "</function></class></namespace>".toList

def privateMethodRoot (kids : List Node) : Node :=
  .element namespaceWord [⟨none, nameWord, standardTarget⟩]
    [.element classWord [⟨none, nameWord, ['C']⟩] [.element functionWord privateMethod kids]]

theorem changed_privateMethodRoot {around : Text → Prop} (hclass : around classWord)
    (hnamespace : around namespaceWord) (kids others : List Node) :
    Changed (methodSpot privateMethod around) kids others (privateMethodRoot kids)
      (privateMethodRoot others) :=
  .deeper namespaceWord [⟨none, nameWord, standardTarget⟩] [] [] hnamespace
    (.here [⟨none, nameWord, ['C']⟩] [] [] hclass)

def documentedKids : List Node :=
  [.element docWord [] [.element briefWord [] [.element textWord [] [.text "secret".toList]]],
    .element paramWord [⟨none, nameWord, ['x']⟩] []]

theorem pages_eq_of_sameTraces_documentedKids :
    ∃ found known, read (privateMethodText []) = .ok found ∧
      read (privateMethodText
        "<doc><brief><text>secret</text></brief></doc><param name=\"x\"/>".toList) = .ok known ∧
      ∀ g : Generator, g.pages (Model.merge ∅ found) = g.pages (Model.merge ∅ known) := by
  have h : Changed (methodSpot privateMethod (· ≠ docWord)) [] documentedKids (privateMethodRoot [])
      (privateMethodRoot documentedKids) := changed_privateMethodRoot (by decide) (by decide) _ _
  exact pages_eq_of_sameTraces (eq_ok_of_toOption (by decide +kernel))
    (eq_ok_of_toOption (by decide +kernel)) h
    ⟨⟨"private".toList, by decide, by decide⟩, by decide⟩
    ⟨⟨"private".toList, by decide, by decide⟩, by decide⟩
    ⟨by decide, by decide, by decide, fun hdoc => absurd rfl hdoc⟩

def templateKids : List Node := [.element "template-param".toList [⟨none, nameWord, ['T']⟩] []]

/-- A template parameter of a private method is shown as one of the class. -/
theorem pages_tell_templateKids :
    ∃ x y found known, Xml.parse (privateMethodText []) = .ok x ∧
      Xml.parse (privateMethodText "<template-param name=\"T\"/>".toList) = .ok y ∧
      Changed (methodSpot privateMethod (· ≠ docWord)) [] templateKids x y ∧
      IsHidden (.element functionWord privateMethod []) ∧
      IsHidden (.element functionWord privateMethod templateKids) ∧
      read (privateMethodText []) = .ok found ∧
      read (privateMethodText "<template-param name=\"T\"/>".toList) = .ok known ∧
      Generator.standard.pages (Model.merge ∅ found) ≠
        Generator.standard.pages (Model.merge ∅ known) := by
  have hplain : Xml.parse (privateMethodText []) = .ok (privateMethodRoot []) :=
    eq_ok_of_toOption (by decide +kernel)
  have htemplate : Xml.parse (privateMethodText "<template-param name=\"T\"/>".toList) =
      .ok (privateMethodRoot templateKids) := eq_ok_of_toOption (by decide +kernel)
  refine ⟨_, _, _, _, hplain, htemplate, changed_privateMethodRoot (by decide) (by decide) _ _, ?_, ?_,
    read_eq_ok hplain, read_eq_ok htemplate, by decide +kernel⟩
  · exact ⟨⟨"private".toList, by decide, by decide⟩, by decide⟩
  · exact ⟨⟨"private".toList, by decide, by decide⟩, by decide⟩

end DocTools.Reference
