import DocTools.Reference.Model
import DocTools.Xml.Document

/-! # Reading a documentation file

From the elements of a document to fragments of namespaces. A named namespace has the classes and
functions that are its children, a class the functions that are its children; what is left over is
filed by itself. Documentation stands in `text` elements below `doc`. -/
namespace DocTools.Reference
set_option autoImplicit false

open Xml (Node)

/-! ## Words of the format -/

def nameWord : Text := "name".toList
def namespaceWord : Text := "namespace".toList
def classWord : Text := "class".toList
def functionWord : Text := "function".toList
def typeWord : Text := "type".toList
def docWord : Text := "doc".toList
def textWord : Text := "text".toList
def paramWord : Text := "param".toList
def briefWord : Text := "brief".toList
def descriptionWord : Text := "description".toList

/-! ## Pieces -/

def nonEmpty? (text : Option Text) : Option Text := text.filter fun t => !t.isEmpty

theorem nonEmpty?_eq_some_iff {said : Option Text} {text : Text} :
    nonEmpty? said = some text ↔ said = some text ∧ text ≠ [] := by
  rw [nonEmpty?, Option.filter_eq_some_iff, Bool.not_eq_true', ← Bool.not_eq_true, List.isEmpty_iff]

theorem nonEmpty?_eq_none_iff {said : Option Text} :
    nonEmpty? said = none ↔ ∀ text, said = some text → text = [] := by
  simp only [nonEmpty?, Option.filter_eq_none_iff, Bool.not_eq_true', Bool.not_eq_false,
    List.isEmpty_iff]

def trimmedText? (node : Node) : Option Text := nonEmpty? (node.text?.map Text.trim)

/-- The name of an element: its attribute, or the text of a child. -/
def nameOf? (node : Node) : Option Text :=
  (nonEmpty? (node.attribute? nameWord)).or
    (nonEmpty? ((node.child? nameWord).bind Node.text?))

/-- A name says something, and is what the attribute says, or, where this says nothing, the text of the
first child of that kind. -/
theorem nameOf?_eq_some_iff {node : Node} {name : Text} :
    nameOf? node = some name ↔ name ≠ [] ∧ (node.attribute? nameWord = some name ∨
      (∀ value, node.attribute? nameWord = some value → value = []) ∧
        ∃ child, node.child? nameWord = some child ∧ child.text? = some name) := by
  rw [nameOf?, Option.or_eq_some_iff, nonEmpty?_eq_some_iff, nonEmpty?_eq_some_iff,
    nonEmpty?_eq_none_iff, Option.bind_eq_some_iff]
  constructor
  · rintro (⟨hattribute, hne⟩ | ⟨hempty, hchild, hne⟩)
    · exact ⟨hne, .inl hattribute⟩
    · exact ⟨hne, .inr ⟨hempty, hchild⟩⟩
  · rintro ⟨hne, hattribute | ⟨hempty, hchild⟩⟩
    · exact .inl ⟨hattribute, hne⟩
    · exact .inr ⟨hempty, hchild, hne⟩

/-- The documentation under a heading: all texts there, trimmed, with blanks between them. -/
def docText (heading : Text) (node : Node) : Text :=
  match (node.child? docWord).bind (Node.child? heading) with
  | none => []
  | some part => Text.join [' '] ((part.descendantsNamed textWord).filterMap trimmedText?)

def flag (name : Text) (node : Node) : Bool :=
  (node.attribute? name).any fun value => value.map Char.toLower == "true".toList

/-- The type that a `type` element spells out. One without a name may be a pointer, which is made up
of what it points to. -/
def spelledType (node : Node) : Text :=
  match nonEmpty? (node.attribute? nameWord) with
  | some name => name
  | none =>
    if node.attribute? classWord = some "pointer".toList then
      match node.child? "pointee-type".toList with
      | none => []
      | some pointee =>
        let qualifiers := (pointee.attribute? "cv-qualifiers".toList).getD []
        let base := (pointee.attribute? nameWord).getD voidType
        Text.trim (qualifiers ++ ' ' :: base ++ ['*'])
    else []

def templateParams (node : Node) : List Text :=
  (node.descendantsNamed "template-param".toList).filterMap nameOf?

/-! ## Functions -/

/-- The description of a parameter: the first entry under its name that says anything. -/
def paramDescription (doc : Option Node) (name : Text) : Text :=
  if name.isEmpty then []
  else
    let entries := (doc.map (Node.childrenNamed paramWord)).getD []
    let texts := (entries.filter fun e => e.attribute? nameWord = some name).filterMap fun e =>
      (e.child? textWord).bind trimmedText?
    texts.head?.getD []

def parameter (doc : Option Node) (node : Node) : Parameter :=
  let name := (node.attribute? nameWord).getD []
  ⟨name, ((node.child? typeWord).map spelledType).getD [], paramDescription doc name⟩

def returnType (node : Node) : Text :=
  (nonEmpty? (((node.child? "return".toList).bind (Node.child? typeWord)).bind
    (Node.attribute? nameWord))).getD voidType

/-- The function that an element describes, filed under `owner`. -/
def function? (owner : Text) (node : Node) : Option Function :=
  (nameOf? node).map fun name =>
    { name := name
      brief := docText briefWord node
      description := docText descriptionWord node
      returnType := returnType node
      returnDescription := docText "returns".toList node
      parameters := (node.childrenNamed paramWord).map (parameter (node.child? docWord))
      isStatic := flag "static".toList node
      isConst := flag "const".toList node
      isNoexcept := flag "noexcept".toList node
      templateParams := templateParams node
      access := .ofAttribute (node.attribute? "access".toList)
      owner := owner }

/-! ## Classes -/

def member? (node : Node) : Option Member :=
  (nameOf? node).map fun name =>
    let type := (node.child? typeWord).bind fun t =>
      (trimmedText? t).or (nonEmpty? (t.attribute? nameWord))
    { name := name
      type := type.getD []
      brief := docText briefWord node
      description := docText descriptionWord node
      access := .ofAttribute (node.attribute? "access".toList) }

/-- The name of a base class: an attribute, or the text of the element. -/
def baseName? (node : Node) : Option Text :=
  (nonEmpty? (node.attribute? nameWord)).or (trimmedText? node)

def class? (owner : Text) (node : Node) : Option Class :=
  (nameOf? node).map fun name =>
    let params := templateParams node
    { name := name
      brief := docText briefWord node
      description := docText descriptionWord node
      owner := owner
      methods := (node.childrenNamed functionWord).filterMap (function? [])
      members := (node.descendantsNamed "member".toList).filterMap member?
      baseClasses := (node.descendantsNamed "base".toList).filterMap baseName?
      isTemplate := !params.isEmpty
      templateParams := params }

/-! ## Namespaces -/

/-- The fragment that a namespace element makes, if it has a name. -/
def namespace? (node : Node) : Option Namespace :=
  (nameOf? node).map fun name =>
    { name := name
      brief := docText briefWord node
      description := docText descriptionWord node
      classes := (node.childrenNamed classWord).filterMap (class? name)
      functions := (node.childrenNamed functionWord).filterMap (function? name) }

/-- Whether an element is a namespace with a name, and so has its children. -/
def isNamedNamespace (node : Node) : Bool := node.isNamed namespaceWord && (nameOf? node).isSome

/-- Whether a class in such a place belongs to no namespace element. -/
def isStrayClass (o : Node.Occurrence) : Bool :=
  o.node.isNamed classWord && !o.parent.any isNamedNamespace

/-- Whether a function in such a place belongs to no namespace element and no class. -/
def isStrayFunction (o : Node.Occurrence) : Bool :=
  o.node.isNamed functionWord &&
    !o.parent.any fun p => isNamedNamespace p || p.isNamed classWord

def statedNamespace (node : Node) : Text :=
  (nonEmpty? (node.attribute? namespaceWord)).getD globalNamespace

def strayClass? (node : Node) : Option Namespace :=
  (class? (statedNamespace node) node).map fun c =>
    { Namespace.named c.owner with classes := [c] }

def strayFunction? (node : Node) : Option Namespace :=
  (function? (statedNamespace node) node).map fun f =>
    { Namespace.named f.owner with functions := [f] }

/-- The fragments in a document: those of namespaces, then the classes left over, then the functions
left over, each in the order of the document. -/
def fragments (root : Node) : List Namespace :=
  let all := root.occurrences none
  ((all.filter fun o => o.node.isNamed namespaceWord).filterMap fun o => namespace? o.node) ++
    ((all.filter isStrayClass).filterMap fun o => strayClass? o.node) ++
    ((all.filter isStrayFunction).filterMap fun o => strayFunction? o.node)

def read (text : Text) : Except Xml.Error (List Namespace) := (Xml.parse text).map fragments

theorem read_eq_ok {text : Text} {root : Node} (h : Xml.parse text = .ok root) :
    read text = .ok (fragments root) := by
  rw [read, h]
  rfl

end DocTools.Reference
