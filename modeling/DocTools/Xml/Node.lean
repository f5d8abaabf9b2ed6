import DocTools.Text.Blank

/-! # Document trees

What a document holds, once it is read. Elements are known by their names without the namespace;
attributes keep the namespace they are in, when they are in one. -/
namespace DocTools.Xml
set_option autoImplicit false

structure Attribute where
  namespaceUri : Option Text
  name : Text
  value : Text
  deriving DecidableEq, Repr

inductive Node where
  | element (name : Text) (attributes : List Attribute) (children : List Node)
  | text (content : Text)
  | comment (content : Text)
  | instruction (target : Text)
  deriving Repr

namespace Node

instance : Inhabited Node := ⟨.text []⟩

mutual

def decEq : (a b : Node) → Decidable (a = b)
  | .element name attributes children, .element name' attributes' children' =>
    match decEqAll children children' with
    | isTrue h => decidable_of_iff (name = name' ∧ attributes = attributes') (by simp [h])
    | isFalse h => isFalse (by simp [h])
  | .text t, .text t' => decidable_of_iff (t = t') (by simp)
  | .comment t, .comment t' => decidable_of_iff (t = t') (by simp)
  | .instruction t, .instruction t' => decidable_of_iff (t = t') (by simp)
  | .element .., .text _ | .element .., .comment _ | .element .., .instruction _
  | .text _, .element .. | .text _, .comment _ | .text _, .instruction _
  | .comment _, .element .. | .comment _, .text _ | .comment _, .instruction _
  | .instruction _, .element .. | .instruction _, .text _ | .instruction _, .comment _ =>
    isFalse nofun

def decEqAll : (a b : List Node) → Decidable (a = b)
  | [], [] => isTrue rfl
  | [], _ :: _ | _ :: _, [] => isFalse nofun
  | a :: as, b :: bs =>
    match decEq a b, decEqAll as bs with
    | isTrue h, isTrue hs => isTrue (by rw [h, hs])
    | isFalse h, _ => isFalse (by simp [h])
    | _, isFalse hs => isFalse (by simp [hs])

end

instance : DecidableEq Node := decEq

def children : Node → List Node
  | .element _ _ children => children
  | _ => []

def attributes : Node → List Attribute
  | .element _ attributes _ => attributes
  | _ => []

def isNamed (name : Text) : Node → Bool
  | .element own _ _ => own == name
  | _ => false

def isElement : Node → Bool
  | .element _ _ _ => true
  | _ => false

def attribute? (name : Text) (node : Node) : Option Text :=
  (node.attributes.find? fun a => a.namespaceUri.isNone && a.name == name).map (·.value)

/-- The text that an element begins with: its first child, if that is a text. -/
def text? (node : Node) : Option Text :=
  match node.children with
  | .text content :: _ => some content
  | _ => none

def childrenNamed (name : Text) (node : Node) : List Node := node.children.filter (isNamed name)

def child? (name : Text) (node : Node) : Option Node := node.children.find? (isNamed name)

/-! ## Everything below an element -/

structure Occurrence where
  parent : Option Node
  node : Node

mutual

/-- A node and all that lies below it, in the order of the document. -/
def occurrences (parent : Option Node) : Node → List Occurrence
  | .element name attributes children =>
    ⟨parent, .element name attributes children⟩ ::
      occurrencesIn (.element name attributes children) children
  | node => [⟨parent, node⟩]

def occurrencesIn (parent : Node) : List Node → List Occurrence
  | [] => []
  | node :: nodes => occurrences (some parent) node ++ occurrencesIn parent nodes

end

/-- The elements with a name below a node, in the order of the document. -/
def descendantsNamed (name : Text) (node : Node) : List Node :=
  ((occurrencesIn node node.children).map (·.node)).filter (isNamed name)

end Node
end DocTools.Xml
