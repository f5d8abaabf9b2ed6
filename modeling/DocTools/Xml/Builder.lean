import DocTools.Xml.Node
import DocTools.Xml.Reference

/-! # Building the tree

A builder holds the elements that are open, innermost first, and the tag that is being read. Start
tags, end tags and texts change it one after the other; namespaces and attributes are settled when a
tag ends. -/
namespace DocTools.Xml
set_option autoImplicit false

/-- Names of namespaces and their URIs, the nearest first. -/
abbrev Scope := List (Text × Text)

def xmlUri : Text := "http://www.w3.org/XML/1998/namespace".toList
def xmlnsUri : Text := "http://www.w3.org/2000/xmlns/".toList
def xmlName : Text := "xml".toList
def xmlnsName : Text := "xmlns".toList

/-- An element whose end tag has not been read. The children are in reverse. -/
structure OpenElement where
  name : Cursor.QName
  attributes : List Attribute
  scope : Scope
  children : List Node

structure Tag where
  name : Cursor.QName
  offset : Nat

structure Pending where
  name : Cursor.QName
  value : Text
  offset : Nat

structure Builder where
  opened : List OpenElement
  /-- What stands outside of all elements, in reverse. -/
  top : List Node
  tag : Option Tag
  pending : List Pending
  declared : Scope
  /-- Whether a text that comes next belongs to the one before it. -/
  inText : Bool
  /-- How many references the outermost one led to so far. -/
  references : Nat

namespace Builder

def empty : Builder := ⟨[], [], none, [], [], false, 0⟩

def scope (b : Builder) : Scope :=
  match b.opened with
  | [] => [(xmlName, xmlUri)]
  | e :: _ => e.scope

/-! ## Nodes -/

def addNode (b : Builder) (node : Node) : Builder :=
  match b.opened with
  | [] => { b with top := node :: b.top, inText := false }
  | e :: outer => { b with opened := { e with children := node :: e.children } :: outer, inText := false }

/-- Puts a text behind the nodes; a text just before it is made longer instead. -/
def addText (b : Builder) (text : Text) : Builder :=
  let grow : List Node → List Node
    | .text before :: nodes => if b.inText then .text (before ++ text) :: nodes
        else .text text :: .text before :: nodes
    | nodes => .text text :: nodes
  match b.opened with
  | [] => { b with top := grow b.top, inText := true }
  | e :: outer => { b with opened := { e with children := grow e.children } :: outer, inText := true }

/-! ## Tags -/

def startTag (b : Builder) (name : Cursor.QName) (offset : Nat) : Scan Builder :=
  if name.space = xmlnsName then .error ⟨.reservedElementSpace, offset + 1⟩
  else .ok { b with tag := some ⟨name, offset + 1⟩, inText := false }

/-- Declares a namespace. Neither of the two reserved URIs may be declared, except that the name `xml`
stands for its own. -/
def declare (b : Builder) (name uri : Text) (offset : Nat) : Scan Builder :=
  if uri = xmlnsUri then .error ⟨.reservedXmlnsUri, offset⟩
  else if name = xmlName ∧ uri ≠ xmlUri then .error ⟨.wrongXmlUri, offset⟩
  else if name ≠ xmlName ∧ uri = xmlUri then .error ⟨.reservedXmlUri, offset⟩
  else if (b.declared.lookup name).isSome then .error ⟨.repeatedNamespace name, offset⟩
  else if name = xmlName then .ok b
  else .ok { b with declared := b.declared ++ [(name, uri)] }

/-- Takes in an attribute of the tag that is being read. Declarations of namespaces take effect, all
others wait for the end of the tag. -/
def addAttribute (b : Builder) (name : Cursor.QName) (value : Text) (offset : Nat) : Scan Builder :=
  if name.space = xmlnsName then b.declare name.local' value offset
  else if name.local' = xmlnsName then
    if value = xmlUri then .error ⟨.reservedXmlUri, offset⟩
    else if value = xmlnsUri then .error ⟨.reservedXmlnsUri, offset⟩
    else .ok b
  else .ok { b with pending := b.pending ++ [⟨name, value, offset⟩] }

/-- The URI of a namespace by its name; the empty name is in none. -/
def uriOf? (scope : Scope) (name : Text) (offset : Nat) : Scan (Option Text) :=
  if name.isEmpty then .ok none
  else match scope.lookup name with
    | some uri => .ok (some uri)
    | none => .error ⟨.unknownNamespace name, offset⟩

def settle (scope : Scope) (settled : List Attribute) (p : Pending) : Scan (List Attribute) := do
  let uri ← if p.name.space = xmlName then pure (some xmlUri) else uriOf? scope p.name.space p.offset
  if settled.any fun a => a.namespaceUri == uri && a.name == p.name.local' then
    .error ⟨.repeatedAttribute p.name.local', p.offset⟩
  else return settled ++ [⟨uri, p.name.local', p.value⟩]

structure Settled where
  tag : Tag
  scope : Scope
  attributes : List Attribute

def endTag (b : Builder) : Scan (Settled × Builder) :=
  match b.tag with
  | none => .error ⟨.strayCloseTag, 0⟩
  | some tag => do
    let scope := b.declared ++ b.scope
    let attributes ← b.pending.foldlM (settle scope) []
    return (⟨tag, scope, attributes⟩, { b with pending := [], declared := [], inText := false })

def openElement (b : Builder) : Scan Builder := do
  let (s, b) ← b.endTag
  let _ ← uriOf? s.scope s.tag.name.space s.tag.offset
  return { b with opened := ⟨s.tag.name, s.attributes, s.scope, []⟩ :: b.opened }

def emptyElement (b : Builder) : Scan Builder := do
  let (s, b) ← b.endTag
  let _ ← uriOf? s.scope s.tag.name.space s.tag.offset
  return b.addNode (.element s.tag.name.local' s.attributes [])

/-- A close tag, which has to bear the name of the innermost open element. -/
def closeElement (b : Builder) (name : Cursor.QName) (offset : Nat) : Scan Builder :=
  if b.tag.isNone then .error ⟨.strayCloseTag, offset⟩
  else do
    let (_, b) ← b.endTag
    match b.opened with
    | [] => .error ⟨.strayCloseTag, offset⟩
    | e :: outer =>
      if name = e.name then
        return ({ b with opened := outer }).addNode
          (.element e.name.local' e.attributes e.children.reverse)
      else .error ⟨.wrongCloseTag e.name.text name.text, offset⟩

end Builder
end DocTools.Xml
