import DocTools.Dictionary
import DocTools.Text.Basic

/-! # What a reference documents

Namespaces with their classes and functions, as they are known from documentation files, whatever
the form of those files and of the pages made from them. -/
namespace DocTools.Reference
set_option autoImplicit false

/-! ## Access -/

inductive Access where
  | publicAccess
  | protectedAccess
  | privateAccess
  deriving DecidableEq, Repr

def Access.name : Access → Text
  | .publicAccess => "public".toList
  | .protectedAccess => "protected".toList
  | .privateAccess => "private".toList

/-- The access that an attribute states. None stated is public; a word that is not known counts as
private, so that nothing is shown by mistake. -/
def Access.ofAttribute : Option Text → Access
  | none => .publicAccess
  | some word =>
    if word = Access.publicAccess.name then .publicAccess
    else if word = Access.protectedAccess.name then .protectedAccess
    else .privateAccess

/-! ## Members of the model -/

def voidType : Text := "void".toList

/-- The namespace of what names none. -/
def globalNamespace : Text := "global".toList

structure Parameter where
  name : Text
  type : Text
  description : Text
  deriving DecidableEq, Repr

/-- A free function or a method. `owner` is the namespace it is filed under. -/
structure Function where
  name : Text
  brief : Text
  description : Text
  returnType : Text
  returnDescription : Text
  parameters : List Parameter
  isStatic : Bool
  isConst : Bool
  isNoexcept : Bool
  templateParams : List Text
  access : Access
  owner : Text
  deriving DecidableEq, Repr

def Function.returnsValue (f : Function) : Bool := f.returnType != voidType

structure Member where
  name : Text
  type : Text
  brief : Text
  description : Text
  access : Access
  deriving DecidableEq, Repr

structure Class where
  name : Text
  brief : Text
  description : Text
  owner : Text
  methods : List Function
  members : List Member
  baseClasses : List Text
  isTemplate : Bool
  templateParams : List Text
  deriving DecidableEq, Repr

def Class.publicMethods (c : Class) : List Function := c.methods.filter fun m => m.access = .publicAccess

def Class.publicMembers (c : Class) : List Member := c.members.filter fun m => m.access = .publicAccess

/-- A namespace with its own classes and functions; methods are with their classes. -/
structure Namespace where
  name : Text
  brief : Text
  description : Text
  classes : List Class
  functions : List Function
  deriving DecidableEq, Repr

def Namespace.named (name : Text) : Namespace := ⟨name, [], [], [], []⟩

abbrev Model := Dictionary Text Namespace

/-! ## Merging -/

/-- The first of two texts that is not empty. -/
def firstText (a b : Text) : Text := if a.isEmpty then b else a

/-- What two fragments of one namespace say together. -/
def Namespace.append (a b : Namespace) : Namespace :=
  { a with
    brief := firstText a.brief b.brief
    description := firstText a.description b.description
    classes := a.classes ++ b.classes
    functions := a.functions ++ b.functions }

def Model.add (model : Model) (fragment : Namespace) : Model :=
  match model.get? fragment.name with
  | none => model.insert fragment.name fragment
  | some known => model.insert fragment.name (known.append fragment)

def Model.merge (model : Model) (fragments : List Namespace) : Model :=
  fragments.foldl Model.add model

end DocTools.Reference
