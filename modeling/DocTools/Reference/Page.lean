import DocTools.Reference.Model

/-! # Reference pages

A namespace in markdown: a page for each class, one for the functions, and an overview. Every page
begins with a title and a description between two lines of dashes. -/
namespace DocTools.Reference
set_option autoImplicit false

structure Page where
  fileName : Text
  content : Text
  deriving DecidableEq, Repr

/-! ## Parts of pages -/

def frontMatter (title description : Text) : Text :=
  "---\ntitle: ".toList ++ title ++ "\ndescription: ".toList ++ description ++ "\n---\n\n".toList

def paragraph (text : Text) : Text := if text.isEmpty then [] else text ++ "\n\n".toList

def code (text : Text) : Text := '`' :: text ++ ['`']

def codeBlock (text : Text) : Text := "```cpp\n".toList ++ text ++ "\n```\n\n".toList

/-- A list of parts under a heading; nothing when the list is empty. -/
def headed (heading : Text) (parts : List Text) : Text :=
  if parts.isEmpty then [] else "## ".toList ++ heading ++ "\n\n".toList ++ parts.flatten

def templateLine (params : List Text) : Text :=
  "template <".toList ++ Text.join ", ".toList (params.map ("typename ".toList ++ ·)) ++ ">\n".toList

/-! ## Functions -/

/-- Where a function is shown: by itself, or as a method of a class. -/
inductive Setting where
  | free
  | method
  deriving DecidableEq, Repr

def Parameter.declaration (p : Parameter) : Text :=
  if p.name.isEmpty then p.type else p.type ++ ' ' :: p.name

/-- The declaration of a function. Only methods are shown as static. -/
def Function.signature (f : Function) (setting : Setting) : Text :=
  (if f.templateParams.isEmpty then [] else templateLine f.templateParams) ++
    (if f.isStatic ∧ setting = .method then "static ".toList else []) ++
    f.returnType ++ ' ' :: f.name ++
    '(' :: Text.join ", ".toList (f.parameters.map Parameter.declaration) ++ [')'] ++
    (if f.isConst then " const".toList else []) ++
    (if f.isNoexcept then " noexcept".toList else [])

def cell (text : Text) : Text := text.flatMap fun c => if c = '|' then ['\\', '|'] else [c]

def Parameter.row (p : Parameter) : Text :=
  let description := if p.description.isEmpty then "No description".toList else p.description
  "| ".toList ++ code p.name ++ " | ".toList ++ code p.type ++ " | ".toList ++ cell description ++
    " |\n".toList

def parameterTable (parameters : List Parameter) : Text :=
  if parameters.isEmpty then []
  else
    "**Parameters:**\n\n| Name | Type | Description |\n|------|------|-------------|\n".toList ++
      parameters.flatMap Parameter.row ++ ['\n']

def Function.returnPart (f : Function) : Text :=
  if f.returnsValue then
    "**Returns:**\n\n".toList ++
      paragraph (if f.returnDescription.isEmpty then
        "Returns a value of type ".toList ++ code f.returnType else f.returnDescription)
  else []

def Function.render (f : Function) (setting : Setting) : Text :=
  "### ".toList ++ f.name ++ "\n\n".toList ++ paragraph f.brief ++
    codeBlock (f.signature setting) ++ paragraph f.description ++ parameterTable f.parameters ++
    f.returnPart

/-! ## Classes -/

def Member.render (m : Member) : Text :=
  "### ".toList ++ code m.name ++ "\n\n".toList ++ codeBlock (m.type ++ ' ' :: m.name) ++
    paragraph m.brief ++ paragraph m.description

def inheritance (bases : List Text) : Text :=
  if bases.isEmpty then []
  else
    headed "Inheritance".toList (bases.map fun b => "- Inherits from: ".toList ++ code b ++ ['\n'])
      ++ ['\n']

def Class.render (c : Class) : Text :=
  frontMatter c.name ("API reference for the ".toList ++ c.name ++ " class".toList) ++
    paragraph c.brief ++
    (if c.isTemplate then codeBlock (templateLine c.templateParams ++ "class ".toList ++ c.name)
      else []) ++
    (if c.description.isEmpty then []
      else headed "Description".toList [paragraph c.description]) ++
    inheritance c.baseClasses ++
    headed "Public Methods".toList (c.publicMethods.map fun m => m.render .method ++ ['\n']) ++
    headed "Public Members".toList (c.publicMembers.map fun m => m.render ++ ['\n'])

/-! ## Namespaces -/

def functionsPage (owner : Text) (functions : List Function) : Text :=
  frontMatter "Functions".toList "Namespace-level utility functions".toList ++
    "Utility functions available in the ".toList ++ code owner ++ " namespace.\n\n".toList ++
    functions.flatMap fun f => f.render .free ++ ['\n']

def Class.indexLine (c : Class) : Text :=
  let brief := if c.brief.isEmpty then "No description available".toList else c.brief
  "- [".toList ++ code c.name ++ "](".toList ++ c.name ++ ".md) - ".toList ++ brief ++ ['\n']

def Namespace.overview (n : Namespace) : Text :=
  frontMatter (n.name ++ " namespace".toList)
      ("API reference for the ".toList ++ n.name ++ " namespace".toList) ++
    paragraph n.brief ++ paragraph n.description ++
    (if n.classes.isEmpty then []
      else headed "Classes".toList (n.classes.map Class.indexLine) ++ ['\n']) ++
    headed "Functions".toList (n.functions.map fun f => f.render .free ++ ['\n'])

/-! ## All pages -/

structure Generator where
  target : Text
  index : Bool
  deriving DecidableEq, Repr

def standardTarget : Text := "allure".toList

def Generator.standard : Generator := ⟨standardTarget, false⟩

def indexPage : Text := "index.md".toList
def functionsPageName : Text := "functions.md".toList

def Class.page (c : Class) : Page := ⟨c.name ++ ".md".toList, c.render⟩

def Namespace.pages (n : Namespace) (index : Bool) : List Page :=
  (if index then [⟨indexPage, n.overview⟩] else []) ++
    n.classes.map Class.page ++
    (if n.functions.isEmpty then [] else [⟨functionsPageName, functionsPage n.name n.functions⟩])

/-- The pages of the namespace that is documented; none when the model lacks it. -/
def Generator.pages (g : Generator) (model : Model) : List Page :=
  match model.get? g.target with
  | none => []
  | some n => n.pages g.index

end DocTools.Reference
