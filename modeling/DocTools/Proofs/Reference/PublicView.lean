import DocTools.Reference.Page

/-! # Pages show the public view

What a reader of the pages can see of the model: classes with the methods and members that are
public. The main statement: two lists of fragments with the same public view, merged each into an
empty model, have the same pages, whichever namespace is asked for. -/
namespace DocTools.Reference
set_option autoImplicit false

/-! ## Public views -/

def Class.visible (c : Class) : Class :=
  { c with methods := c.publicMethods, members := c.publicMembers }

def Namespace.visible (n : Namespace) : Namespace := { n with classes := n.classes.map Class.visible }

/-- What a model shows under each name. -/
abbrev View := Text → Option Namespace

def Model.view (model : Model) : View := fun name => (model.get? name).map Namespace.visible

def View.add (view : View) (fragment : Namespace) : View := fun name =>
  if name = fragment.name then
    some (((view fragment.name).map fun known => known.append fragment).getD fragment)
  else view name

/-! ## Pages of a public view -/

@[simp] theorem Class.publicMethods_visible (c : Class) :
    c.visible.publicMethods = c.publicMethods := List.filter_filter.trans (by simp [publicMethods])

@[simp] theorem Class.publicMembers_visible (c : Class) :
    c.visible.publicMembers = c.publicMembers := List.filter_filter.trans (by simp [publicMembers])

theorem Class.page_visible (c : Class) : c.visible.page = c.page := by
  unfold Class.page Class.render
  rw [publicMethods_visible, publicMembers_visible]
  rfl

@[simp] theorem Namespace.overview_visible (n : Namespace) : n.visible.overview = n.overview := by
  -- a line of the index says nothing of methods and members
  have hlines : n.visible.classes.map Class.indexLine = n.classes.map Class.indexLine :=
    List.map_map
  have hempty : n.visible.classes.isEmpty = n.classes.isEmpty := List.isEmpty_map
  unfold Namespace.overview
  rw [hlines, hempty]
  rfl

@[simp] theorem Namespace.pages_visible (n : Namespace) (index : Bool) :
    n.visible.pages index = n.pages index := by
  have hclasses : n.visible.classes.map Class.page = n.classes.map Class.page :=
    List.map_map.trans (List.map_congr_left fun c _ => c.page_visible)
  unfold Namespace.pages
  rw [hclasses, overview_visible]
  rfl

theorem Generator.pages_eq_of_view (g : Generator) (model : Model) :
    g.pages model = ((model.view g.target).map fun n => n.pages g.index).getD [] := by
  unfold Generator.pages Model.view
  cases model.get? g.target with
  | none => rfl
  | some n => exact (n.pages_visible g.index).symm

/-! ## Merging public views -/

theorem Namespace.visible_append (a b : Namespace) :
    (a.append b).visible = a.visible.append b.visible := by
  simp [visible, append]

theorem Model.view_insert (model : Model) (key : Text) (n : Namespace) (name : Text) :
    Model.view (model.insert key n) name = if name = key then some n.visible else model.view name := by
  unfold view
  rw [Dictionary.get?_insert]
  split <;> rfl

theorem Model.view_add (model : Model) (fragment : Namespace) :
    (model.add fragment).view = model.view.add fragment.visible := by
  funext name
  unfold View.add
  rw [show fragment.visible.name = fragment.name from rfl]
  cases h : model.get? fragment.name with
  | none =>
    have hview : model.view fragment.name = none := congrArg (Option.map Namespace.visible) h
    rw [hview, show model.add fragment = model.insert fragment.name fragment by rw [add, h],
      view_insert]
    rfl
  | some known =>
    have hview : model.view fragment.name = some known.visible :=
      congrArg (Option.map Namespace.visible) h
    rw [hview, show model.add fragment = model.insert fragment.name (known.append fragment) by
      rw [add, h], view_insert, Namespace.visible_append]
    rfl

theorem Model.view_merge (model : Model) (fragments : List Namespace) :
    (model.merge fragments).view = (fragments.map Namespace.visible).foldl View.add model.view := by
  unfold merge
  induction fragments generalizing model with
  | nil => rfl
  | cons fragment fragments ih => rw [List.foldl_cons, ih, view_add, List.map_cons, List.foldl_cons]

/-- The pages of merged fragments depend on no more than what is public in them. -/
theorem Generator.pages_merge_congr (g : Generator) (model : Model) {found known : List Namespace}
    (h : found.map Namespace.visible = known.map Namespace.visible) :
    g.pages (model.merge found) = g.pages (model.merge known) := by
  rw [pages_eq_of_view, pages_eq_of_view, Model.view_merge, Model.view_merge, h]

end DocTools.Reference
