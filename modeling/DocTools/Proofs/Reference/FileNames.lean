import DocTools.Proofs.Path.Names
import DocTools.Proofs.Reference.Merging
import DocTools.Reference.Page
import Mathlib.Data.List.Nodup

/-! # File names of pages

The pages of a namespace are named after its classes, next to two pages of fixed names, and the
classes are those of all fragments that were merged. The main statements: `Model.classes_merge`, and
`PlainNames.eq_of_place`, by which classes with plain names have pages at places of their own. -/
namespace DocTools.Reference
set_option autoImplicit false

/-! ## Where pages lead -/

def Page.path (dir : Path) (page : Page) : Path := dir.join page.fileName

def Page.place (dir : Path) (page : Page) : Location := (page.path dir).resolve

/-! ## Classes of merged fragments -/

/-- The classes that fragments give to a namespace. -/
def classesFor (target : Text) (fragments : List Namespace) : List Class :=
  (fragments.filter (·.name = target)).flatMap (·.classes)

def Model.classes (model : Model) (target : Text) : List Class :=
  ((model.get? target).map (·.classes)).getD []

theorem Model.classes_merge (model : Model) (fragments : List Namespace) (target : Text) :
    (model.merge fragments).classes target = model.classes target ++ classesFor target fragments := by
  unfold Model.classes classesFor
  rw [get?_merge, classes_join?, partsOf, List.flatMap_append]
  cases model.get? target with
  | none => rfl
  | some known =>
    rw [Option.toList_some, List.flatMap_singleton]
    rfl

/-! ## File names -/

def extension : Text := ".md".toList

/-- The file names of the pages of a namespace, without their extension. -/
def Namespace.stems (n : Namespace) (index : Bool) : List Text :=
  (if index then ["index".toList] else []) ++ n.classes.map (·.name) ++
    (if n.functions.isEmpty then [] else ["functions".toList])

theorem Namespace.map_fileName_pages (n : Namespace) (index : Bool) :
    (n.pages index).map (·.fileName) = (n.stems index).map (· ++ extension) := by
  have hclasses : (n.classes.map Class.page).map (·.fileName) =
      (n.classes.map (·.name)).map (· ++ extension) := by
    rw [List.map_map, List.map_map]
    rfl
  unfold Namespace.pages Namespace.stems
  rw [List.map_append, List.map_append, List.map_append, List.map_append, hclasses]
  congr 1
  · cases index <;> rfl
  · cases n.functions <;> rfl

/-- Names of classes that differ, and none of which is a path or the name of another page. -/
structure PlainNames (classes : List Class) : Prop where
  nodup : (classes.map (·.name)).Nodup
  slash_not_mem : ∀ c ∈ classes, '/' ∉ c.name
  index_not_mem : "index".toList ∉ classes.map (·.name)
  functions_not_mem : "functions".toList ∉ classes.map (·.name)

section
variable {n : Namespace} {index : Bool}

theorem PlainNames.nodup_stems (h : PlainNames n.classes) : (n.stems index).Nodup := by
  have hne : "index".toList ≠ "functions".toList := by decide
  unfold Namespace.stems
  have hfront : ((if index then ["index".toList] else []) ++ n.classes.map (·.name)).Nodup := by
    cases index with
    | false => exact h.nodup
    | true => exact List.nodup_cons.mpr ⟨h.index_not_mem, h.nodup⟩
  cases n.functions.isEmpty with
  | true =>
    rw [if_pos rfl, List.append_nil]
    exact hfront
  | false =>
    refine List.Nodup.append hfront (List.nodup_singleton _) (List.disjoint_singleton.mpr ?_)
    rw [List.mem_append, not_or]
    refine ⟨?_, h.functions_not_mem⟩
    cases index with
    | false => exact List.not_mem_nil
    | true => exact fun hmem => hne (List.mem_singleton.mp hmem).symm

theorem PlainNames.slash_not_mem_stems (h : PlainNames n.classes) {stem : Text}
    (hstem : stem ∈ n.stems index) : '/' ∉ stem := by
  unfold Namespace.stems at hstem
  rcases List.mem_append.mp hstem with hfront | hfunctions
  · rcases List.mem_append.mp hfront with hindex | hclass
    · split at hindex
      · rw [List.mem_singleton.mp hindex]
        decide
      · cases hindex
    · obtain ⟨c, hc, rfl⟩ := List.mem_map.mp hclass
      exact h.slash_not_mem c hc
  · split at hfunctions
    · cases hfunctions
    · rw [List.mem_singleton.mp hfunctions]
      decide

theorem resolve_join_extension {stem : Text} (h : '/' ∉ stem) (dir : Path) :
    (dir.join (stem ++ extension)).resolve = dir.resolve ++ [stem ++ extension] := by
  -- the extension keeps a file name from being `.` or `..`
  have hlength : 3 ≤ (stem ++ extension).length := by
    rw [List.length_append]
    exact Nat.le_add_left 3 stem.length
  have hne : ∀ short : Text, short.length < 3 → stem ++ extension ≠ short := by
    rintro short hshort rfl
    omega
  refine Path.resolve_join_of_ofName? (hne _ (by decide)) ?_ ?_ dir
  · rw [List.mem_append, not_or]
    exact ⟨h, by decide⟩
  · rw [Path.Component.ofName?, if_neg (hne _ (by decide)), if_neg (hne _ (by decide))]

theorem PlainNames.eq_of_place (h : PlainNames n.classes) {dir : Path} {page other : Page}
    (hpage : page ∈ n.pages index) (hother : other ∈ n.pages index)
    (hplace : page.place dir = other.place dir) : page = other := by
  have hplace_eq : ∀ p ∈ n.pages index, p.place dir = dir.resolve ++ [p.fileName] := by
    intro p hp
    have hname := List.mem_map_of_mem (f := (·.fileName)) hp
    rw [Namespace.map_fileName_pages] at hname
    obtain ⟨stem, hstem, hname⟩ := List.mem_map.mp hname
    rw [Page.place, Page.path, ← hname]
    exact resolve_join_extension (h.slash_not_mem_stems hstem) dir
  have hnodup : ((n.pages index).map (·.fileName)).Nodup := by
    rw [Namespace.map_fileName_pages]
    exact h.nodup_stems.map fun _ _ => List.append_cancel_right
  rw [hplace_eq page hpage, hplace_eq other hother] at hplace
  exact List.inj_on_of_nodup_map hnodup hpage hother
    (List.cons.inj (List.append_cancel_left hplace)).1

end

end DocTools.Reference
