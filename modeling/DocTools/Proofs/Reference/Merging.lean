import DocTools.Reference.Model

/-! # Merging by names

Fragments are merged one after the other, with two ways for each: a name that is new and one that is
known. What comes of a name nevertheless depends on the fragments of that name alone. The main
statements: `Model.get?_merge`, by which a namespace is joined from the one before it and its
fragments in their order, and `merge_joins_by_name`, which says this of any number of files. -/
namespace DocTools.Reference
set_option autoImplicit false

/-! ## Joining parts -/

/-- The first of some texts that is not empty, or the empty text. -/
def firstSaid (texts : List Text) : Text := (texts.find? fun t => !t.isEmpty).getD []

/-- A namespace has all that its parts have, in their order, and of the documentation what comes
first. -/
structure Joins (parts : List Namespace) (whole : Namespace) : Prop where
  name_eq : parts.head?.map (·.name) = some whole.name
  brief_eq : whole.brief = firstSaid (parts.map (·.brief))
  description_eq : whole.description = firstSaid (parts.map (·.description))
  classes_eq : whole.classes = parts.flatMap (·.classes)
  functions_eq : whole.functions = parts.flatMap (·.functions)

def join? : List Namespace → Option Namespace
  | [] => none
  | first :: others => some (others.foldl Namespace.append first)

theorem firstSaid_cons (text : Text) (texts : List Text) :
    firstSaid (text :: texts) = firstText text (firstSaid texts) := by
  cases text with
  | nil => rfl
  | cons c rest => rfl

theorem firstText_assoc (a b c : Text) : firstText (firstText a b) c = firstText a (firstText b c) := by
  cases a with
  | nil => rfl
  | cons x a => rfl

theorem firstSaid_firstText (a b : Text) (texts : List Text) :
    firstSaid (firstText a b :: texts) = firstSaid (a :: b :: texts) := by
  rw [firstSaid_cons, firstSaid_cons, firstSaid_cons, firstText_assoc]

theorem joins_singleton (n : Namespace) : Joins [n] n where
  name_eq := rfl
  brief_eq := by
    rw [List.map_singleton, firstSaid_cons]
    cases n.brief <;> rfl
  description_eq := by
    rw [List.map_singleton, firstSaid_cons]
    cases n.description <;> rfl
  classes_eq := (List.flatMap_singleton _ _).symm
  functions_eq := (List.flatMap_singleton _ _).symm

/-- Two parts in front may as well be one. -/
theorem Joins.of_append {first second whole : Namespace} {others : List Namespace}
    (h : Joins (first.append second :: others) whole) : Joins (first :: second :: others) whole where
  name_eq := h.name_eq
  brief_eq := h.brief_eq.trans (firstSaid_firstText ..)
  description_eq := h.description_eq.trans (firstSaid_firstText ..)
  classes_eq := by
    rw [h.classes_eq, List.flatMap_cons, List.flatMap_cons, List.flatMap_cons, ← List.append_assoc]
    rfl
  functions_eq := by
    rw [h.functions_eq, List.flatMap_cons, List.flatMap_cons, List.flatMap_cons, ← List.append_assoc]
    rfl

theorem joins_foldl_append (first : Namespace) (others : List Namespace) :
    Joins (first :: others) (others.foldl Namespace.append first) := by
  induction others generalizing first with
  | nil => exact joins_singleton first
  | cons second others ih => exact (ih (first.append second)).of_append

theorem Joins.unique {parts : List Namespace} {whole other : Namespace} (h : Joins parts whole)
    (h' : Joins parts other) : whole = other := by
  have hname : whole.name = other.name := Option.some.inj (h.name_eq.symm.trans h'.name_eq)
  have hbrief := h.brief_eq.trans h'.brief_eq.symm
  have hdescription := h.description_eq.trans h'.description_eq.symm
  have hclasses := h.classes_eq.trans h'.classes_eq.symm
  have hfunctions := h.functions_eq.trans h'.functions_eq.symm
  cases whole
  cases other
  simp only [Namespace.mk.injEq]
  exact ⟨hname, hbrief, hdescription, hclasses, hfunctions⟩

theorem join?_eq_some_iff {parts : List Namespace} {whole : Namespace} :
    join? parts = some whole ↔ Joins parts whole := by
  cases parts with
  | nil =>
    constructor
    · intro h
      cases h
    · intro h
      cases h.name_eq
  | cons first others =>
    have hjoins := joins_foldl_append first others
    constructor
    · intro h
      cases h
      exact hjoins
    · exact fun h => congrArg some (hjoins.unique h)

theorem isSome_join?_iff {parts : List Namespace} : (join? parts).isSome ↔ parts ≠ [] := by
  cases parts with
  | nil => exact ⟨fun h => absurd h Bool.false_ne_true, fun h => absurd rfl h⟩
  | cons first others => exact ⟨fun _ => List.cons_ne_nil first others, fun _ => rfl⟩

theorem classes_join? (parts : List Namespace) :
    ((join? parts).map (·.classes)).getD [] = parts.flatMap (·.classes) := by
  cases parts with
  | nil => rfl
  | cons first others => exact (joins_foldl_append first others).classes_eq

/-! ## One name at a time -/

theorem Model.get?_add (model : Model) (fragment : Namespace) (target : Text) :
    (model.add fragment).get? target =
      if target = fragment.name then
        some (((model.get? fragment.name).map (·.append fragment)).getD fragment)
      else model.get? target := by
  unfold Model.add
  cases model.get? fragment.name with
  | none => exact Dictionary.get?_insert model _ _ _
  | some known => exact Dictionary.get?_insert model _ _ _

/-- What a name is joined from: the namespace before, and the fragments of that name. -/
def Model.partsOf (model : Model) (fragments : List Namespace) (key : Text) : List Namespace :=
  (model.get? key).toList ++ fragments.filter (·.name = key)

theorem Model.partsOf_cons_of_ne (model : Model) {fragment : Namespace} {key : Text}
    (h : fragment.name ≠ key) (fragments : List Namespace) :
    (model.add fragment).partsOf fragments key = model.partsOf (fragment :: fragments) key := by
  rw [partsOf, partsOf, get?_add, if_neg (Ne.symm h), List.filter_cons_of_neg (by simpa using h)]

/-- A fragment may be merged before its name is joined, or be one of the parts. -/
theorem Model.join?_partsOf_cons (model : Model) (fragment : Namespace) (fragments : List Namespace)
    (key : Text) : join? ((model.add fragment).partsOf fragments key) =
      join? (model.partsOf (fragment :: fragments) key) := by
  by_cases h : fragment.name = key
  · subst h
    rw [partsOf, partsOf, get?_add, if_pos rfl, List.filter_cons_of_pos (by simp)]
    cases model.get? fragment.name with
    | none => rfl
    | some known => rfl
  · rw [model.partsOf_cons_of_ne h]

theorem Model.get?_merge (model : Model) (fragments : List Namespace) (key : Text) :
    (model.merge fragments).get? key = join? (model.partsOf fragments key) := by
  induction fragments generalizing model with
  | nil =>
    show model.get? key = join? ((model.get? key).toList ++ [])
    cases model.get? key with
    | none => rfl
    | some known => rfl
  | cons fragment fragments ih =>
    have hrest : (model.merge (fragment :: fragments)).get? key =
        join? ((model.add fragment).partsOf fragments key) := ih (model.add fragment)
    rw [hrest, model.join?_partsOf_cons]

theorem Model.mem_keys_merge_iff (model : Model) (fragments : List Namespace) (key : Text) :
    key ∈ (model.merge fragments).keys ↔ key ∈ model.keys ∨ ∃ f ∈ fragments, f.name = key := by
  have hfragments : fragments.filter (·.name = key) ≠ [] ↔ ∃ f ∈ fragments, f.name = key := by
    simp [List.filter_eq_nil_iff]
  have hknown : (model.get? key).toList ≠ [] ↔ (model.get? key).isSome := by
    cases model.get? key <;> simp
  rw [Dictionary.mem_keys_iff, Dictionary.mem_keys_iff, get?_merge, isSome_join?_iff, partsOf, Ne,
    List.append_eq_nil_iff, Classical.not_and_iff_not_or_not, ← Ne, ← Ne, hknown, hfragments]

/-! ## Many files -/

theorem Model.foldl_merge (model : Model) (files : List (List Namespace)) :
    files.foldl Model.merge model = model.merge files.flatten := by
  unfold Model.merge
  exact List.foldl_flatten.symm

theorem Model.merge_swap (model : Model) {first second : Namespace} (h : first.name ≠ second.name)
    (before after : List Namespace) : model.merge (before ++ first :: second :: after) =
      model.merge (before ++ second :: first :: after) := by
  refine Dictionary.ext_get? fun key => ?_
  have hpair : ([first, second] : List Namespace).filter (·.name = key) =
      [second, first].filter (·.name = key) := by
    by_cases hfirst : first.name = key
    · have hsecond : second.name ≠ key := fun hs => h (hfirst.trans hs.symm)
      simp [hfirst, hsecond]
    · simp [List.filter_cons, hfirst]
  have hparts : model.partsOf (before ++ first :: second :: after) key =
      model.partsOf (before ++ second :: first :: after) key := by
    have hsplit (a b : Namespace) : (before ++ a :: b :: after).filter (·.name = key) =
        before.filter (·.name = key) ++ ([a, b].filter (·.name = key) ++ after.filter (·.name = key)) := by
      rw [← List.filter_append, ← List.filter_append]
      rfl
    rw [partsOf, partsOf, hsplit, hsplit, hpair]
  rw [get?_merge, get?_merge, hparts]

/-- Merging any number of files loses nothing and takes nothing twice: the names are the old ones and
those of the fragments, each namespace is joined from the old one and its fragments in their order,
and fragments of two names that follow each other may change places. -/
theorem merge_joins_by_name (model : Model) (files : List (List Namespace)) :
    (∀ key, key ∈ (files.foldl Model.merge model).keys ↔
      key ∈ model.keys ∨ ∃ f ∈ files.flatten, f.name = key) ∧
    (∀ key whole, (files.foldl Model.merge model).get? key = some whole ↔
      Joins (model.partsOf files.flatten key) whole) ∧
    ∀ (others : List (List Namespace)) (before after : List Namespace) (first second : Namespace),
      files.flatten = before ++ first :: second :: after →
      others.flatten = before ++ second :: first :: after → first.name ≠ second.name →
      others.foldl Model.merge model = files.foldl Model.merge model := by
  refine ⟨fun key => ?_, fun key whole => ?_, ?_⟩
  · rw [model.foldl_merge]
    exact model.mem_keys_merge_iff files.flatten key
  · rw [model.foldl_merge, model.get?_merge]
    exact join?_eq_some_iff
  · intro others before after first second hfiles hothers hne
    rw [model.foldl_merge, model.foldl_merge, hfiles, hothers]
    exact (model.merge_swap hne before after).symm

def oldAllure : Namespace := { Namespace.named "allure".toList with description := "old".toList }

def newAllure : Namespace :=
  { Namespace.named "allure".toList with brief := "new".toList, description := "later".toList }

def newUtil : Namespace := { Namespace.named "util".toList with brief := "other".toList }

/-- The brief comes from the fragment and the description from before, whichever of two fragments
comes first and in one file or in two. -/
theorem merge_joins_by_name_allureAndUtil :
    newAllure.name ≠ newUtil.name ∧
    [[newUtil], [newAllure]].foldl Model.merge (Dictionary.ofList [("allure".toList, oldAllure)]) =
      [[newAllure, newUtil]].foldl Model.merge (Dictionary.ofList [("allure".toList, oldAllure)]) ∧
    ([[newAllure, newUtil]].foldl Model.merge
        (Dictionary.ofList [("allure".toList, oldAllure)])).get? "allure".toList =
      some { oldAllure with brief := "new".toList } := by
  have hne : newAllure.name ≠ newUtil.name := by decide
  have hmerge := merge_joins_by_name (Dictionary.ofList [("allure".toList, oldAllure)])
    [[newAllure, newUtil]]
  refine ⟨hne, hmerge.2.2 _ [] [] _ _ rfl rfl hne, (hmerge.2.1 _ _).mpr ?_⟩
  exact ⟨by decide, by decide, by decide, by decide, by decide⟩

end DocTools.Reference
