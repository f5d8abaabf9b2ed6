import DocTools.Proofs.Snippet.LineByLine

/-! # Injection with more snippets

A placeholder is settled by its own name, whatever else is stored. So with more snippets the lines that
were settled before leave what they left, and of those that were missed some are replaced. The main
statement, `injectText_extended`, compares the injections with a store and with a larger one. -/
namespace DocTools.Snippet
set_option autoImplicit false

/-! ## Larger stores -/

/-- A store that has all snippets of another one, with their code. -/
def Includes (more snippets : Snippets) : Prop :=
  ∀ name code, snippets.get? name = some code → more.get? name = some code

/-- A line of a text asks for a snippet. -/
def AsksFor (text name : Text) : Prop := ∃ line ∈ text.lineRuns, ∃ f, CutInto line f ∧ f.name.trim = name

section
variable {snippets more : Snippets} {line text : Text}

theorem includes_iff : Includes more snippets ↔ ∀ e ∈ snippets.toList, more.get? e.1 = some e.2 := by
  constructor
  · exact fun h e he => h e.1 e.2 (Dictionary.get?_eq_some_iff.mpr he)
  · exact fun h name code hcode => h (name, code) (Dictionary.get?_eq_some_iff.mp hcode)

instance : Decidable (Includes more snippets) := decidable_of_iff _ includes_iff.symm

theorem Includes.eq_none (h : Includes more snippets) {name : Text} (hnone : more.get? name = none) :
    snippets.get? name = none := by
  cases hcode : snippets.get? name with
  | none => rfl
  | some code =>
    rw [h name code hcode] at hnone
    cases hnone

theorem Includes.get?_eq (h : Includes more snippets) {name : Text} (hold : (snippets.get? name).isSome) :
    more.get? name = snippets.get? name := by
  obtain ⟨code, hcode⟩ := Option.isSome_iff_exists.mp hold
  rw [hcode, h name code hcode]

/-- The stores agree on a name that was not added. -/
theorem Includes.get?_eq_of_not_added (h : Includes more snippets) {name : Text}
    (hname : name ∈ more.keys → name ∈ snippets.keys) : more.get? name = snippets.get? name := by
  cases hcode : more.get? name with
  | none => exact (h.eq_none hcode).symm
  | some code =>
    have hold := Dictionary.mem_keys_iff.mp
      (hname (Dictionary.mem_keys_iff.mpr (Option.isSome_of_eq_some hcode)))
    rw [← h.get?_eq hold, hcode]

theorem asksFor_iff {name : Text} : AsksFor text name ↔
    ∃ line ∈ text.lineRuns, (Placeholder.ofLine? line).map Placeholder.name = some name := by
  refine exists_congr fun line => and_congr_right fun _ => ?_
  rw [Option.map_eq_some_iff]
  constructor
  · rintro ⟨f, hf, rfl⟩
    exact ⟨_, hf.ofLine?_eq, rfl⟩
  · rintro ⟨p, hp, rfl⟩
    obtain ⟨f, hf, rfl⟩ := exists_cutInto_of_ofLine? hp
    exact ⟨f, hf, rfl⟩

instance {name : Text} : Decidable (AsksFor text name) := decidable_of_iff _ asksFor_iff.symm

/-! ## One line -/

/-- A line is settled by what is stored under its own name. -/
theorem settle_congr (h : ∀ f, CutInto line f → more.get? f.name.trim = snippets.get? f.name.trim) :
    settle more line = settle snippets line := by
  by_cases hline : IsPlaceholder line
  · obtain ⟨f, hf⟩ := hline
    rw [hf.settle_eq, hf.settle_eq, Fields.settled, Fields.settled, h f hf]
  · rw [Decidable.not_not.mp (mt (isPlaceholder_iff more).mpr hline),
      Decidable.not_not.mp (mt (isPlaceholder_iff snippets).mpr hline)]

/-- What was resolved, or was no placeholder, is settled as before. -/
theorem Includes.settle_eq (h : Includes more snippets)
    (hline : Resolved snippets line ∨ ¬IsPlaceholder line) :
    settle more line = settle snippets line := by
  refine settle_congr fun f hf => h.get?_eq ?_
  obtain ⟨g, hg, hstored⟩ := hline.resolve_right (not_not_intro ⟨f, hf⟩)
  have hname : f.name.trim = g.name.trim := congrArg Placeholder.name (hf.placeholder_unique hg)
  rwa [hname]

/-- What was missed is missed again, unless the larger store has it. -/
theorem Includes.missing?_settle (h : Includes more snippets) (line : Text) :
    (settle more line).missing? =
      (settle snippets line).missing?.filter fun name => (more.get? name).isNone := by
  refine Option.ext fun name => ?_
  rw [Option.filter_eq_some_iff, missing?_settle_eq_some_iff, missing?_settle_eq_some_iff,
    Option.isNone_iff_eq_none]
  constructor
  · rintro ⟨f, hf, hname, hnone⟩
    exact ⟨⟨f, hf, hname, h.eq_none hnone⟩, hnone⟩
  · rintro ⟨⟨f, hf, hname, -⟩, hnone⟩
    exact ⟨f, hf, hname, hnone⟩

/-! ## All lines -/

theorem Includes.missing_injectionOf (h : Includes more snippets) (first : Nat) (lines : List Text) :
    (injectionOf more first lines).missing =
      (injectionOf snippets first lines).missing.filter fun m => (more.get? m.2).isNone := by
  simp only [injectionOf, List.filter_filterMap]
  refine List.filterMap_congr fun e _ => ?_
  rw [h.missing?_settle]
  cases (settle snippets e.1).missing? with
  | none => rfl
  | some name => cases hname : (more.get? name).isNone <;> simp [Option.filter, hname]

theorem injectionOf_congr (first : Nat) {lines : List Text}
    (h : ∀ line ∈ lines, settle more line = settle snippets line) :
    injectionOf more first lines = injectionOf snippets first lines := by
  have hindexed : ∀ e ∈ lines.zipIdx first, settle more e.1 = settle snippets e.1 :=
    fun e he => h e.1 (List.fst_mem_of_mem_zipIdx he)
  simp only [injectionOf, Injection.mk.injEq]
  refine ⟨List.flatMap_congr fun line hline => by rw [h line hline],
    List.countP_congr fun line hline => by rw [h line hline],
    List.filterMap_congr fun e he => by rw [hindexed e he]⟩

/-- What an injection becomes with a larger store: of what was missed, nothing is left but the names
that are still not stored, each of the others counts as injected, and the lines that were settled
leave the stretches that they left. -/
structure Helped (snippets more : Snippets) (text : Text) (before after : Injection) : Prop where
  missing_eq : after.missing = before.missing.filter fun m => (more.get? m.2).isNone
  injected_eq : after.injected = before.injected + (before.missing.length - after.missing.length)
  stretches : ∃ left left' : List Stretch, MadeOf snippets text left before ∧
    MadeOf more text left' after ∧ ∀ (i : Nat) (line : Text), text.lineRuns[i]? = some line →
      Resolved snippets line ∨ ¬IsPlaceholder line → left'[i]? = left[i]?

theorem Includes.helped (h : Includes more snippets) (text : Text) :
    Helped snippets more text (injectionOf snippets 1 text.lineRuns)
      (injectionOf more 1 text.lineRuns) := by
  have hmissing := h.missing_injectionOf 1 text.lineRuns
  have hle : (injectionOf more 1 text.lineRuns).missing.length ≤
      (injectionOf snippets 1 text.lineRuns).missing.length := by
    rw [hmissing]
    exact List.length_filter_le _ _
  refine ⟨hmissing, ?_, _, _, madeOf_injectionOf snippets text, madeOf_injectionOf more text, ?_⟩
  · -- both runs resolve or miss the same placeholders
    have hbefore := length_missing_injectionOf snippets 1 text.lineRuns
    have hafter := length_missing_injectionOf more 1 text.lineRuns
    omega
  · intro i line hline hsettled
    rw [List.getElem?_map, List.getElem?_map, hline, Option.map_some, Option.map_some, stretchOf,
      stretchOf, h.settle_eq hsettled]

theorem Includes.inject_eq (h : Includes more snippets)
    (hnames : ∀ name ∈ more.keys, name ∉ snippets.keys → ¬AsksFor text name) :
    inject more text = inject snippets text := by
  rw [inject, inject, injectRuns_eq_injectionOf, injectRuns_eq_injectionOf]
  refine injectionOf_congr 1 fun line hline => settle_congr fun f hf => ?_
  refine h.get?_eq_of_not_added fun hmore => ?_
  by_contra hold
  exact hnames _ hmore hold ⟨line, hline, f, hf, rfl⟩

end

/-- With more snippets a template is injected into as before, but for placeholders that were missed:
their errors go, each is counted instead, and no other line is touched. When the template asks for
none of the new names, nothing changes at all. -/
theorem injectText_extended {x y : Injector} (hmore : Includes y.snippets x.snippets) (path : Path)
    (text : Text) :
    ∃ errors errors' : List InjectError,
      (x.injectText path text).1.errors = x.errors ++ errors ∧
      (y.injectText path text).1.errors = y.errors ++ errors' ∧
      errors'.Sublist errors ∧
      (y.injectText path text).2.injected =
        (x.injectText path text).2.injected + (errors.length - errors'.length) ∧
      Helped x.snippets y.snippets text (x.injectText path text).2 (y.injectText path text).2 ∧
      ((∀ name ∈ y.snippets.keys, name ∉ x.snippets.keys → ¬AsksFor text name) →
        (y.injectText path text).2 = (x.injectText path text).2 ∧ errors' = errors) := by
  have hx : (x.injectText path text).2 = injectionOf x.snippets 1 text.lineRuns :=
    injectRuns_eq_injectionOf x.snippets 1 text.lineRuns
  have hy : (y.injectText path text).2 = injectionOf y.snippets 1 text.lineRuns :=
    injectRuns_eq_injectionOf y.snippets 1 text.lineRuns
  have hhelped : Helped x.snippets y.snippets text (x.injectText path text).2
      (y.injectText path text).2 := by
    rw [hx, hy]
    exact hmore.helped text
  refine ⟨_, _, rfl, rfl, ?_, ?_, hhelped, fun hnames => ?_⟩
  · refine List.Sublist.map _ ?_
    show (y.injectText path text).2.missing.Sublist (x.injectText path text).2.missing
    rw [hhelped.missing_eq]
    exact List.filter_sublist
  · rw [List.length_map, List.length_map]
    exact hhelped.injected_eq
  · have hsame : inject y.snippets text = inject x.snippets text := hmore.inject_eq hnames
    exact ⟨hsame, congrArg (fun i : Injection => i.missing.map _) hsame⟩

/-! ## A template and two stores -/

/-- Placeholders for three names, one of which is asked for twice, and a line that is none. -/
def hatchTemplate : Text :=
  Text.ofLines (["<!-- snippet:lid:cpp -->", "and", " <!-- snippet: hatch :cpp -->",
    "<!-- snippet:keel:cpp -->"].map String.toList) ++ "<!-- snippet:hatch:c:title=d -->".toList

/-- Placeholders for a stored name and for one that is in neither store. -/
def keelTemplate : Text := "<!-- snippet:lid:cpp -->\n<!-- snippet:keel:cpp -->\n".toList

def lidInjector : Injector := .ofSnippets (Dictionary.ofList [("lid".toList, "lift();".toList)])

def hatchInjector : Injector :=
  .ofSnippets (Dictionary.ofList [("lid".toList, "lift();".toList), ("hatch".toList, [])])

theorem injectText_extended_hatch : Includes hatchInjector.snippets lidInjector.snippets ∧
    (lidInjector.injectText ['p'] hatchTemplate).2.injected = 1 ∧
    (lidInjector.injectText ['p'] hatchTemplate).2.missing =
      [(3, "hatch".toList), (4, "keel".toList), (5, "hatch".toList)] ∧
    (hatchInjector.injectText ['p'] hatchTemplate).2.injected = 3 ∧
    (hatchInjector.injectText ['p'] hatchTemplate).2.missing = [(4, "keel".toList)] ∧
    Helped lidInjector.snippets hatchInjector.snippets hatchTemplate
      (lidInjector.injectText ['p'] hatchTemplate).2
      (hatchInjector.injectText ['p'] hatchTemplate).2 ∧
    (hatchInjector.injectText ['p'] keelTemplate).2 =
      (lidInjector.injectText ['p'] keelTemplate).2 := by
  have hmore : Includes hatchInjector.snippets lidInjector.snippets := by decide +kernel
  have hnames : ∀ name ∈ hatchInjector.snippets.keys, name ∉ lidInjector.snippets.keys →
      ¬AsksFor keelTemplate name := by decide +kernel
  obtain ⟨_, _, -, -, -, -, hhelped, -⟩ := injectText_extended hmore ['p'] hatchTemplate
  obtain ⟨_, _, -, -, -, -, -, hsame⟩ := injectText_extended hmore ['p'] keelTemplate
  exact ⟨hmore, by decide +kernel, by decide +kernel, by decide +kernel, by decide +kernel, hhelped,
    (hsame hnames).1⟩

end DocTools.Snippet
