import DocTools.Proofs.Snippet.Placeholder
import DocTools.Snippet.Injector

/-! # The grammar of placeholder lines

A placeholder line is written with fields between colons, and blanks may stand around the comment and
its parts. A line can be cut into fields in more than one way, as blanks belong to a field or stand
behind it. The main statement, `injectText_follows_grammar`: a line of a template gives way to a block
or is missed exactly if the grammar has a cut for it, all cuts agree on the fields without the blanks
at their ends, and these are the ones that are looked up and shown. -/
namespace DocTools.Snippet
set_option autoImplicit false

/-! ## The grammar -/

/-- The fields of a placeholder line as they are cut out of it, blanks at their ends included. -/
structure Fields where
  indent : Text
  name : Text
  language : Text
  attributes : Option Text

def IsField (text : Text) : Prop := text ≠ [] ∧ ':' ∉ text

namespace Fields

/-- The language, and the attributes behind a colon when there are any. -/
def rest (f : Fields) : Text :=
  match f.attributes with
  | none => f.language
  | some attributes => f.language ++ ':' :: attributes

def placeholder (f : Fields) : Placeholder :=
  ⟨f.indent, f.name.trim, f.language.trim, f.attributes.map Text.trim⟩

/-- The attributes without blanks at their ends, when something is left of them. -/
def shownAttributes (f : Fields) : Option Text := (f.attributes.map Text.trim).filter (· ≠ [])

end Fields

/-- A line is cut into fields. -/
structure CutInto (line : Text) (f : Fields) : Prop where
  indent_all : f.indent.all isIndent = true
  name : IsField f.name
  language : IsField f.language
  attributes : ∀ attributes ∈ f.attributes, IsField attributes
  line_eq : ∃ opening closing behind : Text, opening.allBlank = true ∧ closing.allBlank = true ∧
    behind.allBlank = true ∧
      line = f.indent ++ commentOpen ++ opening ++ placeholderKey ++ f.name ++ ':' :: f.rest ++
        closing ++ commentClose ++ behind

/-! ## Fields behind the name -/

theorem IsField.append_blanks {text blanks : Text} (h : IsField text) (hblanks : blanks.allBlank = true) :
    IsField (text ++ blanks) := by
  refine ⟨List.append_ne_nil_of_left_ne_nil h.1 blanks, ?_⟩
  rw [List.mem_append, not_or]
  refine ⟨h.2, fun hc => ?_⟩
  have hblank : isBlank ':' = true := List.all_eq_true.mp hblanks ':' hc
  exact absurd hblank (by decide)

theorem fields?_eq_some_iff {text language : Text} {attributes : Option Text} :
    Placeholder.fields? text = some (language, attributes) ↔
      IsField language ∧ (∀ a ∈ attributes, IsField a) ∧
        text = Fields.rest ⟨[], [], language, attributes⟩ := by
  constructor
  · intro h
    have hjoin := Text.join_splitOn ':' text
    have hcolon : ∀ piece ∈ Text.splitOn ':' text, ':' ∉ piece :=
      fun piece hpiece => Text.not_mem_of_mem_splitOn hpiece
    unfold Placeholder.fields? at h
    -- one piece is the language, two are the language and the attributes
    split at h
    · next piece hpieces =>
      rw [hpieces] at hjoin hcolon
      split at h
      · cases h
      · next hne =>
        cases h
        exact ⟨⟨hne, hcolon _ List.mem_cons_self⟩, fun _ ha => (nomatch ha), hjoin.symm⟩
    · next piece next hpieces =>
      rw [hpieces] at hjoin hcolon
      split at h
      · cases h
      · next hne =>
        cases h
        rw [not_or] at hne
        refine ⟨⟨hne.1, hcolon _ List.mem_cons_self⟩, ?_, ?_⟩
        · rintro a ⟨⟩
          exact ⟨hne.2, hcolon _ (List.mem_cons_of_mem _ List.mem_cons_self)⟩
        · rw [← hjoin, Text.join, List.append_assoc, List.singleton_append]
          rfl
    · cases h
  · rintro ⟨hlanguage, hattributes, rfl⟩
    cases attributes with
    | none => exact Placeholder.fields?_of_colon_not_mem hlanguage.1 hlanguage.2
    | some a =>
      have ha : IsField a := hattributes a rfl
      have hsplit : Text.splitOn ':' (language ++ ':' :: a) = [language, a] := by
        rw [Text.splitOn_append, Text.splitOn_of_not_mem hlanguage.2, Text.splitOn_of_not_mem ha.2]
        rfl
      have hne : ¬(language = [] ∨ a = []) := not_or.mpr ⟨hlanguage.1, ha.1⟩
      show Placeholder.fields? (language ++ ':' :: a) = _
      rw [Placeholder.fields?, hsplit]
      exact if_neg hne

/-- Blanks behind the last field are read as part of it, and trimming takes them off again. -/
theorem exists_fields?_rest_append {f : Fields} {blanks : Text} (hlanguage : IsField f.language)
    (hattributes : ∀ a ∈ f.attributes, IsField a) (hblanks : blanks.allBlank = true) :
    ∃ language attributes, Placeholder.fields? (f.rest ++ blanks) = some (language, attributes) ∧
      language.trim = f.language.trim ∧ attributes.map Text.trim = f.attributes.map Text.trim := by
  obtain ⟨indent, name, language, attributes⟩ := f
  cases attributes with
  | none =>
    have hfield : IsField (language ++ blanks) := hlanguage.append_blanks hblanks
    exact ⟨language ++ blanks, none, Placeholder.fields?_of_colon_not_mem hfield.1 hfield.2,
      Text.trim_append_blanks language hblanks, rfl⟩
  | some a =>
    have hfield : IsField (a ++ blanks) := (hattributes a rfl).append_blanks hblanks
    refine ⟨language, some (a ++ blanks), fields?_eq_some_iff.mpr ⟨hlanguage, ?_, ?_⟩, rfl, ?_⟩
    · rintro _ ⟨⟩
      exact hfield
    · exact List.append_assoc ..
    · rw [Option.map_some, Option.map_some, Text.trim_append_blanks a hblanks]

/-! ## Reading and the grammar -/

theorem CutInto.ofLine?_eq {line : Text} {f : Fields} (h : CutInto line f) :
    Placeholder.ofLine? line = some f.placeholder := by
  obtain ⟨opening, closing, behind, hopening, hclosing, hbehind, rfl⟩ := h.line_eq
  obtain ⟨language, attributes, hfields, hlanguage, hattributes⟩ :=
    exists_fields?_rest_append h.language h.attributes hclosing
  refine Placeholder.ofLine?_eq_some_iff.mpr
    ⟨f.name, f.rest ++ closing, language, attributes, ?_, hfields, ?_⟩
  · refine ⟨h.indent_all, h.name.1, h.name.2, opening, behind, hopening, hbehind, ?_⟩
    simp only [Fields.placeholder, List.append_assoc, List.cons_append]
  · rw [hlanguage, hattributes]
    rfl

theorem exists_cutInto_of_ofLine? {line : Text} {p : Placeholder}
    (h : Placeholder.ofLine? line = some p) : ∃ f, CutInto line f ∧ f.placeholder = p := by
  obtain ⟨name, fields, language, attributes, hline, hfields, hp⟩ :=
    Placeholder.ofLine?_eq_some_iff.mp h
  obtain ⟨hlanguage, hattributes, rfl⟩ := fields?_eq_some_iff.mp hfields
  obtain ⟨opening, behind, hopening, hbehind, hspelled⟩ := hline.line_eq
  refine ⟨⟨p.indent, name, language, attributes⟩, ?_, hp.symm⟩
  refine ⟨hline.indent_all, ⟨hline.name_ne_nil, hline.colon_not_mem⟩, hlanguage, hattributes,
    opening, [], behind, hopening, rfl, hbehind, ?_⟩
  rw [List.append_nil]
  exact hspelled

theorem CutInto.placeholder_unique {line : Text} {f g : Fields} (hf : CutInto line f)
    (hg : CutInto line g) : f.placeholder = g.placeholder :=
  Option.some.inj (hf.ofLine?_eq.symm.trans hg.ofLine?_eq)

/-! ## One line -/

theorem infoString_map_trim (language : Text) (attributes : Option Text) :
    infoString language (attributes.map Text.trim) = infoString language attributes := by
  have htrim : Text.trim ∘ Text.trim = Text.trim :=
    funext fun text => Text.trim_eq_self_iff.mpr (Text.isTrimmed_trim text)
  rw [infoString, Option.map_map, htrim, infoString]

/-- What becomes of a line that is cut into fields. -/
def Fields.settled (snippets : Snippets) (f : Fields) : Settled :=
  match snippets.get? f.name.trim with
  | none => .missing f.name.trim
  | some code => .replaced (fencedBlock f.indent (infoString f.language.trim f.attributes) code)

theorem CutInto.settle_eq {snippets : Snippets} {line : Text} {f : Fields} (h : CutInto line f) :
    settle snippets line = f.settled snippets := by
  rw [settle, h.ofLine?_eq, Fields.settled]
  show (match snippets.get? f.name.trim with
    | none => Settled.missing f.name.trim
    | some code => .replaced (f.placeholder.block code)) = _
  cases snippets.get? f.name.trim with
  | none => rfl
  | some code =>
    have hinfo := infoString_map_trim f.language.trim f.attributes
    show Settled.replaced (fencedBlock f.indent (infoString f.language.trim (f.attributes.map Text.trim))
      code) = _
    rw [hinfo]

theorem settle_ne_kept_iff {snippets : Snippets} {line : Text} :
    settle snippets line ≠ .kept ↔ ∃ f, CutInto line f := by
  constructor
  · intro h
    cases hp : Placeholder.ofLine? line with
    | none =>
      rw [settle, hp] at h
      exact absurd rfl h
    | some p =>
      obtain ⟨f, hf, -⟩ := exists_cutInto_of_ofLine? hp
      exact ⟨f, hf⟩
  · rintro ⟨f, hf⟩
    rw [hf.settle_eq, Fields.settled]
    cases snippets.get? f.name.trim with
    | none => exact fun h => nomatch h
    | some code => exact fun h => nomatch h

/-! ## All lines of a template -/

namespace Settled

/-- The text that stands in the page for a line. -/
def shown (line : Text) : Settled → Text
  | replaced block => block
  | _ => line

def isReplaced : Settled → Bool
  | replaced _ => true
  | _ => false

def missing? : Settled → Option Text
  | missing name => some name
  | _ => none

end Settled

/-- The injection that lines give which are settled one by one, the first having number `first`. -/
def injectionOf (snippets : Snippets) (first : Nat) (lines : List Text) : Injection where
  output := lines.flatMap fun line => (settle snippets line).shown line
  injected := lines.countP fun line => (settle snippets line).isReplaced
  missing := (lines.zipIdx first).filterMap fun e => (settle snippets e.1).missing?.map (e.2, ·)

theorem injectRuns_eq_injectionOf (snippets : Snippets) (first : Nat) (lines : List Text) :
    injectRuns snippets first lines = injectionOf snippets first lines := by
  induction lines generalizing first with
  | nil => rfl
  | cons line lines ih =>
    rw [injectRuns, ih]
    cases hs : settle snippets line with
    | kept => simp [injectionOf, hs, Settled.shown, Settled.isReplaced, Settled.missing?]
    | missing name => simp [injectionOf, hs, Settled.shown, Settled.isReplaced, Settled.missing?]
    | replaced block => simp [injectionOf, hs, Settled.shown, Settled.isReplaced, Settled.missing?]

/-- Each line of a template is settled by the grammar: it is a placeholder exactly if it can be cut
into fields, the cuts of one line agree on all fields without the blanks at their ends, and any of
them says what is looked up and what is shown. The page and the errors are put together from the
lines in their order. -/
theorem injectText_follows_grammar (x : Injector) (path : Path) (text : Text) :
    (∀ line, settle x.snippets line ≠ .kept ↔ ∃ f, CutInto line f) ∧
    (∀ line f g, CutInto line f → CutInto line g →
      f.indent = g.indent ∧ f.name.trim = g.name.trim ∧ f.language.trim = g.language.trim ∧
        f.shownAttributes = g.shownAttributes) ∧
    (∀ line f, CutInto line f → settle x.snippets line = f.settled x.snippets) ∧
    (x.injectText path text).2 = injectionOf x.snippets 1 text.lineRuns ∧
    (x.injectText path text).1.errors =
      x.errors ++ (injectionOf x.snippets 1 text.lineRuns).missing.map fun m =>
        .missing path m.1 m.2 := by
  refine ⟨fun _ => settle_ne_kept_iff, ?_, fun _ _ hf => hf.settle_eq, ?_, ?_⟩
  · intro line f g hf hg
    have h := hf.placeholder_unique hg
    simp only [Fields.placeholder, Placeholder.mk.injEq] at h
    obtain ⟨hindent, hname, hlanguage, hattributes⟩ := h
    refine ⟨hindent, hname, hlanguage, ?_⟩
    rw [Fields.shownAttributes, hattributes]
    rfl
  · exact injectRuns_eq_injectionOf x.snippets 1 text.lineRuns
  · rw [← injectRuns_eq_injectionOf]
    rfl

end DocTools.Snippet
