import DocTools.Proofs.Snippet.PlaceholderGrammar
import DocTools.Proofs.Text.Lines
import Mathlib.Data.List.Forall2

/-! # Injection, line by line

A template can be cut where a line ends and its parts injected into one after the other. Within a part
every line leaves its own stretch of the page: a block, or the line itself with all its characters.
The main statement, `injectText_line_by_line`, says both, and accounts for every placeholder line. -/
namespace DocTools.Snippet
set_option autoImplicit false

/-! ## Lines and stretches -/

def IsPlaceholder (line : Text) : Prop := ∃ f, CutInto line f

/-- A placeholder line that names a stored snippet. -/
def Resolved (snippets : Snippets) (line : Text) : Prop :=
  ∃ f, CutInto line f ∧ (snippets.get? f.name.trim).isSome

section
variable {snippets : Snippets} {line : Text}

theorem isPlaceholder_iff (snippets : Snippets) : IsPlaceholder line ↔ settle snippets line ≠ .kept :=
  settle_ne_kept_iff.symm

theorem resolved_iff : Resolved snippets line ↔ (settle snippets line).isReplaced := by
  constructor
  · rintro ⟨f, hf, hstored⟩
    obtain ⟨code, hcode⟩ := Option.isSome_iff_exists.mp hstored
    rw [hf.settle_eq, Fields.settled, hcode]
    rfl
  · intro h
    have hne : settle snippets line ≠ .kept := by
      intro hkept
      rw [hkept] at h
      cases h
    obtain ⟨f, hf⟩ := settle_ne_kept_iff.mp hne
    refine ⟨f, hf, ?_⟩
    rw [hf.settle_eq, Fields.settled] at h
    cases hcode : snippets.get? f.name.trim with
    | none =>
      rw [hcode] at h
      cases h
    | some code => rfl

instance : Decidable (IsPlaceholder line) :=
  decidable_of_iff _ (isPlaceholder_iff ∅).symm

instance : Decidable (Resolved snippets line) := decidable_of_iff _ resolved_iff.symm

end

/-- A stretch of a page. -/
inductive Stretch where
  | kept (line : Text)
  | block (text : Text)
  deriving DecidableEq, Repr

namespace Stretch

def text : Stretch → Text
  | kept line => line
  | block text => text

def kept? : Stretch → Option Text
  | kept line => some line
  | block _ => none

end Stretch

/-- What a line of a template leaves in the page. -/
inductive Becomes (snippets : Snippets) (line : Text) : Stretch → Prop where
  | kept (h : ¬Resolved snippets line) : Becomes snippets line (.kept line)
  | block {f : Fields} {code : Text} (cut : CutInto line f)
      (stored : snippets.get? f.name.trim = some code) :
      Becomes snippets line
        (.block (fencedBlock f.indent (infoString f.language.trim f.attributes) code))

def stretchOf (snippets : Snippets) (line : Text) : Stretch :=
  match settle snippets line with
  | .replaced block => .block block
  | _ => .kept line

section
variable {snippets : Snippets} {line : Text}

theorem becomes_stretchOf (snippets : Snippets) (line : Text) :
    Becomes snippets line (stretchOf snippets line) := by
  unfold stretchOf
  split
  · next block hblock =>
    have hresolved : Resolved snippets line := resolved_iff.mpr (by rw [hblock]; rfl)
    obtain ⟨f, hf, hstored⟩ := hresolved
    obtain ⟨code, hcode⟩ := Option.isSome_iff_exists.mp hstored
    rw [hf.settle_eq, Fields.settled, hcode] at hblock
    obtain rfl := Settled.replaced.inj hblock
    exact .block hf hcode
  · next hnot =>
    refine .kept fun h => ?_
    have hreplaced := resolved_iff.mp h
    cases hs : settle snippets line with
    | replaced block => exact hnot block hs
    | kept => rw [hs] at hreplaced; cases hreplaced
    | missing name => rw [hs] at hreplaced; cases hreplaced

theorem text_stretchOf (snippets : Snippets) (line : Text) :
    (stretchOf snippets line).text = (settle snippets line).shown line := by
  unfold stretchOf
  cases settle snippets line <;> rfl

theorem Becomes.kept?_eq {stretch : Stretch} (h : Becomes snippets line stretch) :
    stretch.kept? = if Resolved snippets line then none else some line := by
  cases h with
  | kept hnot => exact (if_neg hnot).symm
  | block cut stored => exact (if_pos ⟨_, cut, Option.isSome_of_eq_some stored⟩).symm

/-- A placeholder line is resolved or missed, and no other line is. -/
theorem isPlaceholder_count (snippets : Snippets) (line : Text) :
    (if IsPlaceholder line then 1 else 0) =
      (if (settle snippets line).isReplaced then 1 else 0) +
        (settle snippets line).missing?.toList.length := by
  have h : IsPlaceholder line ↔ _ := isPlaceholder_iff snippets
  cases hs : settle snippets line with
  | kept =>
    rw [if_neg fun hc => h.mp hc hs]
    rfl
  | missing name =>
    rw [if_pos (h.mpr (by rw [hs]; exact fun hc => nomatch hc))]
    rfl
  | replaced block =>
    rw [if_pos (h.mpr (by rw [hs]; exact fun hc => nomatch hc))]
    rfl

end

/-! ## A template and its parts -/

/-- One injection behind another one, whose text has so many lines. -/
def Injection.followedBy (i : Injection) (lines : Nat) (j : Injection) : Injection where
  output := i.output ++ j.output
  injected := i.injected + j.injected
  missing := i.missing ++ j.missing.map fun m => (m.1 + lines, m.2)

theorem zipIdx_add {α : Type} (all : List α) (first by' : Nat) :
    all.zipIdx (first + by') = (all.zipIdx first).map fun e => (e.1, e.2 + by') := by
  induction all generalizing first with
  | nil => rfl
  | cons a all ih => rw [List.zipIdx_cons, List.zipIdx_cons, List.map_cons, ← ih, Nat.add_right_comm]

theorem missing_injectionOf_add (snippets : Snippets) (first by' : Nat) (lines : List Text) :
    (injectionOf snippets (first + by') lines).missing =
      (injectionOf snippets first lines).missing.map fun m => (m.1 + by', m.2) := by
  simp only [injectionOf, zipIdx_add, List.filterMap_map, List.map_filterMap]
  refine List.filterMap_congr fun e _ => ?_
  simp only [Function.comp_apply]
  cases (settle snippets e.1).missing? <;> rfl

theorem injectionOf_append (snippets : Snippets) (first : Nat) (lines more : List Text) :
    injectionOf snippets first (lines ++ more) =
      (injectionOf snippets first lines).followedBy lines.length (injectionOf snippets first more) := by
  have hmissing := missing_injectionOf_add snippets first lines.length more
  unfold Injection.followedBy
  rw [← hmissing]
  simp only [injectionOf, List.flatMap_append, List.countP_append, List.zipIdx_append,
    List.filterMap_append]

theorem inject_append (snippets : Snippets) {a : Text} (h : a.EndsLine) (b : Text) :
    inject snippets (a ++ b) = (inject snippets a).followedBy a.newlines (inject snippets b) := by
  simp only [inject, injectRuns_eq_injectionOf, Text.lineRuns_append h, injectionOf_append,
    Text.length_lineRuns h]

/-! ## Accounts -/

theorem length_missing_injectionOf (snippets : Snippets) (first : Nat) (lines : List Text) :
    (injectionOf snippets first lines).injected + (injectionOf snippets first lines).missing.length =
      lines.countP fun line => IsPlaceholder line := by
  induction lines generalizing first with
  | nil => rfl
  | cons line lines ih =>
    have hone := isPlaceholder_count snippets line
    have hrest := ih (first + 1)
    simp only [injectionOf] at hrest ⊢
    rw [List.zipIdx_cons, List.countP_cons, List.countP_cons, ← hrest, List.filterMap_cons]
    simp only [decide_eq_true_eq]
    rw [hone]
    cases (settle snippets line).missing? with
    | none => simp only [Option.map_none, Option.toList_none, List.length_nil]; omega
    | some name => simp only [Option.map_some, Option.toList_some, List.length_cons, List.length_nil]; omega

theorem increasing_missing_injectionOf (snippets : Snippets) (first : Nat) (lines : List Text) :
    (injectionOf snippets first lines).missing.Pairwise fun m n => m.1 < n.1 := by
  have hnumbers : ((lines.zipIdx first).map Prod.snd).Pairwise (· < ·) := by
    rw [List.zipIdx_map_snd]
    exact List.pairwise_lt_range'
  refine List.pairwise_filterMap.mpr ((List.pairwise_map.mp hnumbers).imp ?_)
  intro d e hde m hm n hn
  obtain ⟨_, -, rfl⟩ := Option.map_eq_some_iff.mp hm
  obtain ⟨_, -, rfl⟩ := Option.map_eq_some_iff.mp hn
  exact hde

theorem missing?_settle_eq_some_iff {snippets : Snippets} {line name : Text} :
    (settle snippets line).missing? = some name ↔
      ∃ f, CutInto line f ∧ f.name.trim = name ∧ snippets.get? name = none := by
  constructor
  · intro h
    have hne : settle snippets line ≠ .kept := by
      intro hkept
      rw [hkept] at h
      cases h
    obtain ⟨f, hf⟩ := settle_ne_kept_iff.mp hne
    rw [hf.settle_eq, Fields.settled] at h
    cases hcode : snippets.get? f.name.trim with
    | none =>
      rw [hcode] at h
      obtain rfl := Option.some.inj h
      exact ⟨f, hf, rfl, hcode⟩
    | some code =>
      rw [hcode] at h
      cases h
  · rintro ⟨f, hf, rfl, hnone⟩
    rw [hf.settle_eq, Fields.settled, hnone]
    rfl

theorem mem_missing_injectionOf_iff {snippets : Snippets} {first number : Nat} {lines : List Text}
    {name : Text} : (number, name) ∈ (injectionOf snippets first lines).missing ↔
      ∃ line f, (line, number) ∈ lines.zipIdx first ∧ CutInto line f ∧ f.name.trim = name ∧
        snippets.get? name = none := by
  simp only [injectionOf, List.mem_filterMap, Option.map_eq_some_iff, Prod.mk.injEq]
  constructor
  · rintro ⟨⟨line, _⟩, he, _, hmissing, rfl, rfl⟩
    obtain ⟨f, hf⟩ := missing?_settle_eq_some_iff.mp hmissing
    exact ⟨line, f, he, hf⟩
  · rintro ⟨line, f, he, hf⟩
    exact ⟨(line, number), he, name, missing?_settle_eq_some_iff.mpr ⟨f, hf⟩, rfl, rfl⟩

/-- What the page of a template is made of: every line leaves its stretch, a placeholder line counts
as injected or is missed, and what is missed comes in the order of the lines. -/
structure MadeOf (snippets : Snippets) (text : Text) (stretches : List Stretch) (page : Injection) :
    Prop where
  lines_eq : text.lineRuns.flatten = text
  becomes : List.Forall₂ (Becomes snippets) text.lineRuns stretches
  output_eq : page.output = stretches.flatMap Stretch.text
  kept_eq : stretches.filterMap Stretch.kept? =
    text.lineRuns.filter fun line => ¬Resolved snippets line
  injected_eq : page.injected = text.lineRuns.countP fun line => Resolved snippets line
  count : page.injected + page.missing.length = text.lineRuns.countP fun line => IsPlaceholder line
  missing_iff : ∀ number name, (number, name) ∈ page.missing ↔
    ∃ line f, (line, number) ∈ text.lineRuns.zipIdx 1 ∧ CutInto line f ∧ f.name.trim = name ∧
      snippets.get? name = none
  increasing : page.missing.Pairwise fun m n => m.1 < n.1

theorem madeOf_injectionOf (snippets : Snippets) (text : Text) :
    MadeOf snippets text (text.lineRuns.map (stretchOf snippets))
      (injectionOf snippets 1 text.lineRuns) where
  lines_eq := Text.flatten_lineRuns text
  becomes := by
    rw [List.forall₂_map_right_iff, List.forall₂_same]
    exact fun line _ => becomes_stretchOf snippets line
  output_eq := by
    rw [List.flatMap_map]
    exact List.flatMap_congr fun line _ => (text_stretchOf snippets line).symm
  kept_eq := by
    rw [List.filterMap_map, ← List.filterMap_eq_filter]
    refine List.filterMap_congr fun line _ => ?_
    rw [Function.comp_apply, (becomes_stretchOf snippets line).kept?_eq]
    by_cases h : Resolved snippets line
    · simp [Option.guard, h]
    · simp [Option.guard, h]
  injected_eq := List.countP_congr fun line _ => by rw [decide_eq_true_iff, resolved_iff]
  count := length_missing_injectionOf snippets 1 text.lineRuns
  missing_iff _ _ := mem_missing_injectionOf_iff
  increasing := increasing_missing_injectionOf snippets 1 text.lineRuns

/-- Injecting into a text behind another one, which ends a line, is injecting into both one after the
other; what is missed is noted behind what was noted before. And every text is settled line by line,
so that the page without its blocks is the template without the lines that gave way to them. -/
theorem injectText_line_by_line (x : Injector) (path : Path) :
    (∀ a b : Text, a.EndsLine →
      (x.injectText path (a ++ b)).2 =
        (x.injectText path a).2.followedBy a.newlines (x.injectText path b).2 ∧
      (x.injectText path (a ++ b)).1.errors = (x.injectText path a).1.errors ++
        (x.injectText path b).2.missing.map fun m => .missing path (m.1 + a.newlines) m.2) ∧
    ∀ text : Text,
      (x.injectText path text).1.errors = x.errors ++
        (x.injectText path text).2.missing.map (fun m => .missing path m.1 m.2) ∧
      ∃ stretches, MadeOf x.snippets text stretches (x.injectText path text).2 := by
  constructor
  · intro a b h
    have happend := inject_append x.snippets h b
    refine ⟨happend, ?_⟩
    show x.errors ++ (inject x.snippets (a ++ b)).missing.map _ =
      x.errors ++ (inject x.snippets a).missing.map _ ++ _
    rw [happend, Injection.followedBy, List.map_append, List.map_map, List.append_assoc]
    rfl
  · intro text
    have hpage : (x.injectText path text).2 = injectionOf x.snippets 1 text.lineRuns :=
      injectRuns_eq_injectionOf x.snippets 1 text.lineRuns
    exact ⟨rfl, _, hpage ▸ madeOf_injectionOf x.snippets text⟩

/-! ## A template in two parts -/

/-- A snippet without any code, and placeholders for it and for one that is not stored. -/
def emptySnippet : Injector := .ofSnippets (Dictionary.ofList [("s".toList, [])])

def upperPart : Text := "a\r\n<!-- snippet:t:cpp -->\r\n".toList

def lowerPart : Text := "  <!-- snippet:s:cpp -->\n<!-- snippet:u:cpp -->".toList

theorem injectText_line_by_line_twoParts : upperPart.EndsLine ∧
    (emptySnippet.injectText [] (upperPart ++ lowerPart)).2 =
      (emptySnippet.injectText [] upperPart).2.followedBy upperPart.newlines
        (emptySnippet.injectText [] lowerPart).2 ∧
    (emptySnippet.injectText [] (upperPart ++ lowerPart)).2 =
      ⟨upperPart ++ "  ```cpp\n\n  ```\n<!-- snippet:u:cpp -->".toList, 1,
        [(2, "t".toList), (4, "u".toList)]⟩ := by
  have hends : upperPart.EndsLine := by decide
  exact ⟨hends, ((injectText_line_by_line emptySnippet []).1 upperPart lowerPart hends).1,
    by decide +kernel⟩

end DocTools.Snippet
