import DocTools.Proofs.Text.Trim
import DocTools.Snippet.Fence

/-! # Attributes of a fence

Behind the language of a fence stand attributes with blanks between them: keys, some of which have a
value. Each is to be shown as it is written, and a title with its value between quotation marks. But the
quotation marks are put around everything behind `title=` where the attributes begin with it, and
nowhere else. The main statement, `infoString_shows_iff`: the attributes are shown as they are to be
exactly if none of them is a title, or the title stands alone. -/
namespace DocTools.Snippet
set_option autoImplicit false

/-! ## Attributes -/

def titleWord : Text := "title".toList

def isPlainChar (c : Char) : Bool := !isBlank c && c != '"' && c != '\''

/-- A key, and a value behind `=` when there is one, without blanks and quotes. -/
structure FenceAttribute where
  key : Text
  value : Option Text
  key_ne_nil : key ≠ []
  equals_not_mem : '=' ∉ key
  plain : (key ++ value.getD []).all isPlainChar = true

namespace FenceAttribute

def text (a : FenceAttribute) : Text :=
  match a.value with
  | none => a.key
  | some value => a.key ++ '=' :: value

def IsTitle (a : FenceAttribute) : Prop := a.key = titleWord ∧ a.value.isSome

instance (a : FenceAttribute) : Decidable a.IsTitle := instDecidableAnd

/-- The attribute as a fence is to show it: the value of a title stands between quotation marks. -/
def shown (a : FenceAttribute) : Text :=
  if a.IsTitle then titleKey ++ '"' :: a.value.getD [] ++ ['"'] else a.text

end FenceAttribute

/-- Attributes with the blanks between them. -/
inductive AttributeList where
  | one (a : FenceAttribute)
  | more (a : FenceAttribute) (gap : Text) (ne_nil : gap ≠ []) (blank : gap.allBlank = true)
      (rest : AttributeList)

namespace AttributeList

def toList : AttributeList → List FenceAttribute
  | one a => [a]
  | more a _ _ _ rest => a :: rest.toList

/-- The attributes one behind the other, each written in some way, and the blanks as they are. -/
def spelled (write : FenceAttribute → Text) : AttributeList → Text
  | one a => write a
  | more a gap _ _ rest => write a ++ gap ++ rest.spelled write

def text (l : AttributeList) : Text := l.spelled FenceAttribute.text

def shown (l : AttributeList) : Text := l.spelled FenceAttribute.shown

end AttributeList

/-! ## One attribute -/

namespace FenceAttribute

variable {a : FenceAttribute}

theorem text_of_isTitle (h : a.IsTitle) : a.text = titleKey ++ a.value.getD [] := by
  obtain ⟨hkey, hvalue⟩ := h
  obtain ⟨value, hvalue⟩ := Option.isSome_iff_exists.mp hvalue
  rw [text, hvalue, hkey]
  rfl

theorem all_isPlainChar_text (a : FenceAttribute) : a.text.all isPlainChar = true := by
  have hplain := a.plain
  unfold text
  cases hvalue : a.value with
  | none =>
    rw [hvalue] at hplain
    simpa using hplain
  | some value =>
    have hequals : isPlainChar '=' = true := by decide
    rw [hvalue] at hplain
    simpa [hequals] using hplain

theorem text_ne_nil (a : FenceAttribute) : a.text ≠ [] := by
  unfold text
  split
  · exact a.key_ne_nil
  · exact List.append_ne_nil_of_left_ne_nil a.key_ne_nil _

theorem isBlank_of_mem_text {c : Char} (h : c ∈ a.text) : isBlank c = false := by
  have hplain := List.all_eq_true.mp a.all_isPlainChar_text c h
  simp only [isPlainChar, Bool.and_eq_true, Bool.not_eq_true'] at hplain
  exact hplain.1.1

theorem isTrimmed_text (a : FenceAttribute) : a.text.IsTrimmed :=
  ⟨fun _ hc => isBlank_of_mem_text (List.mem_of_head? hc),
    fun _ hc => isBlank_of_mem_text (List.mem_of_getLast? hc)⟩

theorem length_shown (a : FenceAttribute) :
    a.shown.length = a.text.length + 2 * if a.IsTitle then 1 else 0 := by
  unfold shown
  by_cases h : a.IsTitle
  · rw [if_pos h, if_pos h, text_of_isTitle h]
    simp only [List.length_append, List.length_cons, List.length_nil]
    omega
  · rw [if_neg h, if_neg h, Nat.mul_zero, Nat.add_zero]

/-! ## How a list begins -/

/-- Nothing, or a blank and more. -/
def Apart (rest : Text) : Prop := ∀ c ∈ rest.head?, isBlank c = true

def isKeyChar (c : Char) : Bool := c != '=' && !isBlank c

theorem isKeyChar_of_mem_key {c : Char} (h : c ∈ a.key) : isKeyChar c = true := by
  have hplain := List.all_eq_true.mp a.plain c (List.mem_append_left _ h)
  have hequals : c ≠ '=' := fun hc => a.equals_not_mem (hc ▸ h)
  simp only [isPlainChar, Bool.and_eq_true] at hplain
  simp [isKeyChar, hequals, hplain.1.1]

/-- A key ends where a value, a blank or nothing follows. -/
theorem takeWhile_isKeyChar {rest : Text} (h : Apart rest) :
    (a.text ++ rest).takeWhile isKeyChar = a.key := by
  have hkey : ∀ c ∈ a.key, isKeyChar c = true := fun c => isKeyChar_of_mem_key
  unfold text
  cases a.value with
  | some value =>
    rw [List.append_assoc, List.takeWhile_append_of_pos hkey]
    exact List.append_nil _
  | none =>
    rw [List.takeWhile_append_of_pos hkey]
    cases rest with
    | nil => exact List.append_nil _
    | cons c rest =>
      have hc : isBlank c = true := h c rfl
      rw [List.takeWhile_cons_of_neg (by simp [isKeyChar, hc]), List.append_nil]

/-- What begins with `title=` begins with a title. -/
theorem isTitle_of_after? {rest behind : Text} (h : Apart rest)
    (hafter : Text.after? titleKey (a.text ++ rest) = some behind) : a.IsTitle := by
  have hbegins := Text.after?_eq_some_iff.mp hafter
  have hkey : a.key = titleWord := by
    rw [← takeWhile_isKeyChar h, hbegins]
    rfl
  refine ⟨hkey, ?_⟩
  unfold text at hbegins
  cases hvalue : a.value with
  | some value => rfl
  | none =>
    rw [hvalue, hkey] at hbegins
    -- without a value the sign behind the key would be the first of the rest, which is a blank
    have hrest : rest = '=' :: behind := List.append_cancel_left hbegins
    rw [hrest] at h
    exact absurd (h '=' rfl) (by decide)

end FenceAttribute

/-! ## Lists -/

namespace AttributeList

variable {l : AttributeList}

theorem text_ne_nil (l : AttributeList) : l.text ≠ [] := by
  cases l with
  | one a => exact a.text_ne_nil
  | more a gap hne hblank rest =>
    exact List.append_ne_nil_of_left_ne_nil (List.append_ne_nil_of_left_ne_nil a.text_ne_nil gap) _

theorem isTrimmed_text (l : AttributeList) : l.text.IsTrimmed := by
  induction l with
  | one a => exact a.isTrimmed_text
  | more a gap hne hblank rest ih => exact a.isTrimmed_text.append ih a.text_ne_nil rest.text_ne_nil gap

theorem not_mem_text {c : Char} (hplain : isPlainChar c = false) (hc : isBlank c = false)
    (l : AttributeList) : c ∉ l.text := by
  have hone (a : FenceAttribute) : c ∉ a.text := by
    intro hmem
    have hchar := List.all_eq_true.mp a.all_isPlainChar_text c hmem
    rw [hplain] at hchar
    cases hchar
  induction l with
  | one a => exact hone a
  | more a gap hne hblank rest ih =>
    refine List.not_mem_append (List.not_mem_append (hone a) fun hmem => ?_) ih
    rw [List.all_eq_true.mp hblank c hmem] at hc
    cases hc

theorem length_shown (l : AttributeList) :
    l.shown.length = l.text.length + 2 * l.toList.countP fun a => a.IsTitle := by
  induction l with
  | one a =>
    rw [toList, List.countP_singleton]
    simp only [decide_eq_true_eq]
    exact a.length_shown
  | more a gap hne hblank rest ih =>
    have hone := a.length_shown
    rw [toList, List.countP_cons]
    show (a.shown ++ gap ++ rest.shown).length = (a.text ++ gap ++ rest.text).length + _
    simp only [List.length_append, decide_eq_true_eq]
    omega

theorem shown_eq_text_iff : l.shown = l.text ↔ ∀ a ∈ l.toList, ¬a.IsTitle := by
  constructor
  · intro h
    have hlength := l.length_shown
    rw [h] at hlength
    have hcount : l.toList.countP (fun a => a.IsTitle) = 0 := by omega
    rw [List.countP_eq_zero] at hcount
    simpa using hcount
  · intro h
    have hone : ∀ a ∈ l.toList, a.shown = a.text := fun a ha => if_neg (h a ha)
    clear h
    induction l with
    | one a => exact hone a List.mem_cons_self
    | more a gap hne hblank rest ih =>
      have hrest := ih fun b hb => hone b (List.mem_cons_of_mem a hb)
      show a.shown ++ gap ++ rest.shown = a.text ++ gap ++ rest.text
      rw [hone a List.mem_cons_self, hrest]

/-- The first attribute, and what follows it. -/
def first : AttributeList → FenceAttribute
  | one a => a
  | more a _ _ _ _ => a

def behind : AttributeList → Text
  | one _ => []
  | more _ gap _ _ rest => gap ++ rest.text

theorem text_eq (l : AttributeList) : l.text = l.first.text ++ l.behind := by
  cases l with
  | one a => exact (List.append_nil _).symm
  | more a gap hne hblank rest => exact List.append_assoc ..

theorem apart_behind (l : AttributeList) : FenceAttribute.Apart l.behind := by
  cases l with
  | one a => exact fun c hc => nomatch hc
  | more a gap hne hblank rest =>
    intro c hc
    rw [behind, List.head?_append_of_ne_nil gap hne] at hc
    exact List.all_eq_true.mp hblank c (List.mem_of_head? hc)

/-! ## Quoting the title -/

theorem quoteTitle_of_not_isTitle (h : ¬l.first.IsTitle) : quoteTitle l.text = l.text := by
  unfold quoteTitle
  split
  · next value hvalue =>
    rw [text_eq] at hvalue
    exact absurd (FenceAttribute.isTitle_of_after? l.apart_behind hvalue) h
  · rfl

/-- All that follows a title is put between its quotation marks. -/
theorem quoteTitle_of_isTitle (h : l.first.IsTitle) :
    quoteTitle l.text = titleKey ++ '"' :: (l.first.value.getD [] ++ l.behind) ++ ['"'] := by
  have hquotes : ¬('"' ∈ l.text ∨ '\'' ∈ l.text) :=
    not_or.mpr ⟨not_mem_text rfl (by decide) l, not_mem_text rfl (by decide) l⟩
  have hafter : Text.after? titleKey l.text = some (l.first.value.getD [] ++ l.behind) := by
    rw [text_eq, FenceAttribute.text_of_isTitle h, List.append_assoc, Text.after?_append]
  rw [quoteTitle, hafter]
  exact if_neg hquotes

theorem quoteTitle_eq_shown_iff :
    quoteTitle l.text = l.shown ↔ (∀ a ∈ l.toList, ¬a.IsTitle) ∨ l.toList.length = 1 := by
  by_cases h : l.first.IsTitle
  · rw [quoteTitle_of_isTitle h]
    cases l with
    | one a =>
      have hshown : a.shown = titleKey ++ '"' :: a.value.getD [] ++ ['"'] := if_pos h
      refine iff_of_true ?_ (.inr rfl)
      rw [behind, List.append_nil]
      exact hshown.symm
    | more a gap hne hblank rest =>
      have hshown : a.shown = titleKey ++ '"' :: a.value.getD [] ++ ['"'] := if_pos h
      refine iff_of_false (fun heq => ?_) (not_or.mpr ⟨fun hno => hno a List.mem_cons_self h, ?_⟩)
      · -- behind the value stands a blank on one side and a quotation mark on the other
        obtain ⟨c, gap, rfl⟩ := List.exists_cons_of_ne_nil hne
        have hc : isBlank c = true := List.all_eq_true.mp hblank c List.mem_cons_self
        have hright : (more a (c :: gap) hne hblank rest).shown =
            titleKey ++ '"' :: (a.value.getD [] ++ '"' :: (c :: gap ++ rest.shown)) := by
          show a.shown ++ (c :: gap) ++ rest.shown = _
          rw [hshown]
          simp only [List.append_assoc, List.cons_append, List.nil_append]
        rw [hright, behind, first] at heq
        simp only [List.append_assoc, List.cons_append, List.append_cancel_left_eq,
          List.cons.injEq, true_and] at heq
        obtain rfl : c = '"' := heq.1
        exact absurd hc (by decide)
      · have hpositive : 0 < rest.toList.length := by cases rest <;> exact Nat.succ_pos _
        rw [toList, List.length_cons]
        omega
  · rw [quoteTitle_of_not_isTitle h, eq_comm, shown_eq_text_iff]
    refine ⟨.inl, fun hcases => hcases.elim id fun hlength => ?_⟩
    cases l with
    | one a => exact fun b hb => (List.mem_singleton.mp hb) ▸ h
    | more a gap hne hblank rest =>
      have hpositive : 0 < rest.toList.length := by cases rest <;> exact Nat.succ_pos _
      rw [toList, List.length_cons] at hlength
      omega

end AttributeList

/-! ## Info strings -/

theorem infoString_text (language : Text) (l : AttributeList) {lead trail : Text}
    (hlead : lead.allBlank = true) (htrail : trail.allBlank = true) :
    infoString language (some (lead ++ l.text ++ trail)) = language ++ ' ' :: quoteTitle l.text := by
  have htrim : (lead ++ l.text ++ trail).trim = l.text := by
    rw [Text.trim_append_blanks _ htrail, Text.trim_blanks_append _ hlead,
      Text.trim_eq_self_iff.mpr l.isTrimmed_text]
  obtain ⟨c, rest, hc⟩ := List.exists_cons_of_ne_nil l.text_ne_nil
  rw [infoString, Option.map_some, htrim, hc]

/-- The info string is the language when there are no attributes. Otherwise the attributes follow it as
they are to be shown, in their order and with the blanks between them, exactly if none of them is a
title or there is no other one. -/
theorem infoString_shows_iff (language : Text) :
    (∀ blanks : Text, blanks.allBlank = true → infoString language (some blanks) = language) ∧
    ∀ (l : AttributeList) (lead trail : Text), lead.allBlank = true → trail.allBlank = true →
      (infoString language (some (lead ++ l.text ++ trail)) = language ++ ' ' :: l.shown ↔
        (∀ a ∈ l.toList, ¬a.IsTitle) ∨ l.toList.length = 1) := by
  constructor
  · intro blanks hblanks
    rw [infoString, Option.map_some, Text.trim_eq_nil_iff.mpr hblanks]
  · intro l lead trail hlead htrail
    rw [infoString_text language l hlead htrail, List.append_right_inj, List.cons_inj_right]
    exact AttributeList.quoteTitle_eq_shown_iff

/-! ## Attributes in two orders -/

def fileTitle : FenceAttribute :=
  ⟨titleWord, some "a.cpp".toList, by decide, by decide, by decide⟩

def lineNumbers : FenceAttribute := ⟨"showLineNumbers".toList, none, by decide, by decide, by decide⟩

def markedLines : FenceAttribute := ⟨"mark".toList, some "{1-3}".toList, by decide, by decide, by decide⟩

def twoAttributes (a b : FenceAttribute) : AttributeList := .more a [' '] (by decide) (by decide) (.one b)

theorem infoString_shows_markedLines :
    infoString "cpp".toList (some "\t mark={1-3} showLineNumbers ".toList) =
      "cpp mark={1-3} showLineNumbers".toList :=
  ((infoString_shows_iff "cpp".toList).2 (twoAttributes markedLines lineNumbers) "\t ".toList
    " ".toList (by decide) (by decide)).mpr (.inl (by decide))

/-- A title that stands in front of another attribute takes it into its quotation marks, and one that
stands behind another attribute gets none. -/
theorem infoString_misquotes_fileTitle :
    (twoAttributes fileTitle lineNumbers).text = "title=a.cpp showLineNumbers".toList ∧
    (twoAttributes fileTitle lineNumbers).shown = "title=\"a.cpp\" showLineNumbers".toList ∧
    infoString "cpp".toList (some "title=a.cpp showLineNumbers".toList) =
      "cpp title=\"a.cpp showLineNumbers\"".toList ∧
    (twoAttributes lineNumbers fileTitle).text = "showLineNumbers title=a.cpp".toList ∧
    (twoAttributes lineNumbers fileTitle).shown = "showLineNumbers title=\"a.cpp\"".toList ∧
    infoString "cpp".toList (some "showLineNumbers title=a.cpp".toList) =
      "cpp showLineNumbers title=a.cpp".toList := by
  refine ⟨?_, ?_, ?_, ?_, ?_, ?_⟩ <;> decide +kernel

end DocTools.Snippet
