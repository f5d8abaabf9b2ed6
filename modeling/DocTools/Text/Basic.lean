/-! # Text

Text is the list of its characters. This module holds what every format here needs of it: taking a
fixed lead off the front, cutting at a character or at a phrase, joining pieces, and order. A cut at
a character comes with the statement that nothing is lost by it. -/
namespace DocTools
set_option autoImplicit false

abbrev Text := List Char

/-! ## Order

Texts are ordered by their characters, and lists of texts by their texts. -/

theorem text_trichotomous : Std.Trichotomous (fun a b : Text => a < b) := inferInstance
theorem texts_trichotomous : Std.Trichotomous (fun a b : List Text => a < b) := inferInstance

instance : Std.Trichotomous (fun a b : Text => a < b) := text_trichotomous
instance : Std.Trichotomous (fun a b : List Text => a < b) := texts_trichotomous

/-- Whether a list does not come after another. -/
def notAfter {α : Type} [LT α] [DecidableEq α] [DecidableLT α] (a b : List α) : Bool :=
  !decide (b < a)

/-! ## Classes of characters -/

/-- Whether a number lies in one of the ranges, which are in increasing order. -/
def inRanges (n : Nat) : List (Nat × Nat) → Bool
  | [] => false
  | (low, high) :: rest =>
    if n < low then false
    else if n ≤ high then true
    else inRanges n rest

namespace Text

/-! ## Leads -/

/-- What follows `lead`, when the text begins with it. -/
def after? : Text → Text → Option Text
  | [], rest => some rest
  | _ :: _, [] => none
  | a :: lead, b :: rest => if a = b then after? lead rest else none

def startsWith (lead text : Text) : Bool := (after? lead text).isSome

theorem after?_eq_some_iff {lead text rest : Text} :
    after? lead text = some rest ↔ text = lead ++ rest := by
  induction lead generalizing text with
  | nil => simp [after?]
  | cons a lead ih =>
    cases text with
    | nil => simp [after?]
    | cons b text =>
      by_cases h : a = b
      · simp [after?, h, ih]
      · simp [after?, h, Ne.symm h]

@[simp] theorem after?_append (lead rest : Text) : after? lead (lead ++ rest) = some rest :=
  after?_eq_some_iff.2 rfl

theorem length_of_after? {lead text rest : Text} (h : after? lead text = some rest) :
    text.length = lead.length + rest.length := by
  rw [after?_eq_some_iff.1 h, List.length_append]

/-! ## Cuts -/

def breakAt? (mark : Char) : Text → Option (Text × Text)
  | [] => none
  | c :: rest =>
    if c = mark then some ([], rest)
    else (breakAt? mark rest).map fun p => (c :: p.1, p.2)

theorem breakAt?_eq_some_iff {mark : Char} {text before behind : Text} :
    breakAt? mark text = some (before, behind) ↔
      text = before ++ mark :: behind ∧ mark ∉ before := by
  induction text generalizing before with
  | nil => simp [breakAt?]
  | cons c text ih =>
    by_cases h : c = mark
    · subst h
      cases before with
      | nil => simp [breakAt?, eq_comm]
      | cons d before => simp [breakAt?, eq_comm]; intro hd; simp [hd]
    · cases before with
      | nil => simp [breakAt?, h]
      | cons d before =>
        simp only [breakAt?, h, if_false, Option.map_eq_some_iff, Prod.mk.injEq, Prod.exists,
          List.cons.injEq, List.cons_append, List.mem_cons, not_or]
        constructor
        · rintro ⟨a, b, hab, ⟨rfl, rfl⟩, rfl⟩
          obtain ⟨rfl, hm⟩ := ih.1 hab
          exact ⟨⟨rfl, rfl⟩, Ne.symm h, hm⟩
        · rintro ⟨⟨rfl, rfl⟩, _, hm⟩
          exact ⟨before, behind, ih.2 ⟨rfl, hm⟩, ⟨rfl, rfl⟩, rfl⟩

/-- The longest stretch in front of the first occurrence of `phrase`, and what stands from there on:
nothing when the phrase does not occur. -/
def breakBefore (phrase : Text) : Text → Text × Text
  | [] => ([], [])
  | c :: rest =>
    if startsWith phrase (c :: rest) then ([], c :: rest)
    else let p := breakBefore phrase rest; (c :: p.1, p.2)

def holds (phrase : Text) : Text → Bool
  | [] => phrase.isEmpty
  | c :: rest => startsWith phrase (c :: rest) || holds phrase rest

def splitOn (mark : Char) : Text → List Text
  | [] => [[]]
  | c :: rest =>
    if c = mark then [] :: splitOn mark rest
    else match splitOn mark rest with
      | [] => [[c]]
      | piece :: pieces => (c :: piece) :: pieces

theorem splitOn_ne_nil (mark : Char) (text : Text) : splitOn mark text ≠ [] := by
  cases text with
  | nil => simp [splitOn]
  | cons c rest =>
    simp only [splitOn]
    split
    · simp
    · split <;> simp

def join (glue : Text) : List Text → Text
  | [] => []
  | [piece] => piece
  | piece :: next :: pieces => piece ++ glue ++ join glue (next :: pieces)

theorem join_cons (glue piece : Text) {pieces : List Text} (h : pieces ≠ []) :
    join glue (piece :: pieces) = piece ++ glue ++ join glue pieces := by
  cases pieces with
  | nil => exact absurd rfl h
  | cons _ _ => rfl

theorem join_splitOn (mark : Char) (text : Text) : join [mark] (splitOn mark text) = text := by
  induction text with
  | nil => rfl
  | cons c rest ih =>
    by_cases h : c = mark
    · rw [splitOn, if_pos h, join_cons _ _ (splitOn_ne_nil mark rest), ih, h]; rfl
    · rw [splitOn, if_neg h]
      cases hs : splitOn mark rest with
      | nil => exact absurd hs (splitOn_ne_nil mark rest)
      | cons piece pieces =>
        rw [hs] at ih
        cases pieces with
        | nil => simpa [join] using ih
        | cons next pieces => simpa [join] using ih

theorem not_mem_of_mem_splitOn {mark : Char} {text piece : Text} (h : piece ∈ splitOn mark text) :
    mark ∉ piece := by
  induction text generalizing piece with
  | nil => simp [splitOn] at h; simp [h]
  | cons c rest ih =>
    by_cases hc : c = mark
    · rw [splitOn, if_pos hc] at h
      rcases List.mem_cons.1 h with rfl | h
      · simp
      · exact ih h
    · rw [splitOn, if_neg hc] at h
      cases hs : splitOn mark rest with
      | nil => exact absurd hs (splitOn_ne_nil mark rest)
      | cons first pieces =>
        simp only [hs] at h ih
        rcases List.mem_cons.1 h with rfl | h
        · simp only [List.mem_cons, not_or]
          exact ⟨Ne.symm hc, ih List.mem_cons_self⟩
        · exact ih (List.mem_cons_of_mem _ h)

theorem mem_of_mem_splitOn {mark c : Char} {text piece : Text} (h : piece ∈ splitOn mark text)
    (hc : c ∈ piece) : c ∈ text := by
  induction text generalizing piece with
  | nil => simp [splitOn] at h; simp [h] at hc
  | cons d rest ih =>
    rw [List.mem_cons]
    by_cases hd : d = mark
    · rw [splitOn, if_pos hd] at h
      rcases List.mem_cons.1 h with rfl | h
      · cases hc
      · exact .inr (ih h hc)
    · rw [splitOn, if_neg hd] at h
      cases hs : splitOn mark rest with
      | nil => exact absurd hs (splitOn_ne_nil mark rest)
      | cons first pieces =>
        simp only [hs] at h ih
        rcases List.mem_cons.1 h with rfl | h
        · exact (List.mem_cons.1 hc).imp_right (ih List.mem_cons_self)
        · exact .inr (ih (List.mem_cons_of_mem _ h) hc)

/-! ## Numbers -/

def ofNat (n : Nat) : Text := Nat.toDigits 10 n

end Text
end DocTools
