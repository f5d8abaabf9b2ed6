import DocTools.Target.Scan
import Mathlib.Data.List.Basic

/-! # Where targets are found

The names of targets are found by a scan from the left. Here a line is read without a scan: a name can
stand at several places of it, and a place is chosen unless a name that was chosen before reaches over
it. The main statement, `targets_finds`: the targets are the names at the chosen places, and whatever
stands at a place that is not chosen is covered by a target. -/
namespace DocTools.Target
set_option autoImplicit false

/-! ## Names in a line -/

/-- A name is the stem and a run of name characters, not empty and as long as it can be, and begins at
a word boundary. -/
structure IsName (stem : Text) (before : Option Char) (name behind : Text) : Prop where
  spelled : ∃ run : Text, name = stem ++ run ∧ run ≠ [] ∧ run.all isNameChar = true
  longest : ∀ c ∈ behind.head?, isNameChar c = false
  boundary : isBoundary before name.head? = true

/-- A name stands at a place of a line, the first of which is 0. -/
def NameAt (stem line : Text) (place : Nat) (name : Text) : Prop :=
  ∃ front behind, line = front ++ (name ++ behind) ∧ front.length = place ∧
    IsName stem front.getLast? name behind

/-- The stem stands at a word boundary, and a name character is behind it. -/
def StemAt (stem line : Text) (place : Nat) : Prop :=
  ∃ front c behind, line = front ++ (stem ++ c :: behind) ∧ front.length = place ∧
    isNameChar c = true ∧ isBoundary front.getLast? (stem ++ [c]).head? = true

/-- From the left, a name is chosen at each place that no name chosen before reaches over. -/
def Chosen (stem line : Text) (place : Nat) : Prop :=
  (∃ name, NameAt stem line place name) ∧
    ∀ earlier, earlier < place → Chosen stem line earlier →
      ∀ name, NameAt stem line earlier name → earlier + name.length ≤ place
termination_by place

/-- No name that was chosen reaches over a place. -/
def Free (stem line : Text) (place : Nat) : Prop :=
  ∀ earlier, earlier < place → Chosen stem line earlier →
    ∀ name, NameAt stem line earlier name → earlier + name.length ≤ place

theorem chosen_iff {stem line : Text} {place : Nat} :
    Chosen stem line place ↔ (∃ name, NameAt stem line place name) ∧ Free stem line place := by
  rw [Chosen]
  rfl

/-! ## Reading one name -/

section
variable {stem text name rest behind : Text} {before : Option Char}

theorem IsName.ne_nil (h : IsName stem before name behind) : name ≠ [] := by
  obtain ⟨run, rfl, hne, -⟩ := h.spelled
  exact List.append_ne_nil_of_right_ne_nil stem hne

theorem takeWhile_run {p : Char → Bool} {run : Text} (hrun : run.all p = true)
    (hbehind : ∀ c ∈ behind.head?, p c = false) : (run ++ behind).takeWhile p = run := by
  rw [List.takeWhile_append_of_pos (List.all_eq_true.mp hrun)]
  cases behind with
  | nil => simp
  | cons c behind => simp [hbehind c rfl]

theorem nameAt?_eq_some_iff : nameAt? stem before text = some (name, rest) ↔
    text = name ++ rest ∧ IsName stem before name rest := by
  constructor
  · intro h
    unfold nameAt? at h
    split at h
    · next hboundary =>
      split at h
      · next tail htail =>
        split at h
        · cases h
        · next hne =>
          obtain ⟨rfl, rfl⟩ := Prod.mk.inj (Option.some.inj h)
          rw [List.isEmpty_iff] at hne
          have htext : text = stem ++ tail.takeWhile isNameChar ++ tail.dropWhile isNameChar := by
            rw [List.append_assoc, List.takeWhile_append_dropWhile]
            exact Text.after?_eq_some_iff.mp htail
          refine ⟨htext, ⟨_, rfl, hne, List.all_takeWhile⟩, ?_, ?_⟩
          · intro c hc
            have hstop := List.head?_dropWhile_not isNameChar tail
            rw [Option.mem_def.mp hc] at hstop
            simpa using hstop
          · rw [htext, List.head?_append_of_ne_nil] at hboundary
            · exact hboundary
            · exact List.append_ne_nil_of_right_ne_nil stem hne
      · cases h
    · cases h
  · rintro ⟨rfl, hname⟩
    obtain ⟨run, rfl, hne, hrun⟩ := hname.spelled
    have hboundary := hname.boundary
    rw [nameAt?, List.head?_append_of_ne_nil _ hname.ne_nil, if_pos hboundary, List.append_assoc,
      Text.after?_append]
    have htake := takeWhile_run hrun hname.longest
    have hdrop : (run ++ rest).dropWhile isNameChar = rest := by
      have hsplit := List.takeWhile_append_dropWhile (p := isNameChar) (l := run ++ rest)
      rw [htake] at hsplit
      exact List.append_cancel_left hsplit
    simp only [htake, hdrop]
    rw [if_neg (by rwa [List.isEmpty_iff])]

end

/-! ## Places -/

section
variable {stem line front text name other : Text} {place earlier : Nat}

theorem nameAt_iff : NameAt stem (front ++ text) front.length name ↔
    ∃ rest, nameAt? stem front.getLast? text = some (name, rest) := by
  simp only [nameAt?_eq_some_iff]
  constructor
  · rintro ⟨front', rest, heq, hlength, hname⟩
    obtain ⟨rfl, rfl⟩ := List.append_inj heq hlength.symm
    exact ⟨rest, rfl, hname⟩
  · rintro ⟨rest, rfl, hname⟩
    exact ⟨front, rest, rfl, rfl, hname⟩

theorem NameAt.exists_front (h : NameAt stem line place name) :
    ∃ front text, line = front ++ text ∧ front.length = place := by
  obtain ⟨front, behind, heq, hlength, -⟩ := h
  exact ⟨front, name ++ behind, heq, hlength⟩

theorem NameAt.unique (h : NameAt stem line place name) (h' : NameAt stem line place other) :
    name = other := by
  obtain ⟨front, text, rfl, rfl⟩ := h.exists_front
  obtain ⟨rest, hrest⟩ := nameAt_iff.mp h
  obtain ⟨rest', hrest'⟩ := nameAt_iff.mp h'
  exact (Prod.mk.inj (Option.some.inj (hrest.symm.trans hrest'))).1

theorem NameAt.length_pos (h : NameAt stem line place name) : 0 < name.length := by
  obtain ⟨_, _, -, -, hname⟩ := h
  exact List.length_pos_iff.mpr hname.ne_nil

theorem NameAt.le_length (h : NameAt stem line place name) : place + name.length ≤ line.length := by
  obtain ⟨front, behind, rfl, rfl, -⟩ := h
  simp only [List.length_append]
  omega

/-- Where the stem stands at a word boundary with a name character behind it, a name stands. -/
theorem StemAt.exists_nameAt (h : StemAt stem line place) : ∃ name, NameAt stem line place name := by
  obtain ⟨front, c, behind, rfl, rfl, hc, hboundary⟩ := h
  have hrun : (c :: behind).takeWhile isNameChar = c :: behind.takeWhile isNameChar :=
    List.takeWhile_cons_of_pos hc
  refine ⟨stem ++ (c :: behind).takeWhile isNameChar, front, (c :: behind).dropWhile isNameChar,
    ?_, rfl, ⟨_, rfl, ?_, List.all_takeWhile⟩, ?_, ?_⟩
  · rw [List.append_assoc, List.takeWhile_append_dropWhile]
  · rw [hrun]
    exact List.cons_ne_nil _ _
  · intro d hd
    have hstop := List.head?_dropWhile_not isNameChar (c :: behind)
    rw [Option.mem_def.mp hd] at hstop
    simpa using hstop
  · rw [hrun]
    simpa only [List.head?_append, List.head?_cons] using hboundary

/-! ## What the scan finds -/

theorem Free.zero : Free stem line 0 := fun _ h => absurd h (Nat.not_lt_zero _)

theorem Free.succ (h : Free stem line place) (hnone : ∀ name, ¬NameAt stem line place name) :
    Free stem line (place + 1) := by
  intro earlier hlt hchosen name hname
  rcases Nat.lt_succ_iff_lt_or_eq.mp hlt with hlt | rfl
  · exact Nat.le_succ_of_le (h earlier hlt hchosen name hname)
  · exact absurd hname (hnone name)

theorem Chosen.not_between (h : Chosen stem line place) (hname : NameAt stem line place name)
    {later : Nat} (hlater : place < later) (hend : later < place + name.length) :
    ¬Chosen stem line later := by
  intro hchosen
  have hfree := (chosen_iff.mp hchosen).2 place hlater h name hname
  omega

theorem Chosen.free_behind (h : Chosen stem line place) (hname : NameAt stem line place name) :
    Free stem line (place + name.length) := by
  intro earlier hlt hchosen other hother
  rcases Nat.lt_trichotomy earlier place with hbefore | rfl | hbehind
  · have hfree := (chosen_iff.mp h).2 earlier hbefore hchosen other hother
    omega
  · obtain rfl := hname.unique hother
    exact Nat.le_refl _
  · exact absurd hchosen (h.not_between hname hbehind hlt)

end

/-- A scan that begins at a free place finds the names at the chosen places from there on. -/
theorem mem_namesFrom_iff {stem front text t : Text}
    (hfree : Free stem (front ++ text) front.length) :
    t ∈ namesFrom stem front.getLast? text ↔
      ∃ place, front.length ≤ place ∧ Chosen stem (front ++ text) place ∧
        NameAt stem (front ++ text) place t := by
  generalize hbefore : front.getLast? = before
  fun_induction namesFrom stem before text generalizing front with
  | case1 before text name rest hname ih =>
    subst hbefore
    have hat : NameAt stem (front ++ text) front.length name := nameAt_iff.mpr ⟨rest, hname⟩
    have hchosen := chosen_iff.mpr ⟨⟨name, hat⟩, hfree⟩
    have hbehind := hchosen.free_behind hat
    obtain ⟨rfl, hspelled⟩ := nameAt?_eq_some_iff.mp hname
    have hlast : (front ++ name).getLast? = name.getLast? :=
      List.getLast?_append_of_ne_nil front hspelled.ne_nil
    rw [← List.append_assoc, ← List.length_append] at hbehind
    rw [List.mem_cons, ih hbehind hlast, List.length_append, List.append_assoc]
    constructor
    · rintro (rfl | ⟨place, hle, hplace⟩)
      · exact ⟨front.length, Nat.le_refl _, hchosen, hat⟩
      · exact ⟨place, by omega, hplace⟩
    · rintro ⟨place, hle, hplace, ht⟩
      rcases Nat.eq_or_lt_of_le hle with rfl | hlt
      · exact .inl (ht.unique hat)
      · refine .inr ⟨place, Nat.le_of_not_lt fun hend => ?_, hplace, ht⟩
        exact hchosen.not_between hat hlt hend hplace
  | case2 before hnone =>
    subst hbefore
    constructor
    · exact fun h => absurd h List.not_mem_nil
    · rintro ⟨place, hle, -, ht⟩
      have hpos := ht.length_pos
      have hlength := ht.le_length
      rw [List.append_nil] at hlength
      omega
  | case3 before c rest hnone ih =>
    subst hbefore
    have hnot : ∀ name, ¬NameAt stem (front ++ c :: rest) front.length name := by
      intro name hat
      obtain ⟨rest', hrest'⟩ := nameAt_iff.mp hat
      exact nomatch hnone.symm.trans hrest'
    have hnext := hfree.succ hnot
    rw [List.append_cons] at hnext ⊢
    have hlength : (front ++ [c]).length = front.length + 1 := List.length_append
    rw [ih (by rwa [hlength]) (by simp), hlength]
    refine exists_congr fun place => and_congr_left fun ⟨_, ht⟩ => ⟨Nat.le_of_succ_le, fun hle => ?_⟩
    rw [← List.append_cons] at ht
    refine Nat.lt_of_le_of_ne hle ?_
    rintro rfl
    exact hnot t ht

theorem mem_namesIn_iff {stem line t : Text} :
    t ∈ namesIn stem line ↔ ∃ place, Chosen stem line place ∧ NameAt stem line place t := by
  have hscan : t ∈ namesFrom stem ([] : Text).getLast? line ↔
      ∃ place, 0 ≤ place ∧ Chosen stem line place ∧ NameAt stem line place t :=
    mem_namesFrom_iff Free.zero
  simpa [namesIn] using hscan

/-! ## Names of one kind of character -/

section
variable {stem text name other : Text} {place later : Nat}

theorem NameAt.all_isNameChar (h : NameAt stem text place name)
    (hstem : stem.all isNameChar = true) : name.all isNameChar = true := by
  obtain ⟨_, _, -, -, hname⟩ := h
  obtain ⟨run, rfl, -, hrun⟩ := hname.spelled
  rw [List.all_append, hstem, hrun, Bool.and_self]

theorem NameAt.isNameChar_of_getElem? (h : NameAt stem text place name)
    (hstem : stem.all isNameChar = true) {i : Nat} (hi : place ≤ i) (hend : i < place + name.length)
    {c : Char} (hc : text[i]? = some c) : isNameChar c = true := by
  have hall := List.all_eq_true.mp (h.all_isNameChar hstem)
  obtain ⟨front, behind, rfl, rfl, -⟩ := h
  rw [List.getElem?_append_right hi, List.getElem?_append_left (by omega)] at hc
  exact hall c (List.mem_of_getElem? hc)

theorem NameAt.not_isNameChar_behind (h : NameAt stem text place name) {c : Char}
    (hc : text[place + name.length]? = some c) : isNameChar c = false := by
  obtain ⟨front, behind, rfl, rfl, hname⟩ := h
  rw [List.getElem?_append_right (by omega), List.getElem?_append_right (by omega)] at hc
  have hzero : front.length + name.length - front.length - name.length = 0 := by omega
  rw [hzero, ← List.head?_eq_getElem?] at hc
  exact hname.longest c hc

/-- No name goes on behind the end of another one that reaches its place. -/
theorem NameAt.end_le (h : NameAt stem text place name) (h' : NameAt stem text later other)
    (hstem : stem.all isNameChar = true) (hreach : place ≤ later + other.length) :
    place + name.length ≤ later + other.length := by
  refine Nat.le_of_not_lt fun hlt => ?_
  obtain ⟨c, hc⟩ : ∃ c, text[later + other.length]? = some c :=
    ⟨_, List.getElem?_eq_getElem (Nat.lt_of_lt_of_le hlt h.le_length)⟩
  have hinside := h.isNameChar_of_getElem? hstem hreach hlt hc
  rw [h'.not_isNameChar_behind hc] at hinside
  cases hinside

end

/-! ## All lines -/

theorem mem_targets_iff {stem : Text} {lines : List Text} {t : Text} :
    t ∈ targets stem lines ↔
      ∃ line ∈ lines, ∃ place, Chosen stem line place ∧ NameAt stem line place t := by
  rw [targets, Dictionary.mem_keys_ofList, List.map_map]
  simp only [Function.comp_def, List.map_id', List.mem_flatMap, mem_namesIn_iff]

theorem increasing_targets (stem : Text) (lines : List Text) :
    (targets stem lines).Pairwise (· < ·) :=
  List.pairwise_map.mpr (Dictionary.increasing _)

/-- What is found in some lines: the names at the chosen places and no others, in increasing order. The
chosen names of a line do not overlap, and wherever the stem stands at a word boundary with a name
character behind it, that place is the start of a chosen name or lies inside one. -/
structure FindsTargets (stem : Text) (lines found : List Text) : Prop where
  mem_iff : ∀ t, t ∈ found ↔
    ∃ line ∈ lines, ∃ place, Chosen stem line place ∧ NameAt stem line place t
  increasing : found.Pairwise (· < ·)
  apart : ∀ line ∈ lines, ∀ place later name, Chosen stem line place → Chosen stem line later →
    NameAt stem line place name → place < later → place + name.length ≤ later
  covers : ∀ line ∈ lines, ∀ place, StemAt stem line place →
    ∃ start name, Chosen stem line start ∧ NameAt stem line start name ∧ name ∈ found ∧
      start ≤ place ∧ place < start + name.length
  covers_whole : stem.all isNameChar = true → ∀ line ∈ lines, ∀ place name start reported,
    NameAt stem line place name → Chosen stem line start → NameAt stem line start reported →
    start ≤ place → place < start + reported.length →
      place + name.length = start + reported.length

theorem NameAt.exists_chosen {stem line name : Text} {place : Nat}
    (h : NameAt stem line place name) : ∃ start reported, Chosen stem line start ∧
      NameAt stem line start reported ∧ start ≤ place ∧ place < start + reported.length := by
  by_cases hfree : Free stem line place
  · have hpos := h.length_pos
    exact ⟨place, name, chosen_iff.mpr ⟨⟨name, h⟩, hfree⟩, h, Nat.le_refl _, by omega⟩
  · simp only [Free, not_forall, Nat.not_le] at hfree
    obtain ⟨start, hlt, hchosen, reported, hreported, hover⟩ := hfree
    exact ⟨start, reported, hchosen, hreported, Nat.le_of_lt hlt, hover⟩

theorem targets_finds (stem : Text) (lines : List Text) :
    FindsTargets stem lines (targets stem lines) where
  mem_iff _ := mem_targets_iff
  increasing := increasing_targets stem lines
  apart := by
    intro line _ place later name hplace hlater hname hlt
    exact (chosen_iff.mp hlater).2 place hlt hplace name hname
  covers := by
    intro line hline place hstem
    obtain ⟨_, hname⟩ := hstem.exists_nameAt
    obtain ⟨start, reported, hchosen, hreported, hinside⟩ := hname.exists_chosen
    exact ⟨start, reported, hchosen, hreported,
      mem_targets_iff.mpr ⟨line, hline, start, hchosen, hreported⟩, hinside⟩
  covers_whole := by
    intro hstem line _ place name start reported hname _ hreported hle hlt
    exact Nat.le_antisymm (hname.end_le hreported hstem (Nat.le_of_lt hlt))
      (hreported.end_le hname hstem (Nat.le_add_right_of_le hle))

/-- The second place of the stem lies inside the name at the first one. -/
example : targets "a b".toList ["a bc-a bd".toList] = ["a bc-a".toList] := by decide +kernel

end DocTools.Target
