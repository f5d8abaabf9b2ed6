import DocTools.Snippet.Marker

/-! # How a marker is spelled

A marker line is blanks, `//`, blanks, a tag with a name that ends at a bracket, and blanks. The main
statements say that reading a line finds exactly the markers spelled this way, and that the tag and
the name are the only ones the line can have. -/
namespace DocTools.Snippet
set_option autoImplicit false

/-! ## Blanks in front -/

theorem trimStart_append {blanks rest : Text} {c : Char} (hb : blanks.allBlank = true)
    (hc : isBlank c = false) : (blanks ++ c :: rest).trimStart = c :: rest := by
  induction blanks with
  | nil => simp [Text.trimStart, hc]
  | cons b blanks ih =>
    simp only [Text.allBlank, List.all_cons, Bool.and_eq_true] at hb
    rw [List.cons_append, Text.trimStart, List.dropWhile_cons, if_pos hb.1]
    exact ih hb.2

theorem trimStart_eq_iff {text rest : Text} {c : Char} (hc : isBlank c = false) :
    text.trimStart = c :: rest ↔ ∃ blanks : Text, blanks.allBlank = true ∧ text = blanks ++ c :: rest := by
  constructor
  · intro h
    refine ⟨text.takeWhile isBlank, ?_, ?_⟩
    · exact List.all_takeWhile
    · rw [← h, Text.takeWhile_append_trimStart]
  · rintro ⟨blanks, hb, rfl⟩
    exact trimStart_append hb hc

theorem trimStart_blanks_append {blanks : Text} (hb : blanks.allBlank = true) (text : Text) :
    Text.trimStart (blanks ++ text) = text.trimStart :=
  List.dropWhile_append_of_pos (List.all_eq_true.mp hb)

/-- Blanks in front of a line make no marker of it and hide none. -/
theorem Marker.ofLine?_blanks_append {blanks : Text} (hb : blanks.allBlank = true) (line : Text) :
    Marker.ofLine? (blanks ++ line) = Marker.ofLine? line := by
  unfold Marker.ofLine?
  rw [trimStart_blanks_append hb]

/-! ## The spelling -/

def Spelled (tag name line : Text) : Prop :=
  name ≠ [] ∧ ']' ∉ name ∧ ∃ before between behind : Text,
    before.allBlank = true ∧ between.allBlank = true ∧ behind.allBlank = true ∧
      line = before ++ ['/', '/'] ++ between ++ tag ++ name ++ ']' :: behind

namespace Marker

theorem name?_eq_some_iff {text name : Text} :
    name? text = some name ↔
      name ≠ [] ∧ ']' ∉ name ∧ ∃ behind : Text, behind.allBlank = true ∧ text = name ++ ']' :: behind := by
  unfold name?
  constructor
  · intro h
    split at h
    · next found rest hbreak =>
      obtain ⟨htext, hmem⟩ := Text.breakAt?_eq_some_iff.1 hbreak
      split at h
      · next hgood =>
        obtain rfl : found = name := by simpa using h
        simp only [Bool.and_eq_true, Bool.not_eq_true', List.isEmpty_eq_false_iff] at hgood
        exact ⟨hgood.1, hmem, rest, hgood.2, htext⟩
      · cases h
    · cases h
  · rintro ⟨hne, hmem, behind, hblank, rfl⟩
    rw [Text.breakAt?_eq_some_iff.2 ⟨rfl, hmem⟩]
    simp [hne, hblank]

/-- The text that follows a tag, on a line that begins like a marker. -/
theorem after?_tag_iff {line tag body : Text} {c : Char} (hc : isBlank c = false) :
    (∃ rest, Text.after? ['/', '/'] line.trimStart = some rest ∧
        Text.after? (c :: tag) rest.trimStart = some body) ↔
      ∃ before between : Text, before.allBlank = true ∧ between.allBlank = true ∧
        line = before ++ ['/', '/'] ++ between ++ (c :: tag) ++ body := by
  constructor
  · rintro ⟨rest, hslashes, htag⟩
    obtain ⟨before, hbefore, rfl⟩ :=
      (trimStart_eq_iff (by decide)).1 (Text.after?_eq_some_iff.1 hslashes)
    obtain ⟨between, hbetween, rfl⟩ :=
      (trimStart_eq_iff hc).1 (Text.after?_eq_some_iff.1 htag)
    exact ⟨before, between, hbefore, hbetween, by simp⟩
  · rintro ⟨before, between, hbefore, hbetween, rfl⟩
    refine ⟨between ++ (c :: tag) ++ body, ?_, ?_⟩
    · rw [Text.after?_eq_some_iff]
      simpa using trimStart_append hbefore (c := '/') (by decide)
    · rw [Text.after?_eq_some_iff]
      simpa using trimStart_append hbetween hc

theorem after?_stopTag_of_startTag {text body : Text} (h : Text.after? startTag text = some body) :
    Text.after? stopTag text = none := by
  rw [Text.after?_eq_some_iff.1 h]
  rfl

theorem ofLine?_eq_some_iff {line : Text} {marker : Marker} :
    ofLine? line = some marker ↔
      ∃ rest body, Text.after? ['/', '/'] line.trimStart = some rest ∧
        match marker with
        | .start name => Text.after? startTag rest.trimStart = some body ∧ name? body = some name
        | .stop name => Text.after? stopTag rest.trimStart = some body ∧ name? body = some name := by
  unfold ofLine?
  constructor
  · intro h
    split at h
    · cases h
    · next rest hslashes =>
      simp only at h
      split at h
      · next body hstart =>
        obtain ⟨name, hname, rfl⟩ := Option.map_eq_some_iff.1 h
        exact ⟨rest, body, hslashes, hstart, hname⟩
      · next body _ hstop =>
        obtain ⟨name, hname, rfl⟩ := Option.map_eq_some_iff.1 h
        exact ⟨rest, body, hslashes, hstop, hname⟩
      · cases h
  · rintro ⟨rest, body, hslashes, h⟩
    rw [hslashes]
    cases marker with
    | start name => simp [h.1, h.2]
    | stop name =>
      have hstart : Text.after? startTag rest.trimStart = none := by
        cases hs : Text.after? startTag rest.trimStart with
        | none => rfl
        | some other => rw [after?_stopTag_of_startTag hs] at h; cases h.1
      simp [h.1, h.2, hstart]

theorem spelled_iff {tag name line : Text} {c : Char} (hc : isBlank c = false) :
    Spelled (c :: tag) name line ↔
      ∃ rest body, Text.after? ['/', '/'] line.trimStart = some rest ∧
        Text.after? (c :: tag) rest.trimStart = some body ∧ name? body = some name := by
  constructor
  · rintro ⟨hne, hmem, before, between, behind, hbefore, hbetween, hbehind, rfl⟩
    have hline : before ++ ['/', '/'] ++ between ++ (c :: tag) ++ name ++ ']' :: behind =
        before ++ ['/', '/'] ++ between ++ (c :: tag) ++ (name ++ ']' :: behind) :=
      List.append_assoc _ name (']' :: behind)
    obtain ⟨rest, hslashes, htag⟩ :=
      (after?_tag_iff hc).2 ⟨before, between, hbefore, hbetween, hline⟩
    refine ⟨rest, name ++ ']' :: behind, hslashes, htag, ?_⟩
    exact name?_eq_some_iff.2 ⟨hne, hmem, behind, hbehind, rfl⟩
  · rintro ⟨rest, body, hslashes, htag, hname⟩
    obtain ⟨hne, hmem, behind, hbehind, rfl⟩ := name?_eq_some_iff.1 hname
    obtain ⟨before, between, hbefore, hbetween, rfl⟩ :=
      (after?_tag_iff hc).1 ⟨rest, hslashes, htag⟩
    exact ⟨hne, hmem, before, between, behind, hbefore, hbetween, hbehind, by simp⟩

theorem ofLine?_eq_start_iff {line name : Text} :
    ofLine? line = some (.start name) ↔ Spelled startTag name line := by
  rw [ofLine?_eq_some_iff]
  exact (spelled_iff (c := '[') (by decide)).symm

theorem ofLine?_eq_stop_iff {line name : Text} :
    ofLine? line = some (.stop name) ↔ Spelled stopTag name line := by
  rw [ofLine?_eq_some_iff]
  exact (spelled_iff (c := '[') (by decide)).symm

end Marker

def IsMarkerLine (line : Text) : Prop := ∃ name, Spelled startTag name line ∨ Spelled stopTag name line

theorem isMarkerLine_iff {line : Text} : IsMarkerLine line ↔ (Marker.ofLine? line).isSome = true := by
  rw [Option.isSome_iff_exists]
  constructor
  · rintro ⟨name, h | h⟩
    · exact ⟨_, Marker.ofLine?_eq_start_iff.2 h⟩
    · exact ⟨_, Marker.ofLine?_eq_stop_iff.2 h⟩
  · rintro ⟨marker, h⟩
    cases marker with
    | start name => exact ⟨name, .inl (Marker.ofLine?_eq_start_iff.1 h)⟩
    | stop name => exact ⟨name, .inr (Marker.ofLine?_eq_stop_iff.1 h)⟩

instance : DecidablePred IsMarkerLine := fun _ => decidable_of_iff _ isMarkerLine_iff.symm

end DocTools.Snippet
