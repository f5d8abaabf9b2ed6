import DocTools.Proofs.Snippet.Blocks

/-! # What becomes of every marker

Each marker of a file has one of six outcomes, which are listed here beside the errors and the store
that a run leaves. The main statements say that the outcomes cover every start marker and every end
marker once, that errors and stored snippets are read off them, and that no error arises exactly for
files whose markers are pairs with new names. -/
namespace DocTools.Snippet
set_option autoImplicit false

/-! ## Outcomes -/

/-- The start marker that a finding is about: its line and its name. -/
def Finding.start? : Finding → Option (Nat × Text)
  | .block b => some (b.startLine, b.name)
  | .nestedStart line name _ => some (line, name)
  | .unmatchedEnd _ _ => none
  | .mismatchedEnd _ _ opened startLine => some (startLine, opened)
  | .unclosed line name => some (line, name)

def Finding.stop? : Finding → Option (Nat × Text)
  | .block b => some (b.endLine, b.name)
  | .nestedStart _ _ _ => none
  | .unmatchedEnd line name => some (line, name)
  | .mismatchedEnd line name _ _ => some (line, name)
  | .unclosed _ _ => none

inductive Outcome where
  | stored (b : Block)
  | duplicate (b : Block)
  | nestedStart (line : Nat) (name opened : Text)
  | unmatchedEnd (line : Nat) (name : Text)
  | mismatchedEnd (line : Nat) (name opened : Text) (startLine : Nat)
  | unclosed (line : Nat) (name : Text)

namespace Outcome

/-- The error that is recorded; all but a stored block are errors. -/
def error? (path : Path) : Outcome → Option ExtractError
  | stored _ => none
  | duplicate b => some (.duplicate path b.endLine b.name)
  | nestedStart line name opened => some (.nestedStart path line name opened)
  | unmatchedEnd line name => some (.unmatchedEnd path line name)
  | mismatchedEnd line name opened startLine => some (.mismatchedEnd path line name opened startLine)
  | unclosed line name => some (.unclosed path line name)

def stored? : Outcome → Option Block
  | stored b => some b
  | _ => none

def finding : Outcome → Finding
  | stored b | duplicate b => .block b
  | nestedStart line name opened => .nestedStart line name opened
  | unmatchedEnd line name => .unmatchedEnd line name
  | mismatchedEnd line name opened startLine => .mismatchedEnd line name opened startLine
  | unclosed line name => .unclosed line name

def start? (o : Outcome) : Option (Nat × Text) := o.finding.start?

def stop? (o : Outcome) : Option (Nat × Text) := o.finding.stop?

def ofFinding (snippets : Snippets) : Finding → Outcome
  | .block b => if snippets.contains b.name then duplicate b else stored b
  | .nestedStart line name opened => nestedStart line name opened
  | .unmatchedEnd line name => unmatchedEnd line name
  | .mismatchedEnd line name opened startLine => mismatchedEnd line name opened startLine
  | .unclosed line name => unclosed line name

end Outcome

def settleAll : Snippets → List Finding → List Outcome
  | _, [] => []
  | snippets, f :: found =>
    Outcome.ofFinding snippets f :: settleAll (f.block?.toList.foldl keepFirst snippets) found

theorem finding_ofFinding (snippets : Snippets) (f : Finding) :
    (Outcome.ofFinding snippets f).finding = f := by
  cases f with
  | block b => by_cases hb : snippets.contains b.name <;> simp [Outcome.ofFinding, Outcome.finding, hb]
  | nestedStart line name opened => rfl
  | unmatchedEnd line name => rfl
  | mismatchedEnd line name opened startLine => rfl
  | unclosed line name => rfl

theorem map_finding_settleAll (snippets : Snippets) (found : List Finding) :
    (settleAll snippets found).map Outcome.finding = found := by
  induction found generalizing snippets with
  | nil => rfl
  | cons f found ih => rw [settleAll, List.map_cons, finding_ofFinding, ih]

theorem filterMap_settleAll {α : Type} (snippets : Snippets) (found : List Finding)
    (about : Finding → Option α) :
    (settleAll snippets found).filterMap (fun o => about o.finding) = found.filterMap about := by
  rw [← congrArg (List.filterMap about) (map_finding_settleAll snippets found), List.filterMap_map]
  rfl

theorem finding_mem_of_mem_settleAll {snippets : Snippets} {found : List Finding} {o : Outcome}
    (h : o ∈ settleAll snippets found) : o.finding ∈ found := by
  rw [← map_finding_settleAll snippets found]
  exact List.mem_map_of_mem h

/-! ## Errors and store of a run -/

theorem errors_record (path : Path) (x : Extractor) (f : Finding) :
    (x.record path f).errors = x.errors ++ ((Outcome.ofFinding x.snippets f).error? path).toList := by
  cases f with
  | block b =>
    by_cases hb : x.snippets.contains b.name
    · simp [Extractor.record, Extractor.store, Extractor.report, Outcome.ofFinding, Outcome.error?, hb]
    · simp [Extractor.record, Extractor.store, Outcome.ofFinding, Outcome.error?, hb]
  | nestedStart line name opened => rfl
  | unmatchedEnd line name => rfl
  | mismatchedEnd line name opened startLine => rfl
  | unclosed line name => rfl

theorem errors_foldl_record (path : Path) (x : Extractor) (found : List Finding) :
    (found.foldl (Extractor.record path) x).errors =
      x.errors ++ (settleAll x.snippets found).filterMap (Outcome.error? path) := by
  induction found generalizing x with
  | nil => simp [settleAll]
  | cons f found ih =>
    rw [List.foldl_cons, ih, errors_record, snippets_record, settleAll, List.append_assoc]
    congr 1
    cases h : (Outcome.ofFinding x.snippets f).error? path with
    | none => rw [List.filterMap_cons_none h]; rfl
    | some e => rw [List.filterMap_cons_some h]; rfl

theorem contains_keepFirst {d : Snippets} {b : Block} {key : Text} :
    (keepFirst d b).contains key = true ↔ key = b.name ∨ d.contains key = true := by
  unfold keepFirst
  by_cases hb : d.contains b.name
  · rw [if_pos hb]
    refine ⟨.inr, ?_⟩
    rintro (rfl | h)
    · exact hb
    · exact h
  · rw [if_neg hb, Dictionary.contains_insert]

theorem contains_foldl_keepFirst {d : Snippets} {blocks : List Block} {key : Text} :
    (blocks.foldl keepFirst d).contains key = true ↔
      key ∈ blocks.map Block.name ∨ d.contains key = true := by
  induction blocks generalizing d with
  | nil => simp
  | cons b blocks ih =>
    rw [List.foldl_cons, ih, contains_keepFirst, List.map_cons, List.mem_cons, ← or_assoc,
      or_comm (a := key ∈ blocks.map Block.name)]

/-! ## The blocks that are stored -/

def keep (snippets : Snippets) (b : Block) : Snippets := snippets.insert b.name (dedent b.body)

/-- The blocks whose names are free when their turn comes. -/
def newBlocks (snippets : Snippets) : List Block → List Block
  | [] => []
  | b :: blocks =>
    if snippets.contains b.name then newBlocks snippets blocks
    else b :: newBlocks (keep snippets b) blocks

theorem ofFinding_block (d : Snippets) (b : Block) :
    (Outcome.ofFinding d (.block b) = .duplicate b ∧ d.contains b.name = true ∧ keepFirst d b = d) ∨
      (Outcome.ofFinding d (.block b) = .stored b ∧ ¬ d.contains b.name = true ∧
        keepFirst d b = keep d b) := by
  by_cases hb : d.contains b.name
  · exact .inl ⟨if_pos hb, hb, if_pos hb⟩
  · exact .inr ⟨if_neg hb, hb, if_neg hb⟩

theorem foldl_keepFirst_eq_foldl_keep (d : Snippets) (blocks : List Block) :
    blocks.foldl keepFirst d = (newBlocks d blocks).foldl keep d := by
  induction blocks generalizing d with
  | nil => rfl
  | cons b blocks ih =>
    rw [List.foldl_cons, newBlocks, keepFirst]
    by_cases hb : d.contains b.name
    · rw [if_pos hb, if_pos hb, ih]
    · rw [if_neg hb, if_neg hb, ih]; rfl

theorem not_contains_of_mem_newBlocks {d : Snippets} {blocks : List Block} {b : Block}
    (h : b ∈ newBlocks d blocks) : ¬ d.contains b.name = true := by
  induction blocks generalizing d with
  | nil => cases h
  | cons c blocks ih =>
    rw [newBlocks] at h
    by_cases hc : d.contains c.name
    · rw [if_pos hc] at h
      exact ih h
    · rw [if_neg hc] at h
      rcases List.mem_cons.1 h with rfl | h
      · exact hc
      · exact fun hd => ih h (Dictionary.contains_insert.2 (.inr hd))

theorem nodup_newBlocks_names (d : Snippets) (blocks : List Block) :
    ((newBlocks d blocks).map Block.name).Nodup := by
  induction blocks generalizing d with
  | nil => exact .nil
  | cons b blocks ih =>
    rw [newBlocks]
    by_cases hb : d.contains b.name
    · rw [if_pos hb]
      exact ih d
    · rw [if_neg hb]
      refine List.nodup_cons.2 ⟨?_, ih _⟩
      intro hmem
      obtain ⟨c, hc, hname⟩ := List.mem_map.1 hmem
      exact not_contains_of_mem_newBlocks hc (Dictionary.contains_insert.2 (.inl hname))

theorem filterMap_stored?_settleAll (d : Snippets) (found : List Finding) :
    (settleAll d found).filterMap Outcome.stored? = newBlocks d (found.filterMap Finding.block?) := by
  induction found generalizing d with
  | nil => rfl
  | cons f found ih =>
    cases f with
    | block b =>
      have hblocks : (Finding.block b :: found).filterMap Finding.block? =
          b :: found.filterMap Finding.block? := rfl
      have hsettle : settleAll d (.block b :: found) =
          Outcome.ofFinding d (.block b) :: settleAll (keepFirst d b) found := rfl
      rw [hblocks, newBlocks, hsettle, Outcome.ofFinding, keepFirst]
      by_cases hb : d.contains b.name
      · rw [if_pos hb, if_pos hb, if_pos hb, ← ih]; rfl
      · rw [if_neg hb, if_neg hb, if_neg hb]
        exact congrArg (b :: ·) (ih (keep d b))
    | nestedStart line name opened => exact ih d
    | unmatchedEnd line name => exact ih d
    | mismatchedEnd line name opened startLine => exact ih d
    | unclosed line name => exact ih d

/-! ## Markers one by one -/

/-- The numbers and names of the markers of one kind, the first line having number `k`. -/
def markersFrom (kind : Marker → Option Text) (k : Nat) (lines : List Text) : List (Nat × Text) :=
  (lines.zipIdx k).filterMap fun e => ((Marker.ofLine? e.1).bind kind).map (e.2, ·)

def Marker.startName? : Marker → Option Text
  | .start name => some name
  | .stop _ => none

def Marker.stopName? : Marker → Option Text
  | .start _ => none
  | .stop name => some name

theorem markersFrom_cons (kind : Marker → Option Text) (k : Nat) (text : Text) (rest : List Text) :
    markersFrom kind k (text :: rest) =
      (((Marker.ofLine? text).bind kind).map (k, ·)).toList ++ markersFrom kind (k + 1) rest := by
  rw [markersFrom, List.zipIdx_cons]
  cases h : (Marker.ofLine? text).bind kind with
  | none => rw [List.filterMap_cons_none (by simp [h])]; rfl
  | some name => rw [List.filterMap_cons_some (b := (k, name)) (by simp [h])]; rfl

theorem mem_markersFrom {kind : Marker → Option Text} {lines : List Text} {k : Nat} {name : Text} :
    (k, name) ∈ markersFrom kind 1 lines ↔
      ∃ line, lineAt? lines k = some line ∧ (Marker.ofLine? line).bind kind = some name := by
  rw [markersFrom, List.mem_filterMap]
  constructor
  · rintro ⟨⟨line, j⟩, hline, h⟩
    obtain ⟨other, hother, heq⟩ := Option.map_eq_some_iff.1 h
    cases heq
    rw [List.mk_mem_zipIdx_iff_le_and_getElem?_sub] at hline
    obtain ⟨hle, hget⟩ := hline
    obtain ⟨i, rfl⟩ : ∃ i, j = i + 1 := ⟨j - 1, by omega⟩
    exact ⟨line, hget, hother⟩
  · rintro ⟨line, hline, h⟩
    cases k with
    | zero => cases hline
    | succ i =>
      refine ⟨(line, i + 1), ?_, by simp [h]⟩
      rw [List.mk_mem_zipIdx_iff_le_and_getElem?_sub]
      exact ⟨by omega, hline⟩

theorem le_of_mem_markersFrom {kind : Marker → Option Text} {k : Nat} {lines : List Text}
    {e : Nat × Text} (h : e ∈ markersFrom kind k lines) : k ≤ e.1 := by
  obtain ⟨p, hp, he⟩ := List.mem_filterMap.1 h
  obtain ⟨_, _, rfl⟩ := Option.map_eq_some_iff.1 he
  exact List.le_snd_of_mem_zipIdx hp

theorem nodup_markersFrom (kind : Marker → Option Text) (k : Nat) (lines : List Text) :
    (markersFrom kind k lines).Nodup := by
  induction lines generalizing k with
  | nil => exact .nil
  | cons text rest ih =>
    rw [markersFrom_cons]
    cases (Marker.ofLine? text).bind kind with
    | none => exact ih (k + 1)
    | some name =>
      refine List.nodup_cons.2 ⟨?_, ih (k + 1)⟩
      intro hmem
      exact Nat.not_succ_le_self k (le_of_mem_markersFrom hmem)

theorem mem_startMarkers {lines : List Text} {k : Nat} {name : Text} :
    (k, name) ∈ markersFrom Marker.startName? 1 lines ↔ StartsAt lines k name := by
  rw [mem_markersFrom]
  constructor
  · rintro ⟨line, hline, h⟩
    obtain ⟨marker, hmarker, hname⟩ := Option.bind_eq_some_iff.1 h
    cases marker with
    | start other => cases hname; exact (startsAt_iff hline).2 hmarker
    | stop other => cases hname
  · rintro ⟨line, hline, h⟩
    exact ⟨line, hline, by rw [Marker.ofLine?_eq_start_iff.2 h]; rfl⟩

theorem mem_stopMarkers {lines : List Text} {k : Nat} {name : Text} :
    (k, name) ∈ markersFrom Marker.stopName? 1 lines ↔ StopsAt lines k name := by
  rw [mem_markersFrom]
  constructor
  · rintro ⟨line, hline, h⟩
    obtain ⟨marker, hmarker, hname⟩ := Option.bind_eq_some_iff.1 h
    cases marker with
    | start other => cases hname
    | stop other => cases hname; exact (stopsAt_iff hline).2 hmarker
  · rintro ⟨line, hline, h⟩
    exact ⟨line, hline, by rw [Marker.ofLine?_eq_stop_iff.2 h]; rfl⟩

/-! ## The balance of a run -/

def OpenBlock.start (o : OpenBlock) : Nat × Text := (o.startLine, o.name)

/-- From any line on, the findings are about the snippet that is open and the start markers to
come, each once. -/
theorem perm_starts_findingsFrom (k : Nat) (opened : Option OpenBlock) (lines : List Text) :
    ((findingsFrom k opened lines).filterMap Finding.start?).Perm
      ((opened.map OpenBlock.start).toList ++ markersFrom Marker.startName? k lines) := by
  induction lines generalizing k opened with
  | nil =>
    cases opened with
    | none => exact .refl _
    | some o => exact .refl _
  | cons text rest ih =>
    rw [findingsFrom_cons, markersFrom_cons, List.filterMap_append]
    have hrest := ih (k + 1) (OpenBlock.next? k opened text)
    cases hm : Marker.ofLine? text with
    | none =>
      cases opened with
      | none => simpa [Finding.atLine?, OpenBlock.next?, hm] using hrest
      | some o => simpa [Finding.atLine?, OpenBlock.next?, hm, OpenBlock.start] using hrest
    | some marker =>
      cases marker with
      | start name =>
        cases opened with
        | none =>
          simpa [Finding.atLine?, OpenBlock.next?, hm, OpenBlock.start, Marker.startName?] using hrest
        | some o =>
          simp only [OpenBlock.next?, hm] at hrest
          -- the nested marker is settled before the open one, which stands above it
          have hswap := (hrest.cons (k, name)).trans (List.Perm.swap _ _ _)
          simpa [Finding.atLine?, OpenBlock.next?, hm, OpenBlock.start, Marker.startName?,
            Finding.start?] using hswap
      | stop name =>
        simp only [OpenBlock.next?, hm] at hrest
        cases opened with
        | none =>
          have hnone : [Finding.unmatchedEnd k name].filterMap Finding.start? = [] := rfl
          simpa [Finding.atLine?, OpenBlock.next?, hm, Marker.startName?, close, hnone] using hrest
        | some o =>
          have hstart : (close k name (some o)).start? = some o.start := by
            by_cases hname : name = o.name
            · simp [close, hname, Finding.start?, OpenBlock.start]
            · simp [close, hname, Finding.start?, OpenBlock.start]
          simpa [Finding.atLine?, OpenBlock.next?, hm, Marker.startName?, hstart] using hrest

theorem stops_findingsFrom (k : Nat) (opened : Option OpenBlock) (lines : List Text) :
    (findingsFrom k opened lines).filterMap Finding.stop? = markersFrom Marker.stopName? k lines := by
  induction lines generalizing k opened with
  | nil =>
    cases opened with
    | none => rfl
    | some o => rfl
  | cons text rest ih =>
    rw [findingsFrom_cons, markersFrom_cons, List.filterMap_append, ih]
    congr 1
    cases hm : Marker.ofLine? text with
    | none => simp [Finding.atLine?, hm]
    | some marker =>
      cases marker with
      | start name =>
        cases opened with
        | none => simp [Finding.atLine?, hm, Marker.stopName?]
        | some o => simp [Finding.atLine?, hm, Marker.stopName?, Finding.stop?]
      | stop name =>
        have hstop : (close k name opened).stop? = some (k, name) := by
          cases opened with
          | none => rfl
          | some o => by_cases hname : name = o.name <;> simp [close, hname, Finding.stop?]
        simp [Finding.atLine?, hm, Marker.stopName?, hstop]

/-! ## Runs without errors -/

def markerPair (name : Text) : List Marker := [.start name, .stop name]

/-- The names differ from one another, and none is taken. -/
def NewNames (snippets : Snippets) (names : List Text) : Prop :=
  names.Nodup ∧ ∀ name ∈ names, ¬ snippets.contains name = true

theorem newNames_cons {d : Snippets} {name : Text} {names : List Text} (code : Text) :
    NewNames d (name :: names) ↔ ¬ d.contains name = true ∧ NewNames (d.insert name code) names := by
  simp only [NewNames, List.nodup_cons, List.mem_cons, Dictionary.contains_insert]
  constructor
  · rintro ⟨⟨hmem, hnodup⟩, hfree⟩
    refine ⟨hfree name (.inl rfl), hnodup, ?_⟩
    rintro other hother (rfl | htaken)
    · exact hmem hother
    · exact hfree other (.inr hother) htaken
  · rintro ⟨hname, hnodup, hfree⟩
    refine ⟨⟨fun hmem => hfree name hmem (.inl rfl), hnodup⟩, ?_⟩
    rintro other (rfl | hother)
    · exact hname
    · exact fun htaken => hfree other hother (.inr htaken)

/-- The markers are the end of what is open, if anything is, and then pairs with new names. -/
def Paired (snippets : Snippets) (opened : Option Text) (markers : List Marker) : Prop :=
  ∃ names, NewNames snippets (opened.toList ++ names) ∧
    markers = (opened.map Marker.stop).toList ++ names.flatMap markerPair

section
variable {d : Snippets} {name : Text} {markers : List Marker}

theorem paired_nil {opened : Option Text} : Paired d opened [] ↔ opened = none := by
  constructor
  · rintro ⟨names, _, h⟩
    cases opened with
    | none => rfl
    | some other => cases h
  · rintro rfl
    exact ⟨[], ⟨.nil, by simp⟩, rfl⟩

theorem paired_start : Paired d none (.start name :: markers) ↔ Paired d (some name) markers := by
  constructor
  · rintro ⟨names, hnew, h⟩
    cases names with
    | nil => cases h
    | cons other names =>
      obtain ⟨heq, hrest⟩ := List.cons.inj h
      cases heq
      exact ⟨names, hnew, hrest⟩
  · rintro ⟨names, hnew, rfl⟩
    exact ⟨name :: names, hnew, rfl⟩

theorem not_paired_start {other : Text} : ¬ Paired d (some other) (.start name :: markers) := by
  rintro ⟨names, _, h⟩
  cases h

theorem not_paired_stop : ¬ Paired d none (.stop name :: markers) := by
  rintro ⟨names, _, h⟩
  cases names with
  | nil => cases h
  | cons other names => cases h

theorem paired_stop {other : Text} (code : Text) : Paired d (some other) (.stop name :: markers) ↔
    name = other ∧ ¬ d.contains name = true ∧ Paired (d.insert name code) none markers := by
  constructor
  · rintro ⟨names, hnew, h⟩
    obtain ⟨heq, hrest⟩ := List.cons.inj h
    cases heq
    obtain ⟨hfree, hnames⟩ := (newNames_cons code).1 hnew
    exact ⟨rfl, hfree, names, hnames, hrest⟩
  · rintro ⟨rfl, hfree, names, hnew, rfl⟩
    exact ⟨names, (newNames_cons code).2 ⟨hfree, hnew⟩, rfl⟩

end

def errorsOf (path : Path) (snippets : Snippets) (found : List Finding) : List ExtractError :=
  (settleAll snippets found).filterMap (Outcome.error? path)

theorem errorsOf_cons (path : Path) (d : Snippets) (f : Finding) (found : List Finding) :
    errorsOf path d (f :: found) =
      ((Outcome.ofFinding d f).error? path).toList ++
        errorsOf path (f.block?.toList.foldl keepFirst d) found := by
  rw [errorsOf, settleAll]
  cases h : (Outcome.ofFinding d f).error? path with
  | none => rw [List.filterMap_cons_none h]; rfl
  | some e => rw [List.filterMap_cons_some h]; rfl

theorem errorsOf_cons_ne_nil {path : Path} {d : Snippets} {f : Finding} {found : List Finding}
    (h : ((Outcome.ofFinding d f).error? path).isSome = true) : errorsOf path d (f :: found) ≠ [] := by
  obtain ⟨e, he⟩ := Option.isSome_iff_exists.1 h
  rw [errorsOf_cons, he]
  exact List.cons_ne_nil e _

theorem errorsOf_close_eq_nil_iff (path : Path) (d : Snippets) (k : Nat) (name : Text) (o : OpenBlock)
    (found : List Finding) :
    errorsOf path d (close k name (some o) :: found) = [] ↔
      name = o.name ∧ ¬ d.contains name = true ∧
        errorsOf path (d.insert name (dedent o.body)) found = [] := by
  by_cases hname : name = o.name
  · subst hname
    rw [close, if_pos rfl, errorsOf_cons]
    rcases ofFinding_block d ⟨o.name, o.startLine, k, o.body⟩ with ⟨ho, htaken, hk⟩ | ⟨ho, hfree, hk⟩
    · rw [ho]
      exact ⟨fun h => absurd h (List.cons_ne_nil _ _), fun h => absurd htaken h.2.1⟩
    · rw [ho]
      refine ⟨fun h => ⟨rfl, hfree, ?_⟩, fun h => ?_⟩
      · rw [← h]; simp [Outcome.error?, Finding.block?, hk, keep]
      · rw [← h.2.2]; simp [Outcome.error?, Finding.block?, hk, keep]
  · rw [close, if_neg hname]
    exact ⟨fun h => absurd h (errorsOf_cons_ne_nil rfl), fun h => absurd h.1 hname⟩

/-- No error arises exactly when the markers to come are paired; any other marker is an error, at
once or at the end of the file. -/
theorem errorsOf_findingsFrom_eq_nil_iff (path : Path) (lines : List Text) (d : Snippets) (k : Nat)
    (opened : Option OpenBlock) :
    errorsOf path d (findingsFrom k opened lines) = [] ↔
      Paired d (opened.map OpenBlock.name) (lines.filterMap Marker.ofLine?) := by
  induction lines generalizing d k opened with
  | nil =>
    rw [List.filterMap_nil, paired_nil]
    cases opened with
    | none => exact ⟨fun _ => rfl, fun _ => rfl⟩
    | some o => exact iff_of_false (errorsOf_cons_ne_nil rfl) (Option.some_ne_none o.name)
  | cons text rest ih =>
    rw [findingsFrom_cons]
    cases hm : Marker.ofLine? text with
    | none =>
      rw [List.filterMap_cons_none hm]
      cases opened with
      | none => simpa [Finding.atLine?, OpenBlock.next?, hm] using ih d (k + 1) none
      | some o =>
        simpa [Finding.atLine?, OpenBlock.next?, hm] using
          ih d (k + 1) (some { o with body := o.body ++ [text] })
    | some marker =>
      rw [List.filterMap_cons_some hm]
      simp only [Finding.atLine?, OpenBlock.next?, hm]
      cases marker with
      | start name =>
        cases opened with
        | none => exact (ih d (k + 1) (some ⟨name, k, []⟩)).trans paired_start.symm
        | some o => exact iff_of_false (errorsOf_cons_ne_nil rfl) not_paired_start
      | stop name =>
        cases opened with
        | none => exact iff_of_false (errorsOf_cons_ne_nil rfl) not_paired_stop
        | some o =>
          -- the store that the rest meets has the name, so that it is not new any more
          have hrest := ih (d.insert name (dedent o.body)) (k + 1) none
          refine (errorsOf_close_eq_nil_iff path d k name o _).trans ?_
          refine Iff.trans ?_ (paired_stop (dedent o.body)).symm
          exact and_congr_right fun _ => and_congr_right fun _ => hrest

/-! ## Lines without markers -/

/-- A finding without the lines of a body. -/
def Finding.bare : Finding → Finding
  | .block b => .block { b with body := [] }
  | f => f

section
variable {opened opened' : Option OpenBlock} {text text' : Text}

theorem next?_congr (k : Nat) (hm : Marker.ofLine? text = Marker.ofLine? text')
    (ho : opened.map OpenBlock.start = opened'.map OpenBlock.start) :
    (OpenBlock.next? k opened text).map OpenBlock.start =
      (OpenBlock.next? k opened' text').map OpenBlock.start := by
  unfold OpenBlock.next?
  rw [hm]
  cases opened with
  | none =>
    cases opened' with
    | none => cases Marker.ofLine? text' with
      | none => rfl
      | some marker => cases marker <;> rfl
    | some o' => cases ho
  | some o =>
    cases opened' with
    | none => cases ho
    | some o' => cases Marker.ofLine? text' with
      | none => exact ho
      | some marker => cases marker with
        | start name => exact ho
        | stop name => rfl

theorem atLine?_congr (k : Nat) (hm : Marker.ofLine? text = Marker.ofLine? text')
    (ho : opened.map OpenBlock.start = opened'.map OpenBlock.start) :
    (Finding.atLine? k opened text).map Finding.bare =
      (Finding.atLine? k opened' text').map Finding.bare := by
  unfold Finding.atLine?
  rw [hm]
  cases opened with
  | none =>
    cases opened' with
    | none => cases Marker.ofLine? text' with
      | none => rfl
      | some marker => cases marker <;> rfl
    | some o' => cases ho
  | some o =>
    cases opened' with
    | none => cases ho
    | some o' =>
      obtain ⟨hs, hname⟩ := Prod.mk.inj (Option.some.inj ho)
      cases Marker.ofLine? text' with
      | none => rfl
      | some marker =>
        cases marker with
        | start name => simp [hname]
        | stop name =>
          by_cases h : name = o'.name
          · simp [close, hname, h, Finding.bare, hs]
          · simp [close, hname, h, hs]

end

/-- Findings, bodies apart, depend on the markers of the lines alone. -/
theorem map_bare_findingsFrom_congr {lines lines' : List Text}
    (hm : lines.map Marker.ofLine? = lines'.map Marker.ofLine?) (k : Nat)
    {opened opened' : Option OpenBlock}
    (ho : opened.map OpenBlock.start = opened'.map OpenBlock.start) :
    (findingsFrom k opened lines).map Finding.bare = (findingsFrom k opened' lines').map Finding.bare := by
  induction lines generalizing lines' k opened opened' with
  | nil =>
    obtain rfl : lines' = [] := by simpa using hm.symm
    cases opened with
    | none =>
      cases opened' with
      | none => rfl
      | some o' => cases ho
    | some o =>
      cases opened' with
      | none => cases ho
      | some o' =>
        obtain ⟨hs, hname⟩ := Prod.mk.inj (Option.some.inj ho)
        simp [findingsFrom, hs, hname]
  | cons text rest ih =>
    cases lines' with
    | nil => cases hm
    | cons text' rest' =>
      obtain ⟨htext, hrest⟩ := List.cons.inj hm
      rw [findingsFrom_cons, findingsFrom_cons, List.map_append, List.map_append,
        ih hrest (k + 1) (next?_congr k htext ho), ← Option.toList_map, ← Option.toList_map,
        atLine?_congr k htext ho]

theorem bare_eq_bare {f f' : Finding} (h : f.bare = f'.bare) :
    f = f' ∨ ∃ b b' : Block, f = .block b ∧ f' = .block b' ∧ b.name = b'.name ∧
      b.endLine = b'.endLine := by
  cases f with
  | block b =>
    cases f' with
    | block b' =>
      simp only [Finding.bare, Finding.block.injEq, Block.mk.injEq] at h
      exact .inr ⟨b, b', rfl, rfl, h.1, h.2.2.1⟩
    | _ => cases h
  | _ =>
    cases f' with
    | block b' => cases h
    | _ => exact .inl h

section
variable {d d' : Snippets}

theorem contains_keepFirst_congr (hd : ∀ name, d.contains name = true ↔ d'.contains name = true)
    {f f' : Finding} (hf : f.bare = f'.bare) (name : Text) :
    (f.block?.toList.foldl keepFirst d).contains name = true ↔
      (f'.block?.toList.foldl keepFirst d').contains name = true := by
  rw [contains_foldl_keepFirst, contains_foldl_keepFirst, hd name]
  rcases bare_eq_bare hf with rfl | ⟨b, b', rfl, rfl, hname, _⟩
  · exact Iff.rfl
  · simp [Finding.block?, hname]

theorem error?_congr (path : Path) (hd : ∀ name, d.contains name = true ↔ d'.contains name = true)
    {f f' : Finding} (hf : f.bare = f'.bare) :
    (Outcome.ofFinding d f).error? path = (Outcome.ofFinding d' f').error? path := by
  have hblock : ∀ b b' : Block, b.name = b'.name → b.endLine = b'.endLine →
      (Outcome.ofFinding d (.block b)).error? path = (Outcome.ofFinding d' (.block b')).error? path := by
    intro b b' hname hline
    have hd' := hd b'.name
    by_cases htaken : d'.contains b'.name = true
    · simp [Outcome.ofFinding, hname, hd', htaken, Outcome.error?, hline]
    · simp [Outcome.ofFinding, hname, hd', htaken, Outcome.error?]
  rcases bare_eq_bare hf with rfl | ⟨b, b', rfl, rfl, hname, hline⟩
  · cases f with
    | block b => exact hblock b b rfl rfl
    | _ => rfl
  · exact hblock b b' hname hline

/-- Errors do not depend on bodies, nor on the code that is stored. -/
theorem errorsOf_congr (path : Path) {found found' : List Finding}
    (hd : ∀ name, d.contains name = true ↔ d'.contains name = true)
    (h : found.map Finding.bare = found'.map Finding.bare) :
    errorsOf path d found = errorsOf path d' found' := by
  induction found generalizing d d' found' with
  | nil =>
    obtain rfl : found' = [] := by simpa using h.symm
    rfl
  | cons f found ih =>
    cases found' with
    | nil => cases h
    | cons f' found' =>
      obtain ⟨hf, hrest⟩ := List.cons.inj h
      rw [errorsOf_cons, errorsOf_cons, error?_congr path hd hf,
        ih (contains_keepFirst_congr hd hf) hrest]

end

/-! ## The account of a file -/

/-- The outcomes of a run: each is as the positions of the markers say, every start marker and every
end marker has one, and the new errors and the new snippets are read off them. -/
structure Accounts (x : Extractor) (path : Path) (text : Text) (outcomes : List Outcome) : Prop where
  holds : ∀ o ∈ outcomes, o.finding.Holds text.lines
  starts_once : (outcomes.filterMap Outcome.start?).Nodup
  starts : ∀ k name, (k, name) ∈ outcomes.filterMap Outcome.start? ↔ StartsAt text.lines k name
  stops_once : (outcomes.filterMap Outcome.stop?).Nodup
  stops : ∀ k name, (k, name) ∈ outcomes.filterMap Outcome.stop? ↔ StopsAt text.lines k name
  errors : (x.addText path text).errors = x.errors ++ outcomes.filterMap (Outcome.error? path)
  snippets : (x.addText path text).snippets =
    (outcomes.filterMap Outcome.stored?).foldl keep x.snippets
  stored_new : NewNames x.snippets ((outcomes.filterMap Outcome.stored?).map Block.name)
  duplicate_taken : ∀ b, .duplicate b ∈ outcomes →
    (x.addText path text).snippets.contains b.name = true

theorem accounts_settleAll (x : Extractor) (path : Path) (text : Text) :
    Accounts x path text (settleAll x.snippets (findings text.lines)) := by
  have hstarts : (settleAll x.snippets (findings text.lines)).filterMap Outcome.start? =
      (findings text.lines).filterMap Finding.start? := filterMap_settleAll ..
  have hstops : (settleAll x.snippets (findings text.lines)).filterMap Outcome.stop? =
      markersFrom Marker.stopName? 1 text.lines :=
    (filterMap_settleAll ..).trans (stops_findingsFrom 1 none text.lines)
  have hperm := perm_starts_findingsFrom 1 none text.lines
  constructor
  case holds => exact fun o ho => mem_findings_iff.1 (finding_mem_of_mem_settleAll ho)
  case starts_once =>
    rw [hstarts]
    exact hperm.symm.nodup (nodup_markersFrom _ 1 text.lines)
  case starts =>
    intro k name
    rw [hstarts, findings, hperm.mem_iff]
    exact mem_startMarkers
  case stops_once =>
    rw [hstops]
    exact nodup_markersFrom _ 1 text.lines
  case stops =>
    intro k name
    rw [hstops, mem_stopMarkers]
  case errors => exact errors_foldl_record path x _
  case snippets =>
    rw [filterMap_stored?_settleAll, ← foldl_keepFirst_eq_foldl_keep]
    exact snippets_foldl_record path x _
  case stored_new =>
    rw [filterMap_stored?_settleAll]
    refine ⟨nodup_newBlocks_names _ _, ?_⟩
    intro name hname
    obtain ⟨b, hb, rfl⟩ := List.mem_map.1 hname
    exact not_contains_of_mem_newBlocks hb
  case duplicate_taken =>
    intro b hb
    have hfound : Finding.block b ∈ findings text.lines := finding_mem_of_mem_settleAll hb
    rw [Extractor.addText, snippets_foldl_record, contains_foldl_keepFirst]
    exact .inl (List.mem_map_of_mem (List.mem_filterMap.2 ⟨_, hfound, rfl⟩))

theorem errors_addText (x : Extractor) (path : Path) (text : Text) :
    (x.addText path text).errors = x.errors ++ errorsOf path x.snippets (findings text.lines) :=
  errors_foldl_record path x _

/-- Taking in a file accounts for every marker once. No error is added exactly when the markers are
pairs whose names are new, and other lines have no influence on the errors. -/
theorem addText_accounts_for_markers (x : Extractor) (path : Path) (text : Text) :
    (∃ outcomes, Accounts x path text outcomes) ∧
    ((x.addText path text).errors = x.errors ↔
      ∃ names, NewNames x.snippets names ∧
        text.lines.filterMap Marker.ofLine? = names.flatMap markerPair) ∧
    ∀ other : Text, other.lines.map Marker.ofLine? = text.lines.map Marker.ofLine? →
      (x.addText path other).errors = (x.addText path text).errors := by
  refine ⟨⟨_, accounts_settleAll x path text⟩, ?_, ?_⟩
  · rw [errors_addText, List.append_right_eq_self]
    exact errorsOf_findingsFrom_eq_nil_iff path text.lines x.snippets 1 none
  · intro other hother
    rw [errors_addText, errors_addText]
    congr 1
    exact errorsOf_congr path (fun _ => Iff.rfl) (map_bare_findingsFrom_congr hother 1 rfl)

end DocTools.Snippet
