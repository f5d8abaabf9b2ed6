import DocTools.Proofs.Snippet.Marker
import DocTools.Snippet.Extractor

/-! # The blocks of a file

A file is read a second time here, by the positions of its markers and without any state: what is
open at a line is the first start marker after the end marker before it. The main statements say that
the findings of the machine are exactly the ones that hold by position (`mem_findings_iff`), in the
order of the lines at which they are found, and that the store grows by the completed blocks alone. -/
namespace DocTools.Snippet
set_option autoImplicit false

/-! ## Reading by position -/

/-- The line with a number; the first line has number 1. -/
def lineAt? (lines : List Text) : Nat → Option Text
  | 0 => none
  | k + 1 => lines[k]?

def StartsAt (lines : List Text) (k : Nat) (name : Text) : Prop :=
  ∃ line, lineAt? lines k = some line ∧ Spelled startTag name line

def StopsAt (lines : List Text) (k : Nat) (name : Text) : Prop :=
  ∃ line, lineAt? lines k = some line ∧ Spelled stopTag name line

/-- `p` is the last end marker above line `k`, or 0 when there is none. -/
structure LastStop (lines : List Text) (p k : Nat) : Prop where
  above : p < k
  stops : p = 0 ∨ ∃ name, StopsAt lines p name
  last : ∀ j, p < j → j < k → ∀ name, ¬ StopsAt lines j name

/-- No start marker stands between the last end marker above line `k` and that line. -/
def Idle (lines : List Text) (k : Nat) : Prop :=
  ∃ p, LastStop lines p k ∧ ∀ j, p < j → j < k → ∀ name, ¬ StartsAt lines j name

/-- Line `s` is the first start marker between the last end marker above line `k` and that line. -/
def OpenAt (lines : List Text) (s k : Nat) (name : Text) : Prop :=
  ∃ p, LastStop lines p k ∧ p < s ∧ s < k ∧ StartsAt lines s name ∧
    ∀ j, p < j → j < s → ∀ other, ¬ StartsAt lines j other

/-- The lines strictly between two lines that are no markers. -/
def between (lines : List Text) (s e : Nat) : List Text :=
  ((lines.take (e - 1)).drop s).filter fun line => ¬ IsMarkerLine line

/-- An end marker and the snippet that is open there make up a block, as they have one name. -/
structure Completed (lines : List Text) (b : Block) : Prop where
  stops : StopsAt lines b.endLine b.name
  opened : OpenAt lines b.startLine b.endLine b.name
  body : b.body = between lines b.startLine b.endLine

/-! ## Lines and their markers -/

theorem lineAt?_append (done rest : List Text) (text : Text) :
    lineAt? (done ++ text :: rest) (done.length + 1) = some text := by
  simp [lineAt?]

theorem le_length_of_lineAt? {lines : List Text} {k : Nat} {line : Text}
    (h : lineAt? lines k = some line) : k ≤ lines.length := by
  cases k with
  | zero => exact Nat.zero_le _
  | succ k =>
    obtain ⟨hk, _⟩ := List.getElem?_eq_some_iff.1 h
    exact hk

section
variable {lines : List Text} {k : Nat} {text : Text}

theorem startsAt_iff (h : lineAt? lines k = some text) {name : Text} :
    StartsAt lines k name ↔ Marker.ofLine? text = some (.start name) := by
  rw [Marker.ofLine?_eq_start_iff]
  constructor
  · rintro ⟨line, hline, hs⟩
    rw [h] at hline
    cases hline
    exact hs
  · intro hs
    exact ⟨text, h, hs⟩

theorem stopsAt_iff (h : lineAt? lines k = some text) {name : Text} :
    StopsAt lines k name ↔ Marker.ofLine? text = some (.stop name) := by
  rw [Marker.ofLine?_eq_stop_iff]
  constructor
  · rintro ⟨line, hline, hs⟩
    rw [h] at hline
    cases hline
    exact hs
  · intro hs
    exact ⟨text, h, hs⟩

end

theorem StopsAt.le_length {lines : List Text} {k : Nat} {name : Text} (h : StopsAt lines k name) :
    k ≤ lines.length := by
  obtain ⟨line, hline, _⟩ := h
  exact le_length_of_lineAt? hline

theorem StartsAt.le_length {lines : List Text} {k : Nat} {name : Text} (h : StartsAt lines k name) :
    k ≤ lines.length := by
  obtain ⟨line, hline, _⟩ := h
  exact le_length_of_lineAt? hline

/-! ## What is open is settled by the position -/

section
variable {lines : List Text} {p q s t k : Nat} {name other : Text}

theorem LastStop.unique (hp : LastStop lines p k) (hq : LastStop lines q k) : p = q := by
  have below : ∀ {a b : Nat}, LastStop lines a k → LastStop lines b k → ¬ a < b := by
    intro a b ha hb hab
    rcases hb.stops with h0 | ⟨name, hname⟩
    · omega
    · exact ha.last b hab hb.above name hname
  rcases Nat.lt_trichotomy p q with h | h | h
  · exact absurd h (below hp hq)
  · exact h
  · exact absurd h (below hq hp)

theorem StartsAt.name_unique (h : StartsAt lines k name) (h' : StartsAt lines k other) : name = other := by
  obtain ⟨line, hline, hs⟩ := h
  have h1 := Marker.ofLine?_eq_start_iff.2 hs
  rw [(startsAt_iff hline).1 h'] at h1
  cases h1
  rfl

theorem StopsAt.name_unique (h : StopsAt lines k name) (h' : StopsAt lines k other) : name = other := by
  obtain ⟨line, hline, hs⟩ := h
  have h1 := Marker.ofLine?_eq_stop_iff.2 hs
  rw [(stopsAt_iff hline).1 h'] at h1
  cases h1
  rfl

theorem StartsAt.not_stopsAt (h : StartsAt lines k name) : ¬ StopsAt lines k other := by
  obtain ⟨line, hline, hs⟩ := h
  intro h'
  have h1 := Marker.ofLine?_eq_start_iff.2 hs
  rw [(stopsAt_iff hline).1 h'] at h1
  cases h1

theorem OpenAt.unique (h : OpenAt lines s k name) (h' : OpenAt lines t k other) :
    s = t ∧ name = other := by
  obtain ⟨p, hp, hps, hsk, hs, hfirst⟩ := h
  obtain ⟨q, hq, hqt, htk, ht, hfirst'⟩ := h'
  obtain rfl := hp.unique hq
  have hst : s = t := by
    rcases Nat.lt_trichotomy s t with hlt | heq | hgt
    · exact absurd hs (hfirst' s hps hlt name)
    · exact heq
    · exact absurd ht (hfirst t hqt hgt other)
  subst hst
  exact ⟨rfl, hs.name_unique ht⟩

theorem Idle.not_openAt (h : Idle lines k) : ¬ OpenAt lines s k name := by
  obtain ⟨p, hp, hnone⟩ := h
  rintro ⟨q, hq, hqs, hsk, hs, _⟩
  obtain rfl := hp.unique hq
  exact hnone s hqs hsk name hs

end

/-! ## What is open at the next line -/

section
variable {lines : List Text} {s k p : Nat} {name : Text}

theorem LastStop.succ (hp : LastStop lines p k) (hk : ∀ name, ¬ StopsAt lines k name) :
    LastStop lines p (k + 1) where
  above := Nat.lt_succ_of_lt hp.above
  stops := hp.stops
  last := by
    intro j hpj hjk other
    by_cases hj : j = k
    · subst hj; exact hk other
    · exact hp.last j hpj (by omega) other

theorem StopsAt.lastStop (h : StopsAt lines k name) : LastStop lines k (k + 1) where
  above := Nat.lt_succ_self k
  stops := .inr ⟨name, h⟩
  last := by intro j hkj hjk; omega

theorem StopsAt.idle (h : StopsAt lines k name) : Idle lines (k + 1) :=
  ⟨k, h.lastStop, by intro j hkj hjk; omega⟩

theorem Idle.succ (h : Idle lines k) (hstop : ∀ name, ¬ StopsAt lines k name)
    (hstart : ∀ name, ¬ StartsAt lines k name) : Idle lines (k + 1) := by
  obtain ⟨p, hp, hnone⟩ := h
  refine ⟨p, hp.succ hstop, ?_⟩
  intro j hpj hjk other
  by_cases hj : j = k
  · subst hj; exact hstart other
  · exact hnone j hpj (by omega) other

theorem Idle.openAt (h : Idle lines k) (hstart : StartsAt lines k name) :
    OpenAt lines k (k + 1) name := by
  obtain ⟨p, hp, hnone⟩ := h
  exact ⟨p, hp.succ fun _ => hstart.not_stopsAt, hp.above, Nat.lt_succ_self k, hstart, hnone⟩

theorem OpenAt.succ (h : OpenAt lines s k name) (hstop : ∀ name, ¬ StopsAt lines k name) :
    OpenAt lines s (k + 1) name := by
  obtain ⟨p, hp, hps, hsk, hs, hfirst⟩ := h
  exact ⟨p, hp.succ hstop, hps, Nat.lt_succ_of_lt hsk, hs, hfirst⟩

theorem OpenAt.lt (h : OpenAt lines s k name) : s < k := by
  obtain ⟨_, _, _, hsk, _⟩ := h
  exact hsk

end

theorem between_succ {done rest : List Text} {text : Text} {s : Nat} (hs : s ≤ done.length) :
    between (done ++ text :: rest) s (done.length + 1 + 1) =
      between (done ++ text :: rest) s (done.length + 1) ++ [text].filter fun t => ¬ IsMarkerLine t := by
  have htake : (done ++ text :: rest).take (done.length + 1) = done ++ [text] := by
    rw [List.take_append, List.take_of_length_le (Nat.le_succ _)]
    simp
  have hdone : (done ++ text :: rest).take done.length = done := List.take_left
  unfold between
  rw [Nat.add_sub_cancel, Nat.add_sub_cancel, htake, hdone, List.drop_append_of_le_length hs,
    List.filter_append]

theorem between_self (lines : List Text) (s : Nat) : between lines s (s + 1) = [] := by
  simp [between]

/-! ## One line of the machine -/

/-- What is open after a line. -/
def OpenBlock.next? (line : Nat) (opened : Option OpenBlock) (text : Text) : Option OpenBlock :=
  match Marker.ofLine? text, opened with
  | some (.start name), none => some ⟨name, line, []⟩
  | some (.start _), some o => some o
  | some (.stop _), _ => none
  | none, none => none
  | none, some o => some { o with body := o.body ++ [text] }

def Finding.atLine? (line : Nat) (opened : Option OpenBlock) (text : Text) : Option Finding :=
  match Marker.ofLine? text, opened with
  | some (.start name), some o => some (.nestedStart line name o.name)
  | some (.stop name), _ => some (close line name opened)
  | _, _ => none

def Finding.atEnd? : Option OpenBlock → Option Finding
  | none => none
  | some o => some (.unclosed o.startLine o.name)

theorem findingsFrom_nil (line : Nat) (opened : Option OpenBlock) :
    findingsFrom line opened [] = (Finding.atEnd? opened).toList := by
  cases opened with
  | none => rfl
  | some o => rfl

theorem findingsFrom_cons (line : Nat) (opened : Option OpenBlock) (text : Text) (rest : List Text) :
    findingsFrom line opened (text :: rest) =
      (Finding.atLine? line opened text).toList ++
        findingsFrom (line + 1) (OpenBlock.next? line opened text) rest := by
  cases hm : Marker.ofLine? text with
  | none =>
    cases opened with
    | none => simp [findingsFrom, Finding.atLine?, OpenBlock.next?, hm]
    | some o => simp [findingsFrom, Finding.atLine?, OpenBlock.next?, hm]
  | some marker =>
    cases marker with
    | start name =>
      cases opened with
      | none => simp [findingsFrom, Finding.atLine?, OpenBlock.next?, hm]
      | some o => simp [findingsFrom, Finding.atLine?, OpenBlock.next?, hm]
    | stop name => simp [findingsFrom, Finding.atLine?, OpenBlock.next?, hm]

/-! ## The machine against the positions -/

/-- The machine in front of line `k` has open what is open there by position. -/
def Reads (lines : List Text) (k : Nat) : Option OpenBlock → Prop
  | none => Idle lines k
  | some o => OpenAt lines o.startLine k o.name ∧ o.body = between lines o.startLine k

def Finding.Holds (lines : List Text) : Finding → Prop
  | .block b => Completed lines b
  | .nestedStart line name opened => StartsAt lines line name ∧ ∃ s, OpenAt lines s line opened
  | .unmatchedEnd line name => StopsAt lines line name ∧ Idle lines line
  | .mismatchedEnd line name opened startLine =>
    StopsAt lines line name ∧ OpenAt lines startLine line opened ∧ name ≠ opened
  | .unclosed line name => OpenAt lines line (lines.length + 1) name

/-- The line at which a finding is made; the end of the file counts as one more line. -/
def Finding.foundAt (lines : List Text) : Finding → Nat
  | .block b => b.endLine
  | .nestedStart line _ _ => line
  | .unmatchedEnd line _ => line
  | .mismatchedEnd line _ _ _ => line
  | .unclosed _ _ => lines.length + 1

theorem Reads.start (lines : List Text) : Reads lines 1 none := by
  refine ⟨0, ⟨Nat.zero_lt_one, .inl rfl, ?_⟩, ?_⟩
  · intro j h0 h1; omega
  · intro j h0 h1; omega

theorem Reads.next {done rest : List Text} {text : Text} {opened : Option OpenBlock}
    (h : Reads (done ++ text :: rest) (done.length + 1) opened) :
    Reads (done ++ text :: rest) (done.length + 1 + 1)
      (OpenBlock.next? (done.length + 1) opened text) := by
  have hline := lineAt?_append done rest text
  unfold OpenBlock.next?
  cases hm : Marker.ofLine? text with
  | none =>
    have hstart : ∀ name, ¬ StartsAt (done ++ text :: rest) (done.length + 1) name := by
      intro name hs
      rw [startsAt_iff hline, hm] at hs
      cases hs
    have hstop : ∀ name, ¬ StopsAt (done ++ text :: rest) (done.length + 1) name := by
      intro name hs
      rw [stopsAt_iff hline, hm] at hs
      cases hs
    cases opened with
    | none => exact Idle.succ h hstop hstart
    | some o =>
      refine ⟨h.1.succ hstop, ?_⟩
      have hplain : ¬ IsMarkerLine text := by rw [isMarkerLine_iff, hm]; decide
      have hs : o.startLine ≤ done.length := Nat.le_of_lt_succ h.1.lt
      show o.body ++ [text] = between _ o.startLine _
      rw [between_succ hs, ← h.2]
      simp [hplain]
  | some marker =>
    cases marker with
    | start name =>
      have hstart := (startsAt_iff hline).2 hm
      cases opened with
      | none => exact ⟨Idle.openAt h hstart, (between_self _ _).symm⟩
      | some o =>
        -- a start marker inside an open snippet leaves it as it is
        refine ⟨h.1.succ fun _ => hstart.not_stopsAt, ?_⟩
        have hmarker : IsMarkerLine text := by rw [isMarkerLine_iff, hm]; rfl
        have hs : o.startLine ≤ done.length := Nat.le_of_lt_succ h.1.lt
        rw [between_succ hs, ← h.2]
        simp [hmarker]
    | stop name => exact ((stopsAt_iff hline).2 hm).idle

section
variable {lines : List Text} {k : Nat} {text : Text} {opened : Option OpenBlock} {f : Finding}

theorem Finding.close_holds {name : Text} (hstop : StopsAt lines k name) (h : Reads lines k opened) :
    (close k name opened).Holds lines ∧ (close k name opened).foundAt lines = k := by
  cases opened with
  | none => exact ⟨⟨hstop, h⟩, rfl⟩
  | some o =>
    by_cases hname : name = o.name
    · subst hname
      rw [close, if_pos rfl]
      exact ⟨⟨hstop, h.1, h.2⟩, rfl⟩
    · rw [close, if_neg hname]
      exact ⟨⟨hstop, h.1, hname⟩, rfl⟩

theorem Finding.holds_of_atLine? (hline : lineAt? lines k = some text) (h : Reads lines k opened)
    (hf : Finding.atLine? k opened text = some f) : f.Holds lines ∧ f.foundAt lines = k := by
  unfold Finding.atLine? at hf
  cases hm : Marker.ofLine? text with
  | none => rw [hm] at hf; cases hf
  | some marker =>
    rw [hm] at hf
    cases marker with
    | start name =>
      cases opened with
      | none => cases hf
      | some o =>
        cases hf
        exact ⟨⟨(startsAt_iff hline).2 hm, o.startLine, h.1⟩, rfl⟩
    | stop name =>
      cases hf
      exact Finding.close_holds ((stopsAt_iff hline).2 hm) h

/-- What holds at a line by position is found there, as the machine has the right snippet open. -/
theorem Finding.atLine?_of_holds (hline : lineAt? lines k = some text) (h : Reads lines k opened)
    (hf : f.Holds lines) (hat : f.foundAt lines = k) : Finding.atLine? k opened text = some f := by
  subst hat
  have hstarts := fun name => @startsAt_iff _ _ _ hline name
  have hstops := fun name => @stopsAt_iff _ _ _ hline name
  unfold Finding.atLine?
  cases f with
  | block b =>
    rw [(hstops b.name).1 hf.stops]
    cases opened with
    | none => exact absurd hf.opened h.not_openAt
    | some o =>
      -- what is open by position is unique, so the machine has this very block open
      obtain ⟨hs, hname⟩ := h.1.unique hf.opened
      obtain ⟨oname, ostart, obody⟩ := o
      obtain ⟨bname, bstart, bend, bbody⟩ := b
      obtain rfl : ostart = bstart := hs
      obtain rfl : oname = bname := hname
      obtain rfl : obody = bbody := h.2.trans hf.body.symm
      simp [close, Finding.foundAt]
  | nestedStart line name other =>
    obtain ⟨hstart, s, hopen⟩ := hf
    rw [(hstarts name).1 hstart]
    cases opened with
    | none => exact absurd hopen h.not_openAt
    | some o =>
      obtain ⟨_, hname⟩ := h.1.unique hopen
      simp [Finding.foundAt, hname]
  | unmatchedEnd line name =>
    rw [(hstops name).1 hf.1]
    cases opened with
    | none => rfl
    | some o => exact absurd h.1 hf.2.not_openAt
  | mismatchedEnd line name other startLine =>
    obtain ⟨hstop, hopen, hne⟩ := hf
    rw [(hstops name).1 hstop]
    cases opened with
    | none => exact absurd hopen h.not_openAt
    | some o =>
      obtain ⟨hs, hname⟩ := h.1.unique hopen
      simp [close, Finding.foundAt, hname, hne, hs]
  | unclosed line name => exact absurd (le_length_of_lineAt? hline) (Nat.not_succ_le_self _)

end

theorem Finding.atEnd?_eq_some_iff {lines : List Text} {opened : Option OpenBlock}
    (h : Reads lines (lines.length + 1) opened) {f : Finding} :
    Finding.atEnd? opened = some f ↔ f.Holds lines ∧ lines.length + 1 ≤ f.foundAt lines := by
  constructor
  · intro hf
    cases opened with
    | none => cases hf
    | some o =>
      cases hf
      exact ⟨h.1, Nat.le_refl _⟩
  · rintro ⟨hf, hat⟩
    cases f with
    | block b => exact absurd (Nat.le_trans hat hf.stops.le_length) (Nat.not_succ_le_self _)
    | nestedStart line name other =>
      exact absurd (Nat.le_trans hat hf.1.le_length) (Nat.not_succ_le_self _)
    | unmatchedEnd line name =>
      exact absurd (Nat.le_trans hat hf.1.le_length) (Nat.not_succ_le_self _)
    | mismatchedEnd line name other startLine =>
      exact absurd (Nat.le_trans hat hf.1.le_length) (Nat.not_succ_le_self _)
    | unclosed line name =>
      cases opened with
      | none => exact absurd hf h.not_openAt
      | some o =>
        obtain ⟨hs, hname⟩ := h.1.unique hf
        simp [Finding.atEnd?, hs, hname]

/-! ## Whole files -/

/-- From line `done.length + 1` on, the machine makes the findings that hold there and below. -/
theorem mem_findingsFrom_iff {done rest : List Text} {opened : Option OpenBlock}
    (h : Reads (done ++ rest) (done.length + 1) opened) {f : Finding} :
    f ∈ findingsFrom (done.length + 1) opened rest ↔
      f.Holds (done ++ rest) ∧ done.length + 1 ≤ f.foundAt (done ++ rest) := by
  -- on the lines to come; `Reads` ties what is open to the lines that are done
  induction rest generalizing done opened with
  | nil =>
    rw [List.append_nil] at h ⊢
    rw [findingsFrom_nil, Option.mem_toList, Finding.atEnd?_eq_some_iff h]
  | cons text rest ih =>
    have hnext := h.next
    have hsplit : done ++ text :: rest = (done ++ [text]) ++ rest := by simp
    have hlen : (done ++ [text]).length = done.length + 1 := by simp
    have hrest := @ih (done ++ [text]) (OpenBlock.next? (done.length + 1) opened text)
    rw [← hsplit, hlen] at hrest
    have hline := lineAt?_append done rest text
    rw [findingsFrom_cons, List.mem_append, Option.mem_toList, hrest hnext]
    constructor
    · rintro (hhere | ⟨hf, hat⟩)
      · obtain ⟨hf, hat⟩ := Finding.holds_of_atLine? hline h hhere
        exact ⟨hf, Nat.le_of_eq hat.symm⟩
      · exact ⟨hf, Nat.le_of_succ_le hat⟩
    · rintro ⟨hf, hat⟩
      rcases Nat.eq_or_lt_of_le hat with heq | hlt
      · exact .inl (Finding.atLine?_of_holds hline h hf heq.symm)
      · exact .inr ⟨hf, hlt⟩

theorem mem_findings_iff {lines : List Text} {f : Finding} : f ∈ findings lines ↔ f.Holds lines := by
  have h := @mem_findingsFrom_iff [] lines none (Reads.start lines) f
  rw [List.nil_append] at h
  rw [findings, ← Nat.zero_add 1]
  refine h.trans ⟨And.left, fun hf => ⟨hf, ?_⟩⟩
  cases f with
  | block b => exact Nat.succ_le_of_lt (Nat.zero_lt_of_lt hf.opened.lt)
  | nestedStart line name other =>
    obtain ⟨_, s, hopen⟩ := hf
    exact Nat.succ_le_of_lt (Nat.zero_lt_of_lt hopen.lt)
  | unmatchedEnd line name =>
    obtain ⟨_, p, hp, _⟩ := hf
    exact Nat.succ_le_of_lt (Nat.zero_lt_of_lt hp.above)
  | mismatchedEnd line name other startLine =>
    exact Nat.succ_le_of_lt (Nat.zero_lt_of_lt hf.2.1.lt)
  | unclosed line name => exact Nat.succ_le_succ (Nat.zero_le _)

theorem pairwise_findingsFrom {done rest : List Text} {opened : Option OpenBlock}
    (h : Reads (done ++ rest) (done.length + 1) opened) :
    (findingsFrom (done.length + 1) opened rest).Pairwise
      fun f g => f.foundAt (done ++ rest) < g.foundAt (done ++ rest) := by
  induction rest generalizing done opened with
  | nil =>
    rw [findingsFrom_nil]
    cases Finding.atEnd? opened with
    | none => exact .nil
    | some f => exact List.pairwise_singleton _ f
  | cons text rest ih =>
    have hnext := h.next
    have hsplit : done ++ text :: rest = (done ++ [text]) ++ rest := by simp
    have hlen : (done ++ [text]).length = done.length + 1 := by simp
    have hrest := @ih (done ++ [text]) (OpenBlock.next? (done.length + 1) opened text)
    have hmem := @mem_findingsFrom_iff (done ++ [text]) rest
      (OpenBlock.next? (done.length + 1) opened text)
    rw [← hsplit, hlen] at hrest hmem
    rw [findingsFrom_cons]
    refine List.pairwise_append.2 ⟨?_, hrest hnext, ?_⟩
    · cases Finding.atLine? (done.length + 1) opened text with
      | none => exact .nil
      | some f => exact List.pairwise_singleton _ f
    · intro f hf g hg
      have hat := (Finding.holds_of_atLine? (lineAt?_append done rest text) h
        (Option.mem_toList.1 hf)).2
      have hbelow := ((hmem hnext).1 hg).2
      omega

theorem pairwise_findings (lines : List Text) :
    (findings lines).Pairwise fun f g => f.foundAt lines < g.foundAt lines :=
  @pairwise_findingsFrom [] lines none (Reads.start lines)

/-! ## The store -/

def Finding.block? : Finding → Option Block
  | .block b => some b
  | _ => none

theorem Finding.block?_eq_some_iff {f : Finding} {b : Block} : f.block? = some b ↔ f = .block b := by
  cases f <;> simp [Finding.block?]

def keepFirst (snippets : Snippets) (b : Block) : Snippets :=
  if snippets.contains b.name then snippets else snippets.insert b.name (dedent b.body)

theorem snippets_record (path : Path) (x : Extractor) (f : Finding) :
    (x.record path f).snippets = f.block?.toList.foldl keepFirst x.snippets := by
  cases f with
  | block b =>
    by_cases hb : x.snippets.contains b.name
    · simp [Extractor.record, Extractor.store, Extractor.report, Finding.block?, keepFirst, hb]
    · simp [Extractor.record, Extractor.store, Finding.block?, keepFirst, hb]
  | nestedStart line name opened => rfl
  | unmatchedEnd line name => rfl
  | mismatchedEnd line name opened startLine => rfl
  | unclosed line name => rfl

theorem snippets_foldl_record (path : Path) (x : Extractor) (found : List Finding) :
    (found.foldl (Extractor.record path) x).snippets =
      (found.filterMap Finding.block?).foldl keepFirst x.snippets := by
  induction found generalizing x with
  | nil => rfl
  | cons f found ih =>
    rw [List.foldl_cons, ih, snippets_record]
    cases hf : f.block? with
    | none => simp [hf]
    | some b => simp [hf]

/-- Taking in a file extends the store by the completed blocks, in the order of their end markers
and as far as their names are free, and changes nothing else. There is one such list of blocks, as
the lines of the end markers tell them apart. -/
theorem addText_snippets_eq_foldl_completed (x : Extractor) (path : Path) (text : Text) :
    ∃ blocks : List Block,
      (∀ b, b ∈ blocks ↔ Completed text.lines b) ∧
      blocks.Pairwise (fun a b => a.endLine < b.endLine) ∧
      (x.addText path text).snippets = blocks.foldl keepFirst x.snippets := by
  refine ⟨(findings text.lines).filterMap Finding.block?, ?_, ?_, ?_⟩
  · intro b
    rw [List.mem_filterMap]
    constructor
    · rintro ⟨f, hf, hb⟩
      rw [Finding.block?_eq_some_iff] at hb
      subst hb
      exact mem_findings_iff.1 hf
    · intro hb
      exact ⟨.block b, mem_findings_iff.2 hb, rfl⟩
  · rw [List.pairwise_filterMap]
    refine (pairwise_findings text.lines).imp ?_
    intro f g hfg a ha b hb
    rw [Finding.block?_eq_some_iff] at ha hb
    subst ha hb
    exact hfg
  · exact snippets_foldl_record path x _

end DocTools.Snippet
