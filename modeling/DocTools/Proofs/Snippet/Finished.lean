import DocTools.Proofs.Snippet.Fences

/-! # Pages that are injected into again

A page has its blocks where the template had placeholders, and those placeholders that name no snippet
still stand in it. The main statements: `not_isPlaceholder_of_mem_fencedBlock`, by which a block brings
no placeholder into the page that its code does not have, and `injectText_finished`, by which injecting
into a page changes nothing and misses the same names once more. -/
namespace DocTools.Snippet
set_option autoImplicit false

/-! ## Lines under an indentation -/

section
variable {indent line : Text} {f : Fields}

/-- A newline behind a line is a blank behind its placeholder. -/
theorem CutInto.of_append_newline (h : CutInto (line ++ ['\n']) f) : CutInto line f := by
  obtain ⟨opening, closing, behind, hopening, hclosing, hbehind, heq⟩ := h.line_eq
  rcases List.eq_nil_or_concat behind with rfl | ⟨front, c, rfl⟩
  · -- a line that ends with the comment does not end with a newline
    have hlast := congrArg List.getLast? heq
    rw [List.append_nil, List.getLast?_concat, List.getLast?_append] at hlast
    cases hlast
  · rw [List.concat_eq_append, ← List.append_assoc] at heq
    rw [List.concat_eq_append, Text.allBlank, List.all_append, Bool.and_eq_true] at hbehind
    exact ⟨h.indent_all, h.name, h.language, h.attributes, opening, closing, front, hopening, hclosing,
      hbehind.1, (List.append_inj' heq rfl).1⟩

/-- An indentation in front of a line is a part of that of its placeholder. -/
theorem CutInto.of_indent_append (hindent : indent.all isIndent = true) (h : CutInto (indent ++ line) f) :
    CutInto line { f with indent := line.takeWhile isIndent } := by
  obtain ⟨opening, closing, behind, hopening, hclosing, hbehind, heq⟩ := h.line_eq
  refine ⟨List.all_takeWhile, h.name, h.language, h.attributes, opening, closing, behind, hopening,
    hclosing, hbehind, ?_⟩
  have hdrop := congrArg (List.dropWhile isIndent) heq
  simp only [List.append_assoc] at hdrop
  rw [List.dropWhile_append_of_pos (List.all_eq_true.mp hindent),
    Placeholder.dropWhile_isIndent_append h.indent_all] at hdrop
  calc line = line.takeWhile isIndent ++ line.dropWhile isIndent :=
        List.takeWhile_append_dropWhile.symm
    _ = _ := by
        rw [hdrop]
        simp only [List.append_assoc]
        rfl

theorem not_isPlaceholder_codeLine (hindent : indent.all isIndent = true) (h : ¬IsPlaceholder line) :
    ¬IsPlaceholder (codeLine indent line) := by
  rw [codeLine]
  split
  · decide
  · rintro ⟨f, hf⟩
    exact h ⟨_, hf.of_append_newline.of_indent_append hindent⟩

/-- A line that begins with a fence is read up to the fence. -/
theorem not_isPlaceholder_fence (hindent : indent.all isIndent = true) (rest : Text) :
    ¬IsPlaceholder (indent ++ fence ++ rest) := by
  rintro ⟨f, hf⟩
  have hread := hf.ofLine?_eq
  have hdrop : (indent ++ fence ++ rest).dropWhile isIndent = fence ++ rest := by
    rw [List.append_assoc, List.dropWhile_append_of_pos (List.all_eq_true.mp hindent)]
    rfl
  have hnone : Text.after? commentOpen (fence ++ rest) = none := rfl
  rw [Placeholder.ofLine?, hdrop, hnone] at hread
  cases hread

end

/-! ## Blocks -/

theorem not_isPlaceholder_of_mem_fencedBlock {indent info code : Text}
    (hindent : indent.all isIndent = true) (hinfo : '\n' ∉ info)
    (hcode : ∀ line ∈ Text.splitOn '\n' code, ¬IsPlaceholder line) :
    ∀ line ∈ (fencedBlock indent info code).lineRuns, ¬IsPlaceholder line := by
  rw [lineRuns_fencedBlock (newline_not_mem_of_isIndent hindent) hinfo, List.forall_mem_append,
    List.forall_mem_cons, List.forall_mem_map, List.forall_mem_singleton]
  refine ⟨⟨?_, fun line hline => not_isPlaceholder_codeLine hindent (hcode line hline)⟩, ?_⟩
  · rw [List.append_assoc]
    exact not_isPlaceholder_fence hindent _
  · exact not_isPlaceholder_fence hindent _

/-- A text without placeholders is its own page. -/
theorem inject_of_not_isPlaceholder (snippets : Snippets) {text : Text}
    (h : ∀ line ∈ text.lineRuns, ¬IsPlaceholder line) : inject snippets text = ⟨text, 0, []⟩ := by
  have hkept : ∀ line ∈ text.lineRuns, settle snippets line = .kept := fun line hline =>
    Decidable.not_not.mp (mt (isPlaceholder_iff snippets).mpr (h line hline))
  have houtput : text.lineRuns.flatMap (fun line => (settle snippets line).shown line) = text := by
    calc text.lineRuns.flatMap (fun line => (settle snippets line).shown line)
        = text.lineRuns.flatMap id :=
          List.flatMap_congr fun line hline => by rw [hkept line hline]; rfl
      _ = text := by rw [List.flatMap_id, Text.flatten_lineRuns]
  have hinjected : text.lineRuns.countP (fun line => (settle snippets line).isReplaced) = 0 := by
    rw [List.countP_eq_zero]
    intro line hline
    rw [hkept line hline]
    exact Bool.false_ne_true
  have hmissing : (text.lineRuns.zipIdx 1).filterMap
      (fun e => (settle snippets e.1).missing?.map (e.2, ·)) = [] := by
    rw [List.filterMap_eq_nil_iff]
    intro e he
    rw [hkept e.1 (List.fst_mem_of_mem_zipIdx he)]
    rfl
  rw [inject, injectRuns_eq_injectionOf, injectionOf, houtput, hinjected, hmissing]

/-! ## Injecting twice -/

/-- What comes of the page of an injection when it is injected into once more. -/
structure Repeats (first again : Injection) : Prop where
  output_eq : again.output = first.output
  injected_eq : again.injected = 0
  names_eq : again.missing.map Prod.snd = first.missing.map Prod.snd

theorem Repeats.followedBy {i i' j j' : Injection} (hi : Repeats i i') (hj : Repeats j j')
    (lines lines' : Nat) : Repeats (i.followedBy lines j) (i'.followedBy lines' j') where
  output_eq := by
    rw [Injection.followedBy, Injection.followedBy, hi.output_eq, hj.output_eq]
  injected_eq := by
    rw [Injection.followedBy, hi.injected_eq, hj.injected_eq]
  names_eq := by
    rw [Injection.followedBy, Injection.followedBy, List.map_append, List.map_append, List.map_map,
      List.map_map, hi.names_eq]
    exact congrArg _ hj.names_eq

/-- No line of any code text of the snippets is a placeholder. -/
def NoPlaceholders (snippets : Snippets) : Prop :=
  ∀ e ∈ snippets.toList, ∀ line ∈ Text.splitOn '\n' e.2, ¬IsPlaceholder line

instance (snippets : Snippets) : Decidable (NoPlaceholders snippets) :=
  inferInstanceAs (Decidable (∀ e ∈ snippets.toList, _))

section
variable {snippets : Snippets} {line text : Text}

theorem inject_of_lineRuns_eq (hline : line.lineRuns = [line]) :
    inject snippets line =
      ⟨(settle snippets line).shown line, if (settle snippets line).isReplaced then 1 else 0,
        (settle snippets line).missing?.toList.map (1, ·)⟩ := by
  rw [inject, hline, injectRuns]
  cases settle snippets line <;> simp [injectRuns, Settled.shown, Settled.isReplaced, Settled.missing?]

/-- A line that stays is settled as it was before, and a block has nothing left to settle. -/
theorem repeats_line (hsnippets : NoPlaceholders snippets) (hline : line.lineRuns = [line]) :
    Repeats (inject snippets line) (inject snippets (inject snippets line).output) := by
  have hinject := @inject_of_lineRuns_eq snippets line hline
  by_cases hresolved : Resolved snippets line
  · obtain ⟨f, hf, hstored⟩ := hresolved
    obtain ⟨code, hcode⟩ := Option.isSome_iff_exists.mp hstored
    have hmem : line ∈ line.lineRuns := hline ▸ List.mem_singleton_self line
    have hpage : inject snippets line =
        ⟨fencedBlock f.indent (infoString f.language.trim f.attributes) code, 1, []⟩ := by
      rw [hinject, hf.settle_eq, Fields.settled, hcode]
      rfl
    have hagain := inject_of_not_isPlaceholder snippets
      (not_isPlaceholder_of_mem_fencedBlock hf.indent_all (hf.newline_not_mem_infoString hmem)
        (hsnippets _ (Dictionary.get?_eq_some_iff.mp hcode)))
    have houtput : (inject snippets line).output =
        fencedBlock f.indent (infoString f.language.trim f.attributes) code := by rw [hpage]
    rw [houtput, hagain, hpage]
    exact ⟨rfl, rfl, rfl⟩
  · rw [resolved_iff] at hresolved
    have hshown : (settle snippets line).shown line = line := by
      cases hs : settle snippets line with
      | kept => rfl
      | missing name => rfl
      | replaced block => exact absurd (hs ▸ rfl) hresolved
    have hinjected : (inject snippets line).injected = 0 := by
      rw [hinject]
      exact if_neg hresolved
    have houtput : (inject snippets line).output = line := by rw [hinject, hshown]
    rw [houtput]
    exact ⟨houtput.symm ▸ houtput, hinjected, rfl⟩

theorem endsLine_fencedBlock (indent info code : Text) : (fencedBlock indent info code).EndsLine := by
  rw [fencedBlock_eq_ofLines]
  exact Text.endsLine_ofLines _

theorem endsLine_shown (h : line.EndsLine) : ((settle snippets line).shown line).EndsLine := by
  rw [settle]
  split
  · exact h
  · split
    · exact h
    · exact endsLine_fencedBlock ..

theorem repeats_inject (hsnippets : NoPlaceholders snippets) (text : Text) :
    Repeats (inject snippets text) (inject snippets (inject snippets text).output) := by
  induction text using Text.linewise with
  | empty => exact ⟨rfl, rfl, rfl⟩
  | last line hne h => exact repeats_line hsnippets (Text.lineRuns_of_newline_not_mem hne h)
  | line line rest h ih =>
    have hrun : Text.lineRuns (line ++ ['\n']) = [line ++ ['\n']] := Text.lineRuns_cons_line h []
    have hends : Text.EndsLine (line ++ ['\n']) := .inr List.getLast?_concat
    have hpage : (inject snippets (line ++ ['\n'])).output.EndsLine := by
      rw [inject_of_lineRuns_eq hrun]
      exact endsLine_shown hends
    -- the page of the first line ends a line, so that the rest is read anew behind it
    rw [List.append_cons, inject_append snippets hends]
    show Repeats _ (inject snippets
      ((inject snippets (line ++ ['\n'])).output ++ (inject snippets rest).output))
    rw [inject_append snippets hpage]
    exact (repeats_line hsnippets hrun).followedBy ih _ _

end

/-- Injecting into a page with the snippets that made it leaves it as it is and replaces nothing, when no
line of their code is a placeholder. The same names are missed and reported again, in the same order. -/
theorem injectText_finished {x y : Injector} (hsame : y.snippets = x.snippets)
    (hcode : NoPlaceholders x.snippets) (path path' : Path) (text : Text) :
    Repeats (x.injectText path text).2 (y.injectText path' (x.injectText path text).2.output).2 ∧
    ∃ missed again : List (Nat × Text), again.map Prod.snd = missed.map Prod.snd ∧
      (x.injectText path text).1.errors = x.errors ++ missed.map (fun m => .missing path m.1 m.2) ∧
      (y.injectText path' (x.injectText path text).2.output).1.errors =
        y.errors ++ again.map fun m => .missing path' m.1 m.2 := by
  have hagain : (y.injectText path' (x.injectText path text).2.output).2 =
      inject x.snippets (inject x.snippets text).output := congrArg (fun s => inject s _) hsame
  have hrepeats : Repeats (x.injectText path text).2 _ := repeats_inject hcode text
  rw [← hagain] at hrepeats
  exact ⟨hrepeats, _, _, hrepeats.names_eq, rfl, rfl⟩

/-- Code with a comment that is no placeholder, an empty line and a fence, and no code at all. -/
def remarkSnippets : Snippets :=
  Dictionary.ofList [(['s'], "<!-- snippet:s -->\n\n ```\n".toList), (['t'], [])]

/-- Two placeholders between and behind two that name no snippet. -/
def remarkTemplate : Text :=
  Text.ofLines (["<!-- snippet:u:c -->\r", "\t <!-- snippet:s:c:title=d -->\r",
    " <!-- snippet:v:c -->"].map String.toList) ++ "<!-- snippet:t:c -->".toList

theorem injectText_finished_remark :
    NoPlaceholders remarkSnippets ∧
    ((Injector.ofSnippets remarkSnippets).injectText ['p'] remarkTemplate).2.injected = 2 ∧
    ((Injector.ofSnippets remarkSnippets).injectText ['p'] remarkTemplate).2.missing =
      [(1, ['u']), (3, ['v'])] ∧
    Repeats ((Injector.ofSnippets remarkSnippets).injectText ['p'] remarkTemplate).2
      ((Injector.ofSnippets remarkSnippets).injectText ['p']
        ((Injector.ofSnippets remarkSnippets).injectText ['p'] remarkTemplate).2.output).2 := by
  have hcode : NoPlaceholders remarkSnippets := by decide +kernel
  have hsame : (Injector.ofSnippets remarkSnippets).snippets = remarkSnippets := rfl
  exact ⟨hcode, by decide +kernel, by decide +kernel,
    (injectText_finished rfl (hsame ▸ hcode) ['p'] ['p'] remarkTemplate).1⟩

end DocTools.Snippet
