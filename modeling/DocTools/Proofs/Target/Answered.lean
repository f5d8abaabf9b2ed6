import DocTools.Proofs.Target.Chosen
import DocTools.Proofs.Text.Lines
import DocTools.Target.Listing

/-! # What a listing says about the build tool

The build tool can fail to start, be stopped, end with any code or end well without naming a target.
The main statement, `list_consistent`: outcome, exit code and both streams tell the same of these, and
the output never holds a part of the names. -/
namespace DocTools.Target
set_option autoImplicit false

open Program
open Text (ofLines)

/-- The build tool has ended with code 0. -/
def Succeeds (result : Except RunError Finished) (f : Finished) : Prop :=
  result = .ok f ∧ f.code = some 0

/-- An outcome is told by its exit code. -/
structure Told (o : Outcome) : Prop where
  zero_iff : o.exitCode = 0 ↔ ∃ names, o = .listed names
  one_iff : o.exitCode = 1 ↔ o = .commandFailed
  two_iff : o.exitCode = 2 ↔ o = .noMatches

theorem Outcome.told (o : Outcome) : Told o := by
  cases o with
  | listed names => exact ⟨⟨fun _ => ⟨names, rfl⟩, fun _ => rfl⟩, ⟨nofun, nofun⟩, ⟨nofun, nofun⟩⟩
  | commandFailed => exact ⟨⟨nofun, nofun⟩, ⟨fun _ => rfl, fun _ => rfl⟩, ⟨nofun, nofun⟩⟩
  | noMatches => exact ⟨⟨nofun, nofun⟩, ⟨nofun, nofun⟩, ⟨fun _ => rfl, fun _ => rfl⟩⟩

/-- The outcome, the exit code and the streams agree with what came of the build tool. -/
structure Consistent (stem : Text) (result : Except RunError Finished) (l : Listing) : Prop where
  listed_iff : ∀ names, l.outcome = .listed names ↔
    ∃ f, Succeeds result f ∧ targets stem f.stdout.lines = names ∧ names ≠ []
  noMatches_iff : l.outcome = .noMatches ↔
    ∃ f, Succeeds result f ∧ targets stem f.stdout.lines = []
  commandFailed_iff : l.outcome = .commandFailed ↔ ¬∃ f, Succeeds result f
  told : Told l.outcome
  /-- The names are in increasing order and are the targets on the lines of the output. -/
  names : ∀ names, l.outcome = .listed names → names.Pairwise (· < ·) ∧
    ∀ f, Succeeds result f → ∀ t, t ∈ names ↔
      ∃ line ∈ f.stdout.lines, ∃ place, Chosen stem line place ∧ NameAt stem line place t
  /-- They are printed, each on a line of its own. -/
  printed : ∀ names, l.outcome = .listed names →
    l.out = ofLines names ∧ (∀ name ∈ names, '\n' ∉ name) ∧ l.err = []
  silent : (∀ names, l.outcome ≠ .listed names) → l.out = [] ∧ l.err ≠ []
  forwarded : ∀ f, result = .ok f → f.code ≠ some 0 → f.stderr <:+ l.err

section
variable {stem : Text} {result : Except RunError Finished} {f g : Finished} {l : Listing}

theorem Succeeds.unique (h : Succeeds result f) (h' : Succeeds result g) : f = g :=
  Except.ok.inj (h.1.symm.trans h'.1)

theorem NameAt.newline_not_mem {line name : Text} {place : Nat} (h : NameAt stem line place name)
    (hline : '\n' ∉ line) : '\n' ∉ name := by
  obtain ⟨front, behind, rfl, -, -⟩ := h
  exact fun hc => hline (List.mem_append_right _ (List.mem_append_left _ hc))

theorem newline_not_mem_targets {text name : Text} (h : name ∈ targets stem text.lines) :
    '\n' ∉ name := by
  obtain ⟨line, hline, _, -, hname⟩ := mem_targets_iff.mp h
  exact hname.newline_not_mem (Text.newline_not_mem_of_mem_lines hline)

/-! ## The three outcomes -/

theorem consistent_of_failed (hnot : ¬∃ f, Succeeds result f) (houtcome : l.outcome = .commandFailed)
    (hout : l.out = []) (herr : l.err ≠ []) (hforwarded : ∀ f, result = .ok f → f.stderr <:+ l.err) :
    Consistent stem result l where
  listed_iff names := by
    rw [houtcome]
    exact ⟨fun hc => (nomatch hc), fun ⟨f, hf, _⟩ => absurd ⟨f, hf⟩ hnot⟩
  noMatches_iff := by
    rw [houtcome]
    exact ⟨fun hc => (nomatch hc), fun ⟨f, hf, _⟩ => absurd ⟨f, hf⟩ hnot⟩
  commandFailed_iff := ⟨fun _ => hnot, fun _ => houtcome⟩
  told := l.outcome.told
  names names h := nomatch houtcome.symm.trans h
  printed names h := nomatch houtcome.symm.trans h
  silent _ := ⟨hout, herr⟩
  forwarded f hf _ := hforwarded f hf

theorem consistent_of_noMatches (h : Succeeds result f) (hnone : targets stem f.stdout.lines = [])
    (houtcome : l.outcome = .noMatches) (hout : l.out = []) (herr : l.err ≠ []) :
    Consistent stem result l where
  listed_iff names := by
    rw [houtcome]
    refine ⟨fun hc => (nomatch hc), fun ⟨g, hg, hnames, hne⟩ => absurd ?_ hne⟩
    rw [← hnames, hg.unique h, hnone]
  noMatches_iff := ⟨fun _ => ⟨f, h, hnone⟩, fun _ => houtcome⟩
  commandFailed_iff := by
    rw [houtcome]
    exact ⟨fun hc => (nomatch hc), fun hnot => absurd ⟨f, h⟩ hnot⟩
  told := l.outcome.told
  names names hc := nomatch houtcome.symm.trans hc
  printed names hc := nomatch houtcome.symm.trans hc
  silent _ := ⟨hout, herr⟩
  forwarded g hg hcode := by
    obtain rfl := Except.ok.inj (h.1.symm.trans hg)
    exact absurd h.2 hcode

theorem consistent_of_listed (h : Succeeds result f) (hne : targets stem f.stdout.lines ≠ [])
    (houtcome : l.outcome = .listed (targets stem f.stdout.lines))
    (hout : l.out = ofLines (targets stem f.stdout.lines)) (herr : l.err = []) :
    Consistent stem result l where
  listed_iff names := by
    rw [houtcome, Outcome.listed.injEq]
    constructor
    · rintro rfl
      exact ⟨f, h, rfl, hne⟩
    · rintro ⟨g, hg, rfl, -⟩
      rw [hg.unique h]
  noMatches_iff := by
    rw [houtcome]
    refine ⟨fun hc => (nomatch hc), fun ⟨g, hg, hnone⟩ => absurd ?_ hne⟩
    rw [← hg.unique h, hnone]
  commandFailed_iff := by
    rw [houtcome]
    exact ⟨fun hc => (nomatch hc), fun hnot => absurd ⟨f, h⟩ hnot⟩
  told := l.outcome.told
  names names hnames := by
    obtain rfl := Outcome.listed.inj (houtcome.symm.trans hnames)
    refine ⟨increasing_targets stem _, fun g hg t => ?_⟩
    rw [hg.unique h]
    exact mem_targets_iff
  printed names hnames := by
    obtain rfl := Outcome.listed.inj (houtcome.symm.trans hnames)
    exact ⟨hout, fun _ => newline_not_mem_targets, herr⟩
  silent hnot := absurd houtcome (hnot _)
  forwarded g hg hcode := by
    obtain rfl := Except.ok.inj (h.1.symm.trans hg)
    exact absurd h.2 hcode

end

/-- Whatever comes of the build tool, the listing that answers it is consistent with it. -/
theorem consistent_answer (stem : Text) (result : Except RunError Finished)
    (calls : List Invocation) (notices : List Notice) :
    Consistent stem result ⟨(answer stem result).1, (answer stem result).2.1,
      (answer stem result).2.2, calls, notices⟩ := by
  cases result with
  | error e =>
    refine consistent_of_failed (fun ⟨f, hf⟩ => nomatch hf.1) rfl rfl ?_ fun f hf => nomatch hf
    exact List.append_ne_nil_of_right_ne_nil _ (List.cons_ne_nil _ _)
  | ok f =>
    by_cases hcode : f.code = some 0
    · have hsucceeds : Succeeds (.ok f) f := ⟨rfl, hcode⟩
      have hsucceeded : f.succeeded = true := beq_iff_eq.mpr hcode
      cases hnames : targets stem f.stdout.lines with
      | nil =>
        simp only [answer, if_pos hsucceeded, hnames]
        refine consistent_of_noMatches hsucceeds hnames rfl rfl ?_
        exact List.append_ne_nil_of_right_ne_nil _ (by decide)
      | cons first rest =>
        simp only [answer, if_pos hsucceeded, hnames]
        have hne : targets stem f.stdout.lines ≠ [] := hnames ▸ List.cons_ne_nil _ _
        exact consistent_of_listed hsucceeds hne (hnames ▸ rfl) (hnames ▸ rfl) rfl
    · have hfailed : ¬f.succeeded = true := fun hc => hcode (beq_iff_eq.mp hc)
      simp only [answer, if_neg hfailed]
      refine consistent_of_failed ?_ rfl rfl ?_ ?_
      · rintro ⟨g, hg, hzero⟩
        exact hcode (Except.ok.inj hg ▸ hzero)
      · exact List.append_ne_nil_of_right_ne_nil _ (List.cons_ne_nil _ _)
      · -- the error output of the build tool comes last, behind the notice of its end
        intro g hg
        obtain rfl := Except.ok.inj hg
        exact (List.suffix_cons _ _).trans (List.suffix_append _ _)

/-- The build tool is asked once, and whatever it answers, the listing is consistent with that answer
and depends on nothing else. -/
theorem list_consistent (run : Runner) (buildDir stem : Text) :
    (list run buildDir stem).calls =
      [⟨"cmake".toList, ["--build".toList, buildDir, "--target".toList, "help".toList]⟩] ∧
    (∀ other : Runner, other (question buildDir) = run (question buildDir) →
      list other buildDir stem = list run buildDir stem) ∧
    Consistent stem (run (question buildDir)) (list run buildDir stem) := by
  refine ⟨rfl, fun other hother => ?_, consistent_answer stem (run (question buildDir)) _ _⟩
  simp only [list, hother]

end DocTools.Target
