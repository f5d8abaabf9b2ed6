import DocTools.Dictionary
import DocTools.Snippet.Fence
import DocTools.Snippet.Placeholder
import DocTools.Text.Lines

/-! # Injecting snippets into a text

Every line of a template is settled by itself. A placeholder gives way to its snippet as a fenced
block; when there is no such snippet it stays and is noted. All other lines stay as they are, their
ends included. -/
namespace DocTools.Snippet
set_option autoImplicit false

inductive Settled where
  | kept
  | missing (name : Text)
  | replaced (block : Text)
  deriving DecidableEq, Repr

/-- The block that shows a piece of code in place of a placeholder. -/
def Placeholder.block (p : Placeholder) (code : Text) : Text :=
  fencedBlock p.indent (infoString p.language p.attributes) code

def settle (snippets : Dictionary Text Text) (line : Text) : Settled :=
  match Placeholder.ofLine? line with
  | none => .kept
  | some p =>
    match snippets.get? p.name with
    | none => .missing p.name
    | some code => .replaced (p.block code)

/-- The new text, the number of placeholders replaced, and the lines and names of those that were
not. -/
structure Injection where
  output : Text
  injected : Nat
  missing : List (Nat × Text)
  deriving DecidableEq, Repr

/-- Settles lines, the first of which has number `line`. -/
def injectRuns (snippets : Dictionary Text Text) : Nat → List Text → Injection
  | _, [] => ⟨[], 0, []⟩
  | line, run :: runs =>
    let rest := injectRuns snippets (line + 1) runs
    match settle snippets run with
    | .kept => { rest with output := run ++ rest.output }
    | .missing name =>
      { rest with output := run ++ rest.output, missing := (line, name) :: rest.missing }
    | .replaced block =>
      { rest with output := block ++ rest.output, injected := rest.injected + 1 }

def inject (snippets : Dictionary Text Text) (text : Text) : Injection :=
  injectRuns snippets 1 text.lineRuns

end DocTools.Snippet
