import DocTools.Xml.Builder

/-! # Content

What stands between the tags of an element: texts, references, comments, instructions and other
elements. Content is read item by item; a count of the elements opened tells when the first of them
is closed. The text of an entity is content of its own. -/
namespace DocTools.Xml
set_option autoImplicit false

/-! ## Ends of lines -/

/-- Puts a character behind a text in reverse. Whatever follows a carriage return turns it into a
newline, and a newline that follows it is left out; one at the end turns into a newline itself. -/
def pushChar (atEnd : Bool) (c : Char) : Text → Text
  | '\r' :: before =>
    if atEnd && c == '\r' then '\n' :: '\n' :: before
    else if c = '\n' then '\n' :: before
    else c :: '\n' :: before
  | before => if atEnd && c == '\r' then '\n' :: before else c :: before

def pushAll : Text → Text → Text
  | before, [] => before
  | before, c :: rest => pushAll (pushChar rest.isEmpty c before) rest

/-- The text with newlines for carriage returns, and one for a carriage return and a newline. -/
def unifyLines (text : Text) : Text := (pushAll [] text).reverse

/-! ## Texts -/

def flush (b : Builder) (gathered : Text) : Builder :=
  if gathered.isEmpty then b else b.addText gathered.reverse

/-- Reads the text of an entity as content: given the offset behind the reference, where the text
stands, and the builder. -/
abbrev Enter := Nat → Cursor → Builder → Scan Builder

/-- Reads a text that holds no tag. Characters given by number, and the one after them, are kept as
they are outside entities. -/
def readText (entities : Entities) (remaining : Nat) (enter : Enter) (text : Text) (offset : Nat)
    (gathered : Text) (asIs : Bool) (b : Builder) : Scan Builder :=
  match text with
  | [] => .ok (flush b gathered)
  | '&' :: after =>
    match _h : Reference.ofText? after with
    | none => .error ⟨.malformedReference, offset⟩
    | some (.char c, rest) =>
      let here := offset + (text.length - rest.length)
      if remaining = deepest then
        readText entities remaining enter rest here (c :: gathered) true b
      else
        readText entities remaining enter rest here (pushChar rest.isEmpty c gathered) asIs b
    | some (.entity name, rest) =>
      let here := offset + (text.length - rest.length)
      match entities.lookup name with
      | none => .error ⟨.unknownEntity name, offset⟩
      | some value =>
        let b := flush b gathered
        match countReference remaining b.references here with
        | .error stop => .error stop
        | .ok used =>
          match enter here value { b with tag := none, references := used } with
          | .error stop => .error stop
          | .ok inner =>
            readText entities remaining enter rest here [] false
              { inner with tag := b.tag, references := countAfter remaining inner.references }
  | c :: rest =>
    readText entities remaining enter rest (offset + 1)
      (if asIs then c :: gathered else pushChar rest.isEmpty c gathered) false b
termination_by text.length
decreasing_by
  · have := Reference.length_of_ofText? _h
    simp; omega
  · have := Reference.length_of_ofText? _h
    simp; omega
  · have := Reference.length_of_ofText? _h
    simp; omega
  · simp

/-! ## Tags -/

inductive TagEnd where
  | opens
  | empty
  /-- The input is over before the tag is. -/
  | cutOff
  deriving DecidableEq, Repr

def readTag (entities : Entities) (remaining : Nat) (c : Cursor) (b : Builder) :
    Scan (TagEnd × Cursor × Builder) :=
  if c.atEnd then .ok (.cutOff, c, b)
  else match c.skipSpace.rest with
    | [] => c.skipSpace.stop .endOfInput
    | '/' :: _ => do return (.empty, ← (c.skipSpace.skip 1).expect '>', ← b.emptyElement)
    | '>' :: _ => do return (.opens, c.skipSpace.skip 1, ← b.openElement)
    | x :: _ =>
      if !c.startsWithSpace then c.skipSpace.stop (.unexpectedChar "a whitespace".toList x)
      else match _h : c.skipSpace.namedValue with
        | .error stop => .error stop
        | .ok (raw, after) => do
          let (value, used) ← valueAt entities remaining raw.value b.references
          let b ← ({ b with references := used }).addAttribute raw.name value raw.offset
          readTag entities remaining after b
termination_by c.rest.length
decreasing_by exact Nat.lt_of_lt_of_le (Cursor.length_of_namedValue _h) (Cursor.length_skipSpace c)

theorem length_of_readTag {entities : Entities} {remaining : Nat} {c after : Cursor}
    {b built : Builder} {tagEnd : TagEnd}
    (h : readTag entities remaining c b = .ok (tagEnd, after, built)) :
    after.rest.length ≤ c.rest.length := by
  fun_induction readTag entities remaining c b with
  | case1 => cases h; exact Nat.le_refl _
  | case2 => cases h
  | case3 c b =>
    obtain ⟨c1, h1, h⟩ := bind_eq_ok.1 h
    obtain ⟨_, _, h⟩ := bind_eq_ok.1 h
    cases h
    have hexpect := Cursor.length_of_expect h1
    have hspace := Cursor.length_skipSpace c
    rw [Cursor.length_skip] at hexpect
    omega
  | case4 c b =>
    obtain ⟨_, _, h⟩ := bind_eq_ok.1 h
    cases h
    have hspace := Cursor.length_skipSpace c
    rw [Cursor.length_skip]
    omega
  | case5 => cases h
  | case6 => cases h
  | case7 c b _ _ _ _ _ _ _ raw rest hvalue ih =>
    obtain ⟨⟨value, used⟩, _, h⟩ := bind_eq_ok.1 h
    obtain ⟨b1, _, h⟩ := bind_eq_ok.1 h
    have hrest := Cursor.length_of_namedValue hvalue
    have hspace := Cursor.length_skipSpace c
    have hafter := ih b1 h
    omega

/-! ## Items -/

/-- What an item of content does to the number of open elements. -/
inductive Depth where
  | same
  | deeper
  | closed
  deriving DecidableEq, Repr

def Depth.level (before : Nat) : Depth → Nat
  | .same => before
  | .deeper => before + 1
  | .closed => before - 1

def readStart (entities : Entities) (remaining : Nat) (c : Cursor) (b : Builder) :
    Scan (Depth × Cursor × Builder) := do
  let (name, after) ← (c.skip 1).qname
  let b ← b.startTag name c.offset
  let (tagEnd, after, b) ← readTag entities remaining after b
  return (if tagEnd = .opens then .deeper else .same, after, b)

def readItem (entities : Entities) (remaining : Nat) (enter : Enter) (c : Cursor) (b : Builder) :
    Scan (Depth × Cursor × Builder) := do
  if c.startsWith "<!--".toList then
    let (text, after) ← c.comment
    return (.same, after, b.addNode (.comment text))
  else if c.startsWith "<![CDATA[".toList then
    let (text, after) ← (c.skip 9).takeBefore "]]>".toList
    let after ← after.expectText "]]>".toList
    return (.same, after, b.addText (unifyLines text))
  else if c.startsWith "<!".toList then c.stop .unknownToken
  else if c.startsWith "<?".toList then
    let (target, after) ← c.instruction
    return (.same, after, b.addNode (.instruction target))
  else if c.startsWith "</".toList then
    let (name, after) ← (c.skip 2).qname
    let after ← after.skipSpace.expect '>'
    return (.closed, after, ← b.closeElement name c.offset)
  else if c.startsWith ['<'] then
    if (c.skip 1).atEnd then c.stop .unknownToken
    else readStart entities remaining c b
  else
    let (text, after) ← c.takeUntil (· == '<')
    if Text.holds "]]>".toList text then after.stop .cdataEndInText
    else return (.same, after, ← readText entities remaining enter text c.offset [] false b)

theorem length_of_readStart {entities : Entities} {remaining : Nat} {c after : Cursor}
    {b built : Builder} {depth : Depth}
    (h : readStart entities remaining c b = .ok (depth, after, built)) :
    after.rest.length < c.rest.length := by
  unfold readStart at h
  obtain ⟨⟨name, c1⟩, h1, h⟩ := bind_eq_ok.1 h
  obtain ⟨b1, _, h⟩ := bind_eq_ok.1 h
  obtain ⟨⟨tagEnd, c2, b2⟩, h2, h⟩ := bind_eq_ok.1 h
  cases h
  have hname := Cursor.length_of_qname h1
  have htag := length_of_readTag h2
  rw [Cursor.length_skip] at hname
  omega

/-- Every item takes something of what is left. -/
theorem length_of_readItem {entities : Entities} {remaining : Nat} {enter : Enter}
    {c after : Cursor} {b built : Builder} {depth : Depth} (hne : c.rest ≠ [])
    (h : readItem entities remaining enter c b = .ok (depth, after, built)) :
    after.rest.length < c.rest.length := by
  have hpos := List.length_pos_iff.2 hne
  unfold readItem at h
  split at h
  · obtain ⟨⟨text, c1⟩, h1, h⟩ := bind_eq_ok.1 h
    cases h
    exact Cursor.length_of_comment h1
  split at h
  · obtain ⟨⟨text, c1⟩, h1, h⟩ := bind_eq_ok.1 h
    obtain ⟨c2, h2, h⟩ := bind_eq_ok.1 h
    cases h
    have hbefore := Cursor.length_of_takeBefore h1
    have htext := Cursor.length_of_expectText h2
    rw [Cursor.length_skip] at hbefore
    omega
  split at h
  · cases h
  split at h
  · obtain ⟨⟨target, c1⟩, h1, h⟩ := bind_eq_ok.1 h
    cases h
    exact Cursor.length_of_instruction h1
  split at h
  · obtain ⟨⟨name, c1⟩, h1, h⟩ := bind_eq_ok.1 h
    obtain ⟨c2, h2, h⟩ := bind_eq_ok.1 h
    obtain ⟨b1, _, h⟩ := bind_eq_ok.1 h
    cases h
    have hname := Cursor.length_of_qname h1
    have hspace := Cursor.length_skipSpace c1
    have hexpect := Cursor.length_of_expect h2
    rw [Cursor.length_skip] at hname
    omega
  split at h
  · split at h
    · cases h
    · exact length_of_readStart h
  · next hopen =>
    obtain ⟨⟨text, c1⟩, h1, h⟩ := bind_eq_ok.1 h
    dsimp only at h
    split at h
    · cases h
    · obtain ⟨b1, _, h⟩ := bind_eq_ok.1 h
      cases h
      have hlen := Cursor.length_of_take h1
      dsimp only at hlen
      have hrun : 0 < (c.rest.takeWhile fun x => !(x == '<')).length := by
        match hrest : c.rest with
        | [] => exact absurd hrest hne
        | x :: rest =>
          have hx : x ≠ '<' := by
            intro hx
            apply hopen
            rw [Cursor.startsWith, hrest, hx]
            rfl
          simp [hx]
      omega

/-- Reads content until one more element has been closed than opened, or to the end; `level` counts
the elements still to be closed. -/
def readContent (entities : Entities) (remaining : Nat) (enter : Enter) (level : Nat) (c : Cursor)
    (b : Builder) : Scan (Cursor × Builder) :=
  if _hend : level = 0 ∨ c.atEnd then .ok (c, b)
  else match _h : readItem entities remaining enter c b with
    | .error stop => .error stop
    | .ok (depth, after, b) =>
      readContent entities remaining enter (depth.level level) after b
termination_by c.rest.length
decreasing_by
  exact length_of_readItem (fun hnil => _hend (.inr (List.isEmpty_iff.2 hnil))) _h

/-- Reads the text of an entity, in which references may nest `remaining` deep. -/
def enterEntity (entities : Entities) : Nat → Enter
  | 0, _, text, b => do
    let (_, b) ← readContent entities 0 (fun here _ _ => .error ⟨.referenceLoop, here⟩) 1 text b
    return b
  | remaining + 1, _, text, b => do
    let (_, b) ←
      readContent entities (remaining + 1) (fun here => enterEntity entities remaining here) 1 text b
    return b

end DocTools.Xml
