import DocTools.Xml.Content

/-! # Documents

A document has an optional declaration, an optional document type that may declare entities, and one
element. Comments and processing instructions may stand between these. -/
namespace DocTools.Xml
set_option autoImplicit false

/-! ## The declaration -/

/-- Space, unless the declaration or the input ends here. -/
def spaceInDeclaration (c : Cursor) : Scan Cursor :=
  if c.startsWithSpace then .ok c.skipSpace
  else match c.rest with
    | [] => .ok c
    | x :: _ =>
      if c.startsWith "?>".toList then .ok c else c.stop (.unexpectedChar "a whitespace".toList x)

def optionalValue (word : Text) (c : Cursor) : Scan Cursor := do
  if c.startsWith word then
    let (_, after) ← c.namedValue
    return after
  else return c

def readDeclaration (c : Cursor) : Scan Cursor := do
  let c ← spaceInDeclaration (c.skip 5)
  if !c.startsWith "version".toList then c.stop (.missingText "version".toList)
  else
    let c ← spaceInDeclaration (← optionalValue "version".toList c)
    let c ←
      if c.startsWith "encoding".toList then
        spaceInDeclaration (← optionalValue "encoding".toList c)
      else pure c
    let c ← optionalValue "standalone".toList c
    c.skipSpace.expectText "?>".toList

/-! ## Between the parts -/

/-- Reads comments and processing instructions, and space before them. -/
def readMisc (c : Cursor) (b : Builder) : Scan (Cursor × Builder) :=
  if c.skipSpace.startsWith "<!--".toList then
    match _h : c.skipSpace.comment with
    | .error stop => .error stop
    | .ok (text, after) => readMisc after (b.addNode (.comment text))
  else if c.skipSpace.startsWith "<?".toList then
    match _h : c.skipSpace.instruction with
    | .error stop => .error stop
    | .ok (target, after) => readMisc after (b.addNode (.instruction target))
  else .ok (c.skipSpace, b)
termination_by c.rest.length
decreasing_by
  · exact Nat.lt_of_lt_of_le (Cursor.length_of_comment _h) (Cursor.length_skipSpace c)
  · exact Nat.lt_of_lt_of_le (Cursor.length_of_instruction _h) (Cursor.length_skipSpace c)

/-! ## The document type -/

def externalId? (c : Cursor) : Scan (Option Cursor) := do
  if c.startsWith "SYSTEM".toList then
    let (_, after) ← (← (c.skip 6).needSpace).quoted
    return some after
  else if c.startsWith "PUBLIC".toList then
    let (_, after) ← (← (c.skip 6).needSpace).quoted
    let (_, after) ← (← after.needSpace).quoted
    return some after
  else return none

/-- What an entity stands for: the cursor of its text, or nothing when it is kept elsewhere. -/
def entityText (general : Bool) (c : Cursor) : Scan (Option Cursor × Cursor) := do
  match c.rest with
  | [] => c.stop .endOfInput
  | x :: _ =>
    if x = '"' ∨ x = '\'' then
      let (text, after) ← c.quoted
      return (some text, after)
    else if x = 'S' ∨ x = 'P' then
      match ← externalId? c with
      | none => c.stop .badExternalId
      | some after =>
        let mark := after.skipSpace
        if !general then return (none, after)
        else if mark.startsWith "NDATA".toList then
          let start ← (mark.skip 5).needSpace
          if start.atEnd then return (none, start)
          else
            let (_, after) ← start.name
            return (none, after)
        else return (none, mark)
    else c.stop (.unexpectedChar "a quote, SYSTEM or PUBLIC".toList x)

/-- Past the percent sign of an entity that is for declarations only. -/
def pastPercent (c : Cursor) : Scan Cursor :=
  if c.startsWith ['%'] then (c.skip 1).needSpace else .ok c

def readEntity (c : Cursor) (entities : Entities) : Scan (Cursor × Entities) := do
  let start ← (c.skip 8).needSpace
  let (name, c) ← (← pastPercent start).name
  let (text, c) ← entityText (!start.startsWith ['%']) (← c.needSpace)
  let c ← c.skipSpace.expect '>'
  return (c, match text with
    | some text => entities ++ [(name, text)]
    | none => entities)

theorem length_of_externalId? {c after : Cursor} (h : externalId? c = .ok (some after)) :
    after.rest.length ≤ c.rest.length := by
  unfold externalId? at h
  split at h
  · obtain ⟨c1, h1, h⟩ := bind_eq_ok.1 h
    obtain ⟨⟨text, c2⟩, h2, h⟩ := bind_eq_ok.1 h
    cases h
    have hspace := Cursor.length_of_needSpace h1
    have hquoted := Cursor.length_of_quoted h2
    rw [Cursor.length_skip] at hspace
    omega
  split at h
  · obtain ⟨c1, h1, h⟩ := bind_eq_ok.1 h
    obtain ⟨⟨text, c2⟩, h2, h⟩ := bind_eq_ok.1 h
    obtain ⟨c3, h3, h⟩ := bind_eq_ok.1 h
    obtain ⟨⟨text', c4⟩, h4, h⟩ := bind_eq_ok.1 h
    cases h
    have hspace := Cursor.length_of_needSpace h1
    have hquoted := Cursor.length_of_quoted h2
    have hspace' := Cursor.length_of_needSpace h3
    have hquoted' := Cursor.length_of_quoted h4
    rw [Cursor.length_skip] at hspace
    omega
  · cases h

theorem length_of_entityText {general : Bool} {c after : Cursor} {text : Option Cursor}
    (h : entityText general c = .ok (text, after)) : after.rest.length ≤ c.rest.length := by
  unfold entityText at h
  split at h
  · cases h
  split at h
  · obtain ⟨⟨value, c1⟩, h1, h⟩ := bind_eq_ok.1 h
    cases h
    exact Nat.le_of_lt (Cursor.length_of_quoted h1)
  split at h
  · obtain ⟨found, h1, h⟩ := bind_eq_ok.1 h
    cases found with
    | none => cases h
    | some c1 =>
      have hid := length_of_externalId? h1
      have hspace := Cursor.length_skipSpace c1
      simp only at h
      split at h
      · cases h
        exact hid
      split at h
      · obtain ⟨c2, h2, h⟩ := bind_eq_ok.1 h
        have hneed := Cursor.length_of_needSpace h2
        rw [Cursor.length_skip] at hneed
        split at h
        · cases h
          omega
        · obtain ⟨⟨name, c3⟩, h3, h⟩ := bind_eq_ok.1 h
          cases h
          have hname := Cursor.length_of_name h3
          dsimp only
          omega
      · cases h
        omega
  · cases h

theorem length_of_readEntity {c after : Cursor} {entities known : Entities}
    (h : readEntity c entities = .ok (after, known)) : after.rest.length < c.rest.length := by
  unfold readEntity at h
  obtain ⟨c1, h1, h⟩ := bind_eq_ok.1 h
  obtain ⟨c2, h2, h⟩ := bind_eq_ok.1 h
  obtain ⟨⟨name, c3⟩, h3, h⟩ := bind_eq_ok.1 h
  obtain ⟨c4, h4, h⟩ := bind_eq_ok.1 h
  obtain ⟨⟨text, c5⟩, h5, h⟩ := bind_eq_ok.1 h
  obtain ⟨c6, h6, h⟩ := bind_eq_ok.1 h
  cases h
  have hspace := Cursor.length_of_needSpace h1
  rw [Cursor.length_skip] at hspace
  have hpercent : c2.rest.length ≤ c1.rest.length := by
    unfold pastPercent at h2
    split at h2
    · have hneed := Cursor.length_of_needSpace h2
      rw [Cursor.length_skip] at hneed
      omega
    · cases h2
      exact Nat.le_refl _
  have hname := Cursor.length_of_name h3
  have hneed := Cursor.length_of_needSpace h4
  have htext := length_of_entityText h5
  have hskip := Cursor.length_skipSpace c5
  have hexpect := Cursor.length_of_expect h6
  omega

def closeDoctype (c : Cursor) : Scan Cursor :=
  let here := (c.skip 1).skipSpace
  match here.rest with
  | [] => here.stop .endOfInput
  | x :: _ => if x = '>' then .ok (here.skip 1) else here.stop (.unexpectedChar "'>'".toList x)

/-- Past the next `>`, or `none`. -/
def pastDeclaration? (c : Cursor) : Option Cursor :=
  (Text.breakAt? '>' c.rest).map fun p => c.skip (p.1.length + 1)

theorem length_of_pastDeclaration? {c after : Cursor} (h : pastDeclaration? c = some after) :
    after.rest.length < c.rest.length := by
  obtain ⟨⟨before, behind⟩, hbreak, rfl⟩ := Option.map_eq_some_iff.1 h
  rw [Cursor.length_skip, (Text.breakAt?_eq_some_iff.1 hbreak).1, List.length_append,
    List.length_cons]
  omega

/-- Reads one declaration, comment or instruction of a document type that starts at an offset. -/
def readDeclared (start : Nat) (c : Cursor) (entities : Entities) (b : Builder) :
    Scan (Cursor × Entities × Builder) := do
  if c.startsWith "<!ENTITY".toList then
    let (after, entities) ← readEntity c entities
    return (after, entities, b)
  else if c.startsWith "<!--".toList then
    let (text, after) ← c.comment
    return (after, entities, b.addNode (.comment text))
  else if c.startsWith "<?".toList then
    let (target, after) ← c.instruction
    return (after, entities, b.addNode (.instruction target))
  else if c.startsWith "<!ELEMENT".toList || c.startsWith "<!ATTLIST".toList ||
      c.startsWith "<!NOTATION".toList then
    match pastDeclaration? c with
    | some after => return (after, entities, b)
    | none => .error ⟨.unknownToken, start⟩
  else c.stop .unknownToken

theorem length_of_readDeclared {start : Nat} {c after : Cursor} {entities known : Entities}
    {b built : Builder} (h : readDeclared start c entities b = .ok (after, known, built)) :
    after.rest.length < c.rest.length := by
  unfold readDeclared at h
  split at h
  · obtain ⟨⟨c1, entities1⟩, h1, h⟩ := bind_eq_ok.1 h
    cases h
    exact length_of_readEntity h1
  split at h
  · obtain ⟨⟨text, c1⟩, h1, h⟩ := bind_eq_ok.1 h
    cases h
    exact Cursor.length_of_comment h1
  split at h
  · obtain ⟨⟨target, c1⟩, h1, h⟩ := bind_eq_ok.1 h
    cases h
    exact Cursor.length_of_instruction h1
  split at h
  · split at h
    · next hpast =>
      cases h
      exact length_of_pastDeclaration? hpast
    · cases h
  · cases h

/-- Reads the declarations between the brackets of a document type that starts at an offset. -/
def readDeclarations (start : Nat) (c : Cursor) (entities : Entities) (b : Builder) :
    Scan (Cursor × Entities × Builder) :=
  if c.atEnd then .ok (c, entities, b)
  else if c.skipSpace.startsWith [']'] then do
    return (← closeDoctype c.skipSpace, entities, b)
  else match _h : readDeclared start c.skipSpace entities b with
    | .error stop => .error stop
    | .ok (after, entities, b) => readDeclarations start after entities b
termination_by c.rest.length
decreasing_by exact Nat.lt_of_lt_of_le (length_of_readDeclared _h) (Cursor.length_skipSpace c)

def readDoctype (c : Cursor) (b : Builder) : Scan (Cursor × Entities × Builder) := do
  let start ← (c.skip 9).needSpace
  let named ← if start.atEnd then pure start else do pure (← start.name).2
  let after := (← externalId? named.skipSpace).getD named.skipSpace
  let after := after.skipSpace
  match after.rest with
  | [] => after.stop .endOfInput
  | '>' :: _ => return (after.skip 1, [], b)
  | '[' :: _ => readDeclarations c.offset (after.skip 1) [] b
  | x :: _ => after.stop (.unexpectedChar "'[' or '>'".toList x)

/-! ## The whole -/

def readElement (entities : Entities) (c : Cursor) (b : Builder) : Scan (Cursor × Builder) := do
  let (depth, after, b) ← readStart entities deepest c b
  if depth = .deeper then
    readContent entities deepest (enterEntity entities (deepest - 1)) 1 after b
  else return (after, b)

def readDocument (c : Cursor) : Scan Builder := do
  let c := if c.startsWith ['\uFEFF'] then c.skip 1 else c
  let c ← if c.startsWith "<?xml ".toList then readDeclaration c else pure c
  let (c, b) ← readMisc c .empty
  let (c, entities, b) ←
    if c.startsWith "<!DOCTYPE".toList then do
      let (c, entities, b) ← readDoctype c b
      let (c, b) ← readMisc c b
      pure (c, entities, b)
    else pure (c, [], b)
  let (c, b) ← if c.startsWith ['<'] then readElement entities c b else pure (c, b)
  let (c, b) ← readMisc c b
  if c.atEnd then return b else c.stop .unknownToken

def parse (text : Text) : Except Error Node :=
  let refuse (fault : Fault) (offset : Nat) : Except Error Node :=
    .error ⟨fault, Position.ofOffset text offset⟩
  match readDocument ⟨text, 0⟩ with
  | .error stop => refuse stop.fault stop.offset
  | .ok b =>
    match b.opened, b.top.reverse.find? Node.isElement with
    | _ :: _, _ => refuse .openRoot text.length
    | [], some root => .ok root
    | [], none => refuse .noRoot text.length

end DocTools.Xml
